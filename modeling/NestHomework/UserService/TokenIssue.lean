import NestHomework.UserService.Authentication

/-! Who gets tokens. `refresh` asks for a session and not whether the account is verified; sessions
of accounts that are not verified do not exist. -/
namespace NestHomework.UserService
open Contracts Redis

/-- The password that the account was last given. -/
def currentPassword (id : UuidString) : List AuthEvent → Option String
  | [] => none
  | .registered id' password::past => if id' = id then some password else currentPassword id past
  | .changedPassword id' password::past => if id' = id then some password else currentPassword id past
  | _::past => currentPassword id past

/-- Since it was registered, the account has consumed an e-mail code, or logged in with its password
of the time. -/
def authenticated (id : UuidString) : List AuthEvent → Bool
  | [] => false
  | .registered id' _::past => id' ≠ id && authenticated id past
  | .acceptedPassword id' password::past =>
    (id' = id && currentPassword id past = some password) || authenticated id past
  | .consumedOtp id'::past => id' = id || authenticated id past
  | _::past => authenticated id past

/-- The tokens of the payload are for an account that is verified and not deleted, with its id and
its role, and the account has proven itself before. -/
def Justified (payload : JwtPayload) (accounts : List AccountRow) (past : List AuthEvent) : Prop :=
  ∃ a ∈ accounts, payload = ⟨a.id.text,a.role⟩ ∧ a.isVerified ∧ a.deletedAt = none ∧
    authenticated a.id past

section Keys
variable {x y : String} {id : UuidString} {key : OtpKey}

theorem sessionKey_inj : sessionKey x = sessionKey y ↔ x = y := by
  rw [sessionKey,sessionKey,← String.toList_inj,String.toList_append,String.toList_append,
    List.append_cancel_left_eq,String.toList_inj]

theorem head?_sessionKey : (sessionKey x).toList.head? = some 'r' := by
  rw [sessionKey,String.toList_append]
  rfl

theorem head?_codeKey : (codeKey id key).toList.head? = some 'o' := by
  rw [toList_codeKey]
  cases key <;> rfl

theorem sessionKey_ne_codeKey : sessionKey x ≠ codeKey id key := by
  intro h
  have hhead := congrArg (fun s => s.toList.head?) h
  simp only [head?_sessionKey,head?_codeKey] at hhead
  exact absurd hhead (by decide)

theorem sessionKey_ne_cooldownKey : sessionKey x ≠ cooldownKey id key := by
  intro h
  have hhead := congrArg (fun s => s.toList.head?) h
  rw [cooldownKey,String.toList_append] at hhead
  simp only [head?_sessionKey,List.head?_append,head?_codeKey] at hhead
  exact absurd hhead (by decide)

end Keys

section Find
variable {accounts : List AccountRow} {p : FindBy} {a : AccountRow}

theorem findBy_some (h : AccountRepository.findBy accounts p = some a) :
    a ∈ accounts ∧ p.holds a :=
  ⟨List.mem_of_find?_eq_some h,List.find?_some h⟩

theorem findBy_id {id : String} (h : AccountRepository.findBy accounts ⟨id,"",""⟩ = some a) :
    a ∈ accounts ∧ a.id.text = id := by
  obtain ⟨hmem,hholds⟩ := findBy_some h
  simp only [FindBy.holds,Bool.or_eq_true,Bool.and_eq_true,decide_eq_true_eq] at hholds
  refine ⟨hmem,?_⟩
  rcases hholds with (⟨-,hid⟩ | ⟨hne,-⟩) | ⟨hne,-⟩
  · exact hid
  · exact absurd rfl hne
  · exact absurd rfl hne

theorem mem_update {id : UuidString} {patch : AccountRow → AccountRow} :
    a ∈ AccountRepository.update accounts id patch ↔
      ∃ b ∈ accounts, (if b.id = id then patch b else b) = a := by
  simp [AccountRepository.update]

theorem map_id_update {id : UuidString} {patch : AccountRow → AccountRow}
    (hpatch : ∀ a, (patch a).id = a.id) :
    (AccountRepository.update accounts id patch).map (·.id) = accounts.map (·.id) := by
  rw [AccountRepository.update,List.map_map]
  refine List.map_congr_left (fun a _ => ?_)
  simp only [Function.comp_apply]
  split
  · exact hpatch a
  · rfl

theorem create_ok {accounts' : List AccountRow} {id : UuidString} {email username password : String}
    (h : AccountRepository.create accounts id email username password = .ok accounts') :
    id ∉ accounts.map (·.id) ∧ accounts' = accounts++[⟨id,username,email,password,.user,false,none⟩] := by
  rw [AccountRepository.create] at h
  split at h
  · contradiction
  · rename_i hfree
    cases h
    simp only [List.any_eq_true,Bool.or_eq_true,decide_eq_true_eq,not_exists,not_and] at hfree
    refine ⟨fun hmem => ?_,rfl⟩
    obtain ⟨a,ha,hid⟩ := List.mem_map.mp hmem
    exact hfree a ha (.inl (.inl hid))

end Find

namespace AuthState
variable {Hash : Type} {c : AuthConfig Hash} {s : AuthState Hash}

/-- What holds after any calls. -/
structure Sound (c : AuthConfig Hash) (s : AuthState Hash) : Prop where
  ids : (s.accounts.map (·.id)).Nodup
  /-- The stored hash is that of the last password. -/
  passwords : ∀ a ∈ s.accounts, ∃ password salt,
    a.password = HashService.hash c password salt ∧ currentPassword a.id s.events = some password
  /-- A session is that of a verified account. -/
  sessions : ∀ id e, s.store (sessionKey id) = some e →
    ∃ a ∈ s.accounts, a.id.text = id ∧ a.isVerified ∧ authenticated a.id s.events
  signed : ∀ payload accounts past, .signed payload accounts::past <:+ s.events →
    Justified payload accounts past

namespace Sound

theorem initial : Sound c (initial : AuthState Hash) := by
  refine ⟨by simp [AuthState.initial],by simp [AuthState.initial],?_,by simp [AuthState.initial]⟩
  intro id e h
  contradiction

/-- A change of Redis that makes no session. -/
theorem withStore (h : Sound c s) {store : Store String (OtpValue Hash)}
    (hsame : ∀ id, store (sessionKey id) = none ∨ store (sessionKey id) = s.store (sessionKey id)) :
    Sound c {s with store := store} where
  ids := h.ids
  passwords := h.passwords
  sessions id e hsession := by
    rcases hsame id with hnone | hkept
    · exact absurd (hnone.symm.trans hsession) (by simp)
    · exact h.sessions id e (hkept.symm.trans hsession)
  signed := h.signed

/-- An account that proves itself. -/
theorem withProof (h : Sound c s) {e : AuthEvent}
    (he : (∃ id password, e = .acceptedPassword id password) ∨ ∃ id, e = .consumedOtp id) :
    Sound c {s with events := e::s.events} := by
  have hpassword : ∀ id, currentPassword id (e::s.events) = currentPassword id s.events := by
    rcases he with ⟨_,_,rfl⟩ | ⟨_,rfl⟩ <;> exact fun _ => rfl
  have hproof : ∀ id, authenticated id s.events → authenticated id (e::s.events) := by
    rcases he with ⟨_,_,rfl⟩ | ⟨_,rfl⟩ <;> intro id hid <;> simp [authenticated,hid]
  refine ⟨h.ids,?_,?_,?_⟩
  · intro a ha
    rw [hpassword]
    exact h.passwords a ha
  · intro id entry hsession
    obtain ⟨a,ha,hid,hverified,hold⟩ := h.sessions id entry hsession
    exact ⟨a,ha,hid,hverified,hproof a.id hold⟩
  · intro payload accounts past hsuffix
    rcases List.suffix_cons_iff.mp hsuffix with heq | hold
    · rcases he with ⟨_,_,rfl⟩ | ⟨_,rfl⟩ <;> cases heq
    · exact h.signed payload accounts past hold

/-- A change of a row that keeps its id, its password and its verification. -/
theorem withPatch (h : Sound c s) (id : UuidString) {patch : AccountRow → AccountRow}
    (hid : ∀ a, (patch a).id = a.id) (hpassword : ∀ a, (patch a).password = a.password)
    (hverified : ∀ a, a.isVerified → (patch a).isVerified) :
    Sound c {s with accounts := AccountRepository.update s.accounts id patch} where
  ids := by
    rw [map_id_update hid]
    exact h.ids
  passwords a ha := by
    obtain ⟨b,hb,rfl⟩ := mem_update.mp ha
    split
    · rw [hid,hpassword]
      exact h.passwords b hb
    · exact h.passwords b hb
  sessions id' e hsession := by
    obtain ⟨a,ha,haid,hver,hproof⟩ := h.sessions id' e hsession
    refine ⟨_,mem_update.mpr ⟨a,ha,rfl⟩,?_⟩
    split
    · rw [hid]
      exact ⟨haid,hverified a hver,hproof⟩
    · exact ⟨haid,hver,hproof⟩
  signed := h.signed

theorem withPassword (h : Sound c s) (id : UuidString) (password : String) (salt : ℕ) :
    Sound c {s with
      accounts := AccountRepository.update s.accounts id
        (fun a => {a with password := HashService.hash c password salt})
      events := .changedPassword id password::s.events} where
  ids := by
    refine Eq.subst (motive := List.Nodup) (map_id_update ?_).symm h.ids
    exact fun _ => rfl
  passwords a ha := by
    obtain ⟨b,hb,rfl⟩ := mem_update.mp ha
    split
    · rename_i hid
      exact ⟨password,salt,rfl,by simp [currentPassword,hid]⟩
    · rename_i hid
      obtain ⟨p,salt',hhash,hcurrent⟩ := h.passwords b hb
      exact ⟨p,salt',hhash,by rw [currentPassword,if_neg (fun heq => hid heq.symm)]; exact hcurrent⟩
  sessions id' e hsession := by
    obtain ⟨a,ha,haid,hver,hproof⟩ := h.sessions id' e hsession
    refine ⟨_,mem_update.mpr ⟨a,ha,rfl⟩,?_⟩
    split <;> exact ⟨haid,hver,hproof⟩
  signed payload accounts past hsuffix := by
    rcases List.suffix_cons_iff.mp hsuffix with heq | hold
    · cases heq
    · exact h.signed payload accounts past hold

theorem withAccount (h : Sound c s) {id : UuidString} (hnew : id ∉ s.accounts.map (·.id))
    (email username password : String) (salt : ℕ) :
    Sound c {s with
      accounts := s.accounts++
        [⟨id,username,email,HashService.hash c password salt,.user,false,none⟩]
      events := .registered id password::s.events} := by
  have hother : ∀ a ∈ s.accounts, id ≠ a.id :=
    fun a ha heq => hnew (heq ▸ List.mem_map_of_mem ha)
  refine ⟨?_,?_,?_,?_⟩
  · rw [List.map_append,List.map_singleton,List.nodup_append]
    refine ⟨h.ids,by simp,fun x hx y hy heq => hnew ?_⟩
    have hy' : y = id := List.mem_singleton.mp hy
    rwa [← hy',← heq]
  · intro a ha
    rcases List.mem_append.mp ha with ha | ha
    · rw [currentPassword,if_neg (hother a ha)]
      exact h.passwords a ha
    · rw [List.mem_singleton.mp ha]
      exact ⟨password,salt,rfl,by simp [currentPassword]⟩
  · intro id' e hsession
    obtain ⟨a,ha,haid,hver,hproof⟩ := h.sessions id' e hsession
    exact ⟨a,List.mem_append_left _ ha,haid,hver,by simp [authenticated,hother a ha,hproof]⟩
  · intro payload accounts past hsuffix
    rcases List.suffix_cons_iff.mp hsuffix with heq | hold
    · cases heq
    · exact h.signed payload accounts past hold

/-- Tokens for an account that is verified, not deleted, and has proven itself. -/
theorem authenticate (h : Sound c s) {a : AccountRow} (ha : a ∈ s.accounts) (hver : a.isVerified)
    (hlive : a.deletedAt = none) (hproof : authenticated a.id s.events) :
    Sound c (AuthService.authenticate c s a.id a.role).2 := by
  have hsigned : Sound c {s with events := .signed ⟨a.id.text,a.role⟩ s.accounts::s.events} := by
    refine ⟨h.ids,h.passwords,h.sessions,fun payload accounts past hsuffix => ?_⟩
    rcases List.suffix_cons_iff.mp hsuffix with heq | hold
    · cases heq
      exact ⟨a,ha,rfl,hver,hlive,hproof⟩
    · exact h.signed payload accounts past hold
  rw [AuthService.authenticate]
  split
  · exact hsigned
  · refine ⟨hsigned.ids,hsigned.passwords,fun id e hsession => ?_,hsigned.signed⟩
    by_cases hid : id = a.id.text
    · exact ⟨a,ha,hid.symm,hver,hproof⟩
    · have hother := s.store.set_of_ne (.text (c.jwtSign ⟨a.id.text,a.role⟩ (s.now/1000)
        (s.now/1000+c.tokens.refreshTtl/1000))) (mt sessionKey_inj.mp hid)
        (some (s.now+c.tokens.refreshTtl))
      exact h.sessions id e (hother.symm.trans hsession)

theorem eq_of_text (h : Sound c s) {a b : AccountRow} (ha : a ∈ s.accounts) (hb : b ∈ s.accounts)
    (htext : a.id.text = b.id.text) : a = b := by
  refine List.inj_on_of_nodup_map h.ids ha hb ?_
  obtain ⟨⟨text,hid⟩,_⟩ := a
  obtain ⟨⟨text',hid'⟩,_⟩ := b
  cases htext
  rfl

/-- The calls of `OtpService` make no session. -/
theorem sendCode (h : Sound c s) (id : UuidString) (key : OtpKey) (code : String) :
    Sound c (AuthService.sendCode c s id key code).2 :=
  h.withStore (fun _ => .inr (generate_frame code sessionKey_ne_codeKey sessionKey_ne_cooldownKey))

theorem register (h : Sound c s) (email username password : String) (id : UuidString) (salt : ℕ)
    (code : String) :
    Sound c (AuthService.register c s email username password id salt code).2 := by
  rw [AuthService.register]
  split
  · exact h
  · split
    · exact h
    · rename_i accounts hcreate
      obtain ⟨hnew,rfl⟩ := create_ok hcreate
      exact (h.withAccount hnew email username password salt).sendCode id .email code

theorem resend (h : Sound c s) (email code : String) :
    Sound c (AuthService.resend c s email code).2 := by
  rw [AuthService.resend]
  split
  · exact h
  · split
    · exact h
    · exact h.sendCode _ .email code

theorem login (h : Sound c s)
    (hargon : ∀ x salt y, c.argonVerify (c.argonHash x salt) y = true → x = y)
    (username password : String) : Sound c (AuthService.login c s username password).2 := by
  rw [AuthService.login]
  split
  · exact h
  · rename_i a hfind
    split_ifs with hbad hwrong
    · exact h
    · exact h
    · obtain ⟨ha,-⟩ := findBy_some hfind
      simp only [Bool.or_eq_true,Bool.not_eq_true',not_or,Bool.not_eq_false,Bool.not_eq_true,
        Option.isSome_eq_false_iff,Option.isNone_iff_eq_none] at hbad hwrong
      obtain ⟨p,salt,hhash,hcurrent⟩ := h.passwords a ha
      rw [HashService.verify,hhash,HashService.hash] at hwrong
      have hpassword : p = password := by
        have happend := hargon _ _ _ hwrong
        rwa [← String.toList_inj,String.toList_append,String.toList_append,
          List.append_cancel_right_eq,String.toList_inj] at happend
      subst hpassword
      exact (h.withProof (.inl ⟨a.id,p,rfl⟩)).authenticate ha hbad.1 hbad.2
        (by simp [authenticated,hcurrent])

theorem refresh (h : Sound c s) (refreshToken : String) :
    Sound c (AuthService.refresh c s refreshToken).2 := by
  rw [AuthService.refresh]
  split
  · exact h
  · rename_i payload _
    split
    · exact h
    · rename_i storedToken hget
      split
      · exact h
      · rename_i hsame
        split
        · exact h
        · rename_i a hfind
          split
          · exact h
          · rename_i hlive
            obtain ⟨ha,hid⟩ := findBy_id hfind
            have hentry : ∃ e, s.store (sessionKey payload.id) = some e := by
              rw [not_not.mp hsame,OtpService.get] at hget
              by_contra hnone
              rw [← Option.ne_none_iff_exists',not_not] at hnone
              rw [Store.lookup,s.store.live_of_none s.now hnone] at hget
              cases hget
            obtain ⟨e,he⟩ := hentry
            obtain ⟨b,hb,hbid,hver,hproof⟩ := h.sessions payload.id e he
            cases h.eq_of_text ha hb (hid.trans hbid.symm)
            exact h.authenticate ha hver (by simpa using hlive) hproof

theorem logout (h : Sound c s) (refreshToken : String) :
    Sound c (AuthService.logout c s refreshToken).2 := by
  rw [AuthService.logout]
  split
  · exact h
  · refine h.withStore (fun id => ?_)
    rw [Store.del]
    split
    · exact .inl rfl
    · exact .inr rfl

theorem changePassword (h : Sound c s) (accountId oldPassword code : String) :
    Sound c (AccountService.changePassword c s accountId oldPassword code).2 := by
  rw [AccountService.changePassword]
  split
  · exact h
  · split
    · exact h
    · exact h.sendCode _ .password code

theorem delete (h : Sound c s) (accountId : String) :
    Sound c (AccountService.delete s accountId).2 := by
  rw [AccountService.delete]
  split
  · exact h
  · exact h.withPatch _ (fun _ => rfl) (fun _ => rfl) (fun _ => id)

variable [DecidableEq Hash]

theorem withVerify (h : Sound c s) (id : UuidString) (key : OtpKey) (code : String) :
    Sound c {s with store := (OtpService.verify c.otp s.store s.now id code key).2} :=
  h.withStore (fun _ => .inr (verify_frame code sessionKey_ne_codeKey sessionKey_ne_cooldownKey))

theorem verify (h : Sound c s) (email code : String) :
    Sound c (AuthService.verify c s email code).2 := by
  rw [AuthService.verify]
  split
  · exact h
  · rename_i a hfind
    split
    · exact h
    · rename_i hbad
      have hstore := h.withVerify a.id .email code
      split
      · rename_i hverify
        rw [hverify] at hstore
        exact hstore
      · rename_i hverify
        rw [hverify] at hstore
        obtain ⟨ha,-⟩ := findBy_some hfind
        simp only [Bool.or_eq_true,not_or,Bool.not_eq_true,Option.isSome_eq_false_iff,
          Option.isNone_iff_eq_none] at hbad
        have hpatched := (hstore.withProof (.inr ⟨a.id,rfl⟩)).withPatch a.id
          (fun (b : AccountRow) => (rfl : ({b with isVerified := true} : AccountRow).id = b.id))
          (fun _ => rfl) (fun _ _ => rfl)
        refine hpatched.authenticate (a := {a with isVerified := true}) ?_ rfl hbad.2
          (by simp [authenticated])
        exact mem_update.mpr ⟨a,ha,if_pos rfl⟩

theorem confirmPassword (h : Sound c s) (accountId code newPassword : String) (salt : ℕ) :
    Sound c (AccountService.confirmPassword c s accountId code newPassword salt).2 := by
  rw [AccountService.confirmPassword]
  split
  · exact h
  · rename_i a _
    have hstore := h.withVerify a.id .password code
    split
    · rename_i hverify
      rw [hverify] at hstore
      exact hstore
    · rename_i hverify
      rw [hverify] at hstore
      exact hstore.withPassword a.id newPassword salt

end Sound

variable [DecidableEq Hash]

theorem Sound.next (h : Sound c s)
    (hargon : ∀ x salt y, c.argonVerify (c.argonHash x salt) y = true → x = y) (step : AuthStep) :
    Sound c (s.next c step) := by
  cases step with
  | wait ms => exact ⟨h.ids,h.passwords,h.sessions,h.signed⟩
  | register email username password id salt code =>
    exact h.register email username password id salt code
  | resend email code => exact h.resend email code
  | verify email code => exact h.verify email code
  | login username password => exact h.login hargon username password
  | refresh refreshToken => exact h.refresh refreshToken
  | logout refreshToken => exact h.logout refreshToken
  | changePassword accountId oldPassword code => exact h.changePassword accountId oldPassword code
  | confirmPassword accountId code newPassword salt =>
    exact h.confirmPassword accountId code newPassword salt
  | delete accountId => exact h.delete accountId

theorem Sound.foldl (h : Sound c s)
    (hargon : ∀ x salt y, c.argonVerify (c.argonHash x salt) y = true → x = y)
    (steps : List AuthStep) : Sound c (steps.foldl (AuthState.next c) s) := by
  induction steps generalizing s with
  | nil => exact h
  | cons step steps ih => exact ih (h.next hargon step)

end AuthState

/-- Sessions belong to verified accounts, and all tokens were signed for accounts that were
verified, not deleted, and had proven themselves. -/
theorem tokens_are_for_verified_accounts {Hash : Type} [DecidableEq Hash] (c : AuthConfig Hash)
    (hargon : ∀ x salt y, c.argonVerify (c.argonHash x salt) y = true → x = y)
    (steps : List AuthStep) :
    let s := AuthState.after c steps
    (∀ id e, s.store (sessionKey id) = some e → ∃ a ∈ s.accounts, a.id.text = id ∧ a.isVerified) ∧
    ∀ payload accounts past, .signed payload accounts::past <:+ s.events →
      Justified payload accounts past := by
  intro s
  have h : s.Sound c := AuthState.Sound.initial.foldl hargon steps
  refine ⟨fun id e hsession => ?_,h.signed⟩
  obtain ⟨a,ha,hid,hver,-⟩ := h.sessions id e hsession
  exact ⟨a,ha,hid,hver⟩

section Example

def someAuth : AuthConfig String where
  otp := someConfig
  tokens := ⟨3600000,604800000⟩
  pepper := "pepper"
  argonHash x _ := "$argon2id$"++x
  argonVerify hash x := hash = "$argon2id$"++x
  jwtSign payload iat exp := payload.id++"."++toString iat++"."++toString exp
  jwtVerify _ token := some ⟨String.ofList (token.toList.take 36),.user⟩

/-- An account is registered, verified, and its session refreshed. -/
def someCalls : List AuthStep :=
  [.register "a@b.c" "anna" "secret" someId 1 "4821",.wait 1000,.verify "a@b.c" "4821",.wait 5000,
    .login "anna" "secret",.refresh (someId.text++".6.604806")]

theorem tokens_are_for_verified_accounts_refreshed :
    let s := AuthState.after someAuth someCalls
    ∃ a ∈ s.accounts, a.id.text = someId.text ∧ a.isVerified :=
  have hargon : ∀ x salt y, someAuth.argonVerify (someAuth.argonHash x salt) y = true → x = y := by
    intro x salt y h
    have hsame : ("$argon2id$"++x).toList = ("$argon2id$"++y).toList :=
      congrArg String.toList (of_decide_eq_true h)
    rw [String.toList_append,String.toList_append,List.append_cancel_left_eq,
      String.toList_inj] at hsame
    exact hsame
  (tokens_are_for_verified_accounts someAuth hargon someCalls).1 someId.text
    ⟨.text (someId.text++".6.604806"),some 604806000⟩ (by decide +kernel)

end Example
end NestHomework.UserService
