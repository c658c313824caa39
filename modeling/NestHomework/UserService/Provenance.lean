import NestHomework.UserService.TokenIssue

/-! Where the codes come from that verify accounts and change passwords. The calls of the account
services make a history of `OtpService`, whose entries tell of it. -/
namespace NestHomework.UserService
open Contracts Redis

section
variable {Hash : Type} (c : AuthConfig Hash) (s : AuthState Hash)

/-- What a call asks of `OtpService`. -/
def otpStep : AuthStep → Option OtpStep
  | .wait ms => some (.wait ms)
  | .register email username password id salt code =>
    match AccountRepository.findBy s.accounts ⟨"",email,username⟩ with
    | some _ => none
    | none =>
      match AccountRepository.create s.accounts id email username
          (HashService.hash c password salt) with
      | .error _ => none
      | .ok _ => some (.call id .email (.generate code))
  | .resend email code =>
    match AccountRepository.findBy s.accounts ⟨"",email,""⟩ with
    | none => none
    | some account =>
      if account.isVerified || account.deletedAt.isSome then none
      else some (.call account.id .email (.generate code))
  | .verify email code =>
    match AccountRepository.findBy s.accounts ⟨"",email,""⟩ with
    | none => none
    | some account =>
      if account.isVerified || account.deletedAt.isSome then none
      else some (.call account.id .email (.verify code))
  | .changePassword accountId oldPassword code =>
    match AccountService.findAndCheckAccount s accountId with
    | .error _ => none
    | .ok account =>
      if !HashService.verify c account.password oldPassword then none
      else some (.call account.id .password (.generate code))
  | .confirmPassword accountId code _ _ =>
    match AccountService.findAndCheckAccount s accountId with
    | .error _ => none
    | .ok account => some (.call account.id .password (.verify code))
  | _ => none

variable [DecidableEq Hash] (past : List PastCall)

/-- The state of `OtpService` after a call. -/
def track (step : AuthStep) : OtpState Hash :=
  match otpStep c s step with
  | none => ⟨s.store,s.now,past⟩
  | some x => OtpState.next c.otp ⟨s.store,s.now,past⟩ x

end

namespace AuthState
variable {Hash : Type} {c : AuthConfig Hash} {s : AuthState Hash}

section Slots
variable {r : Store String (OtpValue Hash)} {id : UuidString} {key : OtpKey} {text : String}

theorem slot_set_session (value : OtpValue Hash) (t : Option ℕ) :
    slot (r.set (sessionKey text) value t) id key = slot r id key := by
  rw [slot,slot,r.set_of_ne _ sessionKey_ne_codeKey.symm,r.set_of_ne _ sessionKey_ne_cooldownKey.symm]

theorem slot_del_session : slot (r.del [sessionKey text]) id key = slot r id key := by
  rw [slot,slot,r.del_of_not_mem (by simp [sessionKey_ne_codeKey.symm]),
    r.del_of_not_mem (by simp [sessionKey_ne_cooldownKey.symm])]

theorem slot_authenticate (id' : UuidString) (role : Role) :
    slot (AuthService.authenticate c s id' role).2.store id key = slot s.store id key := by
  rw [AuthService.authenticate]
  split
  · rfl
  · exact slot_set_session _ _

theorem now_authenticate (id' : UuidString) (role : Role) :
    (AuthService.authenticate c s id' role).2.now = s.now := by
  rw [AuthService.authenticate]
  split <;> rfl

theorem accounts_authenticate (id' : UuidString) (role : Role) :
    (AuthService.authenticate c s id' role).2.accounts = s.accounts := by
  rw [AuthService.authenticate]
  split <;> rfl

end Slots

variable [DecidableEq Hash] {past : List PastCall}

/-- A call does to the codes what its call of `OtpService` does. -/
theorem next_track (past : List PastCall) (step : AuthStep) : (s.next c step).now = (track c s past step).now ∧
    ∀ id key, slot (s.next c step).store id key = slot (track c s past step).store id key := by
  cases step with
  | wait ms => exact ⟨rfl,fun _ _ => rfl⟩
  | register email username password id salt code =>
    cases hfind : AccountRepository.findBy s.accounts ⟨"",email,username⟩ with
    | some a => simp [AuthState.next,AuthService.register,track,otpStep,hfind]
    | none =>
      cases hcreate : AccountRepository.create s.accounts id email username
          (HashService.hash c password salt) with
      | error e => simp [AuthState.next,AuthService.register,track,otpStep,hfind,hcreate]
      | ok accounts =>
        simp only [AuthState.next,AuthService.register,track,otpStep,hfind,hcreate]
        exact ⟨rfl,fun _ _ => rfl⟩
  | resend email code =>
    cases hfind : AccountRepository.findBy s.accounts ⟨"",email,""⟩ with
    | none => simp [AuthState.next,AuthService.resend,track,otpStep,hfind]
    | some a =>
      simp only [AuthState.next,AuthService.resend,track,otpStep,hfind]
      by_cases hclosed : (a.isVerified || a.deletedAt.isSome) = true
      · simp only [if_pos hclosed]
        exact ⟨trivial,fun _ _ => trivial⟩
      · simp only [if_neg hclosed]
        exact ⟨rfl,fun _ _ => rfl⟩
  | verify email code =>
    cases hfind : AccountRepository.findBy s.accounts ⟨"",email,""⟩ with
    | none => simp [AuthState.next,AuthService.verify,track,otpStep,hfind]
    | some a =>
      simp only [AuthState.next,AuthService.verify,track,otpStep,hfind]
      by_cases hclosed : (a.isVerified || a.deletedAt.isSome) = true
      · simp only [if_pos hclosed]
        exact ⟨trivial,fun _ _ => trivial⟩
      · simp only [if_neg hclosed,OtpState.next,OtpState.serve]
        split
        next hverify =>
          rw [hverify]
          exact ⟨rfl,fun _ _ => rfl⟩
        next hverify =>
          rw [hverify]
          exact ⟨now_authenticate ..,fun _ _ => slot_authenticate ..⟩
  | login username password =>
    simp only [AuthState.next,AuthService.login,track,otpStep]
    split
    · exact ⟨rfl,fun _ _ => rfl⟩
    · split_ifs
      · exact ⟨rfl,fun _ _ => rfl⟩
      · exact ⟨rfl,fun _ _ => rfl⟩
      · exact ⟨now_authenticate ..,fun _ _ => slot_authenticate ..⟩
  | refresh refreshToken =>
    simp only [AuthState.next,AuthService.refresh,track,otpStep]
    split
    · exact ⟨rfl,fun _ _ => rfl⟩
    · split
      · exact ⟨rfl,fun _ _ => rfl⟩
      · split
        · exact ⟨rfl,fun _ _ => rfl⟩
        · split
          · exact ⟨rfl,fun _ _ => rfl⟩
          · split
            · exact ⟨rfl,fun _ _ => rfl⟩
            · exact ⟨now_authenticate ..,fun _ _ => slot_authenticate ..⟩
  | logout refreshToken =>
    simp only [AuthState.next,AuthService.logout,track,otpStep]
    split
    · exact ⟨rfl,fun _ _ => rfl⟩
    · exact ⟨rfl,fun _ _ => slot_del_session⟩
  | changePassword accountId oldPassword code =>
    cases hfind : AccountService.findAndCheckAccount s accountId with
    | error e => simp [AuthState.next,AccountService.changePassword,track,otpStep,hfind]
    | ok a =>
      simp only [AuthState.next,AccountService.changePassword,track,otpStep,hfind]
      by_cases hwrong : (!HashService.verify c a.password oldPassword) = true
      · simp only [if_pos hwrong]
        exact ⟨trivial,fun _ _ => trivial⟩
      · simp only [if_neg hwrong]
        exact ⟨rfl,fun _ _ => rfl⟩
  | confirmPassword accountId code newPassword salt =>
    cases hfind : AccountService.findAndCheckAccount s accountId with
    | error e => simp [AuthState.next,AccountService.confirmPassword,track,otpStep,hfind]
    | ok a =>
      simp only [AuthState.next,AccountService.confirmPassword,track,otpStep,hfind,OtpState.next,
        OtpState.serve]
      split
      next hverify =>
        rw [hverify]
        exact ⟨rfl,fun _ _ => rfl⟩
      next hverify =>
        rw [hverify]
        exact ⟨rfl,fun _ _ => rfl⟩
  | delete accountId =>
    simp only [AuthState.next,AccountService.delete,track,otpStep]
    split <;> exact ⟨rfl,fun _ _ => rfl⟩

/-- The calls of `OtpService` after the others, the newest first. -/
def historyFrom (c : AuthConfig Hash) : AuthState Hash → List PastCall → List AuthStep →
    List PastCall
  | _, past, [] => past
  | s, past, step::steps => historyFrom c (s.next c step) (track c s past step).past steps

def history (c : AuthConfig Hash) (steps : List AuthStep) : List PastCall :=
  historyFrom c .initial [] steps

theorem after_snoc (steps : List AuthStep) (step : AuthStep) :
    after c (steps++[step]) = (after c steps).next c step := List.foldl_append ..

theorem history_snoc (steps : List AuthStep) (step : AuthStep) :
    history c (steps++[step]) = (track c (after c steps) (history c steps) step).past := by
  suffices h : ∀ (steps : List AuthStep) (s : AuthState Hash) (past : List PastCall),
      historyFrom c s past (steps++[step]) =
        (track c (steps.foldl (next c) s) (historyFrom c s past steps) step).past from h steps _ _
  intro steps
  induction steps with
  | nil => exact fun s past => rfl
  | cons x steps ih => exact fun s past => ih _ _

/-- The entries of the codes tell the history. -/
theorem tracked_history (c : AuthConfig Hash) (steps : List AuthStep) : OtpState.Tracked c.otp
    ⟨(after c steps).store,(after c steps).now,history c steps⟩ := by
  induction steps using List.reverseRecOn with
  | nil => exact fun _ _ => .nothing rfl
  | append_singleton steps step ih =>
    have htrack : OtpState.Tracked c.otp (track c (after c steps) (history c steps) step) := by
      unfold track
      split
      · exact ih
      · exact ih.next _
    obtain ⟨hnow,hslot⟩ := next_track (c := c) (s := after c steps) (history c steps) step
    intro id key
    rw [after_snoc,history_snoc,hnow,hslot]
    exact htrack id key

section Accounts
variable {step : AuthStep} {id : UuidString} {code : String} {a b : AccountRow}

/-- The call of `OtpService` that a step makes succeeds. -/
def Succeeds (c : AuthConfig Hash) (s : AuthState Hash) (step : AuthStep) (id : UuidString)
    (key : OtpKey) (request : OtpRequest) : Prop :=
  otpStep c s step = some (.call id key request) ∧
    ((⟨s.store,s.now,[]⟩ : OtpState Hash).serve c.otp id key request).1.isOk

omit [DecidableEq Hash] in
theorem findAndCheckAccount_ok {accountId : String}
    (h : AccountService.findAndCheckAccount s accountId = .ok a) :
    a ∈ s.accounts ∧ a.id.text = accountId ∧ a.deletedAt = none := by
  rw [AccountService.findAndCheckAccount] at h
  split at h
  · contradiction
  next hfind =>
    split at h
    · contradiction
    next hlive =>
      cases h
      obtain ⟨hin,htext⟩ := findBy_id hfind
      exact ⟨hin,htext,by simpa using hlive⟩

/-- What a step does to the rows. Only a code verifies an account or changes a password. -/
inductive Turn (c : AuthConfig Hash) (s : AuthState Hash) (step : AuthStep) :
    List AccountRow → Prop
  | same : Turn c s step s.accounts
  | insert {row} (new : row.id ∉ s.accounts.map (·.id)) (unverified : row.isVerified = false) :
      Turn c s step (s.accounts++[row])
  | update {id patch} (keeps : ∀ a : AccountRow, (patch a).id = a.id ∧ (patch a).email = a.email)
      (verified : (∀ a : AccountRow, (patch a).isVerified = a.isVerified) ∨ ∃ a ∈ s.accounts,
        ∃ code, a.id = id ∧ step = .verify a.email code ∧ Succeeds c s step id .email (.verify code))
      (password : (∀ a : AccountRow, (patch a).password = a.password) ∨
        ∃ code, Succeeds c s step id .password (.verify code)) :
      Turn c s step (AccountRepository.update s.accounts id patch)

omit [DecidableEq Hash] in
theorem findBy_email {email : String} (h : AccountRepository.findBy s.accounts ⟨"",email,""⟩ = some a) :
    a ∈ s.accounts ∧ a.email = email := by
  obtain ⟨hin,hholds⟩ := findBy_some h
  simp only [FindBy.holds,Bool.or_eq_true,Bool.and_eq_true,decide_eq_true_eq] at hholds
  refine ⟨hin,?_⟩
  obtain (⟨hne,-⟩ | ⟨-,hemail⟩) | ⟨hne,-⟩ := hholds
  · exact absurd rfl hne
  · exact hemail
  · exact absurd rfl hne

theorem turn_next (step : AuthStep) : Turn c s step (s.next c step).accounts := by
  cases step with
  | wait => exact .same
  | register email username password id salt code =>
    simp only [AuthState.next,AuthService.register]
    split
    · exact .same
    · split
      · exact .same
      next accounts hcreate =>
        obtain ⟨hnew,rfl⟩ := create_ok hcreate
        exact .insert hnew rfl
  | resend email code =>
    simp only [AuthState.next,AuthService.resend]
    split
    · exact .same
    · split <;> exact .same
  | verify email code =>
    simp only [AuthState.next,AuthService.verify]
    split
    · exact .same
    next a hfind =>
      split
      · exact .same
      next hopen =>
        split
        · exact .same
        next hverify =>
          rw [accounts_authenticate]
          obtain ⟨hin,rfl⟩ := findBy_email hfind
          refine .update (fun _ => ⟨rfl,rfl⟩) (.inr ⟨a,hin,code,rfl,rfl,?_,?_⟩) (.inl fun _ => rfl)
          · simp only [otpStep,hfind,if_neg hopen]
          · simp only [OtpState.serve,hverify]
            rfl
  | login username password =>
    simp only [AuthState.next,AuthService.login]
    split
    · exact .same
    · split_ifs
      · exact .same
      · exact .same
      · rw [accounts_authenticate]
        exact .same
  | refresh refreshToken =>
    simp only [AuthState.next,AuthService.refresh]
    split
    · exact .same
    · split
      · exact .same
      · split
        · exact .same
        · split
          · exact .same
          · split
            · exact .same
            · rw [accounts_authenticate]
              exact .same
  | logout refreshToken =>
    simp only [AuthState.next,AuthService.logout]
    split <;> exact .same
  | changePassword accountId oldPassword code =>
    simp only [AuthState.next,AccountService.changePassword]
    split
    · exact .same
    · split <;> exact .same
  | confirmPassword accountId code newPassword salt =>
    simp only [AuthState.next,AccountService.confirmPassword]
    split
    · exact .same
    next a hfind =>
      split
      · exact .same
      next hverify =>
        refine .update (fun _ => ⟨rfl,rfl⟩) (.inl fun _ => rfl) (.inr ⟨code,?_,?_⟩)
        · simp only [otpStep,hfind]
        · simp only [OtpState.serve,hverify]
          rfl
  | delete accountId =>
    simp only [AuthState.next,AccountService.delete]
    split
    · exact .same
    · exact .update (fun _ => ⟨rfl,rfl⟩) (.inl fun _ => rfl) (.inl fun _ => rfl)

/-- A row stays with its id and its address, and a password changes with a code only. -/
theorem row_next (step : AuthStep) (hb : b ∈ s.accounts) : ∃ b' ∈ (s.next c step).accounts,
    b'.id = b.id ∧ b'.email = b.email ∧ (b'.password = b.password ∨
      ∃ code, Succeeds c s step b.id .password (.verify code)) := by
  generalize hnext : (s.next c step).accounts = accounts
  cases hnext ▸ turn_next (c := c) (s := s) step with
  | same => exact ⟨b,hb,rfl,rfl,.inl rfl⟩
  | insert => exact ⟨b,List.mem_append_left _ hb,rfl,rfl,.inl rfl⟩
  | update keeps verified password =>
    refine ⟨_,mem_update.mpr ⟨b,hb,rfl⟩,?_⟩
    split
    next hid =>
      refine ⟨(keeps b).1,(keeps b).2,password.imp (fun h => h b) fun h => ?_⟩
      rwa [hid]
    next => exact ⟨rfl,rfl,.inl rfl⟩

theorem nodup_after (c : AuthConfig Hash) (steps : List AuthStep) :
    ((after c steps).accounts.map (·.id)).Nodup := by
  induction steps using List.reverseRecOn with
  | nil => exact List.nodup_nil
  | append_singleton steps step ih =>
    rw [after_snoc]
    generalize hnext : ((after c steps).next c step).accounts = accounts
    cases hnext ▸ turn_next (c := c) (s := after c steps) step with
    | same => exact ih
    | insert new => simpa [List.nodup_append,ih] using new
    | update keeps =>
      rw [map_id_update fun a => (keeps a).1]
      exact ih

/-- An account that is verified was so before, or the step consumes a code of its address. -/
theorem verified_next (hids : (s.accounts.map (·.id)).Nodup) (step : AuthStep)
    (hb : b ∈ (s.next c step).accounts) (hverified : b.isVerified) :
    (∃ a ∈ s.accounts, a.id = b.id ∧ a.email = b.email ∧ a.isVerified) ∨
      ∃ code, step = .verify b.email code ∧ Succeeds c s step b.id .email (.verify code) := by
  generalize hnext : (s.next c step).accounts = accounts at hb
  cases hnext ▸ turn_next (c := c) (s := s) step with
  | same => exact .inl ⟨b,hb,rfl,rfl,hverified⟩
  | insert new unverified =>
    obtain hb | hb := List.mem_append.mp hb
    · exact .inl ⟨b,hb,rfl,rfl,hverified⟩
    · rw [List.mem_singleton.mp hb,unverified] at hverified
      contradiction
  | @update id patch keeps verified =>
    obtain ⟨a,ha,rfl⟩ := mem_update.mp hb
    split at hverified
    next hid =>
      rw [if_pos hid,(keeps a).1,(keeps a).2]
      obtain hkeep | ⟨a',ha',code,hid',hstep,hsucceeds⟩ := verified
      · rw [hkeep] at hverified
        exact .inl ⟨a,ha,rfl,rfl,hverified⟩
      · obtain rfl := List.inj_on_of_nodup_map hids ha ha' (hid.trans hid'.symm)
        exact .inr ⟨code,hstep,hid ▸ hsucceeds⟩
    next hid =>
      rw [if_neg hid]
      exact .inl ⟨a,ha,rfl,rfl,hverified⟩

end Accounts

section Origin
variable {steps : List AuthStep} {id : UuidString} {key : OtpKey} {g : Issue} {code : String}

/-- A code that is accepted is the last one, not too old and not used before. -/
theorem accepted_of_tracks {o : OtpConfig Hash} {now : ℕ}
    {r : Store String (OtpValue Hash)} (h : Tracks o now past (slot r id key))
    (hok : (OtpService.verify o r now id code key).1.isOk) : ∃ g, newest past = some g ∧
      now < g.time+1000*o.codeTtl ∧ ¬g.consumed ∧ g.attempts < o.attemptsCount ∧
      o.genOtpHash g.code = o.genOtpHash code := by
  have hmiss : r.live now (codeKey id key) ≠ none := by
    intro hlive
    rw [verify_of_none hlive] at hok
    contradiction
  generalize hs : slot r id key = sl at h
  have hentry : r (codeKey id key) = sl.code := congrArg OtpSlot.code hs
  have hcool : r (cooldownKey id key) = sl.cooldown := congrArg OtpSlot.cooldown hs
  cases h with
  | nothing last => exact absurd (r.live_of_none now hentry) hmiss
  | exhausted last unused beyond => exact absurd (r.live_of_none now hentry) hmiss
  | consumed last used => exact absurd (r.live_of_none now hentry) hmiss
  | @stored g attempts last unused within counted =>
    by_cases ht : now < g.time+1000*o.codeTtl
    · cases counted ht
      obtain ⟨hfew,hhash⟩ := (Tracks.verify_live last unused within hentry hcool ht code rfl).1.mp hok
      exact ⟨g,last,ht,unused,hfew,hhash⟩
    · exact absurd (by rw [r.live_of_some now _ hentry,if_neg ht]) hmiss

/-- The last code of an account was sent in a step before. As long as it is not used, the password
is the one of then. -/
theorem exists_origin (h : newest (ofPair id key (history c steps)) = some g) : ∃ pre step post,
    steps = pre++step::post ∧ Succeeds c (after c pre) step id key (.generate g.code) ∧
    g.time = (after c pre).now ∧ (key = .password → ¬g.consumed → ∀ a ∈ (after c pre).accounts,
      a.id = id → ∃ b ∈ (after c steps).accounts, b.id = id ∧ b.password = a.password) := by
  induction steps using List.reverseRecOn generalizing g with
  | nil => contradiction
  | append_singleton steps step ih =>
    -- an older code keeps its origin, unless the step uses it
    have hold : ∀ g', newest (ofPair id key (history c steps)) = some g' → g'.code = g.code →
        g'.time = g.time → (key = .password → ¬g.consumed → ¬g'.consumed ∧
          ∀ code, ¬Succeeds c (after c steps) step id .password (.verify code)) →
        ∃ pre step' post, steps++[step] = pre++step'::post ∧
          Succeeds c (after c pre) step' id key (.generate g.code) ∧ g.time = (after c pre).now ∧
          (key = .password → ¬g.consumed → ∀ a ∈ (after c pre).accounts, a.id = id →
            ∃ b ∈ (after c (steps++[step])).accounts, b.id = id ∧ b.password = a.password) := by
      intro g' hg' hcode htime hunused
      obtain ⟨pre,step',post,hsplit,hsucceeds,htime',hpassword⟩ := ih hg'
      refine ⟨pre,step',post++[step],by rw [hsplit]; simp,hcode ▸ hsucceeds,htime ▸ htime',?_⟩
      intro hkey hg a ha hid
      obtain ⟨hg'',hno⟩ := hunused hkey hg
      obtain ⟨b,hb,hbid,hbpassword⟩ := hpassword hkey hg'' a ha hid
      obtain ⟨b',hb',hid',-,hkept | ⟨code,hchanged⟩⟩ := row_next (c := c) step hb
      · exact ⟨b',by rwa [after_snoc],hid'.trans hbid,hkept.trans hbpassword⟩
      · exact absurd (hbid ▸ hchanged) (hno code)
    rw [history_snoc,track] at h
    cases hstep : otpStep c (after c steps) step with
    | none =>
      rw [hstep] at h
      exact hold g h rfl rfl fun _ hg => ⟨hg,fun code hs => by rw [hs.1] at hstep; cases hstep⟩
    | some x =>
      rw [hstep] at h
      cases x with
      | wait ms =>
        exact hold g h rfl rfl fun _ hg => ⟨hg,fun code hs => by rw [hs.1] at hstep; cases hstep⟩
      | call id' key' request =>
        simp only [OtpState.next,ofPair,List.filter_cons] at h
        by_cases hpair : id' = id ∧ key' = key
        · obtain ⟨rfl,rfl⟩ := hpair
          simp only [decide_true,Bool.and_self,if_true] at h
          -- a code that is sent is the last one; any other call comes after the last one
          have hsince : ∀ p : PastCall, p.isVerify ∨ p.succeeded = false →
              newest (p::ofPair id' key' (history c steps)) = some g →
              ∃ g', newest (ofPair id' key' (history c steps)) = some g' ∧
                g = {g' with since := p::g'.since} := by
            intro p hp hg
            rw [newest_cons hp] at hg
            obtain ⟨g',hg',heq⟩ := Option.map_eq_some_iff.mp hg
            exact ⟨g',hg',heq.symm⟩
          cases request with
          | generate code =>
            cases hok : ((⟨(after c steps).store,(after c steps).now,history c steps⟩ :
                OtpState Hash).serve c.otp id' key' (.generate code)).1.isOk with
            | true =>
              rw [hok] at h
              cases h
              refine ⟨steps,step,[],rfl,⟨hstep,hok⟩,rfl,fun _ _ a ha hid => ?_⟩
              obtain ⟨b,hb,hbid,-,hkept | ⟨code,hchanged⟩⟩ := row_next (c := c) step ha
              · exact ⟨b,by rwa [after_snoc],hbid.trans hid,hkept⟩
              · rw [hchanged.1] at hstep
                cases hstep
            | false =>
              rw [hok] at h
              obtain ⟨g',hg',rfl⟩ := hsince _ (.inr rfl) h
              refine hold g' hg' rfl rfl fun _ hg => ⟨?_,fun code hs => ?_⟩
              · rw [consumed_cons] at hg
                simpa using hg
              · rw [hs.1] at hstep
                cases hstep
          | verify code =>
            obtain ⟨g',hg',rfl⟩ := hsince _ (.inl rfl) h
            refine hold g' hg' rfl rfl fun hkey hg => ?_
            rw [consumed_cons,Bool.or_eq_true,not_or] at hg
            refine ⟨hg.2,fun code' hs => ?_⟩
            obtain ⟨hstep',hok⟩ := hs
            rw [hstep'] at hstep
            cases hstep
            exact hg.1 hok
        · rw [if_neg (by simpa using hpair)] at h
          refine hold g h rfl rfl fun hkey hg => ⟨hg,fun code hs => ?_⟩
          rw [hs.1] at hstep
          cases hstep
          exact hpair ⟨rfl,hkey.symm⟩

omit [DecidableEq Hash] in
/-- Codes for a new password are sent to who knows the old one. -/
theorem changePassword_of_otpStep {step : AuthStep}
    (h : otpStep c s step = some (.call id .password (.generate code))) :
    ∃ oldPassword, step = .changePassword id.text oldPassword code ∧ ∃ a ∈ s.accounts, a.id = id ∧
      a.deletedAt = none ∧ HashService.verify c a.password oldPassword := by
  cases step with
  | changePassword accountId oldPassword code' =>
    simp only [otpStep] at h
    split at h
    · contradiction
    next a hfind =>
      split at h
      · contradiction
      next hpassword =>
        cases h
        obtain ⟨hin,rfl,hlive⟩ := findAndCheckAccount_ok hfind
        exact ⟨oldPassword,rfl,a,hin,rfl,hlive,by simpa using hpassword⟩
  | register | resend | verify | confirmPassword =>
    simp only [otpStep] at h
    split at h <;> try split at h
    all_goals first | contradiction | cases h
  | wait => cases h
  | login | refresh | logout | delete => contradiction

/-- A password is changed by who has given the password that the account still has, and has the code
that this call sent, in time. -/
theorem password_changes_are_authorized {accountId newPassword : String} {salt : ℕ}
    {answer : AuthAnswer}
    (h : (AccountService.confirmPassword c (after c steps) accountId code newPassword salt).1 =
      .ok answer) :
    ∃ pre oldPassword code' post, steps = pre++.changePassword accountId oldPassword code'::post ∧
      c.otp.genOtpHash code' = c.otp.genOtpHash code ∧
      (after c steps).now < (after c pre).now+1000*c.otp.codeTtl ∧
      ∃ a ∈ (after c pre).accounts, a.id.text = accountId ∧ a.deletedAt = none ∧
        HashService.verify c a.password oldPassword ∧
        Succeeds c (after c pre) (.changePassword accountId oldPassword code') a.id .password
          (.generate code') ∧
        ∃ b ∈ (after c steps).accounts, b.id = a.id ∧ b.password = a.password := by
  rw [AccountService.confirmPassword] at h
  split at h
  · contradiction
  next account hfind =>
    obtain ⟨-,rfl,-⟩ := findAndCheckAccount_ok hfind
    split at h
    · contradiction
    next hverify =>
      obtain ⟨g,hg,ht,hunused,-,hhash⟩ :=
        accepted_of_tracks (tracked_history c steps account.id .password)
          (show (OtpService.verify c.otp _ _ _ code _).1.isOk by rw [hverify]; rfl)
      obtain ⟨pre,step,post,hsplit,hsends,htime,hpassword⟩ := exists_origin hg
      obtain ⟨oldPassword,rfl,a,ha,hid,hlive,hverified⟩ := changePassword_of_otpStep hsends.1
      obtain ⟨b,hb,hbid,hsame⟩ := hpassword rfl hunused a ha hid
      exact ⟨pre,oldPassword,g.code,post,hsplit,hhash,htime ▸ ht,a,ha,by rw [hid],hlive,hverified,
        by rwa [hid],b,hb,hbid.trans hid.symm,hsame⟩

/-- A new password is asked for and confirmed two seconds later. -/
def passwordCalls : List AuthStep :=
  [.register "a@b.c" "anna" "secret" someId 1 "4821",.wait 1000,.verify "a@b.c" "4821",
    .changePassword someId.text "secret" "7305",.wait 2000]

theorem password_changes_are_authorized_confirmed : ∃ pre oldPassword code post,
    passwordCalls = pre++.changePassword someId.text oldPassword code::post ∧
    someAuth.otp.genOtpHash code = someAuth.otp.genOtpHash "7305" ∧
    ∃ id, Succeeds someAuth (after someAuth pre) (.changePassword someId.text oldPassword code) id
      .password (.generate code) := by
  have hok : (AccountService.confirmPassword someAuth (after someAuth passwordCalls) someId.text
      "7305" "hidden" 2).1 = .ok (.message "Пароль изменен") := by decide +kernel
  obtain ⟨pre,oldPassword,code,post,hsplit,hhash,-,a,-,-,-,-,hsends,-⟩ :=
    password_changes_are_authorized hok
  exact ⟨pre,oldPassword,code,post,hsplit,hhash,a.id,hsends⟩

/-- The address and the code that a call puts into the queue of the mails when it succeeds. -/
def mailed : AuthStep → Option (String × String)
  | .register email _ _ _ _ code => some (email,code)
  | .resend email code => some (email,code)
  | _ => none

/-- Codes for an address are sent there. -/
theorem mailed_of_otpStep {step : AuthStep}
    (h : otpStep c s step = some (.call id .email (.generate code))) :
    ∃ b ∈ (s.next c step).accounts, b.id = id ∧ mailed step = some (b.email,code) := by
  cases step with
  | register email username password id' salt code' =>
    simp only [otpStep] at h
    split at h
    · contradiction
    next hfind =>
      split at h
      · contradiction
      next accounts hcreate =>
        cases h
        have hnew := (create_ok hcreate).2
        simp only [AuthState.next,AuthService.register,hfind,hcreate]
        exact ⟨_,hnew ▸ List.mem_append_right _ (List.mem_singleton.mpr rfl),rfl,rfl⟩
  | resend email code' =>
    simp only [otpStep] at h
    split at h
    · contradiction
    next a hfind =>
      split at h
      · contradiction
      · cases h
        obtain ⟨hin,rfl⟩ := findBy_email hfind
        obtain ⟨b,hb,hid,hemail,-⟩ := row_next (c := c) (.resend a.email code) hin
        exact ⟨b,hb,hid,by rw [hemail]; rfl⟩
  | verify | changePassword | confirmPassword =>
    simp only [otpStep] at h
    split at h <;> try split at h
    all_goals first | contradiction | cases h
  | wait => cases h
  | login | refresh | logout | delete => contradiction

theorem row_after (hb : b ∈ (after c steps).accounts) (post : List AuthStep) :
    ∃ b' ∈ (after c (steps++post)).accounts, b'.id = b.id ∧ b'.email = b.email := by
  induction post using List.reverseRecOn with
  | nil => exact ⟨b,by rwa [List.append_nil],rfl,rfl⟩
  | append_singleton post step ih =>
    obtain ⟨b',hb',hid,hemail⟩ := ih
    obtain ⟨b'',hb'',hid',hemail',-⟩ := row_next (c := c) step hb'
    rw [← List.append_assoc,after_snoc]
    exact ⟨b'',hb'',hid'.trans hid,hemail'.trans hemail⟩

theorem exists_verify (ha : a ∈ (after c steps).accounts) (hverified : a.isVerified) :
    ∃ pre code post, steps = pre++.verify a.email code::post ∧
      Succeeds c (after c pre) (.verify a.email code) a.id .email (.verify code) := by
  induction steps using List.reverseRecOn generalizing a with
  | nil => contradiction
  | append_singleton steps step ih =>
    rw [after_snoc] at ha
    rcases verified_next (nodup_after c steps) step ha hverified with
      ⟨b,hb,hid,hemail,hverified⟩ | ⟨code,rfl,hsucceeds⟩
    · obtain ⟨pre,code,post,hsplit,hsucceeds⟩ := ih hb hverified
      rw [hid,hemail] at hsucceeds
      exact ⟨pre,code,post++[step],by rw [hsplit,hemail]; simp,hsucceeds⟩
    · exact ⟨steps,code,[],rfl,hsucceeds⟩

/-- An account is verified by who has shown a code that was mailed to its address, in time. -/
theorem verified_accounts_have_shown_a_code (ha : a ∈ (after c steps).accounts)
    (hverified : a.isVerified) : ∃ pre step mid code code' post,
      steps = pre++step::mid++.verify a.email code::post ∧ mailed step = some (a.email,code') ∧
      Succeeds c (after c pre) step a.id .email (.generate code') ∧
      Succeeds c (after c (pre++step::mid)) (.verify a.email code) a.id .email (.verify code) ∧
      c.otp.genOtpHash code' = c.otp.genOtpHash code ∧
      (after c (pre++step::mid)).now < (after c pre).now+1000*c.otp.codeTtl := by
  obtain ⟨before,code,post,rfl,hsucceeds⟩ := exists_verify ha hverified
  have hok : (OtpService.verify c.otp (after c before).store (after c before).now a.id code
      .email).1.isOk := by
    simpa [OtpState.serve,OtpState.isOk_map] using hsucceeds.2
  obtain ⟨g,hg,ht,-,-,hhash⟩ := accepted_of_tracks (tracked_history c before a.id .email) hok
  obtain ⟨pre,step,mid,rfl,hsends,htime,-⟩ := exists_origin hg
  refine ⟨pre,step,mid,code,g.code,post,rfl,?_,hsends,hsucceeds,hhash,htime ▸ ht⟩
  obtain ⟨b,hb,hid,hmailed⟩ := mailed_of_otpStep hsends.1
  rw [← after_snoc] at hb
  obtain ⟨b',hb',hid',hemail⟩ := row_after hb (mid++.verify a.email code::post)
  rw [List.append_assoc,List.singleton_append,← List.cons_append,← List.append_assoc] at hb'
  have hsame := List.inj_on_of_nodup_map (nodup_after c _) hb' ha (hid'.trans hid)
  rw [hmailed,← hemail,hsame]

/-- The code of the first mail has expired, and the one of the second mail is shown. -/
def resentCalls : List AuthStep :=
  [.register "a@b.c" "anna" "secret" someId 1 "4821",.wait 400000,.verify "a@b.c" "4821",
    .resend "a@b.c" "9164",.wait 1000,.verify "a@b.c" "9164"]

theorem verified_accounts_have_shown_a_code_resent :
    ∃ a ∈ (after someAuth resentCalls).accounts, ∃ pre step mid code code' post,
      resentCalls = pre++step::mid++.verify a.email code::post ∧ mailed step = some (a.email,code') ∧
      Succeeds someAuth (after someAuth pre) step a.id .email (.generate code') ∧
      someAuth.otp.genOtpHash code' = someAuth.otp.genOtpHash code := by
  have hfound : ∃ a ∈ (after someAuth resentCalls).accounts, a.isVerified := by decide +kernel
  obtain ⟨a,ha,hverified⟩ := hfound
  obtain ⟨pre,step,mid,code,code',post,hsplit,hmailed,hsends,-,hhash,-⟩ :=
    verified_accounts_have_shown_a_code ha hverified
  exact ⟨a,ha,pre,step,mid,code,code',post,hsplit,hmailed,hsends,hhash⟩

end Origin

end AuthState
end NestHomework.UserService
