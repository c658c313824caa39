import NestHomework.UserService.Auth

/-! Rotation of refresh tokens. A value that is stored again after it was exchanged, or by two
overlapping calls, can be exchanged again. -/
namespace NestHomework.UserService
open Contracts Transition

namespace AuthRun
variable {o : TokenOptions} {s t : AuthRun} {a : AuthAction} {T : Jwt} {i j : ℕ} {c d : AuthCall}

/-- A call signs a value that is new, and stores it in the place of the token that it exchanges. -/
def Timely (o : TokenOptions) (s : AuthRun) : AuthAction → Prop
  | .command i =>
    match s.calls[i]? with
    | some ⟨account,.authenticate role _⟩ =>
      TokenService.sign o.refreshTtl s.now account role ∉ s.refreshTokens
    | some ⟨account,.set _ (some refreshToken)⟩ =>
      (s.session account).map (·.token) = some refreshToken
    | _ => True
  | _ => True

/-- The token waits in a call for its `SET`. -/
def Pending (s : AuthRun) (T : Jwt) : Prop :=
  ∃ (i : ℕ) (c : AuthCall) (tokens : Tokens) (token : Option Jwt),
    s.calls[i]? = some c ∧ c.stage = .set tokens token ∧ tokens.refreshToken = T

/-- Nobody has the token in a session, and nobody will store it. -/
structure Spent (s : AuthRun) (T : Jwt) : Prop where
  signed : T ∈ s.refreshTokens
  pending : ¬s.Pending T
  session : ∀ id x, s.session id = some x → x.token ≠ T

structure Sound (s : AuthRun) : Prop where
  /-- The tokens that wait for their `SET` are signed for the account of the call. -/
  signed : ∀ (i : ℕ) (c : AuthCall) (tokens : Tokens) (token : Option Jwt),
    s.calls[i]? = some c → c.stage = .set tokens token →
      tokens.refreshToken ∈ s.refreshTokens ∧ tokens.refreshToken.id = c.account
  /-- One call waits with one token. -/
  distinct : ∀ (i j : ℕ) (c d : AuthCall) (tokens tokens' : Tokens) (token token' : Option Jwt),
    s.calls[i]? = some c → s.calls[j]? = some d → c.stage = .set tokens token →
    d.stage = .set tokens' token' → tokens.refreshToken = tokens'.refreshToken → i = j
  session : ∀ id x, s.session id = some x →
    x.token ∈ s.refreshTokens ∧ x.token.id = id ∧ ¬s.Pending x.token
  /-- A logout that was alone at its start meets only younger calls of its account. -/
  alone : ∀ (i : ℕ) (c : AuthCall), s.calls[i]? = some c → c.stage = .logout true →
    ∀ j < i, ∀ d, s.calls[j]? = some d → d.account = c.account → ¬d.stage.running

structure Rotated (s : AuthRun) : Prop where
  exchanged : ∀ e ∈ s.exchanged, s.Spent e.token
  loggedOut : ∀ T ∈ s.loggedOut, s.Spent T
  once : (s.exchanged.map (·.token)).Nodup
  fresh : ∀ e ∈ s.exchanged, e.loggedOut = false

theorem calls_goTo {stage : AuthStage} (hc : s.calls[i]? = some c)
    (hd : (s.goTo i c stage).calls[j]? = some d) :
    (j = i ∧ d = {c with stage := stage}) ∨ (j ≠ i ∧ s.calls[j]? = some d) := by
  have hlt : i < s.calls.length := (List.getElem?_eq_some_iff.mp hc).1
  rw [goTo,List.getElem?_set] at hd
  by_cases hij : i = j
  · rw [if_pos hij,if_pos (hij ▸ hlt),Option.some.injEq] at hd
    exact .inl ⟨hij.symm,hd.symm⟩
  · rw [if_neg hij] at hd
    exact .inr ⟨Ne.symm hij,hd⟩

theorem calls_start (h : (s.calls++[c])[j]? = some d) :
    s.calls[j]? = some d ∨ (j = s.calls.length ∧ d = c) := by
  rcases Nat.lt_trichotomy j s.calls.length with hlt | rfl | hgt
  · rw [List.getElem?_append_left hlt] at h
    exact .inl h
  · rw [List.getElem?_concat_length,Option.some.injEq] at h
    exact .inr ⟨rfl,h.symm⟩
  · rw [List.getElem?_eq_none (by simp; omega)] at h
    contradiction

/-- No step but a signing makes a token wait. -/
theorem pending_of_goTo {stage : AuthStage} (hc : s.calls[i]? = some c)
    (hset : ∀ tokens token, stage ≠ .set tokens token) {u : AuthRun}
    (hu : u.calls = (s.goTo i c stage).calls) (h : u.Pending T) : s.Pending T := by
  obtain ⟨j,d,tokens,token,hd,hstage,hT⟩ := h
  rw [hu] at hd
  rcases calls_goTo hc hd with ⟨-,rfl⟩ | ⟨-,hd⟩
  · exact absurd hstage (hset tokens token)
  · exact ⟨j,d,tokens,token,hd,hstage,hT⟩

theorem pending_of_start (hset : ∀ tokens token, c.stage ≠ .set tokens token) {u : AuthRun}
    (hu : u.calls = s.calls++[c]) (h : u.Pending T) : s.Pending T := by
  obtain ⟨j,d,tokens,token,hd,hstage,hT⟩ := h
  rw [hu] at hd
  rcases calls_start hd with hd | ⟨-,rfl⟩
  · exact ⟨j,d,tokens,token,hd,hstage,hT⟩
  · exact absurd hstage (hset tokens token)

theorem pending_of_signs {tokens : Tokens} {token : Option Jwt} (hc : s.calls[i]? = some c)
    {u : AuthRun} (hu : u.calls = (s.goTo i c (.set tokens token)).calls) (h : u.Pending T) :
    s.Pending T ∨ T = tokens.refreshToken := by
  obtain ⟨j,d,tokens',token',hd,hstage,hT⟩ := h
  rw [hu] at hd
  rcases calls_goTo hc hd with ⟨-,rfl⟩ | ⟨-,hd⟩
  · cases hstage
    exact .inr hT.symm
  · exact .inl ⟨j,d,tokens',token',hd,hstage,hT⟩

/-- A `SET` ends the wait of its token. -/
theorem Sound.not_pending_of_sets (h : s.Sound) {tokens : Tokens} {token : Option Jwt}
    (hc : s.calls[i]? = some c) (hstage : c.stage = .set tokens token) {u : AuthRun} {stage : AuthStage}
    (hset : ∀ tokens token, stage ≠ .set tokens token)
    (hu : u.calls = (s.goTo i c stage).calls) : ¬u.Pending tokens.refreshToken := by
  rintro ⟨j,d,tokens',token',hd,hstage',hT⟩
  rw [hu] at hd
  rcases calls_goTo hc hd with ⟨-,rfl⟩ | ⟨hne,hd⟩
  · exact hset _ _ hstage'
  · exact hne (h.distinct j i d c tokens' tokens token' token hd hc hstage' hstage hT)

theorem Sound.initial : Sound .initial where
  signed i c tokens token hc := by simp [AuthRun.initial] at hc
  distinct i j c d tokens tokens' token token' hc := by simp [AuthRun.initial] at hc
  session id x hx := by simp [AuthRun.initial] at hx
  alone i c hc := by simp [AuthRun.initial] at hc

theorem not_running_of_not_busy {calls : List AuthCall} {account : Uuid}
    (h : busy calls account = false) (hd : calls[j]? = some d) (ha : d.account = account) :
    ¬d.stage.running := by
  have hmem := List.mem_of_getElem? hd
  simp only [busy,List.any_eq_false,Bool.and_eq_true,decide_eq_true_eq,not_and] at h
  exact h d hmem ha

/-- A call goes on to a stage where no token waits. -/
theorem Sound.goTo (h : s.Sound) {stage : AuthStage} (call : s.calls[i]? = some c)
    (running : c.stage.running) (set : ∀ tokens token, stage ≠ .set tokens token)
    (logout : stage ≠ .logout true) {u : AuthRun} (hcalls : u.calls = (s.goTo i c stage).calls)
    (htokens : u.refreshTokens = s.refreshTokens) (hsession : ∀ id x, u.session id = some x →
      x.token ∈ s.refreshTokens ∧ x.token.id = id ∧ ¬u.Pending x.token) : u.Sound := by
  refine ⟨fun j d tokens token hd hstage => ?_,
    fun j k d e tokens tokens' token token' hd he hstage hstage' heq => ?_,?_,
    fun j d hd hstage k hk e he hacc => ?_⟩
  · rw [hcalls] at hd
    rw [htokens]
    rcases calls_goTo call hd with ⟨-,rfl⟩ | ⟨-,hd⟩
    · exact absurd hstage (set tokens token)
    · exact h.signed j d tokens token hd hstage
  · rw [hcalls] at hd he
    rcases calls_goTo call hd with ⟨-,rfl⟩ | ⟨-,hd⟩
    · exact absurd hstage (set tokens token)
    · rcases calls_goTo call he with ⟨-,rfl⟩ | ⟨-,he⟩
      · exact absurd hstage' (set tokens' token')
      · exact h.distinct j k d e tokens tokens' token token' hd he hstage hstage' heq
  · rwa [htokens]
  · rw [hcalls] at hd he
    rcases calls_goTo call hd with ⟨rfl,rfl⟩ | ⟨-,hold⟩
    · exact absurd hstage logout
    · rcases calls_goTo call he with ⟨rfl,rfl⟩ | ⟨-,he'⟩
      · exact absurd running (h.alone j d hold hstage _ hk c call hacc)
      · exact h.alone j d hold hstage k hk e he' hacc

/-- A call starts with no token to store. -/
theorem Sound.start (h : s.Sound) (set : ∀ tokens token, c.stage ≠ .set tokens token)
    (logout : c.stage = .logout true → true = !busy s.calls c.account) :
    Sound {s with calls := s.calls++[c]} := by
  refine ⟨fun i d tokens token hd hstage => ?_,
    fun i j d e tokens tokens' token token' hd he hstage hstage' heq => ?_,fun id x hx => ?_,
    fun i d hd hstage j hj e he hacc => ?_⟩
  · rcases calls_start hd with hd | ⟨-,rfl⟩
    · exact h.signed i d tokens token hd hstage
    · exact absurd hstage (set tokens token)
  · rcases calls_start hd with hd | ⟨-,rfl⟩
    · rcases calls_start he with he | ⟨-,rfl⟩
      · exact h.distinct i j d e tokens tokens' token token' hd he hstage hstage' heq
      · exact absurd hstage' (set tokens' token')
    · exact absurd hstage (set tokens token)
  · obtain ⟨hsigned,hid,hpending⟩ := h.session id x hx
    exact ⟨hsigned,hid,fun hp => hpending (pending_of_start set rfl hp)⟩
  · rcases calls_start he with he' | ⟨rfl,rfl⟩
    · rcases calls_start hd with hd | ⟨-,rfl⟩
      · exact h.alone i d hd hstage j hj e he' hacc
      · have hbusy := logout hstage
        exact not_running_of_not_busy (by simpa using hbusy) he' hacc
    · have := (List.getElem?_eq_some_iff.mp hd).1
      simp only [List.length_append,List.length_singleton] at this
      omega

/-- A token that was signed for one account is in no session of another. -/
theorem Sound.session_ne (h : s.Sound) {account id : Uuid} (hT : T.id = account)
    (hne : id ≠ account) {x : Session} (hx : s.session id = some x) : x.token ≠ T :=
  fun heq => hne ((h.session id x hx).2.1.symm.trans (heq ▸ hT))

theorem Sound.next (h : s.Sound) (ha : s.Timely o a) (hn : s.next o a = some t) : t.Sound := by
  cases turn_of_next hn with
  | waits => exact ⟨h.signed,h.distinct,h.session,h.alone⟩
  | starts set logout => exact h.start set (logout true)
  | @moves i c accounts stage call set logout running =>
    refine h.goTo call running set (logout true) rfl rfl fun id x hx => ?_
    obtain ⟨hsigned,hid,hpending⟩ := h.session id x hx
    exact ⟨hsigned,hid,fun hp => hpending (pending_of_goTo call set rfl hp)⟩
  | @signs i c role token call stage =>
    obtain ⟨account,stage⟩ := c
    cases stage
    simp only [Timely,call] at ha
    have hmem : ∀ {T}, T ∈ s.refreshTokens → T ∈ s.refreshTokens++
        [TokenService.sign o.refreshTtl s.now account role] := List.mem_append_left _
    refine ⟨fun j d tokens token hd hstage => ?_,
      fun j k d e tokens tokens' token token' hd he hstage hstage' heq => ?_,fun id x hx => ?_,
      fun j d hd hstage k hk e he hacc => ?_⟩
    · rcases calls_goTo call hd with ⟨-,rfl⟩ | ⟨-,hd⟩
      · cases hstage
        exact ⟨List.mem_append_right _ (List.mem_singleton.mpr rfl),rfl⟩
      · exact (h.signed j d tokens token hd hstage).imp_left hmem
    · -- the new value differs from all that wait
      have hnew : ∀ {j : ℕ} {d : AuthCall} {tokens : Tokens} {token : Option Jwt},
          s.calls[j]? = some d → d.stage = .set tokens token →
          tokens.refreshToken ≠ TokenService.sign o.refreshTtl s.now account role :=
        fun hd hstage heq => ha (heq ▸ (h.signed _ _ _ _ hd hstage).1)
      rcases calls_goTo call hd with ⟨rfl,rfl⟩ | ⟨-,hold⟩
      · rcases calls_goTo call he with ⟨rfl,-⟩ | ⟨-,he'⟩
        · rfl
        · cases hstage
          exact absurd heq.symm (hnew he' hstage')
      · rcases calls_goTo call he with ⟨rfl,rfl⟩ | ⟨-,he'⟩
        · cases hstage'
          exact absurd heq (hnew hold hstage)
        · exact h.distinct j k d e tokens tokens' token token' hold he' hstage hstage' heq
    · obtain ⟨hsigned,hid,hpending⟩ := h.session id x hx
      refine ⟨hmem hsigned,hid,fun hp => ?_⟩
      rcases pending_of_signs call rfl hp with hp | heq
      · exact hpending hp
      · have hvalue : x.token = TokenService.sign o.refreshTtl s.now account role := heq
        exact ha (hvalue ▸ hsigned)
    · rcases calls_goTo call hd with ⟨-,rfl⟩ | ⟨-,hold⟩
      · contradiction
      · rcases calls_goTo call he with ⟨rfl,rfl⟩ | ⟨-,he'⟩
        · exact absurd rfl (h.alone j d hold hstage _ hk _ call hacc)
        · exact h.alone j d hold hstage k hk e he' hacc
  | @sets i c tokens token call stage =>
    refine h.goTo call (by rw [stage]; rfl) (by simp) (by simp) rfl rfl fun id x hx => ?_
    simp only [Function.update_apply] at hx
    split at hx
    · rename_i hid
      cases hx
      obtain ⟨hsigned,haccount⟩ := h.signed i c tokens token call stage
      exact ⟨hsigned,haccount.trans hid.symm,h.not_pending_of_sets call stage (by simp) rfl⟩
    · obtain ⟨hsigned,hid,hpending⟩ := h.session id x hx
      exact ⟨hsigned,hid,fun hp => hpending (pending_of_goTo call (by simp) rfl hp)⟩
  | @leaves i c alone call stage =>
    refine h.goTo call (by rw [stage]; rfl) (by simp) (by simp) rfl rfl fun id x hx => ?_
    simp only [Function.update_apply] at hx
    split at hx
    · contradiction
    · obtain ⟨hsigned,hid,hpending⟩ := h.session id x hx
      exact ⟨hsigned,hid,fun hp => hpending (pending_of_goTo call (by simp) rfl hp)⟩

/-- A spent token stays so. -/
theorem Spent.next (hT : s.Spent T) (ha : s.Timely o a) (hn : s.next o a = some t) :
    t.Spent T := by
  cases turn_of_next hn with
  | waits => exact ⟨hT.signed,hT.pending,hT.session⟩
  | starts set => exact ⟨hT.signed,fun hp => hT.pending (pending_of_start set rfl hp),hT.session⟩
  | moves _ call set =>
    exact ⟨hT.signed,fun hp => hT.pending (pending_of_goTo call set rfl hp),hT.session⟩
  | @signs i c role token call stage =>
    obtain ⟨account,stage⟩ := c
    cases stage
    simp only [Timely,call] at ha
    refine ⟨List.mem_append_left _ hT.signed,fun hp => ?_,hT.session⟩
    rcases pending_of_signs call rfl hp with hp | heq
    · exact hT.pending hp
    · have hvalue : T = TokenService.sign o.refreshTtl s.now account role := heq
      exact ha (hvalue ▸ hT.signed)
  | @sets i c tokens token call stage =>
    refine ⟨hT.signed,fun hp => hT.pending (pending_of_goTo call (by simp) rfl hp),fun id x hx => ?_⟩
    simp only [Function.update_apply] at hx
    split at hx
    · cases hx
      exact fun heq => hT.pending ⟨i,c,tokens,token,call,stage,heq⟩
    · exact hT.session id x hx
  | leaves call =>
    refine ⟨hT.signed,fun hp => hT.pending (pending_of_goTo call (by simp) rfl hp),fun id x hx => ?_⟩
    simp only [Function.update_apply] at hx
    split at hx
    · contradiction
    · exact hT.session id x hx

theorem Rotated.next (h : s.Rotated) (hs : s.Sound) (ha : s.Timely o a)
    (hn : s.next o a = some t) : t.Rotated := by
  have hspent : ∀ T, s.Spent T → t.Spent T := fun T hT => hT.next ha hn
  cases turn_of_next hn with
  | waits | starts | moves | signs =>
    exact ⟨fun e he => hspent _ (h.exchanged e he),fun T hT => hspent T (h.loggedOut T hT),h.once,
      h.fresh⟩
  | @sets i c tokens token call stage =>
    obtain ⟨account,stage⟩ := c
    cases stage
    cases token with
    | none =>
      simp only [Option.toList_none,List.map_nil,List.append_nil] at hspent ⊢
      exact ⟨fun e he => hspent _ (h.exchanged e he),fun T hT => hspent T (h.loggedOut T hT),h.once,
        h.fresh⟩
    | some T =>
      simp only [Timely,call] at ha
      obtain ⟨x,hx,rfl⟩ := Option.map_eq_some_iff.mp ha
      obtain ⟨hsigned,hid,hpending⟩ := hs.session account x hx
      have hflag : s.loggedOut.contains x.token = false := by
        rw [List.contains_eq_mem,decide_eq_false_iff_not]
        exact fun hmem => (h.loggedOut _ hmem).session account x hx rfl
      refine ⟨fun e he => ?_,fun T hT => hspent T (h.loggedOut T hT),?_,fun e he => ?_⟩
      · rcases List.mem_append.mp he with he | he
        · exact hspent _ (h.exchanged e he)
        · rw [Option.toList_some,List.map_singleton,List.mem_singleton] at he
          subst he
          refine ⟨hsigned,fun hp => hpending (pending_of_goTo call (by simp) rfl hp),fun id y hy => ?_⟩
          simp only [Function.update_apply] at hy
          split at hy
          · cases hy
            exact fun heq => hpending ⟨i,_,tokens,_,call,rfl,heq⟩
          · rename_i hne
            exact hs.session_ne hid hne hy
      · rw [List.map_append,List.nodup_append]
        refine ⟨h.once,by simp,fun T hT T' hT' heq => ?_⟩
        obtain ⟨e,he,rfl⟩ := List.mem_map.mp hT
        have hT' : T' = x.token := by simpa using hT'
        exact (h.exchanged e he).session account x hx (heq.trans hT').symm
      · rcases List.mem_append.mp he with he | he
        · exact h.fresh e he
        · rw [Option.toList_some,List.map_singleton,List.mem_singleton] at he
          subst he
          exact hflag
  | @leaves i c alone call stage =>
    refine ⟨fun e he => hspent _ (h.exchanged e he),fun T hT => ?_,h.once,h.fresh⟩
    simp only at hT
    split at hT
    case isFalse => exact hspent T (h.loggedOut T hT)
    rename_i hclean
    rcases List.mem_append.mp hT with hT | hT
    · exact hspent T (h.loggedOut T hT)
    obtain ⟨hsigned,hid⟩ := List.mem_filter.mp hT
    simp only [decide_eq_true_eq] at hid
    simp only [Bool.and_eq_true,Bool.not_eq_true',List.any_eq_false,decide_eq_true_eq] at hclean
    refine ⟨hsigned,fun hp => ?_,fun id x hx => ?_⟩
    · obtain ⟨j,d,tokens,token,hd,hset,rfl⟩ := pending_of_goTo call (by simp) rfl hp
      have hacc : d.account = c.account := (hs.signed j d tokens token hd hset).2.symm.trans hid
      rcases Nat.lt_trichotomy j i with hlt | rfl | hgt
      · rw [hclean.1] at stage
        exact hs.alone i c call stage j hlt d hd hacc (by rw [hset]; rfl)
      · rw [call] at hd
        cases hd
        rw [stage] at hset
        contradiction
      · refine hclean.2 d (List.mem_of_getElem? (i := j-(i+1)) ?_) hacc
        rw [List.getElem?_drop]
        convert hd using 2
        omega
    · simp only [Function.update_apply] at hx
      split at hx
      · contradiction
      · rename_i hne
        exact hs.session_ne hid hne hx

variable {as : List AuthAction}

/-- Refresh tokens rotate in a run whose calls sign new values and exchange the token that the
session holds. -/
theorem refresh_tokens_rotate (hgood : Along (AuthRun.next o) (Timely o) .initial as)
    (hr : runs (AuthRun.next o) .initial as = some s) :
    (s.exchanged.map (·.token)).Nodup ∧ ∀ e ∈ s.exchanged, e.loggedOut = false := by
  have hstep : ∀ (s : AuthRun) a t, s.Sound ∧ s.Rotated → s.Timely o a → s.next o a = some t →
      t.Sound ∧ t.Rotated := fun _ _ _ hI ha hn => ⟨hI.1.next ha hn,hI.2.next hI.1 ha hn⟩
  have h0 : Rotated .initial := ⟨fun _ h => by contradiction,fun _ h => by contradiction,.nil,
    fun _ h => by contradiction⟩
  have h := (runs_invariant hstep ⟨.initial,h0⟩ hgood hr).2
  exact ⟨h.once,h.fresh⟩

section Schedules

def refreshed (i second : ℕ) : List AuthAction :=
  [.refresh (some (tokenOf second)),.command i,.command i,.command i,.command i]

theorem refresh_tokens_rotate_later : ∃ s,
    runs (AuthRun.next sevenDays) .initial (verifiedAccount++.tick 1000::refreshed 2 0) = some s ∧
    s.exchanged = [⟨tokenOf 0,false⟩] ∧ (s.exchanged.map (·.token)).Nodup := by
  have hnew : tokenOf 1 ∉ [tokenOf 0] := by decide
  have hgood : Along (AuthRun.next sevenDays) (Timely sevenDays) .initial
      (verifiedAccount++.tick 1000::refreshed 2 0) :=
    .cons trivial rfl (.cons trivial rfl (.cons trivial rfl (.cons trivial rfl (.cons trivial rfl
      (.cons trivial rfl (.cons List.not_mem_nil rfl (.cons trivial rfl (.cons trivial rfl
      (.cons trivial rfl (.cons trivial rfl (.cons trivial rfl (.cons hnew rfl
      (.cons rfl rfl trivial)))))))))))))
  exact ⟨_,rfl,rfl,(refresh_tokens_rotate hgood rfl).1⟩

/-- Within one second the new token is the old one. -/
theorem refresh_token_returns : ∃ s, runs (AuthRun.next sevenDays) .initial
    (verifiedAccount++refreshed 2 0++refreshed 3 0) = some s ∧
    ¬(s.exchanged.map (·.token)).Nodup :=
  ⟨_,rfl,by decide⟩

end Schedules
end AuthRun
end NestHomework.UserService
