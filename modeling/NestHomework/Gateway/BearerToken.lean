import NestHomework.UserService.Auth

/-! The tokens that the gateway and the notification service accept. Both verify a bearer token with
the secret that signs the tokens of either kind. -/
namespace NestHomework.Gateway
open Contracts Transition UserService

def JwtStrategy.validate (now : ℕ) (token : Option Jwt) : Option (Uuid × Role) :=
  (TokenService.verify now token).toOption.map fun payload => (payload.id,payload.role)

/-- The room that a client joins, and the milliseconds until it is disconnected. -/
structure Connection where
  room : Uuid
  delay : ℕ
  deriving DecidableEq, Repr

/-- `WssGateway.handleConnection`; without a value the client is disconnected. -/
def WssGateway.handleConnection (now : ℕ) (token : Option Jwt) : Option Connection :=
  match TokenService.verify now token with
  | .error _ => none
  | .ok payload =>
    if 0 < (payload.exp*1000 : ℤ)-now then some ⟨payload.id,payload.exp*1000-now⟩ else none

def accepted (now : ℕ) (token : Jwt) : Bool :=
  (JwtStrategy.validate now (some token)).isSome ||
    (WssGateway.handleConnection now (some token)).isSome

/-- Both acceptors take every token that has not expired, whatever it was issued for. -/
theorem accepted_iff {now : ℕ} {token : Jwt} : accepted now token ↔ now/1000 < token.exp := by
  rw [accepted,JwtStrategy.validate,WssGateway.handleConnection,TokenService.verify]
  by_cases h : token.exp ≤ now/1000
  · rw [if_pos h]
    simpa [Except.toOption] using h
  · rw [if_neg h]
    simpa [Except.toOption] using h

structure Dated (o : TokenOptions) (s : AuthRun) : Prop where
  access : ∀ T ∈ s.accessTokens, T.iat*1000 ≤ s.now ∧ T.exp = T.iat+o.accessTtl/1000
  refresh : ∀ T ∈ s.refreshTokens, T.iat*1000 ≤ s.now ∧ T.exp = T.iat+o.refreshTtl/1000

section Dated
variable {o : TokenOptions} {s t u : AuthRun} {a : AuthAction}

theorem Dated.next (h : Dated o s) (hn : s.next o a = some t) : Dated o t := by
  cases AuthRun.turn_of_next hn with
  | waits _ later =>
    exact ⟨fun T hT => ⟨(h.access T hT).1.trans later,(h.access T hT).2⟩,
      fun T hT => ⟨(h.refresh T hT).1.trans later,(h.refresh T hT).2⟩⟩
  | starts | moves | sets | leaves => exact ⟨h.access,h.refresh⟩
  | signs =>
    refine ⟨fun T hT => ?_,fun T hT => ?_⟩
    · rcases List.mem_append.mp hT with hT | hT
      · exact h.access T hT
      · rw [List.mem_singleton.mp hT]
        exact ⟨Nat.div_mul_le_self ..,rfl⟩
    · rcases List.mem_append.mp hT with hT | hT
      · exact h.refresh T hT
      · rw [List.mem_singleton.mp hT]
        exact ⟨Nat.div_mul_le_self ..,rfl⟩

variable {as : List AuthAction} {account : Uuid}

theorem Dated.of_runs (hr : runs (AuthRun.next o) .initial as = some s) : Dated o s :=
  runs_invariant' (fun _ _ _ h hn => h.next hn)
    ⟨fun _ h => by contradiction,fun _ h => by contradiction⟩ hr

/-- After the lifetime of an access token only the refresh tokens count. -/
theorem Dated.refused_iff (h : Dated o t) {now : ℕ} (hlate : t.now+o.accessTtl < now) :
    (∀ T ∈ t.accessTokens++t.refreshTokens, T.id = account → ¬accepted now T) ↔
      ∀ T ∈ t.refreshTokens, T.id = account → T.iat+o.refreshTtl/1000 ≤ now/1000 := by
  constructor
  · intro hall T hT hid
    have hexpired := hall T (List.mem_append_right _ hT) hid
    rw [accepted_iff,(h.refresh T hT).2] at hexpired
    omega
  · intro hall T hT hid
    rw [accepted_iff]
    rcases List.mem_append.mp hT with hT | hT
    · obtain ⟨hiat,hexp⟩ := h.access T hT
      omega
    · rw [(h.refresh T hT).2]
      have := hall T hT hid
      omega

/-- A logout of the account completes. -/
def LogsOut (o : TokenOptions) (account : Uuid) (s t : AuthRun) : Prop :=
  ∃ i alone, s.calls[i]? = some ⟨account,.logout alone⟩ ∧ s.next o (.command i) = some t

/-- A logout ends the access of the account within the lifetime of an access token exactly when every
refresh token that the account has got is then expired. -/
theorem logout_ends_access (hr : runs (AuthRun.next o) .initial as = some s)
    (hlogout : LogsOut o account s t) :
    (∀ bs u, runs (AuthRun.next o) t bs = some u → t.now+o.accessTtl < u.now →
      ∀ T ∈ t.accessTokens++t.refreshTokens, T.id = account → ¬accepted u.now T) ↔
    ∀ T ∈ t.refreshTokens, T.id = account →
      T.iat+o.refreshTtl/1000 ≤ (t.now+o.accessTtl+1)/1000 := by
  obtain ⟨i,alone,-,hn⟩ := hlogout
  have h := (Dated.of_runs hr).next hn
  constructor
  · intro hall
    -- the first moment after the lifetime
    have hfirst := hall [.tick (o.accessTtl+1)] _ rfl (Nat.lt_succ_self _)
    exact (h.refused_iff (Nat.lt_succ_self _)).mp hfirst
  · intro hall bs u _ hlate
    refine (h.refused_iff hlate).mpr (fun T hT hid => ?_)
    exact (hall T hT hid).trans (Nat.div_le_div_right hlate)

end Dated

section Schedules

def loggedOut (ms : ℕ) : List AuthAction :=
  AuthRun.verifiedAccount++[.tick ms,.logout (some (AuthRun.tokenOf 0))]

/-- After the lifetime of the access token the refresh token is still accepted. -/
theorem refresh_token_outlives_logout : ∃ s t u,
    runs (AuthRun.next AuthRun.sevenDays) .initial (loggedOut 0) = some s ∧
    LogsOut AuthRun.sevenDays 1 s t ∧
    runs (AuthRun.next AuthRun.sevenDays) t [.tick 25201000] = some u ∧
    t.now+AuthRun.sevenDays.accessTtl < u.now ∧ AuthRun.tokenOf 0 ∈ t.refreshTokens ∧
    (AuthRun.tokenOf 0).id = 1 ∧ accepted u.now (AuthRun.tokenOf 0) :=
  ⟨_,_,_,rfl,⟨2,true,rfl,rfl⟩,rfl,by decide,by decide,rfl,by decide⟩

/-- A logout six days and 17 hours after the refresh token was issued. -/
theorem logout_ends_access_week : ∃ s t,
    runs (AuthRun.next AuthRun.sevenDays) .initial (loggedOut 579600000) = some s ∧
    LogsOut AuthRun.sevenDays 1 s t ∧ t.now = 579600000 ∧
    ∀ bs u, runs (AuthRun.next AuthRun.sevenDays) t bs = some u → 604800000 < u.now →
      ¬accepted u.now (AuthRun.tokenOf 0) := by
  refine ⟨_,_,rfl,⟨2,true,rfl,rfl⟩,rfl,fun bs u hu hlate => ?_⟩
  refine (@logout_ends_access AuthRun.sevenDays _ _ (loggedOut 579600000) 1 rfl
    ⟨2,true,rfl,rfl⟩).mpr ?_ bs u hu hlate _ ?_ rfl
  · decide
  · decide

end Schedules
end NestHomework.Gateway
