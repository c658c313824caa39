import NestHomework.UserService.Provenance

/-! How many codes can be tried against an account. A code takes few wrong ones, and the next code
waits for the cooldown of the last. -/
namespace NestHomework.UserService
open Contracts Redis

/-- What the caller of `verify` learns about the code: whether it is right, or nothing. -/
def verdict : Except OtpError Unit → Option Bool
  | .ok _ => some true
  | .error (.rpc ⟨some .unauthenticated,_⟩) => some false
  | .error _ => none

section Guesses
variable {Hash : Type} [DecidableEq Hash] (c : AuthConfig Hash) (id : UuidString) (key : OtpKey)

/-- What a call tells about a code for the account. -/
def guess (s : AuthState Hash) (step : AuthStep) : Option Bool :=
  match otpStep c s step with
  | some (.call id' key' (.verify code)) =>
    if id' = id ∧ key' = key then verdict (OtpService.verify c.otp s.store s.now id code key).1
    else none
  | _ => none

/-- How many codes are tried until one is accepted. -/
def guesses : AuthState Hash → List AuthStep → ℕ
  | _, [] => 0
  | s, step::steps =>
    match guess c id key s step with
    | some true => 1
    | some false => guesses (s.next c step) steps+1
    | none => guesses (s.next c step) steps

end Guesses

def waited : AuthStep → ℕ
  | .wait ms => ms
  | _ => 0

def elapsed (steps : List AuthStep) : ℕ := (steps.map waited).sum

section Budget
variable {Hash : Type} (o : OtpConfig Hash) (now : ℕ) (past : List PastCall)

/-- How many more codes may be tried against the last one. -/
def triesLeft : ℕ :=
  match newest past with
  | none => 0
  | some g =>
    if g.consumed || g.time+1000*o.codeTtl ≤ now then 0 else o.attemptsCount-g.attempts

/-- What is left of the cooldown. -/
def cooldownLeft : ℕ :=
  match newest past with
  | none => 0
  | some g => if g.consumed then 0 else g.time+1000*o.cooldownTtl-now

/-- How many codes may be tried while `ms` milliseconds pass. -/
def budget (ms : ℕ) : ℕ := triesLeft o now past+
  o.attemptsCount*((ms+1000*o.cooldownTtl-cooldownLeft o now past)/(1000*o.cooldownTtl))

variable {o now past} {ms : ℕ} {p : PastCall}

theorem newest_time {g : Issue} (h : newest past = some g) : ∃ p ∈ past, p.time = g.time := by
  induction past generalizing g with
  | nil => contradiction
  | cons p past ih =>
    rw [newest] at h
    split at h
    · cases h
      exact ⟨p,List.mem_cons_self,rfl⟩
    · obtain ⟨g',hg',rfl⟩ := Option.map_eq_some_iff.mp h
      obtain ⟨q,hq,htime⟩ := ih hg'
      exact ⟨q,List.mem_cons_of_mem _ hq,htime⟩

theorem triesLeft_le : triesLeft o now past ≤ o.attemptsCount := by
  unfold triesLeft
  split
  · exact Nat.zero_le _
  · split
    · exact Nat.zero_le _
    · exact Nat.sub_le ..

/-- The whole budget is that of the cooldowns that end in this time, and of two codes more. -/
theorem budget_le : budget o now past ms ≤
    o.attemptsCount*(ms/(1000*o.cooldownTtl)+2) := by
  have hpos : 0 < 1000*o.cooldownTtl := by
    have := o.cooldownTtl_min
    omega
  have hdiv : (ms+1000*o.cooldownTtl-cooldownLeft o now past)/(1000*o.cooldownTtl) ≤
      ms/(1000*o.cooldownTtl)+1 := by
    rw [← Nat.add_div_right ms hpos]
    exact Nat.div_le_div_right (Nat.sub_le ..)
  calc budget o now past ms
    _ ≤ o.attemptsCount+o.attemptsCount*(ms/(1000*o.cooldownTtl)+1) :=
        Nat.add_le_add triesLeft_le (Nat.mul_le_mul_left _ hdiv)
    _ = o.attemptsCount*(ms/(1000*o.cooldownTtl)+2) := by ring

theorem budget_wait (htimes : ∀ p ∈ past, p.time ≤ now) (ms' : ℕ) :
    budget o (now+ms') past ms ≤ budget o now past (ms'+ms) := by
  refine Nat.add_le_add ?_ (Nat.mul_le_mul_left _ (Nat.div_le_div_right ?_))
  · unfold triesLeft
    split
    · exact le_rfl
    next g hg =>
      by_cases hlate : g.consumed || g.time+1000*o.codeTtl ≤ now+ms'
      · rw [if_pos hlate]
        exact Nat.zero_le _
      · have hearly : ¬(g.consumed || g.time+1000*o.codeTtl ≤ now) := by
          simp only [Bool.or_eq_true,decide_eq_true_eq] at hlate ⊢
          exact mt (Or.imp_right fun h => h.trans (Nat.le_add_right ..)) hlate
        rw [if_neg hlate,if_neg hearly]
  · unfold cooldownLeft
    split
    · omega
    next g hg =>
      obtain ⟨p,hp,htime⟩ := newest_time hg
      have := htimes p hp
      split <;> omega

/-- A code may be generated when the cooldown has passed, and that takes the next one away. -/
theorem budget_generate (hmay : mayGenerate o past now) (id : UuidString) (key : OtpKey)
    (code : String) : budget o now (⟨now,id,key,.generate code,true⟩::past) ms ≤
      budget o now past ms := by
  have hpos : 0 < 1000*o.cooldownTtl := by
    have := o.cooldownTtl_min
    omega
  have hrest : cooldownLeft o now past = 0 := by
    unfold cooldownLeft
    split
    · rfl
    next g hg =>
      obtain hold | hused := (mayGenerate_iff hg).mp hmay
      · split <;> omega
      · rw [if_pos hused]
  have hnew : cooldownLeft o now (⟨now,id,key,.generate code,true⟩::past) = 1000*o.cooldownTtl := by
    simp [cooldownLeft,newest,Issue.consumed]
  calc budget o now (⟨now,id,key,.generate code,true⟩::past) ms
    _ ≤ o.attemptsCount+o.attemptsCount*(ms/(1000*o.cooldownTtl)) := by
        rw [budget,hnew,Nat.add_sub_cancel]
        exact Nat.add_le_add_right triesLeft_le _
    _ = o.attemptsCount*((ms+1000*o.cooldownTtl)/(1000*o.cooldownTtl)) := by
        rw [Nat.add_div_right ms hpos]
        ring
    _ ≤ budget o now past ms := by
        rw [budget,hrest,Nat.sub_zero]
        exact Nat.le_add_left ..

/-- Any other call that fails leaves the cooldown, and a try is counted. -/
theorem budget_fail (hfail : p.succeeded = false) :
    budget o now (p::past) ms ≤ budget o now past ms ∧
      (p.isVerify → 0 < triesLeft o now past → budget o now (p::past) ms+1 ≤ budget o now past ms) := by
  have hconsumed : ∀ g : Issue, {g with since := p::g.since}.consumed = g.consumed := by
    intro g
    rw [consumed_cons,hfail,Bool.and_false,Bool.false_or]
  have hrest : cooldownLeft o now (p::past) = cooldownLeft o now past := by
    rw [cooldownLeft,newest_cons (.inr hfail)]
    cases hg : newest past with
    | none => simp [cooldownLeft,hg]
    | some g => simp only [cooldownLeft,hg,Option.map_some,hconsumed]
  have hleft : triesLeft o now (p::past)+(if p.isVerify then 1 else 0) ≤ triesLeft o now past ∨
      triesLeft o now past = 0 ∧ triesLeft o now (p::past) = 0 := by
    rw [triesLeft,newest_cons (.inr hfail)]
    cases hg : newest past with
    | none => simp [triesLeft,hg]
    | some g =>
      simp only [triesLeft,hg,Option.map_some,hconsumed,attempts_cons]
      by_cases hdead : g.consumed || g.time+1000*o.codeTtl ≤ now
      · simp only [if_pos hdead]
        exact .inr ⟨trivial,trivial⟩
      · simp only [if_neg hdead]
        cases p.isVerify with
        | true =>
          simp only [if_true]
          omega
        | false => exact .inl le_rfl
  rw [budget,budget,hrest]
  constructor
  · split at hleft <;> omega
  · intro hverify hpos
    rw [if_pos hverify] at hleft
    omega

end Budget

section Verdict
variable {Hash : Type} [DecidableEq Hash] {o : OtpConfig Hash} {now : ℕ} {past : List PastCall}
  {r : Store String (OtpValue Hash)} {id : UuidString} {key : OtpKey} {code : String}

/-- Only a code that may be tried is compared. -/
theorem triesLeft_of_verdict (code : String) (h : Tracks o now past (slot r id key))
    (hv : (verdict (OtpService.verify o r now id code key).1).isSome) :
    0 < triesLeft o now past := by
  have hmiss : r.live now (codeKey id key) ≠ none := by
    intro hlive
    rw [verify_of_none hlive] at hv
    contradiction
  generalize hs : slot r id key = sl at h
  have hentry : r (codeKey id key) = sl.code := congrArg OtpSlot.code hs
  cases h with
  | nothing last => exact absurd (r.live_of_none now hentry) hmiss
  | exhausted last unused beyond => exact absurd (r.live_of_none now hentry) hmiss
  | consumed last used => exact absurd (r.live_of_none now hentry) hmiss
  | @stored g attempts last unused within counted =>
    by_cases ht : now < g.time+1000*o.codeTtl
    · cases counted ht
      rw [verify_of_some hentry ht,checkCode] at hv
      by_cases hmany : o.attemptsCount < g.attempts+1
      · rw [if_pos hmany] at hv
        contradiction
      · simp only [triesLeft,last]
        rw [if_neg (by simpa using ⟨by simpa using unused,ht⟩)]
        omega
    · exact absurd (by rw [r.live_of_some now _ hentry,if_neg ht]) hmiss

theorem isOk_of_verdict {x : Except OtpError Unit} : x.isOk ↔ verdict x = some true := by
  cases x with
  | ok => exact iff_of_true rfl rfl
  | error e =>
    refine iff_of_false (by simp [Except.isOk,Except.toBool]) ?_
    unfold verdict
    split <;> simp_all

end Verdict
namespace AuthState
variable {Hash : Type} [DecidableEq Hash] {c : AuthConfig Hash} {s : AuthState Hash}
  {past : List PastCall} {id : UuidString} {key : OtpKey} {step : AuthStep}

omit [DecidableEq Hash] in
theorem waited_of_otpStep (c : AuthConfig Hash) (s : AuthState Hash) (step : AuthStep) :
    match otpStep c s step with
    | some (.wait ms) => step = .wait ms
    | _ => waited step = 0 := by
  cases step with
  | wait ms => rfl
  | login | refresh | logout | delete => rfl
  | register | resend | verify | changePassword | confirmPassword =>
    simp only [otpStep]
    split
    next heq =>
      split at heq <;> try split at heq
      all_goals cases heq
    next => rfl

theorem track_past : (track c s past step).past = match otpStep c s step with
    | some (.call id' key' request) => ⟨s.now,id',key',request,
        ((⟨s.store,s.now,past⟩ : OtpState Hash).serve c.otp id' key' request).1.isOk⟩::past
    | _ => past := by
  rw [track]
  cases otpStep c s step with
  | none => rfl
  | some x => cases x <;> rfl

theorem now_next : (s.next c step).now = s.now+waited step := by
  rw [(next_track (c := c) (s := s) [] step).1,track]
  have hwaited := waited_of_otpStep c s step
  cases hstep : otpStep c s step with
  | none =>
    rw [hstep] at hwaited
    exact congrArg (s.now+·) hwaited.symm
  | some x =>
    rw [hstep] at hwaited
    cases x with
    | wait ms =>
      subst hwaited
      rfl
    | call id' key' request => exact congrArg (s.now+·) hwaited.symm

theorem tracked_track (step : AuthStep) (htracked : OtpState.Tracked c.otp ⟨s.store,s.now,past⟩) :
    OtpState.Tracked c.otp (track c s past step) := by
  unfold track
  split
  · exact htracked
  · exact htracked.next _

theorem tracked_next (step : AuthStep) (htracked : OtpState.Tracked c.otp ⟨s.store,s.now,past⟩) :
    OtpState.Tracked c.otp
      ⟨(s.next c step).store,(s.next c step).now,(track c s past step).past⟩ := by
  obtain ⟨hnow,hslot⟩ := next_track (c := c) (s := s) past step
  intro id key
  have := tracked_track step htracked id key
  rwa [← hnow,← hslot] at this

theorem times_next (htimes : ∀ p ∈ past, p.time ≤ s.now) :
    ∀ p ∈ (track c s past step).past, p.time ≤ (s.next c step).now := by
  intro p hp
  rw [track_past] at hp
  rw [now_next]
  have hold : p ∈ past → p.time ≤ s.now+waited step :=
    fun hp => (htimes p hp).trans (Nat.le_add_right ..)
  split at hp
  · cases List.mem_cons.mp hp with
    | inl hnew =>
      subst hnew
      exact Nat.le_add_right ..
    | inr hp => exact hold hp
  · exact hold hp

/-- One call against the account pays for the code it tries. -/
theorem budget_serve {o : OtpConfig Hash} {r : Store String (OtpValue Hash)} {now : ℕ} (ms : ℕ)
    (id : UuidString) (key : OtpKey) (request : OtpRequest) (htracked : OtpState.Tracked o ⟨r,now,past⟩) :
    let answer := match request with
      | .verify code => verdict (OtpService.verify o r now id code key).1
      | .generate _ => none
    let past' := ⟨now,id,key,request,
      ((⟨r,now,past⟩ : OtpState Hash).serve o id key request).1.isOk⟩::ofPair id key past
    (answer = some true → 0 < budget o now (ofPair id key past) ms) ∧
      (answer = some false → budget o now past' ms+1 ≤ budget o now (ofPair id key past) ms) ∧
      (answer = none → budget o now past' ms ≤ budget o now (ofPair id key past) ms) := by
  cases request with
  | generate code =>
    refine ⟨nofun,nofun,fun _ => ?_⟩
    have hmay := ((htracked id key).generate code rfl).1
    simp only [OtpState.serve,OtpState.isOk_map]
    cases hok : (OtpService.generate o r now id key code).1.isOk with
    | true => exact budget_generate (hmay.mp hok) id key code
    | false => exact (budget_fail rfl).1
  | verify code =>
    have hleft := triesLeft_of_verdict code (htracked id key)
    have hfail : verdict (OtpService.verify o r now id code key).1 ≠ some true →
        (OtpService.verify o r now id code key).1.isOk = false :=
      fun h => Bool.eq_false_iff.mpr (mt isOk_of_verdict.mp h)
    simp only [OtpState.serve,OtpState.isOk_map]
    refine ⟨fun h => ?_,fun h => ?_,fun h => ?_⟩
    · exact (hleft (by rw [h]; rfl)).trans_le (Nat.le_add_right ..)
    · rw [hfail (by simp [h])]
      exact (budget_fail rfl).2 rfl (hleft (by rw [h]; rfl))
    · rw [hfail (by simp [h])]
      exact (budget_fail rfl).1

theorem budget_next (id : UuidString) (key : OtpKey) (step : AuthStep)
    (htracked : OtpState.Tracked c.otp ⟨s.store,s.now,past⟩)
    (htimes : ∀ p ∈ past, p.time ≤ s.now) (ms : ℕ) :
    let left := budget c.otp (s.next c step).now (ofPair id key (track c s past step).past) ms
    let had := budget c.otp s.now (ofPair id key past) (waited step+ms)
    (guess c id key s step = some true → 0 < had) ∧
      (guess c id key s step = some false → left+1 ≤ had) ∧
      (guess c id key s step = none → left ≤ had) := by
  have hwaited := waited_of_otpStep c s step
  rw [now_next,track_past]
  unfold guess
  cases hstep : otpStep c s step with
  | none =>
    simp only [hstep] at hwaited ⊢
    simp [hwaited]
  | some x =>
    cases x with
    | wait ms' =>
      simp only [hstep] at hwaited ⊢
      subst hwaited
      refine ⟨nofun,nofun,fun _ => budget_wait (fun p hp => ?_) ms'⟩
      exact htimes p (List.mem_filter.mp hp).1
    | call id' key' request =>
      simp only [hstep] at hwaited ⊢
      rw [hwaited,Nat.add_zero,Nat.zero_add]
      by_cases hpair : id' = id ∧ key' = key
      · obtain ⟨rfl,rfl⟩ := hpair
        have hserve := budget_serve ms id' key' request htracked
        cases request <;> simpa [ofPair] using hserve
      · have hskip : ofPair id key (⟨s.now,id',key',request,
            ((⟨s.store,s.now,past⟩ : OtpState Hash).serve c.otp id' key' request).1.isOk⟩::past) =
            ofPair id key past := List.filter_cons_of_neg (by simpa using hpair)
        rw [hskip]
        cases request <;> simp [hpair]

/-- The codes that are tried fit into the budget. -/
theorem guesses_le (htracked : OtpState.Tracked c.otp ⟨s.store,s.now,past⟩)
    (htimes : ∀ p ∈ past, p.time ≤ s.now) (steps : List AuthStep) :
    guesses c id key s steps ≤ budget c.otp s.now (ofPair id key past) (elapsed steps) := by
  induction steps generalizing s past with
  | nil => exact Nat.zero_le _
  | cons step steps ih =>
    have hrest := ih (tracked_next step htracked) (times_next htimes)
    obtain ⟨haccepted,hwrong,hnone⟩ := budget_next id key step htracked htimes
      (elapsed steps)
    have helapsed : elapsed (step::steps) = waited step+elapsed steps := by
      rw [elapsed,List.map_cons,List.sum_cons]
      rfl
    rw [guesses,helapsed]
    split
    next h => exact haccepted h
    next h => exact (Nat.add_le_add_right hrest 1).trans (hwrong h)
    next h => exact hrest.trans (hnone h)

theorem history_times (c : AuthConfig Hash) (steps : List AuthStep) :
    ∀ p ∈ history c steps, p.time ≤ (after c steps).now := by
  induction steps using List.reverseRecOn with
  | nil => exact fun p hp => nomatch hp
  | append_singleton steps step ih =>
    rw [history_snoc,after_snoc]
    exact times_next ih

/-- In any time, whatever else is called, no more codes can be tried against an account than
`attemptsCount` for each cooldown that ends in it, and for two codes more. -/
theorem guesses_are_limited (c : AuthConfig Hash) (id : UuidString) (key : OtpKey)
    (before steps : List AuthStep) : guesses c id key (after c before) steps ≤
      c.otp.attemptsCount*(elapsed steps/(1000*c.otp.cooldownTtl)+2) :=
  (guesses_le (tracked_history c before) (history_times c before) steps).trans budget_le

/-- In a minute and a millisecond three codes can be used up. -/
example :
    let wrong : List AuthStep := List.replicate 3 (.verify "a@b.c" "0000")
    let before : List AuthStep := [.register "a@b.c" "anna" "secret" someId 1 "4821",.wait 59999]
    let steps := wrong++[.wait 1,.resend "a@b.c" "9164"]++wrong++[.wait 60000,.resend "a@b.c" "3507"]++
      wrong
    guesses someAuth someId .email (after someAuth before) steps = 9 ∧
      someAuth.otp.attemptsCount*(elapsed steps/(1000*someAuth.otp.cooldownTtl)+2) = 9 := by
  decide +kernel

end AuthState
end NestHomework.UserService
