import NestHomework.UserService.OtpService

/-! `OtpService` for one id and one purpose by the clock, one Redis command at a time. A key expires
at its time and at no other. -/
namespace NestHomework.UserService
open Transition

/-- A `MULTI` of `generate`: its moment in milliseconds, and how many calls of `verify` had been
accepted before. -/
structure IssuedCode where
  time : ℕ
  accepted : ℕ
  deriving DecidableEq, Repr

/-- The calls over the store, and when its keys expire. -/
structure OtpClock (Hash : Type) where
  run : OtpRun Hash
  now : ℕ
  codeEnds : ℕ
  cooldownEnds : ℕ
  issued : List IssuedCode

inductive OtpTick where
  | wait (ms : ℕ)
  | generate (i : ℕ) (code : String)
  | verify (i : ℕ) (code : String)
  | command (i : ℕ)
  deriving DecidableEq, Repr

namespace OtpClock
variable {Hash : Type} (s : OtpClock Hash)

def initial : OtpClock Hash := ⟨.initial,0,0,0,[]⟩

/-- The keys whose time has come are gone. A hash without the field `hash` has no time. -/
def expire : OtpClock Hash :=
  let store := s.run.store
  {s with run := {s.run with store :=
    ⟨if store.hget.isSome && s.codeEnds ≤ s.now then none else store.code,
      store.cooldown && s.now < s.cooldownEnds⟩}}

/-- The next command of the call is the `MULTI` of `generate`. -/
def stores (i : ℕ) : Bool :=
  match s.run.call i with
  | some (.store _) => true
  | _ => false

variable [DecidableEq Hash] (o : OtpConfig Hash)

def next (s : OtpClock Hash) : OtpTick → Option (OtpClock Hash)
  | .wait ms => some (expire {s with now := s.now+ms})
  | .generate i code =>
    (s.run.next o.toOtpOptions (.generate i code)).map fun run => {s with run := run}
  | .verify i code =>
    (s.run.next o.toOtpOptions (.verify i code)).map fun run => {s with run := run}
  | .command i => (s.run.next o.toOtpOptions (.command i)).map fun run =>
    if s.stores i then
      {s with
        run := run
        codeEnds := s.now+1000*o.codeTtl
        cooldownEnds := s.now+1000*o.cooldownTtl
        issued := s.issued++[⟨s.now,s.run.accepted.length⟩]}
    else {s with run := run}

/-- Two codes with no accepted call between them are set far enough apart. -/
def Spaced : Prop :=
  s.issued.Pairwise fun p q => p.accepted = q.accepted → p.time+1000*o.cooldownTtl ≤ q.time

/-- A `MULTI` of `generate` finds no cooldown. -/
def Uncontended (s : OtpClock Hash) : OtpTick → Prop
  | .command i => s.stores i → s.run.store.cooldown = false
  | _ => True

instance : Decidable (s.Spaced o) :=
  inferInstanceAs (Decidable (s.issued.Pairwise fun p q =>
    p.accepted = q.accepted → p.time+1000*o.cooldownTtl ≤ q.time))

instance : ∀ a, Decidable (s.Uncontended a)
  | .command i => inferInstanceAs (Decidable (s.stores i → s.run.store.cooldown = false))
  | .wait _ | .generate .. | .verify .. => .isTrue trivial

variable {o} {s} {t : OtpClock Hash}

/-- Keys expire in a run without a clock too, at whatever moment. -/
theorem exists_expiries (o : OtpOptions Hash) (run : OtpRun Hash) (code cooldown : Bool) :
    ∃ as, runs (OtpRun.next o) run as = some {run with store :=
      ⟨if run.store.hget.isSome && code then none else run.store.code,
        run.store.cooldown && cooldown⟩} := by
  have hcode : ∃ as, runs (OtpRun.next o) run as = some {run with store :=
      ⟨if run.store.hget.isSome && code then none else run.store.code,run.store.cooldown⟩} := by
    cases h : run.store.hget.isSome && code with
    | false => exact ⟨[],rfl⟩
    | true =>
      refine ⟨[.expireCode],?_⟩
      rw [Bool.and_eq_true] at h
      simp only [runs,OtpRun.next,h.1,if_true,Option.bind_some]
      rfl
  obtain ⟨as,has⟩ := hcode
  cases cooldown with
  | true => exact ⟨as,by rw [has,Bool.and_true]⟩
  | false =>
    refine ⟨as++[.expireCooldown],runs_append.mpr ⟨_,has,?_⟩⟩
    rw [Bool.and_false]
    rfl

/-- With a clock the calls do nothing that they might not do without it. -/
theorem exists_runs {a : OtpTick} (h : s.next o a = some t) :
    ∃ as, runs (OtpRun.next o.toOtpOptions) s.run as = some t.run := by
  cases a with
  | wait ms =>
    cases h
    exact exists_expiries o.toOtpOptions s.run _ _
  | generate i code =>
    obtain ⟨run,hrun,rfl⟩ := Option.map_eq_some_iff.mp h
    exact ⟨[.generate i code],runs_cons.mpr ⟨run,hrun,rfl⟩⟩
  | verify i code =>
    obtain ⟨run,hrun,rfl⟩ := Option.map_eq_some_iff.mp h
    exact ⟨[.verify i code],runs_cons.mpr ⟨run,hrun,rfl⟩⟩
  | command i =>
    obtain ⟨run,hrun,rfl⟩ := Option.map_eq_some_iff.mp h
    refine ⟨[.command i],runs_cons.mpr ⟨run,hrun,?_⟩⟩
    split <;> rfl

end OtpClock

namespace OtpRun
variable {Hash : Type} [DecidableEq Hash] {o : OtpOptions Hash} {s t : OtpRun Hash}

/-- What a command does to the cooldown. -/
inductive Cools (s t : OtpRun Hash) : OtpCall Hash → Prop
  | stores {code} (cooldown : t.store.cooldown = true) (accepted : t.accepted = s.accepted) :
      Cools s t (.store code)
  | consumes {st} (cooldown : t.store.cooldown = false)
      (accepted : t.accepted.length = s.accepted.length+1) : Cools s t (.consume st)
  | keeps {c} (store : ∀ code, c ≠ .store code) (cooldown : t.store.cooldown = s.store.cooldown)
      (accepted : t.accepted = s.accepted) : Cools s t c

theorem cools_of_command {i : ℕ} {c : OtpCall Hash} (h : s.command o i c = some t) :
    Cools s t c := by
  cases c with
  | generate code =>
    cases h
    exact .keeps (by simp) rfl rfl
  | store code =>
    cases h
    exact .stores rfl rfl
  | verify code =>
    simp only [command] at h
    split at h
    · cases h
      exact .keeps (by simp) rfl rfl
    · cases h
      exact .keeps (by simp) rfl rfl
  | count code storedHash =>
    simp only [command] at h
    split at h
    · cases h
      exact .keeps (by simp) rfl rfl
    · split at h
      · cases h
        exact .keeps (by simp) rfl rfl
      · cases h
        exact .keeps (by simp) rfl rfl
  | exhausted =>
    cases h
    exact .keeps (by simp) rfl rfl
  | consume storedHash =>
    cases h
    exact .consumes rfl (by simp)
  | returned result => contradiction

end OtpRun

namespace OtpClock
variable {Hash : Type} {o : OtpConfig Hash} {s t : OtpClock Hash}

/-- A cooldown is that of the last code, unless a call was accepted since. -/
structure Tracked (o : OtpConfig Hash) (s : OtpClock Hash) : Prop where
  past : ∀ p ∈ s.issued, p.time ≤ s.now ∧ p.accepted ≤ s.run.accepted.length
  ends : ∀ p ∈ s.issued, p.time+1000*o.cooldownTtl ≤ s.cooldownEnds
  cooling : s.run.store.cooldown = true → s.now < s.cooldownEnds ∧ ∃ p ∈ s.issued,
    p.accepted = s.run.accepted.length ∧ p.time+1000*o.cooldownTtl = s.cooldownEnds
  free : s.run.store.cooldown = false → ∀ p ∈ s.issued, p.accepted = s.run.accepted.length →
    p.time+1000*o.cooldownTtl ≤ s.now

theorem tracked_initial : (initial : OtpClock Hash).Tracked o where
  past := List.forall_mem_nil _
  ends := List.forall_mem_nil _
  cooling := nofun
  free _ := List.forall_mem_nil _

/-- A command that sets no code leaves the cooldown, or ends it with an accepted call. -/
theorem Tracked.keep (h : s.Tracked o) {run : OtpRun Hash}
    (hrun : (run.store.cooldown = s.run.store.cooldown ∧ run.accepted = s.run.accepted) ∨
      (run.store.cooldown = false ∧ run.accepted.length = s.run.accepted.length+1)) :
    Tracked o {s with run := run} := by
  obtain ⟨hcooldown,haccepted⟩ | ⟨hcooldown,haccepted⟩ := hrun
  · refine ⟨?_,h.ends,?_,?_⟩
    · rw [haccepted]
      exact h.past
    · rw [haccepted,hcooldown]
      exact h.cooling
    · rw [haccepted,hcooldown]
      exact h.free
  · refine ⟨fun p hp => ?_,h.ends,fun htrue => ?_,fun _ p hp hsame => ?_⟩
    · have := h.past p hp
      exact ⟨this.1,by rw [haccepted]; omega⟩
    · rw [hcooldown] at htrue
      contradiction
    · have := (h.past p hp).2
      rw [haccepted] at hsame
      omega

theorem Tracked.wait (h : s.Tracked o) (ms : ℕ) : Tracked o (expire {s with now := s.now+ms}) where
  past p hp := ⟨(h.past p hp).1.trans (Nat.le_add_right ..),(h.past p hp).2⟩
  ends := h.ends
  cooling htrue := by
    simp only [expire,Bool.and_eq_true,decide_eq_true_eq] at htrue
    exact ⟨htrue.2,(h.cooling htrue.1).2⟩
  free hfalse p hp hsame := by
    simp only [expire,Bool.and_eq_false_iff,decide_eq_false_iff_not] at hfalse
    cases hfalse with
    | inl hfalse => exact (h.free hfalse p hp hsame).trans (Nat.le_add_right ..)
    | inr hfalse => exact (h.ends p hp).trans (not_lt.mp hfalse)

/-- The state after the `MULTI` of `generate`. -/
def issue (o : OtpConfig Hash) (s : OtpClock Hash) (run : OtpRun Hash) : OtpClock Hash :=
  {s with
    run := run
    codeEnds := s.now+1000*o.codeTtl
    cooldownEnds := s.now+1000*o.cooldownTtl
    issued := s.issued++[⟨s.now,s.run.accepted.length⟩]}

theorem Tracked.issue (h : s.Tracked o) {run : OtpRun Hash} (hcooldown : run.store.cooldown = true)
    (haccepted : run.accepted = s.run.accepted) : (s.issue o run).Tracked o where
  past p hp := by
    obtain hp | hp := List.mem_append.mp hp
    · exact ⟨(h.past p hp).1,by rw [OtpClock.issue,haccepted]; exact (h.past p hp).2⟩
    · rw [List.mem_singleton.mp hp]
      exact ⟨le_rfl,by rw [OtpClock.issue,haccepted]⟩
  ends p hp := by
    obtain hp | hp := List.mem_append.mp hp
    · have := (h.past p hp).1
      simp only [OtpClock.issue]
      omega
    · rw [List.mem_singleton.mp hp]
      exact le_rfl
  cooling _ := by
    have := o.cooldownTtl_min
    refine ⟨by simp only [OtpClock.issue]; omega,_,List.mem_append_right _ List.mem_cons_self,?_,rfl⟩
    rw [OtpClock.issue,haccepted]
  free hfalse := by
    simp only [OtpClock.issue,hcooldown] at hfalse
    contradiction

/-- The last code is too close if and only if its `MULTI` finds a cooldown. -/
theorem Tracked.spaced_issue (h : s.Tracked o) (run : OtpRun Hash) :
    (s.issue o run).Spaced o ↔ s.Spaced o ∧ s.run.store.cooldown = false := by
  unfold Spaced OtpClock.issue
  rw [List.pairwise_append]
  simp only [List.pairwise_singleton,List.mem_singleton,forall_eq,true_and]
  refine and_congr_right fun _ => ⟨fun hlast => ?_,fun hfalse p hp => h.free hfalse p hp⟩
  by_contra hcooldown
  rw [Bool.not_eq_false] at hcooldown
  obtain ⟨hnow,p,hp,hsame,hends⟩ := h.cooling hcooldown
  have := hlast p hp hsame
  omega

theorem stores_iff {i : ℕ} {c : OtpCall Hash} (hc : s.run.call i = some c) :
    s.stores i = true ↔ ∃ code, c = .store code := by
  rw [stores,hc]
  cases c <;> simp

variable [DecidableEq Hash]

/-- A step sets a code, or does not and then leaves the list of codes as it is. -/
theorem step_cases {a : OtpTick} (hn : s.next o a = some t) :
    (∃ i run, a = .command i ∧ s.stores i ∧ t = s.issue o run ∧ run.store.cooldown = true ∧
      run.accepted = s.run.accepted) ∨
    ((∀ i, a = .command i → s.stores i = false) ∧ t.issued = s.issued ∧
      (s.Tracked o → t.Tracked o)) := by
  cases a with
  | wait ms =>
    cases hn
    exact .inr ⟨by simp,rfl,fun h => h.wait ms⟩
  | generate i code =>
    obtain ⟨run,hrun,rfl⟩ := Option.map_eq_some_iff.mp hn
    refine .inr ⟨by simp,rfl,fun h => h.keep (.inl ?_)⟩
    simp only [OtpRun.next] at hrun
    split at hrun
    · contradiction
    · cases hrun
      exact ⟨rfl,rfl⟩
  | verify i code =>
    obtain ⟨run,hrun,rfl⟩ := Option.map_eq_some_iff.mp hn
    refine .inr ⟨by simp,rfl,fun h => h.keep (.inl ?_)⟩
    simp only [OtpRun.next] at hrun
    split at hrun
    · contradiction
    · cases hrun
      exact ⟨rfl,rfl⟩
  | command i =>
    obtain ⟨run,hrun,rfl⟩ := Option.map_eq_some_iff.mp hn
    obtain ⟨c,hc,hcommand⟩ := Option.bind_eq_some_iff.mp hrun
    have hstores := stores_iff hc
    cases OtpRun.cools_of_command hcommand with
    | @stores code cooldown accepted =>
      have htrue := hstores.mpr ⟨code,rfl⟩
      exact .inl ⟨i,run,rfl,htrue,by rw [if_pos htrue]; rfl,cooldown,accepted⟩
    | consumes cooldown accepted =>
      have hfalse : ¬s.stores i = true := by simp [hstores]
      rw [if_neg hfalse]
      refine .inr ⟨?_,rfl,fun h => h.keep (.inr ⟨cooldown,accepted⟩)⟩
      rintro j ⟨rfl⟩
      simpa using hfalse
    | keeps store cooldown accepted =>
      have hfalse : ¬s.stores i = true := by simp [hstores,store]
      rw [if_neg hfalse]
      refine .inr ⟨?_,rfl,fun h => h.keep (.inl ⟨cooldown,accepted⟩)⟩
      rintro j ⟨rfl⟩
      simpa using hfalse

theorem Tracked.next (h : s.Tracked o) {a : OtpTick} (hn : s.next o a = some t) : t.Tracked o := by
  obtain ⟨i,run,-,-,rfl,hcooldown,haccepted⟩ | ⟨-,-,hkeep⟩ := step_cases hn
  · exact h.issue hcooldown haccepted
  · exact hkeep h

theorem Tracked.spaced_next (h : s.Tracked o) {a : OtpTick} (hn : s.next o a = some t) :
    t.Spaced o ↔ s.Spaced o ∧ s.Uncontended a := by
  obtain ⟨i,run,rfl,hstores,rfl,-,-⟩ | ⟨hstores,hissued,-⟩ := step_cases hn
  · rw [h.spaced_issue,Uncontended]
    simp [hstores]
  · have hgood : s.Uncontended a := by
      cases a with
      | command i => simp [Uncontended,hstores i rfl]
      | wait ms => trivial
      | generate i code => trivial
      | verify i code => trivial
    simp only [Spaced,hissued,hgood,and_true]

/-- Codes with no accepted call between them are a cooldown apart, if and only if every `MULTI` of
`generate` in the run finds the cooldown of the one before gone. -/
theorem codes_are_spaced_iff {as : List OtpTick} (hr : runs (OtpClock.next o) .initial as = some s) :
    s.Spaced o ↔ Along (OtpClock.next o) Uncontended .initial as := by
  have hstep : ∀ (s : OtpClock Hash) a t, s.Tracked o → s.next o a = some t →
      (¬t.Spaced o ↔ ¬s.Spaced o ∨ ¬s.Uncontended a) :=
    fun s a t hI hn => by rw [hI.spaced_next hn,not_and_or]
  have hflag := flag_iff (fun _ _ _ hI hn => Tracked.next hI hn) hstep tracked_initial hr
  have hinitial : (initial : OtpClock Hash).Spaced o := .nil
  simp only [not_not] at hflag
  rw [← not_iff_not,hflag]
  simp [hinitial]

section Schedules

/-- `COOLDOWN_TTL` is a minute and a half. -/
def longCooldown : OtpConfig String := ⟨⟨4,id⟩,600,90,by decide,by decide,by decide⟩

/-- A code is consumed, and the next one is set at once. After the cooldown there is another. -/
def oneByOne : List OtpTick :=
  [.generate 0 "483920",.command 0,.command 0,.verify 1 "483920",.command 1,.command 1,.command 1,
    .generate 2 "719204",.command 2,.command 2,.wait 90000,.generate 3 "555012",.command 3,.command 3]

theorem codes_are_spaced_iff_one_by_one : ∃ s,
    runs (OtpClock.next longCooldown) .initial oneByOne = some s ∧
      s.issued = [⟨0,0⟩,⟨0,1⟩,⟨90000,1⟩] ∧ s.Spaced longCooldown := by
  have hrun : (runs (OtpClock.next longCooldown) .initial oneByOne).map (·.issued) =
      some [⟨0,0⟩,⟨0,1⟩,⟨90000,1⟩] := by decide +kernel
  obtain ⟨s,hs,hissued⟩ := Option.map_eq_some_iff.mp hrun
  exact ⟨s,hs,hissued,(codes_are_spaced_iff hs).mpr (by decide +kernel)⟩

/-- Two calls look for the cooldown before one of them sets it. -/
def twoAtOnce : List OtpTick :=
  [.generate 0 "483920",.generate 1 "719204",.command 0,.command 1,.command 0,.command 1]

theorem two_codes_at_once : ∃ s,
    runs (OtpClock.next longCooldown) .initial twoAtOnce = some s ∧ s.issued = [⟨0,0⟩,⟨0,0⟩] ∧
      ¬s.Spaced longCooldown := by
  have hrun : (runs (OtpClock.next longCooldown) .initial twoAtOnce).map (·.issued) =
      some [⟨0,0⟩,⟨0,0⟩] := by decide +kernel
  obtain ⟨s,hs,hissued⟩ := Option.map_eq_some_iff.mp hrun
  refine ⟨s,hs,hissued,?_⟩
  rw [Spaced,hissued]
  decide

end Schedules
end OtpClock
end NestHomework.UserService
