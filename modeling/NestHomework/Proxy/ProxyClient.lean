import Mathlib.Tactic
import NestHomework.Transition.Run

/-! The circuit breaker of `AbstractProxyClient`, and its runs under a clock, requests, outcomes in
any order and the probe timer. -/
namespace NestHomework.Proxy
open Transition

inductive CircuitState where
  | closed
  | opened
  | halfOpen
  deriving DecidableEq, Repr

/-- The settings of a client. The threshold is at least 1. -/
structure ProxyOptions where
  failureThreshold : ℕ
  resetAfterMs : ℕ
  proxyTimeoutMs : ℕ
  threshold_pos : 1 ≤ failureThreshold

/-- A handle of `setTimeout`. It stays in its variable when the timer has fired. -/
structure Timer where
  due : ℕ
  armed : Bool
  deriving DecidableEq, Repr

/-- The delay of `setTimeout`, which replaces one that is out of range. -/
def setTimeoutDelay (ms : ℕ) : ℕ := if 1 ≤ ms ∧ ms ≤ 2147483647 then ms else 1

structure ProxyClient where
  state : CircuitState
  failures : ℕ
  circuitOpenedAt : Option ℕ
  probeInFlight : Bool
  probeTimeout : Option Timer
  deriving DecidableEq, Repr

namespace ProxyClient
variable (o : ProxyOptions) (now : ℕ) (c : ProxyClient)

def initial : ProxyClient := ⟨.closed,0,none,false,none⟩

/-- The handle of an older timer is replaced, and that timer cleared. -/
def startProbeTimeout : ProxyClient :=
  {c with probeTimeout := some ⟨now+setTimeoutDelay (o.proxyTimeoutMs+1000),true⟩}

/-- The value is whether the request is rejected. -/
def isCircuitOpen : Bool × ProxyClient :=
  match c.state with
  | .closed => (false,c)
  | .opened =>
    if now ≤ c.circuitOpenedAt.getD 0+o.resetAfterMs then (true,c)
    else (false,({c with state := .halfOpen, probeInFlight := true} : ProxyClient).startProbeTimeout o now)
  | .halfOpen =>
    if c.probeInFlight then (true,c)
    else (false,({c with probeInFlight := true} : ProxyClient).startProbeTimeout o now)

/-- Every field is set anew. -/
def success (_c : ProxyClient) : ProxyClient :=
  { state := .closed, failures := 0, probeInFlight := false, circuitOpenedAt := none,
    probeTimeout := none }

def failure : ProxyClient :=
  if c.state = .halfOpen ∧ ¬c.probeInFlight then c
  else
    let c := {c with probeInFlight := false}
    if c.state = .halfOpen then
      {c with
        state := .opened
        circuitOpenedAt := some now
        failures := 0
        probeTimeout := none}
    else
      let c := {c with failures := c.failures+1}
      let c :=
        if o.failureThreshold ≤ c.failures then
          {c with
            state := .opened
            circuitOpenedAt := some now
            failures := 0}
        else c
      {c with probeTimeout := none}

/-- The callback of the probe timer. -/
def probeExpired : ProxyClient := if c.probeInFlight then c.failure o now else c

def probeArmed : Bool := c.probeTimeout.any (·.armed)

end ProxyClient

/-- What becomes of a request that was passed on. -/
inductive Outcome where
  | proxyRes (statusCode : Option ℕ)
  | error
  deriving DecidableEq, Repr

/-- A status below 500 counts as a success, a missing one does not. -/
def Outcome.succeeded : Outcome → Bool
  | .proxyRes statusCode => statusCode.any (fun code => code ≠ 0 ∧ code < 500)
  | .error => false

def ProxyClient.answered (o : ProxyOptions) (now : ℕ) (c : ProxyClient) (r : Outcome) : ProxyClient :=
  if r.succeeded then c.success else c.failure o now

/-- The client and the clock, in milliseconds. -/
structure ProxyRun where
  now : ℕ
  client : ProxyClient
  deriving DecidableEq, Repr

inductive ProxyEvent where
  | request
  | outcome (r : Outcome)
  | probeTimeout
  | tick (ms : ℕ)
  deriving DecidableEq, Repr

/-- Neither a request nor an outcome. -/
def ProxyEvent.quiet : ProxyEvent → Bool
  | .request => false
  | .outcome _ => false
  | .probeTimeout => true
  | .tick _ => true

namespace ProxyRun
variable (o : ProxyOptions)

def initial : ProxyRun := ⟨0,.initial⟩

/-- The clock does not pass a timer that is due. -/
def next (s : ProxyRun) : ProxyEvent → Option ProxyRun
  | .request => some {s with client := (s.client.isCircuitOpen o s.now).2}
  | .outcome r => some {s with client := s.client.answered o s.now r}
  | .probeTimeout =>
    match s.client.probeTimeout with
    | some ⟨due,true⟩ =>
      if due ≤ s.now then
        let fired := {s.client with probeTimeout := some ⟨due,false⟩}
        some {s with client := fired.probeExpired o s.now}
      else none
    | _ => none
  | .tick ms =>
    if s.client.probeTimeout.all (fun t => !t.armed || s.now+ms ≤ t.due) then
      some {s with now := s.now+ms}
    else none

/-- A request would be admitted now. -/
def admits (s : ProxyRun) : Bool := !(s.client.isCircuitOpen o s.now).1

/-- How many requests of a run are admitted. -/
def admissions : ProxyRun → List ProxyEvent → ℕ
  | _, [] => 0
  | s, a::as => (if a = .request ∧ s.admits o then 1 else 0)+
      ((s.next o a).map fun t => admissions t as).getD 0

end ProxyRun

/-- The events that lead into a state from another one. -/
def ProxyEvent.Enters (o : ProxyOptions) (s : ProxyRun) (a : ProxyEvent) : CircuitState → Prop
  | .closed => ∃ r, a = .outcome r ∧ r.succeeded
  | .opened => a = .probeTimeout ∨ ∃ r, a = .outcome r ∧ ¬r.succeeded
  | .halfOpen => a = .request ∧ s.admits o

/-- The failures after the last success. -/
def failuresSince (as : List ProxyEvent) : ℕ :=
  as.foldl (fun n a =>
    match a with
    | .outcome r => if r.succeeded then 0 else n+1
    | _ => n) 0

/-- How the fields of a client agree. -/
structure ProxyClient.Consistent (o : ProxyOptions) (c : ProxyClient) : Prop where
  probe : c.state = .halfOpen ↔ c.probeInFlight
  timer : c.probeInFlight ↔ c.probeArmed
  openedAt : c.circuitOpenedAt = none ↔ c.state = .closed
  failures : c.failures < o.failureThreshold

/-- The circuit opened in the past, and the armed timer lies ahead. -/
structure ProxyRun.Timed (o : ProxyOptions) (s : ProxyRun) : Prop where
  past : ∀ τ, s.client.circuitOpenedAt = some τ → τ ≤ s.now
  ahead : ∀ t, s.client.probeTimeout = some t → t.armed →
    s.now ≤ t.due ∧ t.due ≤ s.now+o.proxyTimeoutMs+1000

section Steps
variable {o : ProxyOptions} {now : ℕ} {c : ProxyClient}

theorem setTimeoutDelay_le (ms : ℕ) : setTimeoutDelay (ms+1000) ≤ ms+1000 := by
  unfold setTimeoutDelay
  split <;> omega

namespace ProxyClient

@[simp] theorem success_eq : c.success = initial := rfl

theorem failure_halfOpen (hs : c.state = .halfOpen) (hp : c.probeInFlight) :
    c.failure o now = ⟨.opened,0,some now,false,none⟩ := by
  simp [failure,hs,hp]

theorem failure_trips (hs : c.state ≠ .halfOpen) (hf : o.failureThreshold ≤ c.failures+1) :
    c.failure o now = ⟨.opened,0,some now,false,none⟩ := by
  simp [failure,hs,hf]

theorem failure_counts (hs : c.state ≠ .halfOpen) (hf : ¬o.failureThreshold ≤ c.failures+1) :
    c.failure o now = ⟨c.state,c.failures+1,c.circuitOpenedAt,false,none⟩ := by
  simp [failure,hs,hf]

theorem isCircuitOpen_closed (hs : c.state = .closed) : c.isCircuitOpen o now = (false,c) := by
  simp [isCircuitOpen,hs]

theorem isCircuitOpen_waits {τ : ℕ} (hs : c.state = .opened) (hτ : c.circuitOpenedAt = some τ)
    (h : now ≤ τ+o.resetAfterMs) : c.isCircuitOpen o now = (true,c) := by
  simp [isCircuitOpen,hs,hτ,h]

theorem isCircuitOpen_probes {τ : ℕ} (hs : c.state = .opened) (hτ : c.circuitOpenedAt = some τ)
    (h : ¬now ≤ τ+o.resetAfterMs) : c.isCircuitOpen o now = (false,⟨.halfOpen,c.failures,some τ,
      true,some ⟨now+setTimeoutDelay (o.proxyTimeoutMs+1000),true⟩⟩) := by
  simp [isCircuitOpen,startProbeTimeout,hs,hτ,h]

theorem isCircuitOpen_halfOpen (hs : c.state = .halfOpen) (hp : c.probeInFlight) :
    c.isCircuitOpen o now = (true,c) := by
  simp [isCircuitOpen,hs,hp]

namespace Consistent

theorem initial : Consistent o .initial := by
  constructor <;> simp [ProxyClient.initial,probeArmed]
  exact o.threshold_pos

theorem opened : Consistent o ⟨.opened,0,some now,false,none⟩ := by
  constructor <;> simp [probeArmed]
  exact o.threshold_pos

/-- An open circuit knows when it opened. -/
theorem openedAt_some (h : c.Consistent o) (hs : c.state ≠ .closed) :
    ∃ τ, c.circuitOpenedAt = some τ :=
  Option.ne_none_iff_exists'.mp (fun hn => hs (h.openedAt.mp hn))

/-- What an outcome or a timeout does: it changes a half-open circuit at once, and any other one
counts. -/
theorem failure_cases (h : c.Consistent o) (now : ℕ) :
    c.failure o now = ⟨.opened,0,some now,false,none⟩ ∧
        (c.state = .halfOpen ∨ c.failures+1 = o.failureThreshold) ∨
      c.failure o now = {c with failures := c.failures+1, probeTimeout := none} ∧
        c.state ≠ .halfOpen ∧ c.failures+1 < o.failureThreshold := by
  have hlt := h.failures
  by_cases hs : c.state = .halfOpen
  · exact .inl ⟨failure_halfOpen hs (h.probe.mp hs),.inl hs⟩
  by_cases hf : o.failureThreshold ≤ c.failures+1
  · exact .inl ⟨failure_trips hs hf,.inr (by omega)⟩
  · have hp : c.probeInFlight = false := by simpa using fun hp => hs (h.probe.mpr hp)
    exact .inr ⟨by rw [failure_counts hs hf,hp],hs,by omega⟩

theorem failure (h : c.Consistent o) : (c.failure o now).Consistent o := by
  rcases h.failure_cases now with ⟨he,-⟩ | ⟨he,hs,hf⟩
  · rw [he]
    exact opened
  · rw [he]
    refine ⟨h.probe,?_,h.openedAt,hf⟩
    have hp : ¬c.probeInFlight := fun hp => hs (h.probe.mpr hp)
    simp [probeArmed,hp]

theorem answered (h : c.Consistent o) (r : Outcome) : (c.answered o now r).Consistent o := by
  unfold ProxyClient.answered
  split
  · exact initial
  · exact h.failure

/-- What a request does. -/
theorem isCircuitOpen_cases (h : c.Consistent o) (now : ℕ) :
    c.isCircuitOpen o now = (false,c) ∧ c.state = .closed ∨
    c.isCircuitOpen o now = (true,c) ∧ c.state ≠ .closed ∨
    ∃ τ, c.isCircuitOpen o now = (false,⟨.halfOpen,c.failures,some τ,true,
        some ⟨now+setTimeoutDelay (o.proxyTimeoutMs+1000),true⟩⟩) ∧
      c.state = .opened ∧ c.circuitOpenedAt = some τ ∧ τ+o.resetAfterMs < now := by
  cases hs : c.state with
  | closed => exact .inl ⟨isCircuitOpen_closed hs,rfl⟩
  | halfOpen => exact .inr (.inl ⟨isCircuitOpen_halfOpen hs (h.probe.mp hs),by simp⟩)
  | opened =>
    obtain ⟨τ,hτ⟩ := h.openedAt_some (by simp [hs])
    by_cases hnow : now ≤ τ+o.resetAfterMs
    · exact .inr (.inl ⟨isCircuitOpen_waits hs hτ hnow,by simp⟩)
    · exact .inr (.inr ⟨τ,isCircuitOpen_probes hs hτ hnow,rfl,hτ,by omega⟩)

theorem isCircuitOpen (h : c.Consistent o) : (c.isCircuitOpen o now).2.Consistent o := by
  rcases h.isCircuitOpen_cases now with ⟨he,-⟩ | ⟨he,-⟩ | ⟨τ,he,-⟩
  · rw [he]
    exact h
  · rw [he]
    exact h
  · rw [he]
    constructor <;> simp [probeArmed,h.failures]

end Consistent
end ProxyClient

namespace ProxyRun
variable {s t u : ProxyRun} {a : ProxyEvent}

/-- The invariant of the reachable states. -/
structure Sound (o : ProxyOptions) (s : ProxyRun) : Prop where
  consistent : s.client.Consistent o
  timed : s.Timed o

/-- The timer fires in a half-open circuit, and opens it. -/
theorem next_probeTimeout (h : s.client.Consistent o) (hn : s.next o .probeTimeout = some t) :
    s.client.state = .halfOpen ∧ (∃ due ≤ s.now, s.client.probeTimeout = some ⟨due,true⟩) ∧
      t = ⟨s.now,⟨.opened,0,some s.now,false,none⟩⟩ := by
  simp only [next] at hn
  split at hn
  · rename_i due htimer
    split at hn
    · rename_i hdue
      have hp : s.client.probeInFlight := h.timer.mpr (by simp [ProxyClient.probeArmed,htimer])
      have hs := h.probe.mpr hp
      refine ⟨hs,⟨due,hdue,htimer⟩,?_⟩
      rw [Option.some.injEq] at hn
      rw [← hn,ProxyClient.probeExpired,if_pos hp]
      exact congrArg (ProxyRun.mk s.now) (ProxyClient.failure_halfOpen hs hp)
    · contradiction
  · contradiction

theorem next_tick {ms : ℕ} (hn : s.next o (.tick ms) = some t) :
    t = {s with now := s.now+ms} ∧
      ∀ timer, s.client.probeTimeout = some timer → timer.armed → s.now+ms ≤ timer.due := by
  simp only [next] at hn
  split at hn
  · rename_i hall
    refine ⟨(Option.some.inj hn).symm,fun timer htimer harmed => ?_⟩
    simpa [htimer,harmed] using hall
  · contradiction

theorem Timed.of_none {now τ : ℕ} {state : CircuitState} {failures : ℕ} {probe : Bool}
    (h : τ ≤ now) : Timed o ⟨now,⟨state,failures,some τ,probe,none⟩⟩ :=
  ⟨fun _ hτ => Option.some.inj hτ ▸ h,fun _ ht => by contradiction⟩

namespace Sound

theorem initial : Sound o .initial :=
  ⟨.initial,fun _ h => by contradiction,fun _ h => by contradiction⟩

theorem answered (h : s.Sound o) (r : Outcome) :
    Sound o {s with client := s.client.answered o s.now r} := by
  refine ⟨h.consistent.answered r,?_⟩
  unfold ProxyClient.answered
  split
  · exact ⟨fun _ h => by contradiction,fun _ h => by contradiction⟩
  · rcases h.consistent.failure_cases s.now with ⟨he,-⟩ | ⟨he,-⟩
    · rw [he]
      exact .of_none le_rfl
    · rw [he]
      exact ⟨h.timed.past,fun _ h => by contradiction⟩

theorem request (h : s.Sound o) :
    Sound o {s with client := (s.client.isCircuitOpen o s.now).2} := by
  refine ⟨h.consistent.isCircuitOpen,?_⟩
  rcases h.consistent.isCircuitOpen_cases s.now with
    ⟨he,-⟩ | ⟨he,-⟩ | ⟨τ,he,-,hτ,hlt⟩
  · rw [he]
    exact h.timed
  · rw [he]
    exact h.timed
  · rw [he]
    refine ⟨fun τ' h' => ?_,fun timer htimer _ => ?_⟩
    · exact h.timed.past τ' (hτ.trans h')
    · obtain rfl := Option.some.inj htimer
      have := setTimeoutDelay_le o.proxyTimeoutMs
      simp only
      omega

theorem next (h : s.Sound o) (hn : s.next o a = some t) : t.Sound o := by
  cases a with
  | request =>
    cases hn
    exact h.request
  | outcome r =>
    cases hn
    exact h.answered r
  | probeTimeout =>
    obtain ⟨-,-,rfl⟩ := next_probeTimeout h.consistent hn
    exact ⟨.opened,.of_none le_rfl⟩
  | tick ms =>
    obtain ⟨rfl,hdue⟩ := next_tick hn
    refine ⟨h.consistent,fun τ hτ => (h.timed.past τ hτ).trans (Nat.le_add_right ..),
      fun timer htimer harmed => ⟨hdue timer htimer harmed,?_⟩⟩
    have := (h.timed.ahead timer htimer harmed).2
    simp only
    omega

theorem of_runs {as : List ProxyEvent} (hr : runs (ProxyRun.next o) .initial as = some s) :
    s.Sound o := runs_invariant' (fun _ _ _ h hn => next h hn) initial hr

end Sound

/-- An outcome that leaves the circuit closed counts from the last success. -/
theorem failuresSince_append (as : List ProxyEvent) (a : ProxyEvent) : failuresSince (as++[a]) =
    match a with
    | .outcome r => if r.succeeded then 0 else failuresSince as+1
    | _ => failuresSince as := by
  rw [failuresSince,List.foldl_append]
  rfl

/-- The count of a closed circuit. -/
theorem failures_eq {as : List ProxyEvent} (hr : runs (ProxyRun.next o) .initial as = some s)
    (hs : s.client.state = .closed) : s.client.failures = failuresSince as := by
  induction as using List.reverseRecOn generalizing s with
  | nil =>
    cases hr
    rfl
  | append_singleton as a ih =>
    obtain ⟨t,ht,hlast⟩ := runs_append.mp hr
    have h := Sound.of_runs ht
    simp only [runs_cons,runs_nil,Option.some.injEq,exists_eq_right] at hlast
    rw [failuresSince_append]
    cases a with
    | request =>
      cases hlast
      rcases h.consistent.isCircuitOpen_cases t.now with ⟨he,-⟩ | ⟨he,-⟩ | ⟨τ,he,-⟩
      · rw [he] at hs ⊢
        exact ih ht hs
      · rw [he] at hs ⊢
        exact ih ht hs
      · rw [he] at hs
        contradiction
    | outcome r =>
      cases hlast
      simp only [ProxyClient.answered] at hs ⊢
      split at hs
      · rename_i hr
        rw [if_pos hr,if_pos hr]
        rfl
      · rename_i hr
        rw [if_neg hr,if_neg hr]
        rcases h.consistent.failure_cases t.now with ⟨he,-⟩ | ⟨he,-⟩
        · rw [he] at hs
          contradiction
        · rw [he] at hs ⊢
          exact congrArg (·+1) (ih ht hs)
    | probeTimeout =>
      obtain ⟨-,-,rfl⟩ := next_probeTimeout h.consistent hlast
      contradiction
    | tick ms =>
      obtain ⟨rfl,-⟩ := next_tick hlast
      have hcount : t.client.failures = failuresSince as := ih ht hs
      exact hcount

/-- A half-open circuit admits nothing. -/
theorem admits_halfOpen (h : s.client.Consistent o) (hs : s.client.state = .halfOpen) :
    s.admits o = false := by
  rw [admits,ProxyClient.isCircuitOpen_halfOpen hs (h.probe.mp hs)]
  rfl

/-- Only an admitted request makes a circuit half-open. -/
theorem admitted_of_entry (h : s.client.Consistent o) (hs : s.client.state ≠ .halfOpen)
    (hn : s.next o a = some t) (ht : t.client.state = .halfOpen) : a = .request ∧ s.admits o := by
  cases a with
  | request =>
    cases hn
    refine ⟨rfl,?_⟩
    rcases h.isCircuitOpen_cases s.now with ⟨he,-⟩ | ⟨he,-⟩ | ⟨τ,he,-⟩
    · rw [admits,he]
      rfl
    · rw [he] at ht
      exact absurd ht hs
    · rw [admits,he]
      rfl
  | outcome r =>
    cases hn
    simp only [ProxyClient.answered] at ht
    split at ht
    · contradiction
    · rcases h.failure_cases s.now with ⟨he,-⟩ | ⟨he,-⟩
      · rw [he] at ht
        contradiction
      · rw [he] at ht
        exact absurd ht hs
  | probeTimeout => exact absurd (next_probeTimeout h hn).1 hs
  | tick ms =>
    obtain ⟨rfl,-⟩ := next_tick hn
    exact absurd ht hs

/-- While the circuit is half-open nobody is admitted. -/
theorem admissions_halfOpen {as : List ProxyEvent} (h : s.Sound o)
    (hstay : Along (ProxyRun.next o) (fun s _ => s.client.state = .halfOpen) s as) :
    s.admissions o as = 0 := by
  induction as generalizing s with
  | nil => rfl
  | cons a as ih =>
    have hrest : ((s.next o a).map fun t => admissions o t as).getD 0 = 0 := by
      cases hn : s.next o a with
      | none => rfl
      | some t => exact ih (h.next hn) (hstay.2 t hn)
    simp [admissions,admits_halfOpen h.consistent hstay.1,hrest]

/-- One request is admitted in a period that the circuit is half-open. -/
theorem admissions_period {as : List ProxyEvent} (h : s.Sound o)
    (hs : s.client.state ≠ .halfOpen) (hn : s.next o a = some t) (ht : t.client.state = .halfOpen)
    (hstay : Along (ProxyRun.next o) (fun s _ => s.client.state = .halfOpen) t as) :
    s.admissions o (a::as) = 1 := by
  have hrest : ((s.next o a).map fun t => admissions o t as).getD 0 = 0 := by
    rw [hn]
    exact admissions_halfOpen (h.next hn) hstay
  rw [admissions,if_pos (admitted_of_entry h.consistent hs hn ht),hrest]

/-- An open circuit rejects until its time is over, and a half-open one as long as it is. -/
theorem admits_iff (h : s.client.Consistent o) : s.admits o ↔ s.client.state = .closed ∨
    s.client.state = .opened ∧ ∃ τ, s.client.circuitOpenedAt = some τ ∧ τ+o.resetAfterMs < s.now := by
  cases hs : s.client.state with
  | closed => simp [admits,ProxyClient.isCircuitOpen_closed hs]
  | halfOpen => simp [admits_halfOpen h hs]
  | opened =>
    obtain ⟨τ,hτ⟩ := h.openedAt_some (by simp [hs])
    by_cases hnow : s.now ≤ τ+o.resetAfterMs
    · simp [admits,ProxyClient.isCircuitOpen_waits hs hτ hnow,hτ,hnow]
    · simp [admits,ProxyClient.isCircuitOpen_probes hs hτ hnow,hτ,Nat.not_le.mp hnow]

/-- What a step enters another state by. -/
theorem next_enters (h : s.client.Consistent o) (hn : s.next o a = some t)
    (hne : t.client.state ≠ s.client.state) : a.Enters o s t.client.state := by
  cases a with
  | request =>
    cases hn
    simp only at hne ⊢
    rcases h.isCircuitOpen_cases s.now with ⟨he,-⟩ | ⟨he,-⟩ | ⟨τ,he,-⟩
    · simp [he] at hne
    · simp [he] at hne
    · simp [he,ProxyEvent.Enters,admits]
  | outcome r =>
    cases hn
    simp only [ProxyClient.answered] at hne ⊢
    split at hne
    · rename_i hr
      rw [if_pos hr]
      exact ⟨r,rfl,hr⟩
    · rename_i hr
      rw [if_neg hr]
      rcases h.failure_cases s.now with ⟨he,-⟩ | ⟨he,-⟩
      · rw [he]
        exact .inr ⟨r,rfl,hr⟩
      · rw [he] at hne
        contradiction
  | probeTimeout =>
    obtain ⟨-,-,rfl⟩ := next_probeTimeout h hn
    exact .inl rfl
  | tick ms =>
    obtain ⟨rfl,-⟩ := next_tick hn
    contradiction

/-- The state of the breaker before and after a quiet step: by `bound` it is ready, or has a timer
that will be. -/
structure Settles (bound : ℕ) (s : ProxyRun) : Prop where
  opened : s.client.state = .opened → ∀ τ, s.client.circuitOpenedAt = some τ → τ ≤ bound
  probing : s.client.state = .halfOpen → ∃ due ≤ bound, s.client.probeTimeout = some ⟨due,true⟩

/-- An armed timer. -/
theorem exists_timer (h : s.client.Consistent o) (hs : s.client.state = .halfOpen) :
    ∃ due, s.client.probeTimeout = some ⟨due,true⟩ := by
  have harmed := h.timer.mp (h.probe.mp hs)
  rw [ProxyClient.probeArmed,Option.any_eq_true] at harmed
  obtain ⟨⟨due,armed⟩,ht,ha⟩ := harmed
  exact ⟨due,by rw [ht,show armed = true from ha]⟩

theorem Sound.settles (h : s.Sound o) : s.Settles (s.now+o.proxyTimeoutMs+1000) := by
  refine ⟨fun _ τ hτ => ?_,fun hs => ?_⟩
  · have := h.timed.past τ hτ
    omega
  · obtain ⟨due,hdue⟩ := exists_timer h.consistent hs
    exact ⟨due,(h.timed.ahead _ hdue rfl).2,hdue⟩

theorem Settles.next {bound : ℕ} (h : s.Settles bound) (hsound : s.Sound o) (hq : a.quiet)
    (hn : s.next o a = some t) : t.Settles bound := by
  cases a with
  | request => contradiction
  | outcome r => contradiction
  | probeTimeout =>
    obtain ⟨hs,⟨due,hdue,htimer⟩,rfl⟩ := next_probeTimeout hsound.consistent hn
    obtain ⟨due',hle,htimer'⟩ := h.probing hs
    have hnow := (hsound.timed.ahead _ htimer rfl).1
    rw [htimer] at htimer'
    cases htimer'
    refine ⟨fun _ τ hτ => ?_,fun hs => by contradiction⟩
    obtain rfl := Option.some.inj hτ
    exact hnow.trans hle
  | tick ms =>
    obtain ⟨rfl,-⟩ := next_tick hn
    exact ⟨h.opened,h.probing⟩

theorem Settles.admits {bound : ℕ} (h : s.Settles bound) (hsound : s.Sound o)
    (hnow : bound+o.resetAfterMs < s.now) : s.admits o := by
  cases hs : s.client.state with
  | closed =>
    rw [ProxyRun.admits,ProxyClient.isCircuitOpen_closed hs]
    rfl
  | opened =>
    obtain ⟨τ,hτ⟩ := hsound.consistent.openedAt_some (by simp [hs])
    have := h.opened hs τ hτ
    rw [ProxyRun.admits,ProxyClient.isCircuitOpen_probes hs hτ (by omega)]
    rfl
  | halfOpen =>
    obtain ⟨due,hle,htimer⟩ := h.probing hs
    have := (hsound.timed.ahead _ htimer rfl).1
    simp only at this
    omega

theorem Settles.of_runs {bound : ℕ} {as : List ProxyEvent} (h : s.Settles bound)
    (hsound : s.Sound o) (hq : ∀ a ∈ as, a.quiet) (hr : runs (ProxyRun.next o) s as = some t) :
    t.Settles bound ∧ t.Sound o := by
  have hgood : Along (ProxyRun.next o) (fun _ a => a.quiet) s as := .of_forall (fun a ha _ => hq a ha) s
  have hstep : ∀ s a t, Settles bound s ∧ Sound o s → a.quiet → ProxyRun.next o s a = some t →
      Settles bound t ∧ Sound o t := fun _ _ _ hI hq hn => ⟨hI.1.next hI.2 hq hn,hI.2.next hn⟩
  exact runs_invariant hstep ⟨h,hsound⟩ hgood hr

/-- Time passes on its own up to the probe timer. -/
theorem next_tick_of_ahead {time : ℕ} (hle : s.now ≤ time)
    (h : ∀ timer, s.client.probeTimeout = some timer → timer.armed → time ≤ timer.due) :
    s.next o (.tick (time-s.now)) = some {s with now := time} := by
  have hnow : s.now+(time-s.now) = time := by omega
  have hall : s.client.probeTimeout.all (fun t => !t.armed || s.now+(time-s.now) ≤ t.due) := by
    rw [hnow]
    cases htimer : s.client.probeTimeout with
    | none => rfl
    | some timer => cases harmed : timer.armed <;> simp [harmed,h timer htimer]
  rw [next,if_pos hall,hnow]

/-- The clock reaches every later time without a request or an outcome. -/
theorem exists_quiet_run (h : s.Sound o) {time : ℕ} (hle : s.now ≤ time) :
    ∃ as u, (∀ a ∈ as, a.quiet) ∧ runs (ProxyRun.next o) s as = some u ∧ u.now = time := by
  by_cases hlate : ∀ timer, s.client.probeTimeout = some timer → timer.armed → time ≤ timer.due
  · refine ⟨[.tick (time-s.now)],{s with now := time},by simp [ProxyEvent.quiet],?_,rfl⟩
    rw [runs,next_tick_of_ahead hle hlate]
    rfl
  -- the timer is due on the way
  simp only [not_forall,Nat.not_le] at hlate
  obtain ⟨⟨due,armed⟩,htimer,harmed,hdue⟩ := hlate
  obtain rfl : armed = true := harmed
  have hahead := (h.timed.ahead _ htimer rfl).1
  have h₁ : s.next o (.tick (due-s.now)) = some {s with now := due} :=
    next_tick_of_ahead hahead (fun timer ht _ => by rw [htimer] at ht; cases ht; exact le_rfl)
  have hsound := h.next h₁
  obtain ⟨t,h₂⟩ : ∃ t, ProxyRun.next o {s with now := due} .probeTimeout = some t := by
    simp [next,htimer]
  obtain ⟨-,-,rfl⟩ := next_probeTimeout hsound.consistent h₂
  have h₃ : ProxyRun.next o ⟨due,⟨.opened,0,some due,false,none⟩⟩ (.tick (time-due)) =
      some ⟨time,⟨.opened,0,some due,false,none⟩⟩ :=
    @next_tick_of_ahead o ⟨due,_⟩ time hdue.le (fun _ ht => by contradiction)
  refine ⟨[.tick (due-s.now),.probeTimeout,.tick (time-due)],
    ⟨time,⟨.opened,0,some due,false,none⟩⟩,by simp [ProxyEvent.quiet],?_,rfl⟩
  rw [runs_cons]
  refine ⟨_,h₁,runs_cons.mpr ⟨_,h₂,?_⟩⟩
  rw [runs,h₃]
  rfl

/-- The outcome that brings the count to the threshold opens the circuit, and no other. -/
theorem opens_iff {as : List ProxyEvent} (hr : runs (ProxyRun.next o) .initial as = some s)
    (hs : s.client.state = .closed) {r : Outcome} (hn : s.next o (.outcome r) = some t) :
    t.client.state = .opened ↔ failuresSince (as++[.outcome r]) = o.failureThreshold := by
  have h := Sound.of_runs hr
  have hcount := failures_eq hr hs
  have hpos := o.threshold_pos
  cases hn
  rw [failuresSince_append]
  simp only [ProxyClient.answered,← hcount]
  split
  · simp only [ProxyClient.success]
    simp
    omega
  · rcases h.consistent.failure_cases s.now with ⟨he,hwhy⟩ | ⟨he,-,hlt⟩
    · rw [he]
      simpa [hs] using hwhy
    · rw [he]
      simp only [hs]
      simp
      omega

end ProxyRun

/-- The circuit breaker after any run. -/
theorem circuit_breaker {as : List ProxyEvent} {s : ProxyRun}
    (hr : runs (ProxyRun.next o) .initial as = some s) :
    s.client.Consistent o ∧
    (s.client.state = .closed → s.client.failures = failuresSince as ∧
      ∀ r t, s.next o (.outcome r) = some t →
        (t.client.state = .opened ↔ failuresSince (as++[.outcome r]) = o.failureThreshold)) ∧
    (∀ a t bs, s.client.state ≠ .halfOpen → s.next o a = some t → t.client.state = .halfOpen →
      Along (ProxyRun.next o) (fun s _ => s.client.state = .halfOpen) t bs →
      s.admissions o (a::bs) = 1) ∧
    (s.admits o ↔ s.client.state = .closed ∨
      s.client.state = .opened ∧ ∃ τ, s.client.circuitOpenedAt = some τ ∧ τ+o.resetAfterMs < s.now) ∧
    (∀ a t, s.next o a = some t → t.client.state ≠ s.client.state → a.Enters o s t.client.state) ∧
    ∀ time, s.now+o.proxyTimeoutMs+1000+o.resetAfterMs < time →
      (∃ bs u, (∀ a ∈ bs, a.quiet) ∧ runs (ProxyRun.next o) s bs = some u ∧ u.now = time) ∧
      ∀ bs u, (∀ a ∈ bs, a.quiet) → runs (ProxyRun.next o) s bs = some u → u.now = time →
        u.admits o := by
  have h := ProxyRun.Sound.of_runs hr
  refine ⟨h.consistent,fun hs => ⟨ProxyRun.failures_eq hr hs,fun r t hn => ProxyRun.opens_iff hr hs hn⟩,
    fun a t bs hs hn ht hstay => ProxyRun.admissions_period h hs hn ht hstay,
    ProxyRun.admits_iff h.consistent,fun a t hn hne => ProxyRun.next_enters h.consistent hn hne,
    fun time htime => ⟨ProxyRun.exists_quiet_run h (by omega),fun bs u hq hu hnow => ?_⟩⟩
  obtain ⟨hsettles,hsound⟩ := h.settles.of_runs h hq hu
  exact hsettles.admits hsound (by omega)

end Steps

def twoFailures : ProxyOptions := ⟨2,5000,10000,by decide⟩

/-- A circuit that trips, and whose probe never ends: one request is admitted in the period of the
probe, and somebody is again in the end. -/
theorem circuit_breaker_probing :
    (∀ r t, ProxyRun.next twoFailures ⟨0,⟨.closed,1,none,false,none⟩⟩ (.outcome r) = some t →
      (t.client.state = .opened ↔ failuresSince [.outcome .error,.outcome r] = 2)) ∧
    ProxyRun.admissions twoFailures ⟨5001,⟨.opened,0,some 0,false,none⟩⟩ [.request,.tick 10,.request] =
      1 ∧
    ∃ bs u, (∀ a ∈ bs, a.quiet) ∧ runs (ProxyRun.next twoFailures)
      ⟨5001,⟨.halfOpen,0,some 0,true,some ⟨16001,true⟩⟩⟩ bs = some u ∧ u.now = 22000 ∧
      u.admits twoFailures := by
  obtain ⟨-,hclosed,-⟩ := @circuit_breaker twoFailures [.outcome .error]
    ⟨0,⟨.closed,1,none,false,none⟩⟩ rfl
  obtain ⟨-,-,hperiod,-⟩ := @circuit_breaker twoFailures [.outcome .error,.outcome .error,.tick 5001]
    ⟨5001,⟨.opened,0,some 0,false,none⟩⟩ rfl
  obtain ⟨-,-,-,-,-,hready⟩ := @circuit_breaker twoFailures
    [.outcome .error,.outcome .error,.tick 5001,.request]
    ⟨5001,⟨.halfOpen,0,some 0,true,some ⟨16001,true⟩⟩⟩ rfl
  have hstay : Along (ProxyRun.next twoFailures) (fun s _ => s.client.state = .halfOpen)
      ⟨5001,⟨.halfOpen,0,some 0,true,some ⟨16001,true⟩⟩⟩ [.tick 10,.request] := by
    refine ⟨rfl,fun t ht => ?_⟩
    cases ht
    exact ⟨rfl,fun _ _ => trivial⟩
  obtain ⟨⟨bs,u,hquiet,hu,hnow⟩,hall⟩ := hready 22000 (by decide)
  exact ⟨(hclosed rfl).2,hperiod .request _ [.tick 10,.request] (by decide) rfl rfl hstay,
    bs,u,hquiet,hu,hnow,hall bs u hquiet hu hnow⟩

end NestHomework.Proxy
