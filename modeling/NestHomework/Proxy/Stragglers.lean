import NestHomework.Proxy.ProxyClient

/-! Which outcomes decide a tripped circuit. The callbacks of the client do not know whose outcome
they get: one of a request that was admitted long before counts as the probe's. -/
namespace NestHomework.Proxy
open Transition

/-- The client with the requests that it admitted and that have no outcome yet. The last three
fields are history: when the circuit opened, and when which probe was admitted. -/
structure Traffic where
  run : ProxyRun
  issued : ℕ
  waiting : List ℕ
  openedAt : ℕ
  probe : ℕ
  probedAt : ℕ
  deriving DecidableEq, Repr

inductive TrafficEvent where
  | request
  | outcome (id : ℕ) (r : Outcome)
  | probeTimeout
  | tick (ms : ℕ)
  deriving DecidableEq, Repr

def TrafficEvent.event : TrafficEvent → ProxyEvent
  | .request => .request
  | .outcome _ r => .outcome r
  | .probeTimeout => .probeTimeout
  | .tick ms => .tick ms

namespace Traffic
variable (o : ProxyOptions)

def initial : Traffic := ⟨.initial,0,[],0,0,0⟩

/-- The history after a step of the client. -/
def move (s : Traffic) (r : ProxyRun) : Traffic :=
  let opens : Bool := s.run.client.state ≠ .opened ∧ r.client.state = .opened
  let probes : Bool := s.run.client.state ≠ .halfOpen ∧ r.client.state = .halfOpen
  {s with
    run := r
    openedAt := if opens then r.now else s.openedAt
    probe := if probes then s.issued else s.probe
    probedAt := if probes then r.now else s.probedAt}

/-- Every admitted request has at most one outcome. -/
def next (s : Traffic) : TrafficEvent → Option Traffic
  | .request => (s.run.next o .request).map fun r =>
    if s.run.admits o then {s.move r with issued := s.issued+1, waiting := s.waiting++[s.issued]}
    else s.move r
  | .outcome id r =>
    if s.waiting.contains id then
      (s.run.next o (.outcome r)).map fun r => {s.move r with waiting := s.waiting.erase id}
    else none
  | .probeTimeout => (s.run.next o .probeTimeout).map s.move
  | .tick ms => (s.run.next o (.tick ms)).map s.move

/-- An open circuit changes by admitting a probe, long enough after it opened; a half-open one by
the outcome of its probe or by the timeout of it. -/
def Decided (s : Traffic) (a : TrafficEvent) : Prop :=
  ∀ t, s.next o a = some t →
    (s.run.client.state = .opened →
      (t.run.client.state = .opened ∧ t.run.client.circuitOpenedAt = s.run.client.circuitOpenedAt) ∨
      (a = .request ∧ t.run.client.state = .halfOpen ∧ s.openedAt+o.resetAfterMs < s.run.now)) ∧
    (s.run.client.state = .halfOpen →
      t.run.client.state = .halfOpen ∨ (∃ r, a = .outcome s.probe r) ∨
      (a = .probeTimeout ∧ s.run.now = s.probedAt+setTimeoutDelay (o.proxyTimeoutMs+1000)))

/-- No outcome arrives late: while the circuit is open, no success and no failure that completes
the threshold anew after the moment it opened; while it is half-open, none but the probe's. -/
def Calm (s : Traffic) (a : TrafficEvent) : Prop :=
  ∀ id r, a = .outcome id r → id ∈ s.waiting →
    (s.run.client.state = .opened → ¬r.succeeded ∧
      (s.run.client.failures+1 = o.failureThreshold →
        s.run.client.circuitOpenedAt = some s.run.now)) ∧
    (s.run.client.state = .halfOpen → id = s.probe)

/-- The history agrees with the fields of the client. -/
structure Sound (s : Traffic) : Prop where
  run : s.run.Sound o
  opened : s.run.client.state = .opened →
    ∀ τ, s.run.client.circuitOpenedAt = some τ → s.openedAt ≤ τ
  timer : s.run.client.state = .halfOpen → s.run.client.probeTimeout =
    some ⟨s.probedAt+setTimeoutDelay (o.proxyTimeoutMs+1000),true⟩

section Steps
variable {o : ProxyOptions} {s t : Traffic} {a : TrafficEvent}

/-- The client makes the step of the event. -/
theorem next_run (hn : s.next o a = some t) : s.run.next o a.event = some t.run ∧
    t.openedAt = (s.move t.run).openedAt ∧ t.probedAt = (s.move t.run).probedAt := by
  cases a with
  | request =>
    simp only [next] at hn
    obtain ⟨r,hr,rfl⟩ := Option.map_eq_some_iff.mp hn
    rw [TrafficEvent.event,hr]
    split <;> exact ⟨rfl,rfl,rfl⟩
  | outcome id r =>
    simp only [next] at hn
    split at hn
    · obtain ⟨r,hr,rfl⟩ := Option.map_eq_some_iff.mp hn
      exact ⟨hr,rfl,rfl⟩
    · contradiction
  | probeTimeout =>
    simp only [next] at hn
    obtain ⟨r,hr,rfl⟩ := Option.map_eq_some_iff.mp hn
    exact ⟨hr,rfl,rfl⟩
  | tick ms =>
    simp only [next] at hn
    obtain ⟨r,hr,rfl⟩ := Option.map_eq_some_iff.mp hn
    exact ⟨hr,rfl,rfl⟩

theorem exists_id {r : Outcome} (h : a.event = .outcome r) : ∃ id, a = .outcome id r := by
  cases a with
  | outcome id r' =>
    cases h
    exact ⟨id,rfl⟩
  | request => contradiction
  | probeTimeout => contradiction
  | tick ms => contradiction

theorem mem_waiting_of_next {id : ℕ} {r : Outcome} (hn : s.next o (.outcome id r) = some t) :
    id ∈ s.waiting := by
  simp only [next] at hn
  split at hn
  · rename_i h
    simpa using h
  · contradiction

/-- What a step of the client does to its state, its opening time and its timer. -/
inductive Turn (o : ProxyOptions) (s : ProxyRun) (a : ProxyEvent) (t : ProxyRun) : Prop
  | stays (now : t.now = s.now ∨ ∃ ms, a = .tick ms) (state : t.client.state = s.client.state)
      (openedAt : t.client.circuitOpenedAt = s.client.circuitOpenedAt)
      (timer : s.client.state = .halfOpen → t.client.probeTimeout = s.client.probeTimeout)
      (quiet : ∀ r, a = .outcome r → s.client.state ≠ .halfOpen ∧
        (s.client.state = .opened → ¬r.succeeded ∧ s.client.failures+1 < o.failureThreshold))
  | closes {r} (outcome : a = .outcome r) (succeeded : r.succeeded)
      (client : t = ⟨s.now,.initial⟩)
  | opens (cause : (∃ r, a = .outcome r ∧ ¬r.succeeded ∧
        (s.client.state = .halfOpen ∨ s.client.failures+1 = o.failureThreshold)) ∨
        a = .probeTimeout ∧ s.client.state = .halfOpen ∧
          ∃ due ≤ s.now, s.client.probeTimeout = some ⟨due,true⟩)
      (client : t = ⟨s.now,⟨.opened,0,some s.now,false,none⟩⟩)
  | probes {τ} (request : a = .request) (opened : s.client.state = .opened)
      (openedAt : s.client.circuitOpenedAt = some τ) (waited : τ+o.resetAfterMs < s.now)
      (client : t = ⟨s.now,⟨.halfOpen,s.client.failures,some τ,true,
        some ⟨s.now+setTimeoutDelay (o.proxyTimeoutMs+1000),true⟩⟩⟩)

theorem turn_of_next {s t : ProxyRun} {a : ProxyEvent} (h : s.Sound o) (hn : s.next o a = some t) :
    Turn o s a t := by
  cases a with
  | request =>
    cases hn
    rcases h.consistent.isCircuitOpen_cases s.now with ⟨he,-⟩ | ⟨he,-⟩ | ⟨τ,he,hs,hτ,hlt⟩
    · rw [he]
      exact .stays (.inl rfl) rfl rfl (fun _ => rfl) (fun _ h => by contradiction)
    · rw [he]
      exact .stays (.inl rfl) rfl rfl (fun _ => rfl) (fun _ h => by contradiction)
    · rw [he]
      exact .probes rfl hs hτ hlt rfl
  | outcome r =>
    cases hn
    unfold ProxyClient.answered
    split
    · rename_i hr
      exact .closes rfl hr rfl
    · rename_i hr
      rcases h.consistent.failure_cases s.now with ⟨he,hwhy⟩ | ⟨he,hs,hlt⟩
      · rw [he]
        exact .opens (.inl ⟨r,rfl,hr,hwhy⟩) rfl
      · rw [he]
        refine .stays (.inl rfl) rfl rfl (fun h => absurd h hs) (fun r' hr' => ?_)
        cases hr'
        exact ⟨hs,fun _ => ⟨hr,hlt⟩⟩
  | probeTimeout =>
    obtain ⟨hs,htimer,rfl⟩ := ProxyRun.next_probeTimeout h.consistent hn
    exact .opens (.inr ⟨rfl,hs,htimer⟩) rfl
  | tick ms =>
    obtain ⟨rfl,-⟩ := ProxyRun.next_tick hn
    exact .stays (.inr ⟨ms,rfl⟩) rfl rfl (fun _ => rfl) (fun _ h => by contradiction)

theorem Sound.initial : Sound o initial :=
  ⟨.initial,fun _ _ h => by contradiction,fun h => by contradiction⟩

theorem Sound.next (h : s.Sound o) (hn : s.next o a = some t) : t.Sound o := by
  obtain ⟨hrun,hopenedAt,hprobedAt⟩ := next_run hn
  simp only [move,decide_eq_true_eq] at hopenedAt hprobedAt
  refine ⟨h.run.next hrun,?_,?_⟩
  · intro hs τ hτ
    rw [hopenedAt]
    cases turn_of_next h.run hrun with
    | stays now state openedAt =>
      rw [state] at hs
      rw [if_neg (by simp [hs])]
      exact h.opened hs τ (openedAt ▸ hτ)
    | closes _ _ client => simp [client,ProxyClient.initial] at hs
    | opens _ client =>
      rw [client] at hτ ⊢
      obtain rfl := Option.some.inj hτ
      split
      · exact le_rfl
      · rename_i hsame
        have hopened : s.run.client.state = .opened := by simpa using hsame
        obtain ⟨τ,hτ⟩ := h.run.consistent.openedAt_some (by simp [hopened])
        exact (h.opened hopened τ hτ).trans (h.run.timed.past τ hτ)
    | probes _ _ _ _ client => simp [client] at hs
  · intro hs
    rw [hprobedAt]
    cases turn_of_next h.run hrun with
    | stays now state openedAt timer =>
      rw [state] at hs
      rw [if_neg (by simp [hs]),timer hs]
      exact h.timer hs
    | closes _ _ client => simp [client,ProxyClient.initial] at hs
    | opens _ client => simp [client] at hs
    | probes _ opened _ _ client =>
      rw [client,if_pos (by simp [opened])]

/-- A step is decided by the probe exactly when no outcome comes late. -/
theorem Sound.decided_iff (h : s.Sound o) : s.Decided o a ↔ s.Calm o a := by
  constructor
  · rintro hd id r rfl hmem
    obtain ⟨t,hn⟩ : ∃ t, s.next o (.outcome id r) = some t := by simp [Traffic.next,hmem,ProxyRun.next]
    obtain ⟨hopen,hhalf⟩ := hd t hn
    cases turn_of_next h.run (next_run hn).1 with
    | stays _ _ _ _ quiet =>
      obtain ⟨hne,hquiet⟩ := quiet r rfl
      exact ⟨fun hs => ⟨(hquiet hs).1,fun hf => absurd hf (hquiet hs).2.ne⟩,fun hs => absurd hs hne⟩
    | closes _ _ client =>
      rw [client] at hopen hhalf
      exact ⟨fun hs => by simpa [ProxyClient.initial] using hopen hs,
        fun hs => by simpa [ProxyClient.initial] using hhalf hs⟩
    | opens cause client =>
      rw [client] at hopen hhalf
      rcases cause with ⟨r',hr',hfailed,-⟩ | ⟨hr',-⟩
      · cases hr'
        exact ⟨fun hs => ⟨hfailed,fun _ => by simpa [eq_comm] using hopen hs⟩,
          fun hs => by simpa using hhalf hs⟩
      · contradiction
    | probes request => contradiction
  · intro hcalm t hn
    have hrun := (next_run hn).1
    refine ⟨fun hs => ?_,fun hs => ?_⟩
    · cases turn_of_next h.run hrun with
      | stays _ state openedAt => exact .inl ⟨state.trans hs,openedAt⟩
      | @closes r outcome succeeded =>
        obtain ⟨id,rfl⟩ := exists_id outcome
        exact absurd succeeded ((hcalm id r rfl (mem_waiting_of_next hn)).1 hs).1
      | opens cause client =>
        rcases cause with ⟨r,hr,-,hhalf | hfull⟩ | ⟨-,hhalf,-⟩
        · rw [hs] at hhalf
          contradiction
        · obtain ⟨id,rfl⟩ := exists_id hr
          refine .inl ⟨by rw [client],?_⟩
          rw [client,((hcalm id r rfl (mem_waiting_of_next hn)).1 hs).2 hfull]
        · rw [hs] at hhalf
          contradiction
      | @probes τ request _ openedAt waited client =>
        have := h.opened hs τ openedAt
        refine .inr ⟨?_,by rw [client],by omega⟩
        cases a <;> first | rfl | contradiction
    · cases turn_of_next h.run hrun with
      | stays _ state => exact .inl (state.trans hs)
      | @closes r outcome =>
        obtain ⟨id,rfl⟩ := exists_id outcome
        exact .inr (.inl ⟨r,by rw [(hcalm id r rfl (mem_waiting_of_next hn)).2 hs]⟩)
      | opens cause =>
        rcases cause with ⟨r,hr,-⟩ | ⟨htime,-,due,hdue,htimer⟩
        · obtain ⟨id,rfl⟩ := exists_id hr
          exact .inr (.inl ⟨r,by rw [(hcalm id r rfl (mem_waiting_of_next hn)).2 hs]⟩)
        · have hahead := (h.run.timed.ahead _ htimer rfl).1
          have hdue' := h.timer hs
          rw [htimer] at hdue'
          simp only [Option.some.injEq,Timer.mk.injEq,and_true] at hdue' hahead
          refine .inr (.inr ⟨?_,by omega⟩)
          cases a <;> first | rfl | contradiction
      | probes _ opened => simp [opened] at hs

/-- Only the probes decide in a run exactly when none of its outcomes is late. -/
theorem only_probe_decides (schedule : List TrafficEvent) :
    Along (Traffic.next o) (Decided o) .initial schedule ↔
      Along (Traffic.next o) (Calm o) .initial schedule :=
  ⟨.of_invariant (fun _ _ _ h _ hn => Sound.next h hn) (fun _ _ h => h.decided_iff.mp) .initial,
    .of_invariant (fun _ _ _ h _ hn => Sound.next h hn) (fun _ _ h => h.decided_iff.mpr) .initial⟩

end Steps

/-- Three requests, of which the last succeeds after the others have opened the circuit. -/
def stragglers : List TrafficEvent :=
  [.request,.request,.request,.outcome 0 .error,.outcome 1 .error]

theorem straggler_closes : ¬Along (Traffic.next twoFailures) (Decided twoFailures) .initial
    (stragglers++[.outcome 2 (.proxyRes (some 200))]) := by
  intro h
  have hr : runs (Traffic.next twoFailures) .initial stragglers =
      some ⟨⟨0,⟨.opened,0,some 0,false,none⟩⟩,3,[2],0,0,0⟩ := by decide
  have hd := (h.append hr).2.1 ⟨⟨0,.initial⟩,3,[],0,0,0⟩ (by decide)
  simpa [ProxyClient.initial] using hd.1 rfl

end Traffic
end NestHomework.Proxy
