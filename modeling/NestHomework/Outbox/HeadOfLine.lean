import NestHomework.Outbox.Cron
import NestHomework.Shared.Ties

/-! Events that can never be published. Nothing takes them out of the table, so each tick finds them
again, before all the events that came later. -/
namespace NestHomework.Outbox
open Contracts Shared Transition
variable {α : Type}

/-- The ids of a loop over the events in which the publishing of some always fails. -/
def publishedIds (fails : Uuid → Bool) (events : List (Row α)) : List Uuid :=
  (events.filter (fun e => !fails e.id)).map (·.id)

theorem publishedIds_cons (fails : Uuid → Bool) (e : Row α) (rest : List (Row α)) :
    publishedIds fails (e::rest) =
      if fails e.id then publishedIds fails rest else e.id::publishedIds fails rest := by
  unfold publishedIds
  cases h : fails e.id <;> simp [h]

theorem mem_publishedIds {fails : Uuid → Bool} {events : List (Row α)} {id : Uuid} :
    id ∈ publishedIds fails events ↔ (∃ e ∈ events, e.id = id) ∧ fails id = false := by
  simp only [publishedIds,List.mem_map,List.mem_filter,Bool.not_eq_true']
  constructor
  · rintro ⟨e,⟨he,hfails⟩,rfl⟩
    exact ⟨⟨e,he,rfl⟩,hfails⟩
  · rintro ⟨⟨e,he,rfl⟩,hfails⟩
    exact ⟨e,⟨he,hfails⟩,rfl⟩

@[simp] theorem markEventsAsProcessed_nil (rows : List (Row α)) :
    markEventsAsProcessed [] rows = rows := by simp [markEventsAsProcessed]

namespace Cron

/-- No call of `processOutbox` is running. -/
structure Idle (s : Cron α) : Prop where
  ids : (s.rows.map (·.id)).Nodup
  flag : s.isProcessing = false
  none : s.running = []

/-- A call of `processOutbox` that only the publishing of some events can hinder. -/
def tickActions (limit : ℕ) (fails : Uuid → Bool) (number : ℕ) (order : List (Row α)) :
    List (CronAction α) :=
  let events := order.take limit
  .tick::.found number (some order)::(events.map (fun e => .published number (!fails e.id))++
    if publishedIds fails events = [] then [] else [.marked number .done])

/-- The unprocessed rows whose publishing succeeds. -/
def waiting (fails : Uuid → Bool) (s : Cron α) : List (Row α) :=
  s.rows.filter (fun r => !r.processed && !fails r.id)

/-- How many unprocessed rows whose publishing fails may come before a row. -/
def inFront (fails : Uuid → Bool) (s : Cron α) (r : Row α) : ℕ :=
  s.rows.countP (fun f => !f.processed && (fails f.id && f.createdAt ≤ r.createdAt))

/-- The row is published and marked. -/
def Settled (s : Cron α) (id : Uuid) : Prop :=
  (∃ p ∈ s.published, p.id = id) ∧ ∃ r ∈ s.rows, r.id = id ∧ r.processed

/-- The state after the batch `number` has published and marked these. -/
def complete (s : Cron α) (number : ℕ) (before ids : List Uuid) : Cron α :=
  {s with
    rows := markEventsAsProcessed (before++ids) s.rows
    published := s.published++ids.map (⟨number,·⟩)
    running := []
    isProcessing := false}

/-- A call that has got past the flag. -/
def begin (s : Cron α) : Cron α :=
  {s with isProcessing := true, running := [⟨s.started,.findEvents⟩], started := s.started+1}

section Complete
variable {fails : Uuid → Bool} {s : Cron α} {number : ℕ} {ids : List Uuid}

theorem Idle.complete (h : s.Idle) : (s.begin.complete number [] ids).Idle where
  ids := by
    rw [Cron.complete,map_id_markEventsAsProcessed]
    exact h.ids
  flag := rfl
  none := rfl

theorem Settled.complete {id : Uuid} (h : s.Settled id) :
    (s.begin.complete number [] ids).Settled id := by
  obtain ⟨⟨p,hp,rfl⟩,r,hr,hid,hprocessed⟩ := h
  refine ⟨⟨p,List.mem_append_left _ hp,rfl⟩,?_⟩
  rw [← hid]
  exact processed_markEventsAsProcessed hr (.inl hprocessed)

theorem marked_of_mem {r : Row α} (hr : r ∈ s.rows) (hid : r.id ∈ ids) :
    ⟨number,r.id⟩ ∈ (s.begin.complete number [] ids).published ∧
      ∃ r' ∈ (s.begin.complete number [] ids).rows, r'.id = r.id ∧ r'.processed :=
  ⟨List.mem_append_right _ (List.mem_map_of_mem hid),processed_markEventsAsProcessed hr (.inr hid)⟩

/-- The rows that are marked no longer wait, and nothing else changes. -/
theorem waiting_complete : (s.begin.complete number [] ids).waiting fails =
    (s.waiting fails).filter (fun r => !ids.contains r.id) := by
  let mark (r : Row α) : Row α := if ids.contains r.id then {r with processed := true} else r
  let waits (r : Row α) : Bool := !r.processed && !fails r.id
  have hwaits : ∀ r, waits (mark r) = (!ids.contains r.id && waits r) := fun r => by
    simp only [mark,waits]
    cases ids.contains r.id <;> simp
  have hkeep : ∀ r ∈ s.rows.filter (waits ∘ mark), mark r = r := fun r hr => by
    have hfree := (List.mem_filter.mp hr).2
    rw [Function.comp_apply,hwaits,Bool.and_eq_true,Bool.not_eq_true'] at hfree
    exact if_neg (by rw [hfree.1]; exact Bool.false_ne_true)
  calc (s.rows.map mark).filter waits
    _ = (s.rows.filter (waits ∘ mark)).map mark := List.filter_map ..
    _ = s.rows.filter (waits ∘ mark) := (List.map_congr_left hkeep).trans (List.map_id' _)
    _ = s.rows.filter (fun r => !ids.contains r.id && waits r) :=
      List.filter_congr fun r _ => hwaits r
    _ = (s.rows.filter waits).filter (fun r => !ids.contains r.id) := (List.filter_filter ..).symm

/-- The rows whose publishing fails are where they were. -/
theorem inFront_complete (hids : ∀ id ∈ ids, fails id = false) (r : Row α) :
    (s.begin.complete number [] ids).inFront fails r = s.inFront fails r := by
  change (s.rows.map _).countP _ = _
  rw [List.countP_map]
  refine List.countP_congr fun f _ => ?_
  by_cases hid : f.id ∈ ids
  · simp [hid,hids f.id hid]
  · simp [hid]

theorem mem_waiting {r : Row α} : r ∈ s.waiting fails ↔
    r ∈ s.rows.filter (fun r => !r.processed) ∧ fails r.id = false := by
  simp only [waiting,List.mem_filter,Bool.and_eq_true,Bool.not_eq_true',and_assoc]

theorem inFront_eq (fails : Uuid → Bool) (s : Cron α) (r : Row α) : s.inFront fails r =
    (s.rows.filter (fun r => !r.processed)).countP
      (fun f => fails f.id && f.createdAt ≤ r.createdAt) := by
  rw [inFront,List.countP_filter]
  exact List.countP_congr fun f _ => by rw [Bool.and_comm]

/-- What the ticks since `s` have kept. -/
structure Since (fails : Uuid → Bool) (s t : Cron α) : Prop where
  idle : t.Idle
  inFront : ∀ r, t.inFront fails r = s.inFront fails r
  waiting : ∀ r ∈ t.waiting fails, r ∈ s.waiting fails
  settled : ∀ r ∈ s.waiting fails, r ∈ t.waiting fails ∨ t.Settled r.id

theorem Since.refl (h : s.Idle) : Since fails s s :=
  ⟨h,fun _ => rfl,fun _ hr => hr,fun _ hr => .inl hr⟩

end Complete

variable [DecidableEq α]

/-- A whole tick. -/
def nextTick (limit : ℕ) (fails : Uuid → Bool) (s : Cron α) (order : List (Row α)) :
    Option (Cron α) :=
  runs (next limit) s (tickActions limit fails s.started order)

/-- Events that fail do not hold up the others: each tick publishes and marks one of them while there
are any, and none are left after as many ticks as there were. -/
structure Isolates (limit : ℕ) (fails : Uuid → Bool) (s : Cron α) : Prop where
  progress : ∀ orders t order u, runs (nextTick limit fails) s orders = some t →
    t.waiting fails ≠ [] → t.nextTick limit fails order = some u →
      ∃ r ∈ t.waiting fails, ⟨t.started,r.id⟩ ∈ u.published ∧ ∃ r' ∈ u.rows, r'.id = r.id ∧ r'.processed
  drains : ∀ orders t, runs (nextTick limit fails) s orders = some t →
    orders.length = (s.waiting fails).length → ∀ r ∈ s.waiting fails, t.Settled r.id

variable {limit : ℕ} {fails : Uuid → Bool} {s t : Cron α}

theorem Idle.of_runs {as : List (CronAction α)} (hr : runs (next limit) .initial as = some s)
    (hflag : s.isProcessing = false) : s.Idle := by
  cases Sound.of_runs hr with
  | idle none flag careful => exact ⟨careful.ids,flag,none⟩
  | busy number stage one flag careful =>
    rw [flag] at hflag
    contradiction

section Tick

/-- The loop over the events, and the mark. -/
theorem runs_events {number : ℕ} {stage : Stage α} (one : s.running = [⟨number,stage⟩])
    (events : List (Row α)) (ids : List Uuid) :
    runs (next limit) (s.proceed number (nextStage events ids))
      (events.map (fun e => .published number (!fails e.id))++
        if ids++publishedIds fails events = [] then [] else [.marked number .done]) =
      some (s.complete number ids (publishedIds fails events)) := by
  induction events generalizing s stage ids with
  | nil =>
    cases ids with
    | nil => simp [publishedIds,nextStage,proceed,complete,one]
    | cons id ids => simp [publishedIds,nextStage,proceed,complete,one,runs,next,Cron.stage]
  | cons e rest ih =>
    have hstage : (s.proceed number (nextStage (e::rest) ids)).running =
        [⟨number,.publishEvent e rest ids⟩] := by simp [nextStage,proceed,one]
    rw [List.map_cons,List.cons_append,runs_cons,publishedIds_cons]
    simp only [next,stage_one hstage,if_true]
    cases hfails : fails e.id with
    | true => exact ⟨_,rfl,ih hstage ids⟩
    | false =>
      refine ⟨_,rfl,?_⟩
      have hrest := ih (s := {s.proceed number (nextStage (e::rest) ids) with
        published := s.published++[⟨number,e.id⟩]}) hstage (ids++[e.id])
      simp only [List.append_assoc,List.singleton_append] at hrest
      refine hrest.trans ?_
      simp [complete,nextStage,proceed]

/-- What a tick does. -/
theorem nextTick_eq (limit : ℕ) (fails : Uuid → Bool) (h : s.Idle) (order : List (Row α)) :
    s.nextTick limit fails order =
      if s.IsOrder order then
        some (s.begin.complete s.started [] (publishedIds fails (order.take limit)))
      else none := by
  have htick : s.next limit .tick = some s.begin := by simp [next,begin,h.flag,h.none]
  have hfound : s.begin.running = [⟨s.started,.findEvents⟩] := rfl
  unfold nextTick tickActions
  simp only [runs,htick,Option.bind_some]
  rw [next,stage_one hfound,if_pos rfl]
  by_cases horder : s.IsOrder order
  · have hsame : s.begin.IsOrder order := horder
    rw [if_pos horder]
    simp only [if_pos hsame,Option.bind_some]
    exact runs_events hfound (order.take limit) []
  · have hsame : ¬s.begin.IsOrder order := horder
    rw [if_neg horder]
    simp only [if_neg hsame,Option.bind_none]

/-- The ids that the tick has published and marked. -/
theorem nextTick_some (h : s.Idle) {order : List (Row α)}
    (hn : s.nextTick limit fails order = some t) : s.IsOrder order ∧
      t = s.begin.complete s.started [] (publishedIds fails (order.take limit)) := by
  rw [nextTick_eq limit fails h] at hn
  split at hn
  · rename_i horder
    cases hn
    exact ⟨horder,rfl⟩
  · contradiction

/-- There always is a next tick. -/
theorem exists_nextTick (h : s.Idle) (limit : ℕ) (fails : Uuid → Bool) :
    ∃ order t, s.nextTick limit fails order = some t := by
  obtain ⟨order,horder⟩ := exists_sorts Row.createdAt (s.rows.filter (fun r => !r.processed))
  exact ⟨order,_,(nextTick_eq limit fails h order).trans (if_pos horder)⟩

end Tick

section Ticks
variable {u : Cron α} {order : List (Row α)}

/-- A tick serves someone when somebody that waits has few enough failing rows in front. -/
theorem Idle.progress (h : t.Idle) {r : Row α} (hr : r ∈ t.waiting fails)
    (hfront : t.inFront fails r < limit) (hn : t.nextTick limit fails order = some u) :
    ∃ r ∈ t.waiting fails, r ∉ u.waiting fails ∧ ⟨t.started,r.id⟩ ∈ u.published ∧
      ∃ r' ∈ u.rows, r'.id = r.id ∧ r'.processed := by
  obtain ⟨horder,rfl⟩ := nextTick_some h hn
  obtain ⟨hrow,hgood⟩ := mem_waiting.mp hr
  rw [inFront_eq] at hfront
  obtain ⟨g,hfound,hg⟩ := Sorts.exists_good (fun f => fails f.id) horder hrow hgood hfront
  have hid : g.id ∈ publishedIds fails (order.take limit) := mem_publishedIds.mpr ⟨⟨g,hfound,rfl⟩,hg⟩
  have hgrow := horder.1.mem_iff.mp (List.mem_of_mem_take hfound)
  refine ⟨g,mem_waiting.mpr ⟨hgrow,hg⟩,?_,marked_of_mem (List.mem_of_mem_filter hgrow) hid⟩
  rw [waiting_complete,List.mem_filter]
  simp [hid]

theorem Since.next (h : Since fails s t) (hn : t.nextTick limit fails order = some u) :
    Since fails s u := by
  obtain ⟨-,rfl⟩ := nextTick_some h.idle hn
  refine ⟨h.idle.complete,fun r => ?_,fun r hr => ?_,fun r hr => ?_⟩
  · exact (inFront_complete (fun _ hid => (mem_publishedIds.mp hid).2) r).trans (h.inFront r)
  · rw [waiting_complete] at hr
    exact h.waiting r (List.mem_of_mem_filter hr)
  · cases h.settled r hr with
    | inr hsettled => exact .inr hsettled.complete
    | inl hwaits =>
      by_cases hid : r.id ∈ publishedIds fails (order.take limit)
      · obtain ⟨hpublished,hrow⟩ := marked_of_mem (List.mem_of_mem_filter hwaits) hid
        exact .inr ⟨⟨_,hpublished,rfl⟩,hrow⟩
      · refine .inl ?_
        rw [waiting_complete,List.mem_filter]
        exact ⟨hwaits,by simp [hid]⟩

theorem Since.of_runs (h : s.Idle) {orders : List (List (Row α))}
    (hr : runs (nextTick limit fails) s orders = some t) : Since fails s t :=
  runs_invariant' (fun _ _ _ h hn => Since.next h hn) (.refl h) hr

theorem Idle.length_waiting_lt (h : s.Idle) (hn : s.nextTick limit fails order = some u) {g : Row α}
    (hg : g ∈ s.waiting fails) (hgone : g ∉ u.waiting fails) :
    (u.waiting fails).length < (s.waiting fails).length := by
  obtain ⟨-,rfl⟩ := nextTick_some h hn
  rw [waiting_complete] at hgone ⊢
  exact List.length_filter_lt_length_iff_exists.mpr
    ⟨g,hg,fun hkeep => hgone (List.mem_filter.mpr ⟨hg,hkeep⟩)⟩

/-- Where nobody that waits is held up, every tick serves someone. -/
theorem Idle.drain (h : s.Idle) (hfront : ∀ r ∈ s.waiting fails, s.inFront fails r < limit)
    {orders : List (List (Row α))} (hr : runs (nextTick limit fails) s orders = some t) :
    t.waiting fails = [] ∨ (t.waiting fails).length+orders.length ≤ (s.waiting fails).length := by
  induction orders generalizing s with
  | nil =>
    cases hr
    exact .inr le_rfl
  | cons order orders ih =>
    obtain ⟨u,hn,hrest⟩ := runs_cons.mp hr
    have hkept : Since fails s u := (Since.refl h).next hn
    have hlater := ih hkept.idle (fun r hr => by rw [hkept.inFront]; exact hfront r (hkept.waiting r hr))
      hrest
    by_cases hnone : s.waiting fails = []
    · refine .inl (List.eq_nil_iff_forall_not_mem.mpr fun r hmem => ?_)
      have hbefore := (Since.of_runs h hr).waiting r hmem
      rw [hnone] at hbefore
      exact List.not_mem_nil hbefore
    · obtain ⟨r,hmem⟩ := List.exists_mem_of_ne_nil _ hnone
      obtain ⟨g,hg,hgone,-⟩ := h.progress hmem (hfront r hmem) hn
      have hlt := h.length_waiting_lt hn hg hgone
      refine hlater.imp_right fun hle => ?_
      rw [List.length_cons]
      omega

/-- Whoever has enough failing rows in front may wait for any number of ticks. -/
theorem Idle.exists_stuck (h : s.Idle) {r : Row α} (hr : r ∈ s.waiting fails)
    (hfront : limit ≤ s.inFront fails r) (n : ℕ) : ∃ orders t,
    runs (nextTick limit fails) s orders = some t ∧ orders.length = n ∧ r ∈ t.waiting fails := by
  induction n generalizing s with
  | zero => exact ⟨[],s,rfl,rfl,hr⟩
  | succ n ih =>
    obtain ⟨order,horder,hlast⟩ := exists_sorts_bad_first Row.createdAt
      (fun f : Row α => fails f.id) (s.rows.filter (fun r => !r.processed))
    have hn := (nextTick_eq limit fails h order).trans (if_pos horder)
    have hkept : Since fails s _ := (Since.refl h).next hn
    have hwaits : r ∈ Cron.waiting fails
        (s.begin.complete s.started [] (publishedIds fails (order.take limit))) := by
      rw [waiting_complete,List.mem_filter]
      refine ⟨hr,?_⟩
      have hnot : r.id ∉ publishedIds fails (order.take limit) := fun hid => by
        obtain ⟨⟨e,he,hsame⟩,hgood⟩ := mem_publishedIds.mp hid
        have hrow := List.mem_of_mem_filter (horder.1.mem_iff.mp (List.mem_of_mem_take he))
        obtain rfl := List.inj_on_of_nodup_map h.ids hrow (List.mem_of_mem_filter hr) hsame
        have hcount := hlast limit e he hgood
        rw [← inFront_eq] at hcount
        omega
      simp [hnot]
    obtain ⟨orders,t,hrun,hlen,hmem⟩ := ih hkept.idle hwaits (by rw [hkept.inFront]; exact hfront)
    exact ⟨order::orders,t,runs_cons.mpr ⟨_,hn,hrun⟩,by rw [List.length_cons,hlen],hmem⟩

/-- Failing events hold up nobody, if and only if each of the others has fewer than `limit` of them in
front. -/
theorem isolates_iff (h : s.Idle) :
    s.Isolates limit fails ↔ ∀ r ∈ s.waiting fails, s.inFront fails r < limit := by
  constructor
  · intro hisolates r hr
    by_contra hfront
    obtain ⟨orders,t,hrun,hlen,hwaits⟩ := h.exists_stuck hr (not_lt.mp hfront) _
    obtain ⟨-,r',hr',hid,hprocessed⟩ := hisolates.drains orders t hrun hlen r hr
    have hrow := mem_waiting.mp hwaits |>.1
    obtain rfl := List.inj_on_of_nodup_map (Since.of_runs h hrun).idle.ids hr'
      (List.mem_of_mem_filter hrow) hid
    have hunprocessed := (List.mem_filter.mp hrow).2
    rw [hprocessed] at hunprocessed
    contradiction
  · intro hfront
    constructor
    · intro orders t order u hrun hsome hn
      have hkept := Since.of_runs h hrun
      obtain ⟨r,hr⟩ := List.exists_mem_of_ne_nil _ hsome
      have hroom : t.inFront fails r < limit := by
        rw [hkept.inFront]
        exact hfront r (hkept.waiting r hr)
      obtain ⟨g,hg,-,hserved⟩ := hkept.idle.progress hr hroom hn
      exact ⟨g,hg,hserved⟩
    · intro orders t hrun hlen r hr
      have hnone : t.waiting fails = [] := by
        obtain hnone | hle := h.drain hfront hrun
        · exact hnone
        · exact List.length_eq_zero_iff.mp (by omega)
      refine ((Since.of_runs h hrun).settled r hr).resolve_left fun hwaits => ?_
      rw [hnone] at hwaits
      exact List.not_mem_nil hwaits

end Ticks
end Cron

section Blocked

/-- The publishing of the first event always fails. -/
def blocked : Cron Unit := ⟨[⟨7,(),1,false⟩,⟨8,(),2,false⟩],false,[],0,[],[]⟩

theorem isolates_iff_blocked : blocked.Isolates 2 (· = 7) :=
  (Cron.isolates_iff ⟨by decide,rfl,rfl⟩).mpr (by decide)

theorem one_event_blocks : blocked.nextTick 1 (· = 7) blocked.rows = some {blocked with started := 1} ∧
    ¬blocked.Isolates 1 (· = 7) := by
  have htick : blocked.nextTick 1 (· = 7) blocked.rows = some {blocked with started := 1} := by decide
  refine ⟨htick,fun hisolates => ?_⟩
  obtain ⟨⟨p,hp,-⟩,-⟩ := hisolates.drains [blocked.rows] _ (runs_cons.mpr ⟨_,htick,rfl⟩) (by decide)
    ⟨8,(),2,false⟩ (by decide)
  exact List.not_mem_nil hp

end Blocked
end NestHomework.Outbox
