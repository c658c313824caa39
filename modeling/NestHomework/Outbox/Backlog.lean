import NestHomework.Outbox.Worker
import NestHomework.Shared.Count

/-! What a worker still has to publish. Only an acknowledged event leaves the backlog, and it comes
back when the tick ends before the event is marked. -/
namespace NestHomework.Outbox
open Contracts

/-- Marking takes the marked events out of the unprocessed ones, and nothing else. -/
structure Table.Lawful {DB Event : Type} (T : Table DB Event) : Prop where
  unprocessed_mark (ids : List Uuid) (db : DB) : T.unprocessed (T.markEventsAsProcessed ids db) =
    (T.unprocessed db).filter (fun e => !ids.contains (T.id e))

def acked {Event : Type} (tick : Option (Tick Event)) : List Uuid :=
  (tick.map (·.processedIds)).getD []

/-- The unprocessed events whose publishing the tick has not seen acknowledged. -/
def Table.backlog {DB Event : Type} (T : Table DB Event) (tick : Option (Tick Event)) (db : DB) :
    List Event := (T.unprocessed db).filter (fun e => !(acked tick).contains (T.id e))

/-- The steps of a tick, counted so that publishing, the step that yields something, pays for the
others. -/
def tickCost {Event : Type} : Option (Tick Event) → ℕ
  | none => 1
  | some ⟨_::_,[]⟩ => 0
  | some _ => 2

def WorkerAction.Distinct {Event : Type} (id : Event → Uuid) : WorkerAction Event → Prop
  | .find events => (events.map id).Nodup
  | _ => True

/-- A worker to which nothing happens: it finds something, its publishing is acknowledged and its
update succeeds. -/
def WorkerAction.Calm {Event : Type} : WorkerAction Event → Prop
  | .find events => events ≠ []
  | .publish p => ∃ header, p = .acknowledged header
  | .mark fails => fails = false
  | .crash => False

variable {DB Event : Type}

/-- The events of a tick are unprocessed, also those that it has published, and it meets each of them
once. -/
structure Table.TickSound (T : Table DB Event) (tick : Option (Tick Event)) (db : DB) : Prop where
  unprocessed : ∀ t ∈ tick, ∀ e ∈ t.events, e ∈ T.unprocessed db
  distinct : ∀ t ∈ tick, (t.events.map T.id++t.processedIds).Nodup
  stored : ∀ id ∈ acked tick, ∃ e ∈ T.unprocessed db, T.id e = id

@[simp] theorem acked_none : acked (none : Option (Tick Event)) = [] := rfl

@[simp] theorem acked_some (events : List Event) (ids : List Uuid) :
    acked (some ⟨events,ids⟩) = ids := rfl

theorem filter_mark {α : Type} {p c : α → Bool} {f : α → α} (hf : ∀ x, p (f x) = false) {l : List α} :
    (l.map (fun x => if c x then f x else x)).filter p = (l.filter p).filter (fun x => !c x) := by
  induction l with
  | nil => rfl
  | cons x l ih =>
    rw [List.map_cons,List.filter_cons,List.filter_cons,ih]
    cases hc : c x with
    | true => cases hp : p x <;> simp [hf,hc]
    | false => cases hp : p x <;> simp [hp,hc]

namespace Table
variable {T : Table DB Event} {tick : Option (Tick Event)} {db : DB} {e : Event}

theorem mem_backlog : e ∈ T.backlog tick db ↔ e ∈ T.unprocessed db ∧ T.id e ∉ acked tick := by
  simp [backlog]

theorem TickSound.none : T.TickSound none db := ⟨nofun,nofun,nofun⟩

theorem TickSound.mono (h : T.TickSound tick db) {db' : DB}
    (hkeep : ∀ e ∈ T.unprocessed db, e ∈ T.unprocessed db') : T.TickSound tick db' :=
  ⟨fun t ht e he => hkeep e (h.unprocessed t ht e he),h.distinct,fun id hid =>
    let ⟨e,he,heq⟩ := h.stored id hid
    ⟨e,hkeep e he,heq⟩⟩

theorem TickSound.head {events : List Event} {ids : List Uuid}
    (h : T.TickSound (some ⟨e::events,ids⟩) db) : e ∈ T.backlog (some ⟨e::events,ids⟩) db := by
  refine mem_backlog.mpr ⟨h.unprocessed _ rfl e (by simp),fun hin => ?_⟩
  have hdistinct := h.distinct _ rfl
  simp only [List.map_cons,List.cons_append,List.nodup_cons,List.mem_append] at hdistinct
  exact hdistinct.1 (.inr hin)

/-- What a worker does to its backlog. -/
inductive Turn (T : Table DB Event) (tick : Option (Tick Event)) (db : DB) :
    WorkerAction Event → Work DB Event → Prop
  | find {events} (ht : tick = none) (hread : ∀ e ∈ events, e ∈ T.unprocessed db) :
      Turn T tick db (.find events) ⟨if events = [] then none else some ⟨events,[]⟩,db,none⟩
  | acknowledged {e events ids header} (ht : tick = some ⟨e::events,ids⟩) :
      Turn T tick db (.publish (.acknowledged header))
        ⟨some ⟨events,ids++[T.id e]⟩,db,T.message e header⟩
  | unacknowledged {e events ids header} (ht : tick = some ⟨e::events,ids⟩) :
      Turn T tick db (.publish (.unacknowledged header))
        ⟨some ⟨events,ids⟩,db,T.message e header⟩
  | failed {e events ids} (ht : tick = some ⟨e::events,ids⟩) :
      Turn T tick db (.publish .failed) ⟨some ⟨events,ids⟩,db,none⟩
  | marked {ids} (ht : tick = some ⟨[],ids⟩) :
      Turn T tick db (.mark false) ⟨none,if ids = [] then db else T.markEventsAsProcessed ids db,none⟩
  | unmarked {ids} (ht : tick = some ⟨[],ids⟩) : Turn T tick db (.mark true) ⟨none,db,none⟩
  | crashed : Turn T tick db .crash ⟨none,db,none⟩

/-- What marking events leaves alone, a worker leaves alone. -/
theorem Turn.frame {a : WorkerAction Event} {w : Work DB Event} {β : Type} (h : T.Turn tick db a w)
    (f : DB → β) (hmark : ∀ ids, f (T.markEventsAsProcessed ids db) = f db) : f w.db = f db := by
  cases h with
  | @marked ids ht =>
    by_cases hids : ids = []
    · simp only [if_pos hids]
    · simp only [if_neg hids]
      exact hmark ids
  | _ => rfl

section Work
variable [DecidableEq Event]

theorem turn_of_work {a : WorkerAction Event} {w : Work DB Event}
    (h : T.work tick db a = some w) : T.Turn tick db a w := by
  cases a with
  | find events =>
    simp only [work] at h
    split at h
    · contradiction
    · split at h
      · rename_i hall
        cases h
        exact .find rfl hall
      · contradiction
  | publish p =>
    simp only [work] at h
    split at h
    · split at h <;> cases h
      · exact .acknowledged rfl
      · exact .unacknowledged rfl
      · exact .failed rfl
    · contradiction
  | mark fails =>
    simp only [work] at h
    split at h
    · rename_i ids
      cases h
      cases fails with
      | false =>
        simp only [Bool.or_false,decide_eq_true_eq]
        exact .marked rfl
      | true =>
        simp only [Bool.or_true,if_true]
        exact .unmarked rfl
    · contradiction
  | crash =>
    cases h
    exact .crashed

end Work

theorem TickSound.turn (h : T.TickSound tick db) {a : WorkerAction Event} {w : Work DB Event}
    (ha : a.Distinct T.id) (hw : T.Turn tick db a w) : T.TickSound w.tick w.db := by
  have htail : ∀ {e events ids}, tick = some ⟨e::events,ids⟩ →
      (events.map T.id++ids).Nodup ∧ T.id e ∉ events.map T.id++ids ∧
        ∀ e' ∈ events, e' ∈ T.unprocessed db := by
    rintro e events ids rfl
    have hdistinct := h.distinct _ rfl
    simp only [List.map_cons,List.cons_append,List.nodup_cons] at hdistinct
    exact ⟨hdistinct.2,hdistinct.1,fun e' he => h.unprocessed _ rfl e' (List.mem_cons_of_mem e he)⟩
  cases hw with
  | @find events ht hread =>
    by_cases hnil : events = []
    · simp only [if_pos hnil]
      exact .none
    · simp only [if_neg hnil]
      refine ⟨fun t ht => ?_,fun t ht => ?_,nofun⟩ <;> cases ht
      · exact hread
      · simpa [WorkerAction.Distinct] using ha
  | @acknowledged e events ids header ht =>
    obtain ⟨hnodup,hnew,hread⟩ := htail ht
    refine ⟨fun t ht => ?_,fun t ht => ?_,fun id hid => ?_⟩
    · cases ht
      exact hread
    · cases ht
      rw [← List.append_assoc]
      refine List.nodup_append.mpr ⟨hnodup,by simp,fun a ha b hb => ?_⟩
      rw [List.mem_singleton.mp hb]
      exact fun heq => hnew (heq ▸ ha)
    · subst ht
      obtain hid | hid := List.mem_append.mp hid
      · exact h.stored id hid
      · exact ⟨e,h.unprocessed _ rfl e (by simp),(List.mem_singleton.mp hid).symm⟩
  | @unacknowledged e events ids header ht =>
    obtain ⟨hnodup,-,hread⟩ := htail ht
    refine ⟨fun t ht => ?_,fun t ht => ?_,fun id hid => h.stored id (ht ▸ hid)⟩ <;> cases ht
    · exact hread
    · exact hnodup
  | @failed e events ids ht =>
    obtain ⟨hnodup,-,hread⟩ := htail ht
    refine ⟨fun t ht => ?_,fun t ht => ?_,fun id hid => h.stored id (ht ▸ hid)⟩ <;> cases ht
    · exact hread
    · exact hnodup
  | marked ht => exact .none
  | unmarked ht => exact .none
  | crashed => exact .none

theorem backlog_acknowledged (events : List Event) {events' : List Event} {ids : List Uuid}
    (e : Event) :
    T.backlog (some ⟨events',ids++[T.id e]⟩) db =
      (T.backlog (some ⟨events,ids⟩) db).filter (fun e' => T.id e' ≠ T.id e) := by
  rw [backlog,backlog,List.filter_filter]
  refine List.filter_congr fun e' _ => ?_
  simp [Bool.and_comm]

theorem backlog_marked (hT : T.Lawful) (ids : List Uuid) :
    T.backlog none (if ids = [] then db else T.markEventsAsProcessed ids db) =
      T.backlog (some ⟨[],ids⟩) db := by
  by_cases hids : ids = []
  · simp [backlog,hids]
  · simp [backlog,if_neg hids,hT.unprocessed_mark]

/-- An event of the backlog is published with the step, or stays. -/
theorem Turn.mem_backlog {a : WorkerAction Event} {w : Work DB Event} (hT : T.Lawful)
    (hw : T.Turn tick db a w) (he : e ∈ T.backlog tick db) :
    e ∈ T.backlog w.tick w.db ∨ ∃ e' events ids header, tick = some ⟨e'::events,ids⟩ ∧
      T.id e' = T.id e ∧ a = .publish (.acknowledged header) ∧ w.sent = T.message e' header := by
  have hold := (Table.mem_backlog.mp he).1
  cases hw with
  | find ht hread =>
    refine .inl (Table.mem_backlog.mpr ⟨hold,?_⟩)
    split <;> simp
  | @acknowledged e' events ids header ht =>
    by_cases hid : T.id e' = T.id e
    · exact .inr ⟨e',events,ids,header,ht,hid,rfl,rfl⟩
    · subst ht
      refine .inl ?_
      rw [backlog_acknowledged (e'::events)]
      exact List.mem_filter.mpr ⟨he,by simpa using Ne.symm hid⟩
  | unacknowledged ht =>
    subst ht
    exact .inl (Table.mem_backlog.mpr (Table.mem_backlog.mp he))
  | failed ht =>
    subst ht
    exact .inl (Table.mem_backlog.mpr (Table.mem_backlog.mp he))
  | marked ht =>
    subst ht
    exact .inl ((backlog_marked hT _).symm ▸ he)
  | unmarked ht => exact .inl (Table.mem_backlog.mpr ⟨hold,by simp⟩)
  | crashed => exact .inl (Table.mem_backlog.mpr ⟨hold,by simp⟩)

/-- What a step of a calm worker costs and what it yields. -/
theorem Turn.calm {a : WorkerAction Event} {w : Work DB Event} (hT : T.Lawful)
    (hw : T.Turn tick db a w) (ha : a.Calm) :
    (w.sent = none ∧ T.backlog w.tick w.db = T.backlog tick db ∧ tickCost w.tick+1 ≤ tickCost tick) ∨
    ∃ e events ids header, tick = some ⟨e::events,ids⟩ ∧ w.sent = T.message e header ∧
      a = .publish (.acknowledged header) ∧ w.db = db ∧
      T.backlog w.tick w.db = (T.backlog tick db).filter (fun e' => T.id e' ≠ T.id e) ∧
      tickCost w.tick ≤ tickCost tick+2 := by
  cases hw with
  | @find events ht hread =>
    subst ht
    refine .inl ⟨rfl,?_,?_⟩
    · simp [backlog,if_neg (show events ≠ [] from ha)]
    · cases events with
      | nil => exact absurd rfl ha
      | cons e events => simp [tickCost]
  | @acknowledged e events ids header ht =>
    subst ht
    refine .inr ⟨e,events,ids,header,rfl,rfl,rfl,rfl,backlog_acknowledged _ e,?_⟩
    have hcost : tickCost (some (⟨events,ids++[T.id e]⟩ : Tick Event)) = 2 := by
      unfold tickCost
      split <;> simp_all
    simp only [hcost]
    omega
  | unacknowledged ht =>
    obtain ⟨_,hp⟩ := ha
    cases hp
  | failed ht =>
    obtain ⟨_,hp⟩ := ha
    cases hp
  | marked ht =>
    subst ht
    exact .inl ⟨rfl,backlog_marked hT _,by simp [tickCost]⟩
  | unmarked ht => exact absurd (show true = false from ha) (by simp)
  | crashed => exact ha.elim

/-- What a calm step takes off the backlog and the tick, when each event has a cost. -/
theorem Turn.drains {a : WorkerAction Event} {w : Work DB Event} (hT : T.Lawful)
    (hw : T.Turn tick db a w) (h : T.TickSound tick db) (ha : a.Calm) (cost : Event → ℕ) :
    (w.sent = none ∧ ((T.backlog w.tick w.db).map cost).sum+tickCost w.tick+1 ≤
      ((T.backlog tick db).map cost).sum+tickCost tick) ∨
    ∃ e header, (∃ t ∈ tick, e ∈ t.events) ∧ w.sent = T.message e header ∧
      ((T.backlog w.tick w.db).map cost).sum+tickCost w.tick+cost e ≤
        ((T.backlog tick db).map cost).sum+tickCost tick+2 := by
  obtain ⟨hsent,hsame,htick⟩ | ⟨e,events,ids,header,ht,hsent,-,-,hrest,htick⟩ := hw.calm hT ha
  · refine .inl ⟨hsent,?_⟩
    rw [hsame]
    omega
  · refine .inr ⟨e,header,⟨_,ht,by simp⟩,hsent,?_⟩
    have hhead : e ∈ T.backlog tick db := by
      subst ht
      exact h.head
    have hsum := Shared.sum_filter_add_le (p := fun e' => T.id e' ≠ T.id e) cost hhead (by simp)
    rw [hrest]
    omega

variable [DecidableEq Event]

/-- A worker with a tick or a backlog has something to do. -/
theorem exists_calm_work (T : Table DB Event) {tick : Option (Tick Event)} {db : DB}
    (h : tick ≠ none ∨ T.backlog tick db ≠ []) (header : Uuid) :
    ∃ a : WorkerAction Event, a.Calm ∧ a.Distinct T.id ∧ a.uuids ⊆ [header] ∧ a.uuids.Nodup ∧
      (T.work tick db a).isSome := by
  obtain _ | ⟨_ | ⟨e,events⟩,ids⟩ := tick
  · obtain ⟨e,he⟩ := List.exists_mem_of_ne_nil _ (h.resolve_left (by simp))
    refine ⟨.find [e],by simp [WorkerAction.Calm],by simp [WorkerAction.Distinct],
      by simp [WorkerAction.uuids],by simp [WorkerAction.uuids],?_⟩
    simp [work,(Table.mem_backlog.mp he).1]
  · exact ⟨.mark false,rfl,trivial,by simp [WorkerAction.uuids],by simp [WorkerAction.uuids],rfl⟩
  · exact ⟨.publish (.acknowledged header),⟨header,rfl⟩,trivial,
      by simp [WorkerAction.uuids,Publication.header],by simp [WorkerAction.uuids,Publication.header],
      rfl⟩

/-- A worker whose calm actions are all refused has neither a tick nor a backlog. -/
theorem idle_of_stuck (T : Table DB Event) {tick : Option (Tick Event)} {db : DB} (header : Uuid)
    (h : ∀ a : WorkerAction Event, a.Calm → a.Distinct T.id → a.uuids ⊆ [header] → a.uuids.Nodup →
      T.work tick db a = none) : tick = none ∧ T.backlog tick db = [] := by
  by_contra hbusy
  obtain ⟨a,hcalm,hdistinct,hsub,hnodup,hsome⟩ :=
    T.exists_calm_work (not_and_or.mp hbusy) header
  rw [h a hcalm hdistinct hsub hnodup] at hsome
  contradiction

theorem work_eq_none {a : WorkerAction Event} (ha : a.Calm) (h : T.backlog none db = []) :
    T.work none db a = none := by
  cases a with
  | find events =>
    have hne : ¬∀ e ∈ events, e ∈ T.unprocessed db := by
      intro hall
      obtain ⟨e,he⟩ := List.exists_mem_of_ne_nil _ (show events ≠ [] from ha)
      have hin : e ∈ T.backlog none db := mem_backlog.mpr ⟨hall e he,by simp⟩
      rw [h] at hin
      contradiction
    simp only [work,if_neg hne]
  | publish p => rfl
  | mark fails => rfl
  | crash => exact ha.elim

end Table
end NestHomework.Outbox
