import Mathlib.Data.List.Basic
import NestHomework.Contracts.Kafka

/-! `AbstractOutboxWorkerService`. A tick finds unprocessed events, publishes them one by one and
marks those that were acknowledged. A crash drops what is left of the tick. -/
namespace NestHomework.Outbox
open Contracts

/-- How `publishEvent` ends. The header of the message is a new uuid in each call. -/
inductive Publication where
  | acknowledged (header : Uuid)
  /-- The message is out, and the call throws. -/
  | unacknowledged (header : Uuid)
  | failed
  deriving DecidableEq, Repr

def Publication.header : Publication → Option Uuid
  | acknowledged header => some header
  | unacknowledged header => some header
  | failed => none

inductive WorkerAction (Event : Type) where
  /-- `findEvents` returns at most `LIMIT` events, oldest first. Neither is modelled: it returns any
  unprocessed events. -/
  | find (events : List Event)
  | publish (p : Publication)
  | mark (fails : Bool)
  | crash
  deriving DecidableEq, Repr

/-- The header that the action generates. -/
def WorkerAction.uuids {Event : Type} : WorkerAction Event → List Uuid
  | publish p => p.header.toList
  | _ => []

/-- What is left of a tick: the events to publish, and the ids to mark. -/
structure Tick (Event : Type) where
  events : List Event
  processedIds : List Uuid
  deriving DecidableEq, Repr

/-- What the two services implement of the worker. -/
structure Table (DB Event : Type) where
  id : Event → Uuid
  unprocessed : DB → List Event
  markEventsAsProcessed : List Uuid → DB → DB
  message : Event → Uuid → Option KafkaMessage

/-- A worker has no tick while `isProcessing` is false. -/
structure Work (DB Event : Type) where
  tick : Option (Tick Event)
  db : DB
  sent : Option KafkaMessage

variable {DB Event : Type} [DecidableEq Event]

/-- `processOutbox`. -/
def Table.work (T : Table DB Event) (tick : Option (Tick Event)) (db : DB) :
    WorkerAction Event → Option (Work DB Event)
  | .find events =>
    match tick with
    | some _ => none
    | none =>
      if ∀ e ∈ events, e ∈ T.unprocessed db then
        some ⟨if events = [] then none else some ⟨events,[]⟩,db,none⟩
      else none
  | .publish p =>
    match tick with
    | some ⟨e::events,processedIds⟩ =>
      match p with
      | .acknowledged header => some ⟨some ⟨events,processedIds++[T.id e]⟩,db,T.message e header⟩
      | .unacknowledged header => some ⟨some ⟨events,processedIds⟩,db,T.message e header⟩
      | .failed => some ⟨some ⟨events,processedIds⟩,db,none⟩
    | _ => none
  | .mark fails =>
    match tick with
    | some ⟨[],processedIds⟩ =>
      some ⟨none,if processedIds = [] || fails then db
        else T.markEventsAsProcessed processedIds db,none⟩
    | _ => none
  | .crash => some ⟨none,db,none⟩

/-- What an action of the worker can do. -/
inductive Table.Works (T : Table DB Event) (tick : Option (Tick Event)) (db : DB) :
    WorkerAction Event → Work DB Event → Prop
  /-- Nothing leaves the worker, and its events are read or dropped. -/
  | idle {a tick'} (h : ∀ t', tick' = some t' → ∀ e ∈ t'.events,
      e ∈ T.unprocessed db ∨ ∃ t, tick = some t ∧ e ∈ t.events) : Works T tick db a ⟨tick',db,none⟩
  | publish {p e events ids ids' header} (ht : tick = some ⟨e::events,ids⟩)
      (hp : p.header = some header) :
      Works T tick db (.publish p) ⟨some ⟨events,ids'⟩,db,T.message e header⟩
  | mark {fails ids} : Works T tick db (.mark fails) ⟨none,T.markEventsAsProcessed ids db,none⟩

theorem Table.works_of_work {T : Table DB Event} {tick : Option (Tick Event)} {db : DB}
    {a : WorkerAction Event} {w : Work DB Event} (h : T.work tick db a = some w) :
    T.Works tick db a w := by
  cases a with
  | find events =>
    simp only [work] at h
    split at h
    · contradiction
    · split at h
      · rename_i hall
        cases h
        refine .idle (fun t' ht' e he => ?_)
        split at ht'
        · contradiction
        · cases ht'
          exact .inl (hall e he)
      · contradiction
  | publish p =>
    simp only [work] at h
    split at h
    · split at h <;> cases h
      · exact .publish rfl rfl
      · exact .publish rfl rfl
      · refine .idle (fun t' ht' e' he => .inr ⟨_,rfl,?_⟩)
        cases ht'
        exact List.mem_cons_of_mem _ he
    · contradiction
  | mark fails =>
    simp only [work] at h
    split at h
    · cases h
      split
      · exact .idle (by simp)
      · exact .mark
    · contradiction
  | crash =>
    cases h
    exact .idle (by simp)

end NestHomework.Outbox
