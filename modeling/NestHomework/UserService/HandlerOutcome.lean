import NestHomework.UserService.BalanceKafka

/-! How one run of a handler ends, whatever the database holds and whichever of its statements
fail. -/
namespace NestHomework.UserService
open Contracts Postgres

inductive Ending where
  | moved
  | alreadyRecorded
  | failed
  | thrown
  deriving DecidableEq, Repr

def increment (id : Uuid) (amount : ℤ) (balances : List Balance) : List Balance :=
  balances.map (fun b => if b.id = id then {b with amount := b.amount+amount} else b)

namespace BalanceMessage

/-- The money of the message is on the balance it is for, and off the one it comes from. -/
def Moved (m : BalanceMessage) (amount : ℤ) (db db' : UserDb) : Prop :=
  match m with
  | .depositPaidSuccess payload => ∃ b ∈ db.balances,
    b.accountId = payload.accountId ∧ b.currency = payload.currency ∧
      db'.balances = increment b.id amount db.balances
  | .transferInited payload => ∃ sender ∈ db.balances, ∃ receiver ∈ db.balances,
    sender.accountId = payload.fromAccountId ∧ receiver.accountId = payload.toAccountId ∧
      sender.currency = payload.currency ∧ receiver.currency = payload.currency ∧
      db'.balances = increment receiver.id amount (increment sender.id (-amount) db.balances)

/-- One more outbox row, with the ids of the payload. -/
def AddsEvent (m : BalanceMessage) (topic : KafkaTopic) (db db' : UserDb) : Prop :=
  ∃ e : OutboxEvent, e.topic = topic ∧ e.payload = m.resultPayload ∧
    db'.outboxEvents = db.outboxEvents++[e]

/-- The run left `db` as `db'` and ended as told. -/
def Ends (m : BalanceMessage) (idempotencyKey : Option Uuid) (outcome : Outcome) (db db' : UserDb) :
    Ending → Prop
  | .moved => ∃ key amount record, idempotencyKey = some key ∧ m.amount = some amount ∧
      m.Moved amount db db' ∧ db'.processedEvents = db.processedEvents++[record] ∧
      record.idempotencyKey = key ∧ m.AddsEvent m.successTopic db db' ∧
      outcome = .notified (m.notification amount)
  | .alreadyRecorded => (∃ key, idempotencyKey = some key ∧ (db.processed key).isSome) ∧ db' = db ∧
      ∃ message, outcome = .notified message
  | .failed => db'.balances = db.balances ∧ db'.processedEvents = db.processedEvents ∧
      m.AddsEvent m.failedTopic db db' ∧ outcome = .failed
  | .thrown => db' = db ∧ ∃ e, outcome = .thrown e

end BalanceMessage

section Commits
variable {check : Bool} {db : UserDb}

theorem depositUpdate_ok {idempotencyKey : Uuid} {amount : ℤ}
    {transactionId eventId processedId outboxId balance : Uuid} {ws : List Write}
    (h : (server check).run none (depositUpdate idempotencyKey amount transactionId eventId
      processedId outboxId balance) db = .ok ((),ws)) :
    ws = depositWrites idempotencyKey amount transactionId eventId processedId outboxId balance := by
  obtain ⟨_,_,_,hupdate,hrest₁,rfl⟩ := Engine.run_exec_eq_ok h
  cases exec_updateBalance_ok hupdate
  obtain ⟨_,_,_,hrecord,hrest₂,rfl⟩ := Engine.run_exec_eq_ok hrest₁
  cases exec_createProcessedEvent_ok hrecord
  obtain ⟨_,_,_,hevent,hrest₃,rfl⟩ := Engine.run_exec_eq_ok hrest₂
  cases exec_createOutboxEvent_ok hevent
  rw [Engine.run_pure] at hrest₃
  cases hrest₃
  rfl

theorem transferDecrement_ok {idempotencyKey : Uuid} {amount : ℤ}
    {eventId outId inId processedId outboxId sender receiver : Uuid} {ws : List Write}
    (h : (server check).run none (transferDecrement idempotencyKey amount eventId outId inId
      processedId outboxId sender receiver) db = .ok ((),ws)) :
    ws = transferWrites idempotencyKey amount eventId outId inId processedId outboxId sender
      receiver := by
  obtain ⟨_,_,_,hsender,hrest₁,rfl⟩ := Engine.run_exec_eq_ok h
  cases exec_updateBalance_ok hsender
  obtain ⟨_,_,_,hreceiver,hrest₂,rfl⟩ := Engine.run_exec_eq_ok hrest₁
  cases exec_updateBalance_ok hreceiver
  obtain ⟨_,_,_,hrecord,hrest₃,rfl⟩ := Engine.run_exec_eq_ok hrest₂
  cases exec_createProcessedEvent_ok hrecord
  obtain ⟨_,_,_,hevent,hrest₄,rfl⟩ := Engine.run_exec_eq_ok hrest₃
  cases exec_createOutboxEvent_ok hevent
  rw [Engine.run_pure] at hrest₄
  cases hrest₄
  rfl

namespace BalanceMessage

/-- A money transaction that commits found the message recorded and did nothing, or it did all that
the message asks for. -/
theorem call_committed (m : BalanceMessage) {idempotencyKey : Uuid} {amount : ℤ} {ids : RunIds}
    {fault : Option ℕ} {ws : List Write}
    (h : (server check).run fault (m.call idempotencyKey amount ids).body db = .ok ((),ws)) :
    ((db.processed idempotencyKey).isSome ∧ ws = []) ∨
    (db.processed idempotencyKey = none ∧ (∃ id increment, .addAmount id increment ∈ ws) ∧
      m.Moved amount db ((server check).applyAll db ws) ∧
      ∃ record, ((server check).applyAll db ws).processedEvents = db.processedEvents++[record] ∧
        record.idempotencyKey = idempotencyKey ∧
        m.AddsEvent m.successTopic db ((server check).applyAll db ws)) := by
  have halone := Engine.run_ok_of_fault _ h
  cases m with
  | depositPaidSuccess payload =>
    rw [call,BalanceCall.body,depositAndCreateOutboxEvent_eq,Engine.run_exec_read rfl] at halone
    cases hrows : db.ofAccounts [payload.accountId] payload.currency with
    | nil =>
      rw [hrows] at halone
      exact absurd halone (by simp [depositSelected])
    | cons b rest =>
      have hb : b ∈ db.ofAccounts [payload.accountId] payload.currency := by simp [hrows]
      rw [mem_ofAccounts,List.mem_singleton] at hb
      rw [hrows,List.map_cons,depositSelected,Engine.run_exec_read rfl,depositChecked] at halone
      split at halone
      · rename_i hrecorded
        rw [Engine.run_pure] at halone
        cases halone
        exact .inl ⟨hrecorded,rfl⟩
      · rename_i hrecorded
        cases depositUpdate_ok halone
        exact .inr ⟨Option.not_isSome_iff_eq_none.mp hrecorded,⟨_,_,List.mem_cons_self⟩,
          ⟨b,hb.1,hb.2.1,hb.2.2,rfl⟩,_,rfl,rfl,_,rfl,rfl,rfl⟩
  | transferInited payload =>
    rw [call,BalanceCall.body,transferAndCreateOutboxEvent_eq,Engine.run_exec_read rfl,
      transferChecked] at halone
    split at halone
    · rename_i hrecorded
      rw [Engine.run_pure] at halone
      cases halone
      exact .inl ⟨hrecorded,rfl⟩
    · rename_i hrecorded
      rw [Engine.run_exec_read rfl] at halone
      rcases transferSelected_cases idempotencyKey payload.fromAccountId payload.toAccountId amount
        payload.eventId payload.outId payload.inId ids.processedId ids.outboxId
        (orderByAccount (db.ofAccounts [payload.fromAccountId,payload.toAccountId]
          payload.currency)) with ⟨e,he⟩ | ⟨sender,receiver,hs,hr,-,-,-,-,he⟩
      · rw [he,Engine.run_throw] at halone
        contradiction
      · rw [he] at halone
        cases transferDecrement_ok halone
        have hrow : ∀ b ∈ orderByAccount (db.ofAccounts
            [payload.fromAccountId,payload.toAccountId] payload.currency),
            b ∈ db.balances ∧ b.currency = payload.currency := by
          intro b hb
          obtain ⟨hmem,-,hcurrency⟩ := mem_ofAccounts.mp (mem_orderByAccount.mp hb)
          exact ⟨hmem,hcurrency⟩
        obtain ⟨hsm,hsc⟩ := hrow sender (List.mem_of_find?_eq_some hs)
        obtain ⟨hrm,hrc⟩ := hrow receiver (List.mem_of_find?_eq_some hr)
        have hsa : sender.accountId = payload.fromAccountId := by simpa using List.find?_some hs
        have hra : receiver.accountId = payload.toAccountId := by simpa using List.find?_some hr
        exact .inr ⟨Option.not_isSome_iff_eq_none.mp hrecorded,⟨_,_,List.mem_cons_self⟩,
          ⟨sender,hsm,receiver,hrm,hsa,hra,hsc,hrc,rfl⟩,_,rfl,rfl,_,rfl,rfl,rfl⟩

theorem catchBlock_ends (m : BalanceMessage) (idempotencyKey : Option Uuid) (ids : RunIds)
    (faults : List (Option ℕ)) {r : Outcome × List (List Write)}
    (hr : (m.catchBlock ids).run (server check).toEngine faults db = r) :
    ∃ e ∈ [Ending.failed,.thrown],
      m.Ends idempotencyKey r.1 db (r.2.foldl (server check).applyAll db) e := by
  rw [m.catchBlock_eq,Proc.run] at hr
  cases hrun : (server check).run (faults.headD none) (m.failure ids).body db with
  | error e =>
    rw [hrun] at hr
    cases hr
    exact ⟨.thrown,by simp,rfl,e,rfl⟩
  | ok x =>
    obtain ⟨⟨⟩,ws⟩ := x
    obtain ⟨e,htopic,hpayload,rfl⟩ := m.failure_committed hrun
    rw [hrun] at hr
    cases hr
    exact ⟨.failed,by simp,rfl,rfl,⟨e,htopic,hpayload,rfl⟩,rfl⟩

theorem ends (m : BalanceMessage) (idempotencyKey : Option Uuid) (ids : RunIds)
    (faults : List (Option ℕ)) {r : Outcome × List (List Write)}
    (hr : (m.handle idempotencyKey ids).run (server check).toEngine faults db = r) :
    ∃ e, m.Ends idempotencyKey r.1 db (r.2.foldl (server check).applyAll db) e := by
  cases hkey : idempotencyKey with
  | none =>
    rw [hkey,m.handle_none] at hr
    obtain ⟨e,-,he⟩ := m.catchBlock_ends none ids faults hr
    exact ⟨e,he⟩
  | some key =>
    rw [hkey] at hr
    cases hamount : m.amount with
    | none =>
      rw [m.handle_of_not_numeric key ids hamount] at hr
      obtain ⟨e,-,he⟩ := m.catchBlock_ends (some key) ids faults hr
      exact ⟨e,he⟩
    | some amount =>
      rw [m.handle_some key ids hamount,Proc.run] at hr
      cases hrun : (server check).run (faults.headD none) (m.call key amount ids).body db with
      | error e =>
        rw [hrun] at hr
        obtain ⟨e,-,he⟩ := m.catchBlock_ends (some key) ids faults.tail hr
        exact ⟨e,he⟩
      | ok x =>
        obtain ⟨⟨⟩,ws⟩ := x
        rw [hrun] at hr
        cases hr
        rcases m.call_committed hrun with
          ⟨hrecorded,rfl⟩ | ⟨-,-,hmoved,record,hrecord,hk,hevent⟩
        · exact ⟨.alreadyRecorded,⟨key,rfl,hrecorded⟩,rfl,_,rfl⟩
        · exact ⟨.moved,key,amount,record,rfl,hamount,hmoved,hrecord,hk,hevent,rfl⟩

/-- The answer and the recorded keys tell the endings apart. -/
theorem Ends.unique {m : BalanceMessage} {idempotencyKey : Option Uuid} {outcome : Outcome}
    {db' : UserDb} {e f : Ending} (he : m.Ends idempotencyKey outcome db db' e)
    (hf : m.Ends idempotencyKey outcome db db' f) : e = f := by
  have hgrows : ∀ record, db.processedEvents ≠ db.processedEvents++[record] := by simp
  cases e <;> cases f <;> simp only [Ends] at he hf <;> grind

end BalanceMessage
end Commits

/-- Every run of a handler ends in exactly one of the four ways. -/
theorem handler_ends_in_one (check : Bool) (m : BalanceMessage) (idempotencyKey : Option Uuid)
    (ids : RunIds) (faults : List (Option ℕ)) (db : UserDb) :
    let r := (m.handle idempotencyKey ids).run (server check).toEngine faults db
    ∃! e : Ending, m.Ends idempotencyKey r.1 db (r.2.foldl (server check).applyAll db) e := by
  intro r
  obtain ⟨e,he⟩ := m.ends idempotencyKey ids faults (show _ = r from rfl)
  exact ⟨e,he,fun f hf => BalanceMessage.Ends.unique hf he⟩

end NestHomework.UserService
