import NestHomework.Contracts.Kafka
import NestHomework.Postgres.ReadCommitted

/-! The tables of the transaction service, and the SQL statements that its repository issues on
them. -/
namespace NestHomework.TransactionService
open Contracts Postgres

inductive TransactionStatus where
  | pending
  | completed
  | balanceUpdated
  | balanceFailed
  | failed
  | timeout
  deriving DecidableEq, Repr

def TransactionStatus.name : TransactionStatus → String
  | pending => "PENDING"
  | completed => "COMPLETED"
  | balanceUpdated => "BALANCE_UPDATED"
  | balanceFailed => "BALANCE_FAILED"
  | failed => "FAILED"
  | timeout => "TIMEOUT"

inductive TransactionType where
  | deposit
  | withdrawal
  | transferIn
  | transferOut
  deriving DecidableEq, Repr

/-- `idempotencyKey` and `providerPaymentId` carry unique indexes. -/
structure Transaction where
  id : Uuid
  accountId : Uuid
  amount : ℤ
  currency : String
  type : TransactionType
  status : TransactionStatus
  idempotencyKey : String
  retryCount : ℕ
  provider : Option String
  method : Option String
  providerPaymentId : Option String
  referenceId : Option Uuid
  deriving DecidableEq, Repr

/-- The payload is absent when its JSON value is falsy. -/
structure OutboxEvent where
  id : Uuid
  transactionId : Uuid
  topic : KafkaTopic
  payload : Option Payload
  processed : Bool
  deriving DecidableEq, Repr

/-- `idempotencyKey` carries the unique index. -/
structure ProcessedEvent where
  id : Uuid
  idempotencyKey : Uuid
  topic : KafkaTopic
  deriving DecidableEq, Repr

structure TxDb where
  transactions : List Transaction
  outboxEvents : List OutboxEvent
  processedEvents : List ProcessedEvent
  deriving DecidableEq, Repr

namespace TxDb
variable (db : TxDb)

def transaction (id : Uuid) : Option Transaction := db.transactions.find? (fun t => t.id = id)

def transactionOfKey (idempotencyKey : String) : Option Transaction :=
  db.transactions.find? (fun t => t.idempotencyKey = idempotencyKey)

/-- `WHERE id IN (..)`, in the order of the table. -/
def ofIds (ids : List Uuid) : List Transaction :=
  db.transactions.filter (fun t => ids.contains t.id)

def ofPayment (providerPaymentId : String) : List Transaction :=
  db.transactions.filter (fun t => t.providerPaymentId = some providerPaymentId)

def statuses : List (Uuid × TransactionStatus) := db.transactions.map (fun t => (t.id,t.status))

def outboxEvent (id : Uuid) : Option OutboxEvent := db.outboxEvents.find? (fun e => e.id = id)

def processed (key : Uuid) : Option ProcessedEvent :=
  db.processedEvents.find? (fun e => e.idempotencyKey = key)

end TxDb

inductive Stmt where
  | findUniqueTransaction (id : Uuid)
  | findUniqueTransactionByKey (idempotencyKey : String)
  | findManyTransactions (ids : List Uuid)
  /-- `SELECT .. WHERE id IN (..) FOR UPDATE` -/
  | selectTransactionsForUpdate (ids : List Uuid)
  /-- `SELECT .. WHERE provider_payment_id = .. FOR UPDATE` -/
  | selectPaymentForUpdate (providerPaymentId : String)
  | createTransaction (data : Transaction)
  | updateStatus (id : Uuid) (status : TransactionStatus)
  | updateManyStatus (ids : List Uuid) (status : TransactionStatus)
  /-- `UPDATE transactions SET retry_count = retry_count + 1 WHERE id = .. RETURNING retry_count` -/
  | updateRetryCount (id : Uuid)
  | updateManyRetryCount (ids : List Uuid)
  | findUniqueOutboxEvent (id : Uuid)
  | createOutboxEvent (data : OutboxEvent)
  | findUniqueProcessedEvent (idempotencyKey : Uuid)
  | createProcessedEvent (data : ProcessedEvent)
  deriving DecidableEq

@[reducible] def Res : Stmt → Type
  | .findUniqueTransaction _ => Option Transaction
  | .findUniqueTransactionByKey _ => Option Transaction
  | .findManyTransactions _ => List Transaction
  | .selectTransactionsForUpdate _ => List Transaction
  | .selectPaymentForUpdate _ => List Transaction
  | .createTransaction _ => Transaction
  | .updateStatus _ _ => Unit
  | .updateManyStatus _ _ => Unit
  | .updateRetryCount _ => ℕ
  | .updateManyRetryCount _ => List ℕ
  | .findUniqueOutboxEvent _ => Option OutboxEvent
  | .createOutboxEvent _ => Unit
  | .findUniqueProcessedEvent _ => Option ProcessedEvent
  | .createProcessedEvent _ => Unit

def sql (s : Stmt) : Tx Stmt Res (Res s) := Tx.stmt s

@[simp] theorem sql_bind {ρ : Type} (s : Stmt) (f : Res s → Tx Stmt Res ρ) :
    (sql s >>= f) = Tx.exec s f := rfl

inductive Write where
  | insertTransaction (data : Transaction)
  | setStatus (ids : List Uuid) (status : TransactionStatus)
  | addRetryCount (ids : List Uuid)
  | insertOutboxEvent (data : OutboxEvent)
  | insertProcessedEvent (data : ProcessedEvent)
  deriving DecidableEq, Repr

def Write.apply (db : TxDb) : Write → TxDb
  | .insertTransaction data => {db with transactions := db.transactions++[data]}
  | .setStatus ids status =>
    {db with transactions := db.transactions.map (fun t =>
      if ids.contains t.id then {t with status := status} else t)}
  | .addRetryCount ids =>
    {db with transactions := db.transactions.map (fun t =>
      if ids.contains t.id then {t with retryCount := t.retryCount+1} else t)}
  | .insertOutboxEvent data => {db with outboxEvents := db.outboxEvents++[data]}
  | .insertProcessedEvent data => {db with processedEvents := db.processedEvents++[data]}

def Stmt.exec (db : TxDb) : (s : Stmt) → Except String (Res s × List Write)
  | .findUniqueTransaction id => .ok (db.transaction id,[])
  | .findUniqueTransactionByKey idempotencyKey => .ok (db.transactionOfKey idempotencyKey,[])
  | .findManyTransactions ids => .ok (db.ofIds ids,[])
  | .selectTransactionsForUpdate ids => .ok (db.ofIds ids,[])
  | .selectPaymentForUpdate providerPaymentId => .ok (db.ofPayment providerPaymentId,[])
  | .createTransaction data =>
    if (db.transaction data.id).isSome then .error "Unique constraint failed on the fields: (id)"
    else if (db.transactionOfKey data.idempotencyKey).isSome then
      .error "Unique constraint failed on the fields: (idempotency_key)"
    else if data.providerPaymentId.any (fun p => db.ofPayment p ≠ []) then
      .error "Unique constraint failed on the fields: (provider_payment_id)"
    else .ok (data,[.insertTransaction data])
  | .updateStatus id status =>
    if (db.transaction id).isSome then .ok ((),[.setStatus [id] status])
    else .error "No record was found for an update"
  | .updateManyStatus ids status => .ok ((),[.setStatus ids status])
  | .updateRetryCount id =>
    match db.transaction id with
    | none => .error "No record was found for an update"
    | some t => .ok (t.retryCount+1,[.addRetryCount [id]])
  | .updateManyRetryCount ids => .ok ((db.ofIds ids).map (·.retryCount+1),[.addRetryCount ids])
  | .findUniqueOutboxEvent id => .ok (db.outboxEvent id,[])
  | .createOutboxEvent data =>
    if (db.transaction data.transactionId).isSome then .ok ((),[.insertOutboxEvent data])
    else .error "Foreign key constraint violated: outbox_events_transaction_id_fkey"
  | .findUniqueProcessedEvent idempotencyKey => .ok (db.processed idempotencyKey,[])
  | .createProcessedEvent data =>
    if (db.processed data.idempotencyKey).isSome then
      .error "Unique constraint failed on the fields: (idempotency_key)"
    else .ok ((),[.insertProcessedEvent data])

section Apply
variable (db : TxDb) (ids : List Uuid) (status : TransactionStatus) (data : Transaction)
  (event : OutboxEvent) (record : ProcessedEvent) (key : Uuid)

@[simp] theorem processed_insertTransaction :
    ((Write.insertTransaction data).apply db).processed key = db.processed key := rfl
@[simp] theorem processed_setStatus :
    ((Write.setStatus ids status).apply db).processed key = db.processed key := rfl
@[simp] theorem processed_addRetryCount :
    ((Write.addRetryCount ids).apply db).processed key = db.processed key := rfl
@[simp] theorem processed_insertOutboxEvent :
    ((Write.insertOutboxEvent event).apply db).processed key = db.processed key := rfl
@[simp] theorem transaction_insertOutboxEvent (id : Uuid) :
    ((Write.insertOutboxEvent event).apply db).transaction id = db.transaction id := rfl
@[simp] theorem transaction_insertProcessedEvent (id : Uuid) :
    ((Write.insertProcessedEvent record).apply db).transaction id = db.transaction id := rfl

end Apply

section Update
variable {db : TxDb}

theorem map_id_update {l : List Uuid} {f : Transaction → Transaction} (hf : ∀ t, (f t).id = t.id) :
    (db.transactions.map (fun t => if l.contains t.id then f t else t)).map (·.id) =
      db.transactions.map (·.id) := by
  rw [List.map_map]
  refine List.map_congr_left (fun t _ => ?_)
  simp only [Function.comp_apply]
  split
  · exact hf t
  · rfl

theorem ofIds_map {f : Transaction → Transaction} (hf : ∀ t, (f t).id = t.id) (l : List Uuid) :
    (db.transactions.map f).filter (fun t => l.contains t.id) = (db.ofIds l).map f := by
  rw [List.filter_map,TxDb.ofIds]
  congr 2
  funext t
  simp [hf t]

/-- An update of the rows `ids` reaches all of them. -/
theorem ofIds_update {l : List Uuid} {f : Transaction → Transaction} (hf : ∀ t, (f t).id = t.id) :
    ({db with transactions := db.transactions.map (fun t => if l.contains t.id then f t else t)} :
      TxDb).ofIds l = (db.ofIds l).map f := by
  refine (ofIds_map (fun t => by split <;> simp [hf]) l).trans ?_
  refine List.map_congr_left (fun t ht => ?_)
  rw [if_pos (List.mem_filter.mp ht).2]

theorem ofIds_setStatus (l : List Uuid) (status : TransactionStatus) :
    ((Write.setStatus l status).apply db).ofIds l =
      (db.ofIds l).map (fun t => {t with status := status}) := ofIds_update (fun _ => rfl)

theorem ofIds_addRetryCount (l : List Uuid) : ((Write.addRetryCount l).apply db).ofIds l =
    (db.ofIds l).map (fun t => {t with retryCount := t.retryCount+1}) :=
  ofIds_update (fun _ => rfl)

end Update

/-- The rows that a statement locks before it answers. -/
def Stmt.rows (db : TxDb) : Stmt → List Uuid
  | .selectTransactionsForUpdate ids => (db.ofIds ids).map (·.id)
  | .selectPaymentForUpdate providerPaymentId => (db.ofPayment providerPaymentId).map (·.id)
  | .updateStatus id _ => (db.ofIds [id]).map (·.id)
  | .updateManyStatus ids _ => (db.ofIds ids).map (·.id)
  | .updateRetryCount id => (db.ofIds [id]).map (·.id)
  | .updateManyRetryCount ids => (db.ofIds ids).map (·.id)
  | _ => []

/-- The orders in which a statement may lock. No query has an `ORDER BY`; the foreign key of an
outbox row shares the key of its transaction. -/
def Stmt.plans (db : TxDb) (plan : List (Uuid × RowLock)) : Stmt → Bool
  | s@(.selectTransactionsForUpdate _) => plan.isPerm ((s.rows db).map (fun r => (r,.update)))
  | s@(.selectPaymentForUpdate _) => plan.isPerm ((s.rows db).map (fun r => (r,.update)))
  | .createOutboxEvent data =>
    plan = if (db.transaction data.transactionId).isSome then [(data.transactionId,.keyShare)]
      else []
  | s => plan.isPerm ((s.rows db).map (fun r => (r,.noKeyUpdate)))

/-- The unique indexes. -/
inductive UniqueKey where
  | processedEvent (idempotencyKey : Uuid)
  | transactionId (id : Uuid)
  | transaction (idempotencyKey : String)
  | payment (providerPaymentId : String)
  deriving DecidableEq, Repr

def Stmt.inserts : Stmt → List UniqueKey
  | .createProcessedEvent data => [.processedEvent data.idempotencyKey]
  | .createTransaction data =>
    .transactionId data.id::.transaction data.idempotencyKey::
      data.providerPaymentId.toList.map .payment
  | _ => []

/-- The database server of the transaction service. -/
def server : Server Stmt Res TxDb Write Uuid UniqueKey where
  exec s db := s.exec db
  apply := Write.apply
  plans s db plan := s.plans db plan
  reads s db := s.rows db
  inserts := Stmt.inserts

section Server
variable (s : Stmt) (db : TxDb) (w : Write)

@[simp] theorem server_exec : server.exec s db = s.exec db := rfl
@[simp] theorem server_apply : server.apply db w = w.apply db := rfl
@[simp] theorem server_plans (plan : List (Uuid × RowLock)) :
    server.plans s db plan = s.plans db plan := rfl
@[simp] theorem server_reads : server.reads s db = s.rows db := rfl
@[simp] theorem server_inserts : server.inserts s = s.inserts := rfl

end Server
end NestHomework.TransactionService
