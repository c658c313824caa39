import Mathlib.Data.List.Sort
import NestHomework.Contracts.Kafka
import NestHomework.Postgres.ReadCommitted

/-! The tables of the user service that hold money, and the SQL statements that its balance
repository issues on them. -/
namespace NestHomework.UserService
open Contracts Postgres

/-- `amount` is a BIGINT, whose range is not modelled. -/
structure Balance where
  id : Uuid
  amount : ℤ
  currency : String
  accountId : Uuid
  blockedAt : Option ℕ
  deriving DecidableEq, Repr

structure OutboxEvent where
  id : Uuid
  balanceId : Uuid
  topic : KafkaTopic
  payload : Payload
  processed : Bool
  deriving DecidableEq, Repr

/-- `idempotencyKey` carries the unique index. -/
structure ProcessedEvent where
  id : Uuid
  idempotencyKey : Uuid
  topic : KafkaTopic
  deriving DecidableEq, Repr

structure UserDb where
  balances : List Balance
  outboxEvents : List OutboxEvent
  processedEvents : List ProcessedEvent
  deriving DecidableEq, Repr

namespace UserDb
variable (db : UserDb)

def balance (id : Uuid) : Option Balance := db.balances.find? (fun b => b.id = id)

def processed (key : Uuid) : Option ProcessedEvent :=
  db.processedEvents.find? (fun e => e.idempotencyKey = key)

/-- `WHERE account_id IN (..) AND currency = ..`. -/
def ofAccounts (accountIds : List Uuid) (currency : String) : List Balance :=
  db.balances.filter (fun b => accountIds.contains b.accountId && b.currency = currency)

end UserDb

/-- `ORDER BY account_id`. -/
def orderByAccount (bs : List Balance) : List Balance :=
  bs.insertionSort (fun b c => b.accountId ≤ c.accountId)

inductive Stmt where
  /-- `SELECT id .. WHERE account_id = .. AND currency = .. FOR UPDATE` -/
  | selectBalanceForUpdate (accountId : Uuid) (currency : String)
  /-- `SELECT .. WHERE account_id IN (..) AND currency = .. ORDER BY account_id FOR UPDATE` -/
  | selectBalancesForUpdate (accountIds : List Uuid) (currency : String)
  | findFirstBalance (accountId : Uuid) (currency : String)
  | findUniqueProcessedEvent (idempotencyKey : Uuid)
  /-- `UPDATE balances SET amount = amount + .. WHERE id = ..` -/
  | updateBalance (id : Uuid) (increment : ℤ)
  /-- `UPDATE balances SET amount = 0` -/
  | updateAllBalances
  | createProcessedEvent (data : ProcessedEvent)
  | createOutboxEvent (data : OutboxEvent)
  deriving DecidableEq

@[reducible] def Res : Stmt → Type
  | .selectBalanceForUpdate _ _ => List Uuid
  | .selectBalancesForUpdate _ _ => List Balance
  | .findFirstBalance _ _ => Option Uuid
  | .findUniqueProcessedEvent _ => Option ProcessedEvent
  | .updateBalance _ _ => Unit
  | .updateAllBalances => Unit
  | .createProcessedEvent _ => Unit
  | .createOutboxEvent _ => Unit

def sql (s : Stmt) : Tx Stmt Res (Res s) := Tx.stmt s

@[simp] theorem sql_bind {ρ : Type} (s : Stmt) (f : Res s → Tx Stmt Res ρ) :
    (sql s >>= f) = Tx.exec s f := rfl

inductive Write where
  | addAmount (id : Uuid) (increment : ℤ)
  | setAmount (id : Uuid) (amount : ℤ)
  | insertProcessedEvent (data : ProcessedEvent)
  | insertOutboxEvent (data : OutboxEvent)
  deriving DecidableEq, Repr

def Write.apply (db : UserDb) : Write → UserDb
  | .addAmount id increment =>
    {db with balances := db.balances.map (fun b =>
      if b.id = id then {b with amount := b.amount+increment} else b)}
  | .setAmount id amount =>
    {db with balances := db.balances.map (fun b =>
      if b.id = id then {b with amount := amount} else b)}
  | .insertProcessedEvent data => {db with processedEvents := db.processedEvents++[data]}
  | .insertOutboxEvent data => {db with outboxEvents := db.outboxEvents++[data]}

/-- The answer and the writes of a statement. With `check` the database enforces
`balance_amount_non_negative`. -/
def Stmt.exec (check : Bool) (db : UserDb) : (s : Stmt) → Except String (Res s × List Write)
  | .selectBalanceForUpdate accountId currency =>
    .ok ((db.ofAccounts [accountId] currency).map (·.id),[])
  | .selectBalancesForUpdate accountIds currency =>
    .ok (orderByAccount (db.ofAccounts accountIds currency),[])
  | .findFirstBalance accountId currency =>
    .ok (((db.ofAccounts [accountId] currency).map (·.id)).head?,[])
  | .findUniqueProcessedEvent idempotencyKey => .ok (db.processed idempotencyKey,[])
  | .updateBalance id increment =>
    match db.balance id with
    | none => .error "No record was found for an update"
    | some b =>
      if check && b.amount+increment < 0 then .error "balance_amount_non_negative"
      else .ok ((),[.addAmount id increment])
  | .updateAllBalances => .ok ((),db.balances.map (fun b => .setAmount b.id 0))
  | .createProcessedEvent data =>
    if (db.processed data.idempotencyKey).isSome then
      .error "Unique constraint failed on the fields: (idempotency_key)"
    else .ok ((),[.insertProcessedEvent data])
  | .createOutboxEvent data =>
    if (db.balance data.balanceId).isSome then .ok ((),[.insertOutboxEvent data])
    else .error "Foreign key constraint violated: outbox_events_balance_id_fkey"

/-- The rows that a statement locks before it answers. -/
def Stmt.rows (db : UserDb) : Stmt → List Uuid
  | .selectBalanceForUpdate accountId currency => (db.ofAccounts [accountId] currency).map (·.id)
  | .selectBalancesForUpdate accountIds currency =>
    (orderByAccount (db.ofAccounts accountIds currency)).map (·.id)
  | .updateBalance id _ => if (db.balance id).isSome then [id] else []
  | .updateAllBalances => db.balances.map (·.id)
  | _ => []

/-- The orders in which a statement may lock. Only `ORDER BY` fixes one; the foreign key of an
outbox row shares the key of its balance. -/
def Stmt.plans (db : UserDb) (plan : List (Uuid × RowLock)) : Stmt → Bool
  | s@(.selectBalanceForUpdate _ _) => plan.isPerm ((s.rows db).map (fun r => (r,.update)))
  | s@(.selectBalancesForUpdate _ _) => plan = (s.rows db).map (fun r => (r,.update))
  | s@(.updateBalance _ _) => plan = (s.rows db).map (fun r => (r,.noKeyUpdate))
  | s@(.updateAllBalances) => plan.isPerm ((s.rows db).map (fun r => (r,.noKeyUpdate)))
  | .createOutboxEvent data =>
    plan = if (db.balance data.balanceId).isSome then [(data.balanceId,.keyShare)] else []
  | _ => plan = []

def Stmt.inserts : Stmt → List Uuid
  | .createProcessedEvent data => [data.idempotencyKey]
  | _ => []

/-- The database server of the user service. -/
def server (check : Bool) : Server Stmt Res UserDb Write Uuid Uuid where
  exec s db := s.exec check db
  apply := Write.apply
  plans s db plan := s.plans db plan
  reads s db := s.rows db
  inserts := Stmt.inserts

section Server
variable (check : Bool) (s : Stmt) (db : UserDb) (w : Write)

@[simp] theorem server_exec : (server check).exec s db = s.exec check db := rfl
@[simp] theorem server_apply : (server check).apply db w = w.apply db := rfl
@[simp] theorem server_plans (plan : List (Uuid × RowLock)) :
    (server check).plans s db plan = s.plans db plan := rfl
@[simp] theorem server_reads : (server check).reads s db = s.rows db := rfl
@[simp] theorem server_inserts : (server check).inserts s = s.inserts := rfl

end Server
end NestHomework.UserService
