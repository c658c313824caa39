import NestHomework.Services.System
import NestHomework.Shared.Dollars
import NestHomework.UserService.HandlerOutcome

/-! `RmqController` with `TransactionDocService`, and the way to them of one Kafka message of a
deposit or a transfer. A transaction of the user service is one step; either service may stop
between any two steps, Kafka delivers again what was not finished and RabbitMQ what was not
acknowledged. -/
namespace NestHomework.NotificationService
open Contracts Postgres Shared UserService Transition
open TransactionService (TransactionType)

structure TransactionDoc where
  type : TransactionType
  transactionId : Option Uuid
  accountId : Option Uuid
  outTx : Option Uuid
  inTx : Option Uuid
  fromAccountId : Option Uuid
  toAccountId : Option Uuid
  amount : Option String
  currency : String
  deriving DecidableEq, Repr

section Documents
variable (numberText : String → String)

/-- `toDollarsInt().toString()`. Numbers are floating-point: `numberText s` is the text of
`parseFloat(s)`. -/
def amountText (amount : ℤ) : Option String := toDollarsInt numberText amount

theorem amountText_eq (amount : ℤ) :
    amountText numberText amount = some (numberText (dollars amount).text) := by
  rw [amountText,toDollarsInt_eq]

def saveDepositMessage (transactionId accountId : Uuid) (amount : ℤ) (currency : String) :
    TransactionDoc :=
  ⟨.deposit,some transactionId,some accountId,none,none,none,none,amountText numberText amount,currency⟩

def saveTransferMessage (outTx inTx fromAccountId toAccountId : Uuid) (amount : ℤ)
    (currency : String) : TransactionDoc :=
  ⟨.transferOut,none,none,some outTx,some inTx,some fromAccountId,some toAccountId,
    amountText numberText amount,currency⟩

/-- What `depositCredited` and `transferCompleted` save. -/
def document : RmqMessage → TransactionDoc
  | .depositCredited transactionId accountId amount currency =>
    saveDepositMessage numberText transactionId accountId amount currency
  | .transferCompleted outTx inTx fromAccountId toAccountId amount currency =>
    saveTransferMessage numberText outTx inTx fromAccountId toAccountId amount currency

/-- A document has the amount that its schema requires. -/
theorem isSome_document_amount (message : RmqMessage) :
    (document numberText message).amount.isSome := by
  cases message with
  | depositCredited => rw [document,saveDepositMessage,amountText_eq,Option.isSome_some]
  | transferCompleted => rw [document,saveTransferMessage,amountText_eq,Option.isSome_some]

end Documents

/-- The Kafka message at a consumer. -/
inductive Handling where
  | pending
  | running (rest : Proc Stmt Res Unit Outcome)
  | finished

def Handling.unfinished : Handling → Bool
  | finished => false
  | _ => true

/-- A notification leaves the user service some time after `emit`, and its handler acknowledges it
before the document is saved. -/
inductive Stage where
  | emitted
  | queued
  | handled
  | acknowledged
  deriving DecidableEq, Repr

structure Notification where
  message : RmqMessage
  stage : Stage
  deriving DecidableEq, Repr

/-- `commits` are the transactions that the deliveries committed, and `sent` counts what they
emitted. -/
structure History where
  db : UserDb
  deliveries : List Handling
  notifications : List Notification
  docs : List TransactionDoc
  commits : List (List Write)
  sent : ℕ

inductive HistoryAction where
  | deliver
  | start (i : ℕ) (ids : RunIds)
  | transact (i : ℕ) (fault : Option ℕ)
  /-- The handler emits its notification, if it has one, and returns. -/
  | finish (i : ℕ)
  /-- The user service stops while it handles the message, or Kafka retries a handler that threw. -/
  | abort (i : ℕ)
  /-- Transactions of other messages. -/
  | others (db : UserDb)
  | publish (j : ℕ) (arrives : Bool)
  | take (j : ℕ)
  | ack (j : ℕ)
  | save (j : ℕ) (stored : Bool)
  /-- The notification service stops while it handles the notification. -/
  | die (j : ℕ)
  deriving DecidableEq, Repr

namespace History

def initial (db : UserDb) : History := ⟨db,[],[],[],[],0⟩

/-- How often the money was moved. -/
def moved (s : History) : ℕ := s.commits.countP (·.any Services.isIncrement)

/-- Nothing of the message is under way. -/
def quiet (s : History) : Bool := !s.deliveries.any Handling.unfinished && s.notifications.isEmpty

def setDelivery (s : History) (i : ℕ) (d : Handling) : History :=
  {s with deliveries := s.deliveries.set i d}

/-- The end of a handler. -/
def finishDelivery (s : History) (i : ℕ) : Outcome → History
  | .notified message =>
    {s.setDelivery i .finished with
      notifications := s.notifications++[⟨message,.emitted⟩], sent := s.sent+1}
  | _ => s.setDelivery i .finished

def setStage (s : History) (j : ℕ) (message : RmqMessage) (stage : Stage) : History :=
  {s with notifications := s.notifications.set j ⟨message,stage⟩}

def drop (s : History) (j : ℕ) : History := {s with notifications := s.notifications.eraseIdx j}

def next (numberText : String → String) (m : BalanceMessage) (idempotencyKey : Uuid) (s : History) :
    HistoryAction → Option History
  | .deliver => some {s with deliveries := s.deliveries++[.pending]}
  | .start i ids =>
    match s.deliveries[i]? with
    | some .pending => some (s.setDelivery i (.running (m.handle (some idempotencyKey) ids)))
    | _ => none
  | .transact i fault =>
    match s.deliveries[i]? with
    | some (.running (.transaction body rest)) =>
      match (server true).run fault body s.db with
      | .error e => some (s.setDelivery i (.running (rest (.error e))))
      | .ok (r,ws) => some {s.setDelivery i (.running (rest (.ok r))) with
          db := (server true).applyAll s.db ws, commits := s.commits++[ws]}
    | _ => none
  | .finish i =>
    match s.deliveries[i]? with
    | some (.running (.done outcome)) => some (s.finishDelivery i outcome)
    | _ => none
  | .abort i =>
    match s.deliveries[i]? with
    | some (.running _) => some (s.setDelivery i .pending)
    | _ => none
  | .others db =>
    if (db.processed idempotencyKey).isSome = (s.db.processed idempotencyKey).isSome then
      some {s with db := db}
    else none
  | .publish j arrives =>
    match s.notifications[j]? with
    | some ⟨message,.emitted⟩ => some (if arrives then s.setStage j message .queued else s.drop j)
    | _ => none
  | .take j =>
    match s.notifications[j]? with
    | some ⟨message,.queued⟩ => some (s.setStage j message .handled)
    | _ => none
  | .ack j =>
    match s.notifications[j]? with
    | some ⟨message,.handled⟩ => some (s.setStage j message .acknowledged)
    | _ => none
  | .save j stored =>
    match s.notifications[j]? with
    | some ⟨message,.acknowledged⟩ =>
      some (if stored then {s.drop j with docs := s.docs++[document numberText message]} else s.drop j)
    | _ => none
  | .die j =>
    match s.notifications[j]? with
    | some ⟨message,.handled⟩ => some (s.setStage j message .queued)
    | some ⟨_,.acknowledged⟩ => some (s.drop j)
    | _ => none

/-- No step emits a notification after another one, ends the last delivery of a recorded message
without one, or loses one on its way to the collection. -/
def careful (idempotencyKey : Uuid) (s : History) : HistoryAction → Bool
  | .finish i =>
    match s.deliveries[i]? with
    | some (.running (.done (.notified _))) => s.sent = 0
    | _ => (s.db.processed idempotencyKey).isNone || s.sent ≠ 0 ||
        (s.deliveries.set i .finished).any Handling.unfinished
  | .publish _ arrives => arrives
  | .save _ stored => stored
  | .die j => !s.notifications[j]?.any (·.stage = .acknowledged)
  | _ => true

end History
end NestHomework.NotificationService
