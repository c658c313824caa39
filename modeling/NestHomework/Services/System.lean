import NestHomework.Outbox.Worker
import NestHomework.TransactionService.Commits
import NestHomework.UserService.Delivery

/-! The two services and the messages between them. Each database transaction is one step, and
anything may happen between the steps of a handler. The broker keeps every message: it may be
handled any number of times, in any order, or never. -/
namespace NestHomework.Services
open Contracts Postgres Outbox TransactionService UserService

/-- What a message, an outbox row or a transaction is about: a deposit or a transfer pair. -/
abbrev Target := RetryTarget

def payloadTarget : Payload → Target
  | .depositPaid p => .deposit p.transactionId
  | .depositCrediting p => .deposit p.transactionId
  | .transferInited p => .transfer p.outId p.inId
  | .transferResult p => .transfer p.outId p.inId

/-- The deposit itself, or the pair of a transfer leg. -/
def transactionTarget (t : Transaction) : Target :=
  match t.type, t.referenceId with
  | .transferOut, some inId => .transfer t.id inId
  | .transferIn, some outId => .transfer outId t.id
  | _, _ => .deposit t.id

def messageTarget : BalanceMessage → Target
  | .depositPaidSuccess p => .deposit p.transactionId
  | .transferInited p => .transfer p.outId p.inId

/-- The message as `BalanceKafkaController` takes it. -/
def balanceMessage (m : KafkaMessage) : Option BalanceMessage :=
  match m.topic, m.value with
  | .depositPaidSuccess, .depositPaid p => some (.depositPaidSuccess p)
  | .transferInited, .transferInited p => some (.transferInited p)
  | _, _ => none

/-- `KafkaProcessController` and `KafkaProcessService`: the repository call for a message. Every
error ends in the log. -/
def resultCall (maxRetry : ℕ) (m : KafkaMessage) (ids : RetryIds) : Option TransactionCall :=
  match m.idempotencyKey, m.topic, m.value with
  | some idempotencyKey, .depositCreditingSuccess, .depositCrediting p =>
    some (.setStatusUpdated idempotencyKey p.transactionId ids.processedId)
  | some idempotencyKey, .depositCreditingFailed, .depositCrediting p =>
    some (.recreate ⟨.deposit p.transactionId,idempotencyKey,p.eventId,maxRetry,
      .depositCreditingFailed⟩ ids)
  | some idempotencyKey, .tranferSuccess, .transferResult p =>
    some (.setStatusUpdatedByIds idempotencyKey p.outId p.inId ids.processedId)
  | some idempotencyKey, .tranferFailed, .transferResult p =>
    some (.recreate ⟨.transfer p.outId p.inId,idempotencyKey,p.eventId,maxRetry,.tranferFailed⟩ ids)
  | _, _, _ => none

/-- The outbox of the transaction service, for its worker. -/
def txTable : Table TxDb TransactionService.OutboxEvent where
  id e := e.id
  unprocessed db := db.outboxEvents.filter (fun e => !e.processed)
  markEventsAsProcessed ids db := {db with outboxEvents := db.outboxEvents.map (fun e =>
    if ids.contains e.id then {e with processed := true} else e)}
  message e header := e.payload.map (fun p => ⟨e.id,e.topic,p,some header⟩)

/-- The outbox of the user service, for its worker. -/
def userTable : Table UserDb UserService.OutboxEvent where
  id e := e.id
  unprocessed db := db.outboxEvents.filter (fun e => !e.processed)
  markEventsAsProcessed ids db := {db with outboxEvents := db.outboxEvents.map (fun e =>
    if ids.contains e.id then {e with processed := true} else e)}
  message e header := some ⟨e.id,e.topic,e.payload,some header⟩

/-- A call of the gRPC service or of the webhook. -/
inductive Request where
  | depositRub (n : NewDeposit)
  | transferRub (n : NewTransfer)
  | succeeded (paymentId : String) (eventId : Uuid)
  | canceled (paymentId : String)
  deriving DecidableEq, Repr

namespace Request

def call : Request → TransactionCall
  | depositRub n => .create n
  | transferRub n => .createTransfer n
  | succeeded paymentId eventId => .setStatusCompleted paymentId eventId
  | canceled paymentId => .setStatusTimeout paymentId

/-- `transferRub` refuses a transfer to the sender. -/
def accepted : Request → Bool
  | transferRub n => n.fromAccountId ≠ n.toAccountId
  | _ => true

def uuids : Request → List Uuid
  | depositRub n => [n.id]
  | transferRub n => [n.outId,n.inId,n.eventId]
  | succeeded _ eventId => [eventId]
  | canceled _ => []

end Request

/-- A balance handler between two of its database transactions. -/
structure Handler where
  message : BalanceMessage
  idempotencyKey : Option Uuid
  rest : Proc UserService.Stmt UserService.Res Unit Outcome

/-- The last four fields are history: the uuids that were generated, the headers of the messages that
were handled, the headers for which a balance handler committed something, and the targets whose
money a transaction moved, once for each `COMMIT`. -/
structure State where
  tx : TxDb
  user : UserDb
  txTick : Option (Tick TransactionService.OutboxEvent)
  userTick : Option (Tick UserService.OutboxEvent)
  messages : List KafkaMessage
  handlers : List Handler
  used : List Uuid
  handled : List Uuid
  answered : List Uuid
  moved : List Target

inductive Action where
  | request (r : Request) (fault : Option ℕ)
  | createAccount (accountId rubId usdId usdtId : Uuid)
  | txWorker (a : WorkerAction TransactionService.OutboxEvent)
  | userWorker (a : WorkerAction UserService.OutboxEvent)
  /-- A balance handler takes a message and runs its first transaction. -/
  | handleBalance (m : KafkaMessage) (ids : RunIds) (fault : Option ℕ)
  /-- A balance handler runs its next transaction. -/
  | resume (i : ℕ) (fault : Option ℕ)
  | handleResult (m : KafkaMessage) (ids : RetryIds) (fault : Option ℕ)
  deriving DecidableEq, Repr

/-- The uuids that an action generates. -/
def Action.uuids : Action → List Uuid
  | .request r _ => r.uuids
  | .createAccount _ _ _ _ => []
  | .txWorker a => a.uuids
  | .userWorker a => a.uuids
  | .handleBalance _ ids _ => [ids.processedId,ids.outboxId,ids.failedId]
  | .resume _ _ => []
  | .handleResult _ ids _ => [ids.outboxId,ids.processedId]

/-- The update of an amount. -/
def isIncrement : UserService.Write → Bool
  | .addAmount _ _ => true
  | _ => false

namespace State

/-- Keep the handler when it has a transaction left. -/
def park (s : State) (message : BalanceMessage) (idempotencyKey : Option Uuid)
    (rest : Proc UserService.Stmt UserService.Res Unit Outcome) : State :=
  match rest with
  | .done _ => s
  | .transaction _ _ => {s with handlers := s.handlers++[⟨message,idempotencyKey,rest⟩]}

/-- The commit of a transaction of a balance handler. -/
def commit (s : State) (message : BalanceMessage) (idempotencyKey : Option Uuid)
    (ws : List UserService.Write) : State :=
  {s with
    user := (UserService.server true).applyAll s.user ws
    answered := if ws = [] then s.answered else s.answered++idempotencyKey.toList
    moved := if ws.any isIncrement then s.moved++[messageTarget message] else s.moved}

/-- Run the next transaction of a balance handler. -/
def proceed (s : State) (message : BalanceMessage) (idempotencyKey : Option Uuid)
    (fault : Option ℕ) :
    Proc UserService.Stmt UserService.Res Unit Outcome → State
  | .done _ => s
  | .transaction body next =>
    match (UserService.server true).run fault body s.user with
    | .error e => s.park message idempotencyKey (next (.error e))
    | .ok (r,ws) =>
      (s.commit message idempotencyKey ws).park message idempotencyKey (next (.ok r))

/-- One step, whatever uuids it generates. -/
def step (maxRetry : ℕ) (s : State) : Action → Option State
  | .request r fault =>
    if r.accepted then some {s with tx := r.call.after fault s.tx} else none
  | .createAccount accountId rubId usdId usdtId =>
    if [rubId,usdId,usdtId].Nodup ∧ (∀ b ∈ s.user.balances, b.id ∉ [rubId,usdId,usdtId]) ∧
        (∀ b ∈ s.user.balances, b.accountId ≠ accountId) then
      some {s with user := s.user.createAccount accountId rubId usdId usdtId}
    else none
  | .txWorker a => (txTable.work s.txTick s.tx a).map (fun w =>
      {s with tx := w.db, txTick := w.tick, messages := s.messages++w.sent.toList})
  | .userWorker a => (userTable.work s.userTick s.user a).map (fun w =>
      {s with user := w.db, userTick := w.tick, messages := s.messages++w.sent.toList})
  | .handleBalance m ids fault =>
    if m ∈ s.messages then
      (balanceMessage m).map (fun message =>
        {s with handled := s.handled++m.idempotencyKey.toList}.proceed message m.idempotencyKey fault
          (message.handle m.idempotencyKey ids))
    else none
  | .resume i fault => s.handlers[i]?.map (fun h =>
      {s with handlers := s.handlers.eraseIdx i}.proceed h.message h.idempotencyKey fault h.rest)
  | .handleResult m ids fault =>
    if m ∈ s.messages then
      (resultCall maxRetry m ids).map (fun call =>
        {s with tx := call.after fault s.tx, handled := s.handled++m.idempotencyKey.toList})
    else none

/-- A step generates uuids that were never generated before. -/
def next (maxRetry : ℕ) (s : State) (a : Action) : Option State :=
  if a.uuids.Nodup ∧ ∀ u ∈ a.uuids, u ∉ s.used then
    (step maxRetry s a).map (fun s' => {s' with used := s'.used++a.uuids})
  else none

/-- No transactions and no messages yet, and these balances. -/
def initial (balances : List Balance) : State :=
  ⟨⟨[],[],[]⟩,⟨balances,[],[]⟩,none,none,[],[],[],[],[],[]⟩

end State
end NestHomework.Services
