import NestHomework.Shared.BigInt
import NestHomework.UserService.Commits

/-! `BalanceKafkaService`. A handler runs the money transaction, and when that fails it writes the
failure event in a transaction of its own. -/
namespace NestHomework.UserService
open Contracts Postgres Shared

/-- How a handler ends: with a notification, with a failure event, or by throwing the error of the
failure event. -/
inductive Outcome where
  | notified (message : RmqMessage)
  | failed
  | thrown (error : String)
  deriving DecidableEq, Repr

/-- The uuids of one run: of the processed event, of the success event and of the failure event. -/
structure RunIds where
  processedId : Uuid
  outboxId : Uuid
  failedId : Uuid
  deriving DecidableEq, Repr

/-- The `catch` block of both handlers. -/
def createFailedEvent (accountId : Uuid) (currency : String) (topic : KafkaTopic)
    (payload : Payload) (failedId : Uuid) : Proc Stmt Res Unit Outcome :=
  .transaction (createOutboxEvent accountId currency topic payload failedId) fun event =>
    match event with
    | .ok _ => .done .failed
    | .error err => .done (.thrown err)

def depositToBalance (payload : DepositPaidSuccessPayload) (idempotencyKey : Option Uuid)
    (ids : RunIds) : Proc Stmt Res Unit Outcome :=
  let catchBlock := createFailedEvent payload.accountId payload.currency .depositCreditingFailed
    (.depositCrediting ⟨payload.eventId,payload.transactionId⟩) ids.failedId
  match idempotencyKey, stringToBigInt payload.amount with
  | some idempotencyKey, some amount =>
    .transaction (depositAndCreateOutboxEvent idempotencyKey payload.currency amount
      payload.accountId payload.transactionId payload.eventId ids.processedId ids.outboxId)
      fun result =>
        match result with
        | .ok _ => .done (.notified
            (.depositCredited payload.transactionId payload.accountId amount payload.currency))
        | .error _ => catchBlock
  | _, _ => catchBlock

def transferToAccount (payload : TransferInitedPayload) (idempotencyKey : Option Uuid)
    (ids : RunIds) : Proc Stmt Res Unit Outcome :=
  let catchBlock := createFailedEvent payload.fromAccountId payload.currency .tranferFailed
    (.transferResult ⟨payload.eventId,payload.outId,payload.inId⟩) ids.failedId
  match idempotencyKey, stringToBigInt payload.amount with
  | some idempotencyKey, some amount =>
    .transaction (transferAndCreateOutboxEvent idempotencyKey payload.fromAccountId
      payload.toAccountId payload.currency amount payload.eventId payload.outId payload.inId
      ids.processedId ids.outboxId)
      fun result =>
        match result with
        | .ok _ => .done (.notified (.transferCompleted payload.outId payload.inId
            payload.fromAccountId payload.toAccountId amount payload.currency))
        | .error _ => catchBlock
  | _, _ => catchBlock

/-- A message on one of the two topics that the service listens to. -/
inductive BalanceMessage where
  | depositPaidSuccess (payload : DepositPaidSuccessPayload)
  | transferInited (payload : TransferInitedPayload)
  deriving DecidableEq, Repr

namespace BalanceMessage

/-- `BalanceKafkaController`. -/
def handle : BalanceMessage → Option Uuid → RunIds → Proc Stmt Res Unit Outcome
  | .depositPaidSuccess payload => depositToBalance payload
  | .transferInited payload => transferToAccount payload

def successTopic : BalanceMessage → KafkaTopic
  | .depositPaidSuccess _ => .depositCreditingSuccess
  | .transferInited _ => .tranferSuccess

def failedTopic : BalanceMessage → KafkaTopic
  | .depositPaidSuccess _ => .depositCreditingFailed
  | .transferInited _ => .tranferFailed

def amount : BalanceMessage → Option ℤ
  | .depositPaidSuccess payload => stringToBigInt payload.amount
  | .transferInited payload => stringToBigInt payload.amount

def currency : BalanceMessage → String
  | .depositPaidSuccess payload => payload.currency
  | .transferInited payload => payload.currency

/-- The account whose balance the outbox rows of the message refer to. -/
def payer : BalanceMessage → Uuid
  | .depositPaidSuccess payload => payload.accountId
  | .transferInited payload => payload.fromAccountId

/-- The payload of the success event and of the failure event. -/
def resultPayload : BalanceMessage → Payload
  | .depositPaidSuccess payload => .depositCrediting ⟨payload.eventId,payload.transactionId⟩
  | .transferInited payload => .transferResult ⟨payload.eventId,payload.outId,payload.inId⟩

/-- The repository call in the `try` block. -/
def call (m : BalanceMessage) (idempotencyKey : Uuid) (amount : ℤ) (ids : RunIds) : BalanceCall :=
  match m with
  | .depositPaidSuccess payload => .deposit idempotencyKey payload.currency amount
      payload.accountId payload.transactionId payload.eventId ids.processedId ids.outboxId
  | .transferInited payload => .transfer idempotencyKey payload.fromAccountId payload.toAccountId
      payload.currency amount payload.eventId payload.outId payload.inId ids.processedId
      ids.outboxId

def notification (m : BalanceMessage) (amount : ℤ) : RmqMessage :=
  match m with
  | .depositPaidSuccess payload =>
    .depositCredited payload.transactionId payload.accountId amount payload.currency
  | .transferInited payload => .transferCompleted payload.outId payload.inId payload.fromAccountId
      payload.toAccountId amount payload.currency

def failure (m : BalanceMessage) (ids : RunIds) : BalanceCall :=
  .createOutboxEvent m.payer m.currency m.failedTopic m.resultPayload ids.failedId

def catchBlock (m : BalanceMessage) (ids : RunIds) : Proc Stmt Res Unit Outcome :=
  createFailedEvent m.payer m.currency m.failedTopic m.resultPayload ids.failedId

/-- What follows the money transaction. -/
def afterCall (m : BalanceMessage) (amount : ℤ) (ids : RunIds) :
    Except String Unit → Proc Stmt Res Unit Outcome
  | .ok _ => .done (.notified (m.notification amount))
  | .error _ => m.catchBlock ids

/-- What follows the transaction of the failure event. -/
def afterFailure : Except String Unit → Proc Stmt Res Unit Outcome
  | .ok _ => .done .failed
  | .error err => .done (.thrown err)

theorem catchBlock_eq (m : BalanceMessage) (ids : RunIds) :
    m.catchBlock ids = .transaction (m.failure ids).body afterFailure := by
  refine congrArg (Proc.transaction _) (funext fun r => ?_)
  cases r <;> rfl

/-- Both handlers have one shape. -/
theorem handle_some (m : BalanceMessage) (idempotencyKey : Uuid) (ids : RunIds) {amount : ℤ}
    (h : m.amount = some amount) : m.handle (some idempotencyKey) ids =
      .transaction (m.call idempotencyKey amount ids).body (m.afterCall amount ids) := by
  cases m with
  | depositPaidSuccess payload =>
    simp only [BalanceMessage.amount] at h
    simp only [handle,depositToBalance,h]
    refine congrArg (Proc.transaction _) (funext fun r => ?_)
    cases r <;> rfl
  | transferInited payload =>
    simp only [BalanceMessage.amount] at h
    simp only [handle,transferToAccount,h]
    refine congrArg (Proc.transaction _) (funext fun r => ?_)
    cases r <;> rfl

/-- An amount that is no integer goes straight to the `catch` block, as a missing header does. -/
theorem handle_of_not_numeric (m : BalanceMessage) (idempotencyKey : Uuid) (ids : RunIds)
    (h : m.amount = none) : m.handle (some idempotencyKey) ids = m.catchBlock ids := by
  cases m with
  | depositPaidSuccess payload =>
    simp only [BalanceMessage.amount] at h
    simp only [handle,depositToBalance,h]
    rfl
  | transferInited payload =>
    simp only [BalanceMessage.amount] at h
    simp only [handle,transferToAccount,h]
    rfl

/-- The topic that the message came on. -/
def topic : BalanceMessage → KafkaTopic
  | .depositPaidSuccess _ => .depositPaidSuccess
  | .transferInited _ => .transferInited

/-- The tests that the money transaction makes of the rows, the sign constraint included. -/
def payable (m : BalanceMessage) (amount : ℤ) (db : UserDb) : Bool :=
  match m with
  | .depositPaidSuccess payload =>
    match db.balanceOf payload.accountId payload.currency with
    | some balance => 0 ≤ balance.amount+amount
    | none => false
  | .transferInited payload =>
    match db.balanceOf payload.fromAccountId payload.currency,
        db.balanceOf payload.toAccountId payload.currency with
    | some sender, some receiver => payload.fromAccountId ≠ payload.toAccountId &&
      !(sender.blockedAt.isSome || receiver.blockedAt.isSome) && amount ≤ sender.amount &&
      0 ≤ receiver.amount+amount
    | _, _ => false

/-- The updates of amounts that the message asks for. -/
def moves (m : BalanceMessage) (amount : ℤ) (db : UserDb) : List Write :=
  match m with
  | .depositPaidSuccess payload =>
    (db.balanceOf payload.accountId payload.currency).toList.map (.addAmount ·.id amount)
  | .transferInited payload =>
    (db.balanceOf payload.fromAccountId payload.currency).toList.map (.addAmount ·.id (-amount))++
      (db.balanceOf payload.toAccountId payload.currency).toList.map (.addAmount ·.id amount)

def resultEvent (m : BalanceMessage) (id : Uuid) (topic : KafkaTopic) (db : UserDb) : List Write :=
  (db.balanceOf m.payer m.currency).toList.map
    (fun b => .insertOutboxEvent ⟨id,b.id,topic,m.resultPayload,false⟩)

/-- All that a payable message commits. -/
def writes (m : BalanceMessage) (idempotencyKey : Uuid) (amount : ℤ) (ids : RunIds)
    (db : UserDb) : List Write :=
  m.moves amount db++.insertProcessedEvent ⟨ids.processedId,idempotencyKey,m.topic⟩::
    m.resultEvent ids.outboxId m.successTopic db

section Failure
variable {check : Bool} {db : UserDb}

/-- The transaction of the failure event adds the event and nothing else. -/
theorem failure_committed (m : BalanceMessage) {ids : RunIds} {fault : Option ℕ} {ws : List Write}
    (h : (server check).run fault (m.failure ids).body db = .ok ((),ws)) :
    ∃ e : OutboxEvent, e.topic = m.failedTopic ∧ e.payload = m.resultPayload ∧
      ws = [.insertOutboxEvent e] := by
  have halone := Engine.run_ok_of_fault _ h
  rw [failure,BalanceCall.body,createOutboxEvent_eq,Engine.run_exec_read rfl] at halone
  cases hrow : ((db.ofAccounts [m.payer] m.currency).map (·.id)).head? with
  | none =>
    rw [hrow] at halone
    exact absurd halone (by simp [outboxFound])
  | some b =>
    rw [hrow,outboxFound] at halone
    obtain ⟨_,_,_,hevent,hrest,rfl⟩ := Engine.run_exec_eq_ok halone
    cases exec_createOutboxEvent_ok hevent
    rw [Engine.run_pure] at hrest
    cases hrest
    exact ⟨_,rfl,rfl,rfl⟩

end Failure

section Alone
variable {db : UserDb} (hw : db.WellFormed) (m : BalanceMessage) (idempotencyKey : Uuid)
  (amount : ℤ) (ids : RunIds)
include hw

theorem call_run_payable (hp : db.processed idempotencyKey = none) (h : m.payable amount db) :
    (server true).run none (m.call idempotencyKey amount ids).body db =
      .ok ((),m.writes idempotencyKey amount ids db) := by
  cases m with
  | depositPaidSuccess payload =>
    simp only [payable] at h
    split at h
    · rename_i b hb
      rw [decide_eq_true_eq] at h
      rw [call,BalanceCall.body,deposit_run hw,depositAlone,hb]
      simp only [hp,Option.isSome_none,Bool.true_and,decide_eq_true_eq]
      rw [if_neg (by simp),if_neg (by omega)]
      simp [writes,moves,resultEvent,payer,currency,hb,depositWrites,topic,successTopic,
        resultPayload]
    · contradiction
  | transferInited payload =>
    simp only [payable] at h
    split at h
    · rename_i sender receiver hs hr
      simp only [Bool.and_eq_true,decide_eq_true_eq,Bool.not_eq_true',Bool.or_eq_false_iff] at h
      obtain ⟨⟨⟨hne,hbs,hbr⟩,hfunds⟩,hnn⟩ := h
      rw [call,BalanceCall.body,transfer_run hw,transferAlone,hs,hr]
      simp only [hp,hbs,hbr,Option.isSome_none,Bool.or_self,Bool.true_and,decide_eq_true_eq]
      rw [if_neg (by simp),if_neg hne,if_neg (by simp),if_neg (by omega),if_neg (by omega)]
      simp [writes,moves,resultEvent,payer,currency,hs,hr,transferWrites,topic,successTopic,
        resultPayload]
    · contradiction

theorem call_run_refused (hp : db.processed idempotencyKey = none) (h : ¬m.payable amount db) :
    ∃ e, (server true).run none (m.call idempotencyKey amount ids).body db = .error e := by
  cases m with
  | depositPaidSuccess payload =>
    rw [call,BalanceCall.body,deposit_run hw,depositAlone]
    simp only [payable] at h
    cases hb : db.balanceOf payload.accountId payload.currency with
    | none => exact ⟨_,rfl⟩
    | some b =>
      simp only [hb,decide_eq_true_eq] at h
      simp only [hp,Option.isSome_none,Bool.true_and,decide_eq_true_eq]
      rw [if_neg (by simp),if_pos (by omega)]
      exact ⟨_,rfl⟩
  | transferInited payload =>
    rw [call,BalanceCall.body,transfer_run hw,transferAlone]
    simp only [payable] at h
    rw [hp,if_neg (by simp)]
    split
    · exact ⟨_,rfl⟩
    · rename_i hne
      cases hs : db.balanceOf payload.fromAccountId payload.currency with
      | none => exact ⟨_,rfl⟩
      | some sender =>
        cases hr : db.balanceOf payload.toAccountId payload.currency with
        | none => exact ⟨_,rfl⟩
        | some receiver =>
          simp only [hs,hr] at h
          simp only [Bool.true_and,decide_eq_true_eq]
          split
          · exact ⟨_,rfl⟩
          · rename_i hb
            split
            · exact ⟨_,rfl⟩
            · rename_i hfunds
              rw [if_pos]
              · exact ⟨_,rfl⟩
              · simp [hne] at h hb
                exact h hb.1 hb.2 (by omega)

/-- A recorded message changes nothing. -/
theorem call_run_recorded (hp : (db.processed idempotencyKey).isSome)
    (h : (db.balanceOf m.payer m.currency).isSome) :
    (server true).run none (m.call idempotencyKey amount ids).body db = .ok ((),[]) := by
  cases m with
  | depositPaidSuccess payload =>
    obtain ⟨b,hb⟩ := Option.isSome_iff_exists.mp h
    simp only [payer,currency] at hb
    simp [call,BalanceCall.body,deposit_run hw,depositAlone,hb,hp]
  | transferInited payload =>
    simp [call,BalanceCall.body,transfer_run hw,transferAlone,hp]

theorem call_run_writes {ws : List Write} (hp : (db.processed idempotencyKey).isSome)
    (h : (server true).run none (m.call idempotencyKey amount ids).body db = .ok ((),ws)) :
    ws = [] := by
  cases m with
  | depositPaidSuccess payload =>
    rw [call,BalanceCall.body,deposit_run hw,depositAlone] at h
    split at h
    · contradiction
    · rw [if_pos hp] at h
      cases h
      rfl
  | transferInited payload =>
    rw [call,BalanceCall.body,transfer_run hw,transferAlone,if_pos hp] at h
    cases h
    rfl

theorem failure_run (h : (db.balanceOf m.payer m.currency).isSome) :
    (server true).run none (m.failure ids).body db =
      .ok ((),m.resultEvent ids.failedId m.failedTopic db) := by
  obtain ⟨b,hb⟩ := Option.isSome_iff_exists.mp h
  rw [failure,BalanceCall.body,createOutboxEvent_run hw,hb]
  simp [resultEvent,hb]

theorem failure_run_of_missing (h : db.balanceOf m.payer m.currency = none) :
    ∃ e, (server true).run none (m.failure ids).body db = .error e := by
  rw [failure,BalanceCall.body,createOutboxEvent_run hw,h]
  exact ⟨_,rfl⟩

/-- A money transaction that commits went through, or found the message recorded. -/
theorem call_ok {fault : Option ℕ} {ws : List Write}
    (h : (server true).run fault (m.call idempotencyKey amount ids).body db = .ok ((),ws)) :
    ws = [] ∨ (db.processed idempotencyKey = none ∧ m.payable amount db ∧
      ws = m.writes idempotencyKey amount ids db) := by
  have halone := Engine.run_ok_of_fault _ h
  cases hp : db.processed idempotencyKey with
  | some e =>
    exact .inl (m.call_run_writes hw idempotencyKey amount ids (by simp [hp]) halone)
  | none =>
    by_cases hpay : m.payable amount db
    · rw [m.call_run_payable hw idempotencyKey amount ids hp hpay] at halone
      cases halone
      exact .inr ⟨rfl,hpay,rfl⟩
    · obtain ⟨e,he⟩ := m.call_run_refused hw idempotencyKey amount ids hp hpay
      rw [he] at halone
      contradiction

/-- A recorded message fails only when its transaction is cut off. -/
theorem interrupts_of_call_error {fault : Option ℕ} {e : String}
    (h : (server true).run fault (m.call idempotencyKey amount ids).body db = .error e)
    (hp : (db.processed idempotencyKey).isSome)
    (hb : (db.balanceOf m.payer m.currency).isSome) :
    (server true).interrupts fault (m.call idempotencyKey amount ids).body db := by
  by_contra hi
  rw [Engine.run_of_not_interrupts _ hi,m.call_run_recorded hw idempotencyKey amount ids hp hb] at h
  contradiction

end Alone

theorem handle_none (m : BalanceMessage) (ids : RunIds) : m.handle none ids = m.catchBlock ids := by
  cases m <;> rfl

end BalanceMessage
end NestHomework.UserService
