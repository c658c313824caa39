import Mathlib.Data.Nat.Notation
import Mathlib.Data.Int.Notation

/-! The messages that the user service and the transaction service exchange. -/
namespace NestHomework.Contracts

/-- A uuid is a 128-bit number. Its text form sorts as the number does. -/
abbrev Uuid := ℕ

/-- `KAFKA_TOPICS`. -/
inductive KafkaTopic where
  | depositPaidSuccess
  | transferInited
  | depositCreditingSuccess
  | depositCreditingFailed
  | tranferSuccess
  | tranferFailed
  deriving DecidableEq, Repr

def KafkaTopic.name : KafkaTopic → String
  | depositPaidSuccess => "deposit.paid.success"
  | transferInited => "tranfer.inited"
  | depositCreditingSuccess => "deposit.crediting.success"
  | depositCreditingFailed => "deposit.crediting.failed"
  | tranferSuccess => "transfer.success"
  | tranferFailed => "transfer.failed"

structure DepositPaidSuccessPayload where
  eventId : Uuid
  transactionId : Uuid
  accountId : Uuid
  currency : String
  amount : String
  deriving DecidableEq, Repr

/-- The fields of `DepositCreditingSuccessPayload` and of `DepositCreditingFailedPayload`. -/
structure DepositCreditingPayload where
  eventId : Uuid
  transactionId : Uuid
  deriving DecidableEq, Repr

structure TransferInitedPayload where
  eventId : Uuid
  outId : Uuid
  inId : Uuid
  fromAccountId : Uuid
  toAccountId : Uuid
  currency : String
  amount : String
  deriving DecidableEq, Repr

/-- The fields of `TransferSuccessPayload` and of `TransferFailedPayload`. -/
structure TransferResultPayload where
  eventId : Uuid
  outId : Uuid
  inId : Uuid
  deriving DecidableEq, Repr

/-- The value of a message, as an outbox row stores it. -/
inductive Payload where
  | depositPaid (p : DepositPaidSuccessPayload)
  | depositCrediting (p : DepositCreditingPayload)
  | transferInited (p : TransferInitedPayload)
  | transferResult (p : TransferResultPayload)
  deriving DecidableEq, Repr

/-- A published message. Its key is the id of the outbox row; the header is missing when it is
absent or empty. -/
structure KafkaMessage where
  key : Uuid
  topic : KafkaTopic
  value : Payload
  idempotencyKey : Option Uuid
  deriving DecidableEq, Repr

/-- `RMQ_PATTERNS.DEPOSIT_CREDITED` and `RMQ_PATTERNS.TRANSFER_COMPLETED` with their payloads. The
amounts are in hundredths, before `toDollarsInt` makes a text of them. -/
inductive RmqMessage where
  | depositCredited (transactionId accountId : Uuid) (amount : ℤ) (currency : String)
  | transferCompleted (outTx inTx fromAccountId toAccountId : Uuid) (amount : ℤ)
      (currency : String)
  deriving DecidableEq, Repr

end NestHomework.Contracts
