import NestHomework.TransactionService.Commits

/-! `YookassaWebhookService`. A notification may come from anybody and say anything: the service
asks the provider about the payment before it calls the repository. -/
namespace NestHomework.TransactionService
open Contracts

inductive YookassaPaymentStatus where
  | pending
  | waitingForCapture
  | succeeded
  | canceled
  deriving DecidableEq, Repr

def YookassaPaymentStatus.name : YookassaPaymentStatus → String
  | pending => "pending"
  | waitingForCapture => "waiting_for_capture"
  | succeeded => "succeeded"
  | canceled => "canceled"

/-- What the service reads of a payment. -/
structure YookassaPayment where
  id : String
  status : YookassaPaymentStatus
  deriving DecidableEq, Repr

/-- The event of a notification, and the id of its object. -/
structure YookassaWebhookResponse where
  event : String
  objectId : String
  deriving DecidableEq, Repr

section Processing
variable (getPayment : String → Except String YookassaPayment)

def checkPaymentStatus (paymentId : String) (status : YookassaPaymentStatus) :
    Except String YookassaPayment :=
  match getPayment paymentId with
  | .error e => .error e
  | .ok payment =>
    if payment.status ≠ status then
      .error s!"Неожиданный статус платежа: {status.name} !== {payment.status.name}"
    else .ok payment

/-- The repository is called with the id that the provider answers. -/
def succeeded (paymentId : String) (eventId : Uuid) : Except String TransactionCall :=
  match checkPaymentStatus getPayment paymentId .succeeded with
  | .error _ => .error "Bad Request"
  | .ok payment => .ok (.setStatusCompleted payment.id eventId)

/-- The repository is called with the id of the notification. -/
def canceled (paymentId : String) : Except String TransactionCall :=
  match checkPaymentStatus getPayment paymentId .canceled with
  | .error _ => .error "Bad Request"
  | .ok _ => .ok (.setStatusTimeout paymentId)

/-- The call of the repository that a notification leads to; other events are ignored. -/
def processing (data : YookassaWebhookResponse) (eventId : Uuid) :
    Except String (Option TransactionCall) :=
  if data.event = "payment.succeeded" then (succeeded getPayment data.objectId eventId).map some
  else if data.event = "payment.canceled" then (canceled getPayment data.objectId).map some
  else .ok none

variable {getPayment}

theorem checkPaymentStatus_ok {paymentId : String} {status : YookassaPaymentStatus}
    {payment : YookassaPayment} (h : checkPaymentStatus getPayment paymentId status = .ok payment) :
    getPayment paymentId = .ok payment ∧ payment.status = status := by
  unfold checkPaymentStatus at h
  split at h
  · contradiction
  · split at h
    · contradiction
    · rename_i hanswer hs
      cases h
      exact ⟨hanswer,not_not.mp hs⟩

/-- A notification leads to a call only when the provider confirms what it says. -/
theorem processing_call {data : YookassaWebhookResponse} {eventId : Uuid} {c : TransactionCall}
    (h : processing getPayment data eventId = .ok (some c)) :
    ∃ payment, getPayment data.objectId = .ok payment ∧
      ((payment.status = .succeeded ∧ c = .setStatusCompleted payment.id eventId) ∨
        (payment.status = .canceled ∧ c = .setStatusTimeout data.objectId)) := by
  unfold processing at h
  split at h
  · unfold succeeded at h
    split at h
    · contradiction
    · rename_i payment hcheck
      cases h
      obtain ⟨hanswer,hs⟩ := checkPaymentStatus_ok hcheck
      exact ⟨payment,hanswer,.inl ⟨hs,rfl⟩⟩
  · split at h
    · unfold canceled at h
      split at h
      · contradiction
      · rename_i payment hcheck
        cases h
        obtain ⟨hanswer,hs⟩ := checkPaymentStatus_ok hcheck
        exact ⟨payment,hanswer,.inr ⟨hs,rfl⟩⟩
    · cases h

end Processing
end NestHomework.TransactionService
