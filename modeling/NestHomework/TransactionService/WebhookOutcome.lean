import NestHomework.TransactionService.Requests
import NestHomework.TransactionService.Webhook

/-! How a notification ends: what `YookassaWebhookService` answers and what the tables hold after
it, whatever the provider and the database do. -/
namespace NestHomework.TransactionService
open Contracts Postgres

inductive WebhookError where
  | badRequestException
  | referenceError (binding : String)
  deriving DecidableEq, Repr

/-- Read a `const` binding, which is `none` until its initialiser has finished. -/
def readConst {α : Type} (name : String) (binding : Option α) : Except WebhookError α :=
  match binding with
  | none => .error (.referenceError name)
  | some a => .ok a

namespace YookassaWebhookService

/-- The handler of a rejected call of the repository. Its log line reads `tx`. -/
def statusCatch (tx : Option StatusChange) : Except WebhookError StatusChange := do
  let _tx ← readConst "tx" tx
  .error .badRequestException

/-- `const tx = await call.catch(..)`: the handler runs inside the initialiser of `tx`. -/
def awaitTx (call : Except String StatusChange) : Except WebhookError StatusChange :=
  match call with
  | .ok tx => .ok tx
  | .error _ => statusCatch none

section Handlers
variable (getPayment : String → Except String YookassaPayment)

def succeeded (paymentId : String) (eventId : Uuid) :
    Proc Stmt Res StatusChange (Except WebhookError Unit) :=
  match checkPaymentStatus getPayment paymentId .succeeded with
  | .error _ => .done (.error .badRequestException)
  | .ok payment =>
    .transaction (setStatusCompletedAndCreateOutboxEvent payment.id eventId)
      fun tx => .done ((awaitTx tx).map fun _ => ())

def canceled (paymentId : String) : Proc Stmt Res StatusChange (Except WebhookError Unit) :=
  match checkPaymentStatus getPayment paymentId .canceled with
  | .error _ => .done (.error .badRequestException)
  | .ok _ =>
    .transaction (setStatusTimeout paymentId) fun tx => .done ((awaitTx tx).map fun _ => ())

def processing (data : YookassaWebhookResponse) (eventId : Uuid) :
    Proc Stmt Res StatusChange (Except WebhookError Unit) :=
  if data.event = "payment.succeeded" then succeeded getPayment data.objectId eventId
  else if data.event = "payment.canceled" then canceled getPayment data.objectId
  else .done (.ok ())

end Handlers
end YookassaWebhookService

/-- A notification: what the provider answers about payments, the uuid of the outbox row, and where
the database transaction is cut off. -/
structure Notification where
  data : YookassaWebhookResponse
  getPayment : String → Except String YookassaPayment
  eventId : Uuid
  fault : Option ℕ

/-- What `processing` answers, and the tables after it. -/
def Notification.serve (n : Notification) (db : TxDb) : Except WebhookError Unit × TxDb :=
  TransactionService.serve (YookassaWebhookService.processing n.getPayment n.data n.eventId)
    n.fault db

/-- A PENDING transaction of the payment took the status, and its outbox rows were added. -/
def Settles (providerPaymentId : String) (status : TransactionStatus)
    (events : Transaction → List OutboxEvent) (db db' : TxDb) : Prop :=
  ∃ t ∈ db.transactions, t.providerPaymentId = some providerPaymentId ∧ t.status = .pending ∧
    db' = ⟨db.transactions.map (fun u => if u.id = t.id then {u with status := status} else u),
      db.outboxEvents++events t,db.processedEvents⟩

/-- The change that a notification asks for, once the provider has confirmed it. -/
def Notification.Intended (n : Notification) (db db' : TxDb) : Prop :=
  if n.data.event = "payment.succeeded" then
    ∃ payment, n.getPayment n.data.objectId = .ok payment ∧ payment.status = .succeeded ∧
      Settles payment.id .completed (fun t => [t.paidEvent n.eventId]) db db'
  else if n.data.event = "payment.canceled" then
    ∃ payment, n.getPayment n.data.objectId = .ok payment ∧ payment.status = .canceled ∧
      Settles n.data.objectId .timeout (fun _ => []) db db'
  else db' = db

/-- The notification is carried out, or it is refused and nothing has changed. -/
def Notification.Reported (n : Notification) (db : TxDb) : Prop :=
  ((n.serve db).1 = .ok () ∧ n.Intended db (n.serve db).2) ∨
    ((n.serve db).1 = .error .badRequestException ∧ (n.serve db).2 = db)

/-- The row that the repository locks for the payment is PENDING. -/
def TxDb.pendingPayment (db : TxDb) (providerPaymentId : String) : Bool :=
  (db.ofPayment providerPaymentId).head?.any (·.status = .pending)

/-- The provider does not confirm the notification, or the transaction of the payment is PENDING
and its change is not cut off. -/
def Notification.acceptable (n : Notification) (db : TxDb) : Bool :=
  if n.data.event = "payment.succeeded" then
    match checkPaymentStatus n.getPayment n.data.objectId .succeeded with
    | .error _ => true
    | .ok payment => db.pendingPayment payment.id &&
        !(TransactionCall.setStatusCompleted payment.id n.eventId).interrupted n.fault db
  else if n.data.event = "payment.canceled" then
    match checkPaymentStatus n.getPayment n.data.objectId .canceled with
    | .error _ => true
    | .ok _ => db.pendingPayment n.data.objectId &&
        !(TransactionCall.setStatusTimeout n.data.objectId).interrupted n.fault db
  else true

section Outcome
variable {db : TxDb} {providerPaymentId : String}

/-- A call for a payment commits its writes when the row that it locks is PENDING. -/
theorem commit_settles {status : TransactionStatus} {events : Transaction → List OutboxEvent}
    (writes : Transaction → List Write) {commit : Option (List Write)}
    (hcommit : commit = (db.ofPayment providerPaymentId).head?.bind (fun t =>
      if t.status = .pending then some (writes t) else none))
    (happly : ∀ t, server.applyAll db (writes t) =
      ⟨db.transactions.map (fun u => if u.id = t.id then {u with status := status} else u),
        db.outboxEvents++events t,db.processedEvents⟩) :
    commit.isSome = db.pendingPayment providerPaymentId ∧ ∀ ws, commit = some ws →
      Settles providerPaymentId status events db (server.applyAll db ws) := by
  subst hcommit
  rw [TxDb.pendingPayment]
  cases ht : (db.ofPayment providerPaymentId).head? with
  | none => exact ⟨rfl,nofun⟩
  | some t =>
    obtain ⟨hmem,hpay⟩ := TransactionCall.mem_ofPayment_head ht
    by_cases hpending : t.status = .pending
    · rw [Option.bind_some,if_pos hpending]
      refine ⟨by simp [hpending],fun ws hws => ?_⟩
      cases hws
      exact ⟨t,hmem,hpay,hpending,happly t⟩
    · rw [Option.bind_some,if_neg hpending]
      exact ⟨by simp [hpending],nofun⟩

theorem setStatusCompleted_settles (eventId : Uuid) :
    ((TransactionCall.setStatusCompleted providerPaymentId eventId).commit db).isSome =
      db.pendingPayment providerPaymentId ∧
    ∀ ws, (TransactionCall.setStatusCompleted providerPaymentId eventId).commit db = some ws →
      Settles providerPaymentId .completed (fun t => [t.paidEvent eventId]) db
        (server.applyAll db ws) := by
  refine commit_settles (fun t =>
    [.setStatus [t.id] .completed,.insertOutboxEvent (t.paidEvent eventId)]) ?_ fun t => ?_
  · rw [TransactionCall.commit]
    cases (db.ofPayment providerPaymentId).head? <;> rfl
  · simp [Write.apply]

theorem setStatusTimeout_settles :
    ((TransactionCall.setStatusTimeout providerPaymentId).commit db).isSome =
      db.pendingPayment providerPaymentId ∧
    ∀ ws, (TransactionCall.setStatusTimeout providerPaymentId).commit db = some ws →
      Settles providerPaymentId .timeout (fun _ => []) db (server.applyAll db ws) := by
  refine commit_settles (fun t => [.setStatus [t.id] .timeout]) ?_ fun t => ?_
  · rw [TransactionCall.commit]
    cases (db.ofPayment providerPaymentId).head? <;> rfl
  · simp [Write.apply]

/-- A call of the repository that the service awaits: either the row was PENDING and all of it
committed, or nothing did and reading `tx` throws. -/
theorem serve_awaitTx {body : Tx Stmt Res StatusChange} {status : TransactionStatus}
    {events : Transaction → List OutboxEvent} {commit : Option (List Write)}
    (hrun : (server.run none body db).toOption.map (·.2) = commit)
    (hcall : commit.isSome = db.pendingPayment providerPaymentId ∧ ∀ ws, commit = some ws →
      Settles providerPaymentId status events db (server.applyAll db ws)) (fault : Option ℕ)
    {r : Except WebhookError Unit × TxDb} (hr : serve (.transaction body fun tx =>
      .done ((YookassaWebhookService.awaitTx tx).map fun _ => ())) fault db = r) :
    ((db.pendingPayment providerPaymentId && !server.interrupts fault body db) = true ∧
      r.1 = .ok () ∧ Settles providerPaymentId status events db r.2) ∨
    ((db.pendingPayment providerPaymentId && !server.interrupts fault body db) = false ∧
      r = (.error (.referenceError "tx"),db)) := by
  obtain ⟨hsome,hsettles⟩ := hcall
  rw [serve_transaction,Engine.after] at hr
  rcases server.run_cases fault body db with ⟨e,he,hcause⟩ | ⟨tx,ws,hok,hwhole,hws⟩
  · rw [he] at hr
    refine .inr ⟨?_,hr.symm⟩
    rcases hcause with hcause | hcause
    · simp [hcause]
    · rw [← hsome,← hrun,hcause]
      rfl
  · rw [hok] at hr
    have hcommit : commit = some ws := hrun.symm.trans hws
    refine .inl ⟨?_,by rw [← hr]; rfl,by rw [← hr]; exact hsettles ws hcommit⟩
    rw [← hsome,hcommit]
    simpa using hwhole

/-- The tables change by the call that the notification leads to, and by nothing else. -/
theorem Notification.serve_tables (n : Notification) (db : TxDb) : (n.serve db).2 =
    match processing n.getPayment n.data n.eventId with
    | .ok (some c) => c.after n.fault db
    | _ => db := by
  obtain ⟨⟨event,objectId⟩,getPayment,eventId,fault⟩ := n
  simp only [serve,YookassaWebhookService.processing,processing]
  split_ifs
  · rw [YookassaWebhookService.succeeded,succeeded]
    cases checkPaymentStatus getPayment objectId .succeeded with
    | error e => rfl
    | ok payment => exact congrArg Prod.snd (serve_transaction ..)
  · rw [YookassaWebhookService.canceled,canceled]
    cases checkPaymentStatus getPayment objectId .canceled with
    | error e => rfl
    | ok payment => exact congrArg Prod.snd (serve_transaction ..)
  · rfl

end Outcome

theorem notification_reported_iff (n : Notification) (db : TxDb) :
    n.Reported db ↔ n.acceptable db := by
  obtain ⟨⟨event,objectId⟩,getPayment,eventId,fault⟩ := n
  simp only [Notification.Reported,Notification.Intended,Notification.acceptable,
    Notification.serve,YookassaWebhookService.processing]
  by_cases hsucceeded : event = "payment.succeeded"
  · simp only [if_pos hsucceeded,YookassaWebhookService.succeeded]
    cases hcheck : checkPaymentStatus getPayment objectId .succeeded with
    | error e => simp [serve]
    | ok payment =>
      obtain ⟨hanswer,hstatus⟩ := checkPaymentStatus_ok hcheck
      rcases serve_awaitTx (TransactionCall.setStatusCompleted_run payment.id eventId)
        (setStatusCompleted_settles eventId) fault rfl with
        ⟨hgood,hok,hsettles⟩ | ⟨hbad,hr⟩
      · exact ⟨fun _ => hgood,fun _ => .inl ⟨hok,payment,hanswer,hstatus,hsettles⟩⟩
      · simp only [TransactionCall.interrupted,hr,hbad]
        simp
  · simp only [if_neg hsucceeded]
    by_cases hcanceled : event = "payment.canceled"
    · simp only [if_pos hcanceled,YookassaWebhookService.canceled]
      cases hcheck : checkPaymentStatus getPayment objectId .canceled with
      | error e => simp [serve]
      | ok payment =>
        obtain ⟨hanswer,hstatus⟩ := checkPaymentStatus_ok hcheck
        rcases serve_awaitTx (TransactionCall.setStatusTimeout_run objectId)
          setStatusTimeout_settles fault rfl with ⟨hgood,hok,hsettles⟩ | ⟨hbad,hr⟩
        · exact ⟨fun _ => hgood,fun _ => .inl ⟨hok,payment,hanswer,hstatus,hsettles⟩⟩
        · simp only [TransactionCall.interrupted,hr,hbad]
          simp
    · simp [if_neg hcanceled,serve]

/-- A notification of a payment whose transaction is not there: `tx` is read before it exists. -/
theorem missing_transaction_is_referenceError :
    ∃ n : Notification, (n.serve ⟨[],[],[]⟩).1 = .error (.referenceError "tx") ∧
      ¬n.Reported ⟨[],[],[]⟩ := by
  refine ⟨⟨⟨"payment.succeeded","2d9b"⟩,fun id => .ok ⟨id,.succeeded⟩,1,none⟩,by decide +kernel,?_⟩
  rintro (⟨hok,-⟩ | ⟨herror,-⟩)
  · exact absurd hok (by decide +kernel)
  · exact absurd herror (by decide +kernel)

end NestHomework.TransactionService
