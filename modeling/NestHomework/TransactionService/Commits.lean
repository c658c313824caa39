import Mathlib.Tactic
import NestHomework.Postgres.Table
import NestHomework.TransactionService.Retry

/-! The calls of `TransactionRepository`, and what each of them commits when nothing runs beside
it. -/
namespace NestHomework.TransactionService
open Contracts Postgres

/-- A deposit that `depositRub` creates, once the payment exists. -/
structure NewDeposit where
  id : Uuid
  accountId : Uuid
  amount : ℤ
  idempotencyKey : String
  paymentId : String
  deriving DecidableEq, Repr

def NewDeposit.data (n : NewDeposit) : Transaction :=
  { id := n.id, accountId := n.accountId, amount := n.amount, currency := "RUB", type := .deposit,
    status := .pending, idempotencyKey := n.idempotencyKey, retryCount := 0,
    provider := some "YOOKASSA", method := some "bank_card",
    providerPaymentId := some n.paymentId, referenceId := none }

/-- The arguments of `createTransfer` and the uuids that it generates. -/
structure NewTransfer where
  fromAccountId : Uuid
  toAccountId : Uuid
  amount : ℤ
  currency : String
  idempotencyKey : String
  outId : Uuid
  inId : Uuid
  eventId : Uuid
  deriving DecidableEq, Repr

namespace NewTransfer
variable (n : NewTransfer)

def txOut : Transaction :=
  { id := n.outId, accountId := n.fromAccountId, amount := -n.amount, currency := n.currency,
    type := .transferOut, status := .pending, idempotencyKey := n.idempotencyKey,
    retryCount := 0, provider := none, method := none, providerPaymentId := none,
    referenceId := some n.inId }

def txIn : Transaction :=
  { id := n.inId, accountId := n.toAccountId, amount := n.amount, currency := n.currency,
    type := .transferIn, status := .pending, idempotencyKey := n.idempotencyKey++"_in",
    retryCount := 0, provider := none, method := none, providerPaymentId := none,
    referenceId := some n.outId }

def payload : TransferInitedPayload :=
  ⟨n.eventId,n.outId,n.inId,n.fromAccountId,n.toAccountId,n.currency,toString n.amount⟩

def event : OutboxEvent :=
  ⟨n.eventId,n.outId,.transferInited,some (.transferInited n.payload),false⟩

end NewTransfer

/-- The payload of the event of a paid deposit. -/
def Transaction.depositPaid (t : Transaction) (eventId : Uuid) : DepositPaidSuccessPayload :=
  ⟨eventId,t.id,t.accountId,t.currency,toString t.amount⟩

def Transaction.paidEvent (t : Transaction) (eventId : Uuid) : OutboxEvent :=
  ⟨eventId,t.id,.depositPaidSuccess,some (.depositPaid (t.depositPaid eventId)),false⟩

/-- A call that the gRPC service, the webhook or a Kafka handler makes, with the uuids that it
generates. -/
inductive TransactionCall where
  | create (n : NewDeposit)
  | createTransfer (n : NewTransfer)
  | setStatusCompleted (providerPaymentId : String) (eventId : Uuid)
  | setStatusTimeout (providerPaymentId : String)
  | setStatusUpdated (idempotencyKey transactionId processedId : Uuid)
  | setStatusUpdatedByIds (idempotencyKey outId inId processedId : Uuid)
  | recreate (c : RetryCall) (ids : RetryIds)
  deriving DecidableEq, Repr

namespace TransactionCall

/-- The database after a call that meets no other and may be cut off. -/
def after (fault : Option ℕ) (db : TxDb) : TransactionCall → TxDb
  | .create n => server.after fault (TransactionService.create n.data) db
  | .createTransfer n => server.after fault (TransactionService.createTransfer n.fromAccountId
      n.toAccountId n.amount n.currency n.idempotencyKey n.outId n.inId n.eventId) db
  | .setStatusCompleted providerPaymentId eventId =>
    server.after fault (setStatusCompletedAndCreateOutboxEvent providerPaymentId eventId) db
  | .setStatusTimeout providerPaymentId =>
    server.after fault (TransactionService.setStatusTimeout providerPaymentId) db
  | .setStatusUpdated idempotencyKey transactionId processedId => server.after fault
      (setStatusUpdatedAndCreateProcessedEvent idempotencyKey transactionId processedId) db
  | .setStatusUpdatedByIds idempotencyKey outId inId processedId => server.after fault
      (setStatusUpdatedByIdsAndCreateProcessedEvent idempotencyKey outId inId processedId) db
  | .recreate c ids => server.after fault (c.body ids) db

/-- The fault hits the call. -/
def interrupted (fault : Option ℕ) (db : TxDb) : TransactionCall → Bool
  | .create n => server.interrupts fault (TransactionService.create n.data) db
  | .createTransfer n => server.interrupts fault (TransactionService.createTransfer n.fromAccountId
      n.toAccountId n.amount n.currency n.idempotencyKey n.outId n.inId n.eventId) db
  | .setStatusCompleted providerPaymentId eventId =>
    server.interrupts fault (setStatusCompletedAndCreateOutboxEvent providerPaymentId eventId) db
  | .setStatusTimeout providerPaymentId =>
    server.interrupts fault (TransactionService.setStatusTimeout providerPaymentId) db
  | .setStatusUpdated idempotencyKey transactionId processedId => server.interrupts fault
      (setStatusUpdatedAndCreateProcessedEvent idempotencyKey transactionId processedId) db
  | .setStatusUpdatedByIds idempotencyKey outId inId processedId => server.interrupts fault
      (setStatusUpdatedByIdsAndCreateProcessedEvent idempotencyKey outId inId processedId) db
  | .recreate c ids => server.interrupts fault (c.body ids) db

/-- The committed writes, when the call is not rolled back. -/
def commit (db : TxDb) : TransactionCall → Option (List Write)
  | .create n =>
    if (db.transactionOfKey n.idempotencyKey).isSome then some []
    else if (db.transaction n.id).isSome || db.ofPayment n.paymentId ≠ [] then none
    else some [.insertTransaction n.data]
  | .createTransfer n =>
    if (db.transactionOfKey n.idempotencyKey).isSome then some []
    else if (db.transaction n.outId).isSome || (db.transaction n.inId).isSome || n.outId = n.inId ||
      (db.transactionOfKey (n.idempotencyKey++"_in")).isSome then none
    else some [.insertTransaction n.txOut,.insertTransaction n.txIn,.insertOutboxEvent n.event]
  | .setStatusCompleted providerPaymentId eventId =>
    match (db.ofPayment providerPaymentId).head? with
    | none => none
    | some t =>
      if t.status = .pending then
        some [.setStatus [t.id] .completed,.insertOutboxEvent (t.paidEvent eventId)]
      else none
  | .setStatusTimeout providerPaymentId =>
    match (db.ofPayment providerPaymentId).head? with
    | none => none
    | some t => if t.status = .pending then some [.setStatus [t.id] .timeout] else none
  | .setStatusUpdated idempotencyKey transactionId processedId =>
    if (db.processed idempotencyKey).isSome then some []
    else
      match db.transaction transactionId with
      | none => none
      | some t =>
        if t.status = .completed then
          some [.setStatus [t.id] .balanceUpdated,
            .insertProcessedEvent ⟨processedId,idempotencyKey,.depositCreditingSuccess⟩]
        else none
  | .setStatusUpdatedByIds idempotencyKey outId inId processedId =>
    if (db.processed idempotencyKey).isSome then some []
    else if (db.transaction outId).isSome && (db.transaction inId).isSome then
      some [.setStatus [outId] .balanceUpdated,.setStatus [inId] .balanceUpdated,
        .insertProcessedEvent ⟨processedId,idempotencyKey,.tranferSuccess⟩]
    else none
  | .recreate c ids => c.commit ids db

section Bodies

def createFound (data : Transaction) : Option Transaction → Tx Stmt Res Uuid
  | some existing => .pure existing.id
  | none => .exec (.createTransaction data) fun (created : Transaction) => .pure created.id

theorem create_eq (data : Transaction) : TransactionService.create data =
    .exec (.findUniqueTransactionByKey data.idempotencyKey) (createFound data) := by
  refine congrArg (Tx.exec _) (funext fun existing => ?_)
  cases existing <;> rfl

variable (n : NewTransfer)

def transferEvent (txOut : Transaction) : Tx Stmt Res Transaction :=
  .exec (.createOutboxEvent n.event) fun _ => .pure txOut

def transferIn (txOut : Transaction) : Tx Stmt Res Transaction :=
  .exec (.createTransaction n.txIn) fun _ => transferEvent n txOut

def transferFound : Option Transaction → Tx Stmt Res Transaction
  | some existingTx => .pure existingTx
  | none => .exec (.createTransaction n.txOut) (transferIn n)

theorem createTransfer_eq : TransactionService.createTransfer n.fromAccountId n.toAccountId n.amount
      n.currency n.idempotencyKey n.outId n.inId n.eventId =
    .exec (.findUniqueTransactionByKey n.idempotencyKey) (transferFound n) := by
  refine congrArg (Tx.exec _) (funext fun existingTx => ?_)
  cases existingTx <;> rfl

def completedSelected (providerPaymentId : String) (eventId : Uuid) :
    Option Transaction → Tx Stmt Res StatusChange
  | none => .throw s!"[providerPaymentId={providerPaymentId}] Транзакция не найдена"
  | some t =>
    if t.status ≠ .pending then
      .throw (wrongFlow s!"[providerPaymentId={providerPaymentId}]" t.status .completed)
    else .exec (.updateStatus t.id .completed) fun _ =>
      .exec (.createOutboxEvent (t.paidEvent eventId)) fun _ => .pure ⟨t.id,.completed⟩

theorem setStatusCompleted_eq (providerPaymentId : String) (eventId : Uuid) :
    setStatusCompletedAndCreateOutboxEvent providerPaymentId eventId =
      .exec (.selectPaymentForUpdate providerPaymentId)
        (fun (rows : List Transaction) => completedSelected providerPaymentId eventId rows.head?) := by
  refine congrArg (Tx.exec _) (funext fun (rows : List Transaction) => ?_)
  cases rows <;> rfl

def timeoutSelected (providerPaymentId : String) : Option Transaction → Tx Stmt Res StatusChange
  | none => .throw s!"[providerPaymentId={providerPaymentId}] Транзакция не найдена"
  | some t =>
    if t.status ≠ .pending then
      .throw (wrongFlow s!"[providerPaymentId={providerPaymentId}]" t.status .timeout)
    else .exec (.updateStatus t.id .timeout) fun _ => .pure ⟨t.id,.timeout⟩

theorem setStatusTimeout_eq (providerPaymentId : String) :
    TransactionService.setStatusTimeout providerPaymentId =
      .exec (.selectPaymentForUpdate providerPaymentId)
        (fun (rows : List Transaction) => timeoutSelected providerPaymentId rows.head?) := by
  refine congrArg (Tx.exec _) (funext fun (rows : List Transaction) => ?_)
  cases rows <;> rfl

variable (idempotencyKey transactionId outId inId processedId : Uuid)

def updatedSelected : Option Transaction → Tx Stmt Res Unit
  | none => .throw s!"[transactionId={transactionId}] Транзакция не найдена"
  | some t =>
    if t.status ≠ .completed then
      .throw (wrongFlow s!"[transactionId={transactionId}]" t.status .balanceUpdated)
    else .exec (.updateStatus t.id .balanceUpdated) fun _ =>
      .exec (.createProcessedEvent ⟨processedId,idempotencyKey,.depositCreditingSuccess⟩) .pure

def updatedChecked (alreadyExist : Option ProcessedEvent) : Tx Stmt Res Unit :=
  if alreadyExist.isSome then .pure ()
  else .exec (.selectTransactionsForUpdate [transactionId]) fun (rows : List Transaction) =>
    updatedSelected idempotencyKey transactionId processedId rows.head?

theorem setStatusUpdated_eq :
    setStatusUpdatedAndCreateProcessedEvent idempotencyKey transactionId processedId =
      .exec (.findUniqueProcessedEvent idempotencyKey)
        (updatedChecked idempotencyKey transactionId processedId) := by
  refine congrArg (Tx.exec _) (funext fun (alreadyExist : Option ProcessedEvent) => ?_)
  cases alreadyExist with
  | some e => rfl
  | none =>
    refine congrArg (Tx.exec _) (funext fun (rows : List Transaction) => ?_)
    cases rows <;> rfl

def byIdsRecord : Tx Stmt Res Unit :=
  .exec (.createProcessedEvent ⟨processedId,idempotencyKey,.tranferSuccess⟩) .pure

def byIdsUpdate : Tx Stmt Res Unit :=
  .exec (.updateStatus outId .balanceUpdated) fun _ =>
    .exec (.updateStatus inId .balanceUpdated) fun _ => byIdsRecord idempotencyKey processedId

def byIdsSelected (rows : List Transaction) : Tx Stmt Res Unit :=
  if rows.length = 0 then .throw "Транзакции не найдены"
  else byIdsUpdate idempotencyKey outId inId processedId

def byIdsChecked (alreadyExist : Option ProcessedEvent) : Tx Stmt Res Unit :=
  if alreadyExist.isSome then .pure ()
  else .exec (.selectTransactionsForUpdate [outId,inId])
    (byIdsSelected idempotencyKey outId inId processedId)

theorem setStatusUpdatedByIds_eq :
    setStatusUpdatedByIdsAndCreateProcessedEvent idempotencyKey outId inId processedId =
      .exec (.findUniqueProcessedEvent idempotencyKey)
        (byIdsChecked idempotencyKey outId inId processedId) := by
  refine congrArg (Tx.exec _) (funext fun (alreadyExist : Option ProcessedEvent) => ?_)
  cases alreadyExist <;> rfl

end Bodies

section Alone
variable {db : TxDb}

theorem isSome_transaction {id : Uuid} :
    (db.transaction id).isSome ↔ ∃ t ∈ db.transactions, t.id = id := by
  simp [TxDb.transaction,List.find?_isSome]

theorem isSome_transaction_setStatus (ids : List Uuid) (status : TransactionStatus) (id : Uuid) :
    (((Write.setStatus ids status).apply db).transaction id).isSome =
      (db.transaction id).isSome :=
  RetryCall.transaction_isSome_congr (RetryCall.map_id_apply (by simp)) id

theorem transaction_insertTransaction (data : Transaction) (id : Uuid) :
    ((Write.insertTransaction data).apply db).transaction id =
      (db.transaction id).or (if data.id = id then some data else none) := by
  exact find?_append_key data

theorem transactionOfKey_insertTransaction (data : Transaction) (key : String) :
    ((Write.insertTransaction data).apply db).transactionOfKey key =
      (db.transactionOfKey key).or (if data.idempotencyKey = key then some data else none) := by
  exact find?_append_key data

theorem mem_ofPayment_head {providerPaymentId : String} {t : Transaction}
    (h : (db.ofPayment providerPaymentId).head? = some t) :
    t ∈ db.transactions ∧ t.providerPaymentId = some providerPaymentId := by
  have hmem := List.mem_of_mem_head? h
  simpa [TxDb.ofPayment] using hmem

theorem exec_createTransaction {data : Transaction} (hid : db.transaction data.id = none)
    (hkey : db.transactionOfKey data.idempotencyKey = none)
    (hpay : ¬data.providerPaymentId.any (fun p => db.ofPayment p ≠ [])) :
    server.exec (.createTransaction data) db = .ok (data,[.insertTransaction data]) := by
  simp only [server_exec,Stmt.exec,hid,hkey,Option.isSome_none,Bool.false_eq_true,if_false]
  rw [if_neg hpay]

theorem exec_createTransaction_error {data : Transaction} (h : (db.transaction data.id).isSome ∨
    (db.transactionOfKey data.idempotencyKey).isSome ∨
    data.providerPaymentId.any (fun p => db.ofPayment p ≠ [])) :
    ∃ e, server.exec (.createTransaction data) db = .error e := by
  simp only [server_exec,Stmt.exec]
  split
  · exact ⟨_,rfl⟩
  · split
    · exact ⟨_,rfl⟩
    · rename_i hid hkey
      rw [if_pos ((h.resolve_left hid).resolve_left hkey)]
      exact ⟨_,rfl⟩

theorem exec_updateStatus {id : Uuid} {status : TransactionStatus}
    (h : (db.transaction id).isSome) :
    server.exec (.updateStatus id status) db = .ok ((),[.setStatus [id] status]) := by
  simp [Stmt.exec,h]

theorem exec_updateStatus_error {id : Uuid} {status : TransactionStatus}
    (h : ¬(db.transaction id).isSome) : server.exec (.updateStatus id status) db =
      .error "No record was found for an update" := by
  simp [Stmt.exec,h]

theorem exec_createOutboxEvent {data : OutboxEvent} (h : (db.transaction data.transactionId).isSome) :
    server.exec (.createOutboxEvent data) db = .ok ((),[.insertOutboxEvent data]) := by
  simp [Stmt.exec,h]

theorem exec_createProcessedEvent {data : ProcessedEvent}
    (h : ¬(db.processed data.idempotencyKey).isSome) :
    server.exec (.createProcessedEvent data) db = .ok ((),[.insertProcessedEvent data]) := by
  simp [Stmt.exec,h]

theorem create_run (n : NewDeposit) :
    (server.run none (TransactionService.create n.data) db).toOption.map (·.2) =
      (TransactionCall.create n).commit db := by
  have hpay : n.data.providerPaymentId.any (fun p => db.ofPayment p ≠ []) =
      decide (db.ofPayment n.paymentId ≠ []) := rfl
  rw [create_eq,commit,Engine.run_exec_read rfl,← hpay]
  change _ = if (db.transactionOfKey n.data.idempotencyKey).isSome then _ else
    if (db.transaction n.data.id).isSome || _ then _ else _
  cases hkey : db.transactionOfKey n.data.idempotencyKey with
  | some existing => rfl
  | none =>
    rw [if_neg (by simp),createFound]
    split
    · rename_i hbad
      obtain ⟨e,he⟩ := exec_createTransaction_error
        ((Bool.or_eq_true_iff.mp hbad).imp_right .inr)
      rw [Engine.run_exec_error he]
      rfl
    · rename_i hok
      rw [Bool.or_eq_true_iff,not_or,Option.not_isSome_iff_eq_none] at hok
      rw [Engine.run_exec_ok (exec_createTransaction hok.1 hkey hok.2)]
      rfl

theorem key_ne_append_in (key : String) : key ≠ key++"_in" := by
  intro h
  have hlen := congrArg String.length h
  rw [String.length_append] at hlen
  have hin : "_in".length = 3 := rfl
  omega

theorem createTransfer_run (n : NewTransfer) :
    (server.run none (TransactionService.createTransfer n.fromAccountId n.toAccountId n.amount
        n.currency n.idempotencyKey n.outId n.inId n.eventId) db).toOption.map (·.2) =
      (TransactionCall.createTransfer n).commit db := by
  rw [createTransfer_eq,commit,Engine.run_exec_read rfl]
  cases hkey : db.transactionOfKey n.idempotencyKey with
  | some existingTx => rfl
  | none =>
    rw [if_neg (by simp),transferFound]
    cases hout : db.transaction n.outId with
    | some t =>
      obtain ⟨e,he⟩ := @exec_createTransaction_error db n.txOut
        (.inl (by simp [NewTransfer.txOut,hout]))
      rw [Engine.run_exec_error he]
      rfl
    | none =>
      have hpay : ¬n.txOut.providerPaymentId.any (fun p => db.ofPayment p ≠ []) := by
        simp [NewTransfer.txOut]
      rw [Engine.run_exec_ok (exec_createTransaction hout hkey hpay),transferIn]
      have hid : (((Write.insertTransaction n.txOut).apply db).transaction n.txIn.id).isSome ↔
          (db.transaction n.inId).isSome ∨ n.outId = n.inId := by
        rw [transaction_insertTransaction]
        by_cases h : n.outId = n.inId <;> simp [NewTransfer.txOut,NewTransfer.txIn,h]
      have hinkey : ((Write.insertTransaction n.txOut).apply db).transactionOfKey
          n.txIn.idempotencyKey = db.transactionOfKey (n.idempotencyKey++"_in") := by
        rw [transactionOfKey_insertTransaction]
        simp [NewTransfer.txOut,NewTransfer.txIn,key_ne_append_in]
      by_cases hbad : (db.transaction n.inId).isSome ∨ n.outId = n.inId ∨
          (db.transactionOfKey (n.idempotencyKey++"_in")).isSome
      · have he : ∃ e, server.exec (.createTransaction n.txIn)
            ((Write.insertTransaction n.txOut).apply db) = .error e := by
          refine exec_createTransaction_error ?_
          rw [hid,hinkey]
          tauto
        obtain ⟨e,he⟩ := he
        rw [if_pos (by simp; tauto)]
        simp only [Engine.applyAll_cons,Engine.applyAll_nil,server_apply]
        rw [Engine.run_exec_error he]
        rfl
      · simp only [not_or,Option.not_isSome_iff_eq_none] at hbad
        obtain ⟨hin,hne,hkeyin⟩ := hbad
        have he := @exec_createTransaction ((Write.insertTransaction n.txOut).apply db) n.txIn
          (Option.not_isSome_iff_eq_none.mp (by simp [hid,hin,hne]))
          (hinkey.trans hkeyin) (by simp [NewTransfer.txIn])
        have hfk : (((Write.insertTransaction n.txIn).apply
            ((Write.insertTransaction n.txOut).apply db)).transaction
              n.event.transactionId).isSome := by
          rw [transaction_insertTransaction,transaction_insertTransaction]
          simp [NewTransfer.event,NewTransfer.txOut]
        rw [if_neg (by simp [hin,hne,hkeyin])]
        simp only [Engine.applyAll_cons,Engine.applyAll_nil,server_apply]
        rw [Engine.run_exec_ok he,transferEvent]
        simp only [Engine.applyAll_cons,Engine.applyAll_nil,server_apply]
        rw [Engine.run_exec_ok (exec_createOutboxEvent hfk)]
        rfl

theorem setStatusCompleted_run (providerPaymentId : String) (eventId : Uuid) :
    (server.run none (setStatusCompletedAndCreateOutboxEvent providerPaymentId eventId)
        db).toOption.map (·.2) =
      (TransactionCall.setStatusCompleted providerPaymentId eventId).commit db := by
  rw [setStatusCompleted_eq,commit,Engine.run_exec_read rfl]
  cases hrow : (db.ofPayment providerPaymentId).head? with
  | none => rfl
  | some t =>
    simp only [completedSelected]
    by_cases hst : t.status = .pending
    · have hid : (db.transaction t.id).isSome :=
        isSome_transaction.mpr ⟨t,(mem_ofPayment_head hrow).1,rfl⟩
      have hfk : (((Write.setStatus [t.id] .completed).apply db).transaction
          (t.paidEvent eventId).transactionId).isSome := by
        rw [isSome_transaction_setStatus]
        exact hid
      rw [if_neg (not_not.mpr hst),if_pos hst,Engine.run_exec_ok (exec_updateStatus hid)]
      simp only [Engine.applyAll_cons,Engine.applyAll_nil,server_apply]
      rw [Engine.run_exec_ok (exec_createOutboxEvent hfk)]
      rfl
    · rw [if_pos hst,if_neg hst]
      rfl

theorem setStatusTimeout_run (providerPaymentId : String) :
    (server.run none (TransactionService.setStatusTimeout providerPaymentId)
        db).toOption.map (·.2) = (TransactionCall.setStatusTimeout providerPaymentId).commit db := by
  rw [setStatusTimeout_eq,commit,Engine.run_exec_read rfl]
  cases hrow : (db.ofPayment providerPaymentId).head? with
  | none => rfl
  | some t =>
    simp only [timeoutSelected]
    by_cases hst : t.status = .pending
    · have hid : (db.transaction t.id).isSome :=
        isSome_transaction.mpr ⟨t,(mem_ofPayment_head hrow).1,rfl⟩
      rw [if_neg (not_not.mpr hst),if_pos hst,Engine.run_exec_ok (exec_updateStatus hid)]
      rfl
    · rw [if_pos hst,if_neg hst]
      rfl

theorem ofIds_singleton_head? (id : Uuid) : (db.ofIds [id]).head? = db.transaction id := by
  simp [TxDb.ofIds,TxDb.transaction]

theorem transaction_mem {id : Uuid} {t : Transaction} (h : db.transaction id = some t) :
    t ∈ db.transactions ∧ t.id = id :=
  ⟨List.mem_of_find?_eq_some h,by simpa using List.find?_some h⟩

theorem setStatusUpdated_run (idempotencyKey transactionId processedId : Uuid) :
    (server.run none (setStatusUpdatedAndCreateProcessedEvent idempotencyKey transactionId
        processedId) db).toOption.map (·.2) =
      (TransactionCall.setStatusUpdated idempotencyKey transactionId processedId).commit db := by
  rw [setStatusUpdated_eq,commit,Engine.run_exec_read rfl,updatedChecked]
  by_cases hp : (db.processed idempotencyKey).isSome
  · rw [if_pos hp,if_pos hp]
    rfl
  · rw [if_neg hp,if_neg hp,Engine.run_exec_read rfl,ofIds_singleton_head?]
    cases hrow : db.transaction transactionId with
    | none => rfl
    | some t =>
      simp only [updatedSelected]
      by_cases hst : t.status = .completed
      · have hid : (db.transaction t.id).isSome := by
          rw [(transaction_mem hrow).2,hrow]
          rfl
        rw [if_neg (not_not.mpr hst),if_pos hst,Engine.run_exec_ok (exec_updateStatus hid)]
        simp only [Engine.applyAll_cons,Engine.applyAll_nil,server_apply]
        rw [Engine.run_exec_ok (exec_createProcessedEvent hp)]
        rfl
      · rw [if_pos hst,if_neg hst]
        rfl

theorem setStatusUpdatedByIds_run (idempotencyKey outId inId processedId : Uuid) :
    (server.run none (setStatusUpdatedByIdsAndCreateProcessedEvent idempotencyKey outId inId
        processedId) db).toOption.map (·.2) =
      (TransactionCall.setStatusUpdatedByIds idempotencyKey outId inId processedId).commit db := by
  rw [setStatusUpdatedByIds_eq,commit,Engine.run_exec_read rfl,byIdsChecked]
  by_cases hp : (db.processed idempotencyKey).isSome
  · rw [if_pos hp,if_pos hp]
    rfl
  · rw [if_neg hp,if_neg hp,Engine.run_exec_read rfl,byIdsSelected]
    by_cases hout : (db.transaction outId).isSome
    · have hrows : ¬(db.ofIds [outId,inId]).length = 0 := by
        obtain ⟨t,ht,hid⟩ := isSome_transaction.mp hout
        rw [List.length_eq_zero_iff]
        exact List.ne_nil_of_mem (a := t) (by simp [TxDb.ofIds,ht,hid])
      rw [if_neg hrows,byIdsUpdate,Engine.run_exec_ok (exec_updateStatus hout)]
      simp only [Engine.applyAll_cons,Engine.applyAll_nil,server_apply]
      by_cases hin : (db.transaction inId).isSome
      · have hin' : (((Write.setStatus [outId] .balanceUpdated).apply db).transaction
            inId).isSome := by
          rw [isSome_transaction_setStatus]
          exact hin
        rw [if_pos (by simp [hout,hin]),Engine.run_exec_ok (exec_updateStatus hin'),byIdsRecord]
        simp only [Engine.applyAll_cons,Engine.applyAll_nil,server_apply]
        rw [Engine.run_exec_ok (exec_createProcessedEvent hp)]
        rfl
      · have hin' : ¬(((Write.setStatus [outId] .balanceUpdated).apply db).transaction
            inId).isSome := by
          rw [isSome_transaction_setStatus]
          exact hin
        rw [if_neg (by simp [hin]),Engine.run_exec_error (exec_updateStatus_error hin')]
        rfl
    · rw [if_neg (c := ((db.transaction outId).isSome && _) = true) (by simp [hout])]
      split
      · rfl
      · rw [byIdsUpdate,Engine.run_exec_error (exec_updateStatus_error hout)]
        rfl

/-- A call commits what `commit` says, or nothing when the fault hits it. -/
theorem after_eq (c : TransactionCall) (fault : Option ℕ) (db : TxDb) :
    c.after fault db =
      if c.interrupted fault db then db else server.applyAll db ((c.commit db).getD []) := by
  have hafter : ∀ {ρ : Type} (p : Tx Stmt Res ρ) (ws : Option (List Write)),
      (server.run none p db).toOption.map (·.2) = ws → server.after fault p db =
        if server.interrupts fault p db then db else server.applyAll db (ws.getD []) := by
    rintro ρ p _ rfl
    exact Engine.after_eq _ fault p db
  cases c with
  | create n => exact hafter _ _ (create_run n)
  | createTransfer n => exact hafter _ _ (createTransfer_run n)
  | setStatusCompleted providerPaymentId eventId =>
    exact hafter _ _ (setStatusCompleted_run providerPaymentId eventId)
  | setStatusTimeout providerPaymentId => exact hafter _ _ (setStatusTimeout_run providerPaymentId)
  | setStatusUpdated idempotencyKey transactionId processedId =>
    exact hafter _ _ (setStatusUpdated_run idempotencyKey transactionId processedId)
  | setStatusUpdatedByIds idempotencyKey outId inId processedId =>
    exact hafter _ _ (setStatusUpdatedByIds_run idempotencyKey outId inId processedId)
  | recreate c ids => exact hafter _ _ (c.body_run ids)

end Alone

/-- What a call can do to the database, with the tests that it passed. -/
inductive Effect (db : TxDb) : TransactionCall → List Write → Prop
  | nothing {c} : Effect db c []
  | created {n : NewDeposit} (hid : db.transaction n.id = none) :
      Effect db (.create n) [.insertTransaction n.data]
  | createdTransfer {n : NewTransfer} (hout : db.transaction n.outId = none)
      (hin : db.transaction n.inId = none) (hne : n.outId ≠ n.inId) :
      Effect db (.createTransfer n)
        [.insertTransaction n.txOut,.insertTransaction n.txIn,.insertOutboxEvent n.event]
  | completed {providerPaymentId eventId t} (ht : t ∈ db.transactions)
      (hp : t.providerPaymentId = some providerPaymentId) (hs : t.status = .pending) :
      Effect db (.setStatusCompleted providerPaymentId eventId)
        [.setStatus [t.id] .completed,.insertOutboxEvent (t.paidEvent eventId)]
  | timedOut {providerPaymentId t} (ht : t ∈ db.transactions)
      (hp : t.providerPaymentId = some providerPaymentId) (hs : t.status = .pending) :
      Effect db (.setStatusTimeout providerPaymentId) [.setStatus [t.id] .timeout]
  | updated {idempotencyKey processedId t} (hnew : db.processed idempotencyKey = none)
      (ht : t ∈ db.transactions) (hs : t.status = .completed) :
      Effect db (.setStatusUpdated idempotencyKey t.id processedId)
        [.setStatus [t.id] .balanceUpdated,
          .insertProcessedEvent ⟨processedId,idempotencyKey,.depositCreditingSuccess⟩]
  | updatedByIds {idempotencyKey outId inId processedId} (hnew : db.processed idempotencyKey = none)
      (hout : (db.transaction outId).isSome) (hin : (db.transaction inId).isSome) :
      Effect db (.setStatusUpdatedByIds idempotencyKey outId inId processedId)
        [.setStatus [outId] .balanceUpdated,.setStatus [inId] .balanceUpdated,
          .insertProcessedEvent ⟨processedId,idempotencyKey,.tranferSuccess⟩]
  | copied {c : RetryCall} {ids event} (hnew : db.processed c.idempotencyKey = none)
      (hpres : c.target.present db) (hlimit : c.target.retryCount db+1 < c.maxRetry)
      (hevent : db.outboxEvent c.eventId = some event) (hpay : event.payload.isSome) :
      Effect db (.recreate c ids) (c.copyWrites ids event)
  | failed {c : RetryCall} {ids} (hnew : db.processed c.idempotencyKey = none)
      (hpres : c.target.present db) (hlimit : c.maxRetry ≤ c.target.retryCount db+1) :
      Effect db (.recreate c ids) c.failWrites

/-- The inversion of `commit`. -/
theorem effect_of_commit {c : TransactionCall} {db : TxDb} {ws : List Write}
    (h : c.commit db = some ws) : Effect db c ws := by
  cases c with
  | create n =>
    simp only [commit] at h
    split at h
    · cases h
      exact .nothing
    · split at h
      · contradiction
      · rename_i hnew
        cases h
        rw [Bool.or_eq_true_iff,not_or,Option.not_isSome_iff_eq_none] at hnew
        exact .created hnew.1
  | createTransfer n =>
    simp only [commit] at h
    split at h
    · cases h
      exact .nothing
    · split at h
      · contradiction
      · rename_i hnew
        cases h
        simp only [Bool.or_eq_true_iff,not_or,Option.not_isSome_iff_eq_none,
          decide_eq_true_eq] at hnew
        exact .createdTransfer hnew.1.1.1 hnew.1.1.2 hnew.1.2
  | setStatusCompleted providerPaymentId eventId =>
    simp only [commit] at h
    split at h
    · contradiction
    · rename_i t hrow
      obtain ⟨ht,hp⟩ := mem_ofPayment_head hrow
      split at h
      · rename_i hs
        cases h
        exact .completed ht hp hs
      · contradiction
  | setStatusTimeout providerPaymentId =>
    simp only [commit] at h
    split at h
    · contradiction
    · rename_i t hrow
      obtain ⟨ht,hp⟩ := mem_ofPayment_head hrow
      split at h
      · rename_i hs
        cases h
        exact .timedOut ht hp hs
      · contradiction
  | setStatusUpdated idempotencyKey transactionId processedId =>
    simp only [commit] at h
    split at h
    · cases h
      exact .nothing
    · rename_i hnew
      rw [Option.not_isSome_iff_eq_none] at hnew
      split at h
      · contradiction
      · rename_i t hrow
        obtain ⟨ht,rfl⟩ := transaction_mem hrow
        split at h
        · rename_i hs
          cases h
          exact .updated hnew ht hs
        · contradiction
  | setStatusUpdatedByIds idempotencyKey outId inId processedId =>
    simp only [commit] at h
    split at h
    · cases h
      exact .nothing
    · rename_i hnew
      rw [Option.not_isSome_iff_eq_none] at hnew
      split at h
      · rename_i hboth
        cases h
        rw [Bool.and_eq_true_iff] at hboth
        exact .updatedByIds hnew hboth.1 hboth.2
      · contradiction
  | recreate c ids =>
    simp only [commit,RetryCall.commit] at h
    split at h
    · cases h
      exact .nothing
    · rename_i hnew
      rw [Option.not_isSome_iff_eq_none] at hnew
      split at h
      · contradiction
      · rename_i hpres
        rw [Bool.not_eq_true',Bool.not_eq_false] at hpres
        split at h
        · rename_i hlimit
          split at h
          · contradiction
          · rename_i event hevent
            split at h
            · rename_i hpay
              cases h
              exact .copied hnew hpres hlimit hevent (Bool.and_eq_true_iff.mp hpay).1
            · contradiction
        · rename_i hlimit
          cases h
          exact .failed hnew hpres (by omega)

theorem exists_effect (c : TransactionCall) (fault : Option ℕ) (db : TxDb) :
    ∃ ws, Effect db c ws ∧ c.after fault db = server.applyAll db ws := by
  rw [after_eq]
  split
  · exact ⟨[],.nothing,rfl⟩
  · cases h : c.commit db with
    | none => exact ⟨[],.nothing,rfl⟩
    | some ws => exact ⟨ws,effect_of_commit h,rfl⟩

end TransactionCall
end NestHomework.TransactionService
