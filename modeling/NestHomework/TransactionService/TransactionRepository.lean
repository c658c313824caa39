import NestHomework.TransactionService.Schema

/-! `TransactionRepository`. Each method is the body of its database transaction; the uuids that
`uuidv7()` yields in a call are arguments of it. -/
namespace NestHomework.TransactionService
open Contracts Postgres

def create (data : Transaction) : Tx Stmt Res Uuid := do
  let existing : Option Transaction ← sql (.findUniqueTransactionByKey data.idempotencyKey)
  match existing with
  | some existing => return existing.id
  | none =>
    let created : Transaction ← sql (.createTransaction data)
    return created.id

def createTransfer (fromAccountId toAccountId : Uuid) (amount : ℤ) (currency idempotencyKey : String)
    (outId inId eventId : Uuid) : Tx Stmt Res Transaction := do
  let existingTx : Option Transaction ← sql (.findUniqueTransactionByKey idempotencyKey)
  match existingTx with
  | some existingTx => return existingTx
  | none =>
    let txOut : Transaction ← sql (.createTransaction
      { id := outId, accountId := fromAccountId, amount := -amount, currency := currency,
        type := .transferOut, status := .pending, idempotencyKey := idempotencyKey,
        retryCount := 0, provider := none, method := none, providerPaymentId := none,
        referenceId := some inId })
    let _txIn : Transaction ← sql (.createTransaction
      { id := inId, accountId := toAccountId, amount := amount, currency := currency,
        type := .transferIn, status := .pending, idempotencyKey := idempotencyKey++"_in",
        retryCount := 0, provider := none, method := none, providerPaymentId := none,
        referenceId := some outId })
    sql (.createOutboxEvent
      ⟨eventId,outId,.transferInited,some (.transferInited
        ⟨eventId,outId,inId,fromAccountId,toAccountId,currency,toString amount⟩),false⟩)
    return txOut

/-- The error of a change of status that the current one does not allow. -/
def wrongFlow (row : String) (status newStatus : TransactionStatus) : String :=
  s!"{row} Статус транзакции не совпадает с текущим флоу: {status.name} ->X {newStatus.name}"

/-- What the webhook logs of a change of status. -/
structure StatusChange where
  id : Uuid
  status : TransactionStatus
  deriving DecidableEq, Repr

def setStatusCompletedAndCreateOutboxEvent (providerPaymentId : String) (eventId : Uuid) :
    Tx Stmt Res StatusChange := do
  let rows : List Transaction ← sql (.selectPaymentForUpdate providerPaymentId)
  match rows.head? with
  | none => Tx.throw s!"[providerPaymentId={providerPaymentId}] Транзакция не найдена"
  | some row =>
    if row.status ≠ .pending then
      Tx.throw (wrongFlow s!"[providerPaymentId={providerPaymentId}]" row.status .completed)
    else
      sql (.updateStatus row.id .completed)
      sql (.createOutboxEvent
        ⟨eventId,row.id,.depositPaidSuccess,some (.depositPaid
          ⟨eventId,row.id,row.accountId,row.currency,toString row.amount⟩),false⟩)
      return ⟨row.id,.completed⟩

def setStatusTimeout (providerPaymentId : String) : Tx Stmt Res StatusChange := do
  let rows : List Transaction ← sql (.selectPaymentForUpdate providerPaymentId)
  match rows.head? with
  | none => Tx.throw s!"[providerPaymentId={providerPaymentId}] Транзакция не найдена"
  | some row =>
    if row.status ≠ .pending then
      Tx.throw (wrongFlow s!"[providerPaymentId={providerPaymentId}]" row.status .timeout)
    else
      sql (.updateStatus row.id .timeout)
      return ⟨row.id,.timeout⟩

def setStatusUpdatedAndCreateProcessedEvent (idempotencyKey transactionId processedId : Uuid) :
    Tx Stmt Res Unit := do
  let alreadyExist : Option ProcessedEvent ← sql (.findUniqueProcessedEvent idempotencyKey)
  if alreadyExist.isSome then
    return ()
  let rows : List Transaction ← sql (.selectTransactionsForUpdate [transactionId])
  match rows.head? with
  | none => Tx.throw s!"[transactionId={transactionId}] Транзакция не найдена"
  | some row =>
    if row.status ≠ .completed then
      Tx.throw (wrongFlow s!"[transactionId={transactionId}]" row.status .balanceUpdated)
    else
      sql (.updateStatus row.id .balanceUpdated)
      sql (.createProcessedEvent ⟨processedId,idempotencyKey,.depositCreditingSuccess⟩)

/-- The value is `retriesExhausted`; the method throws after the `COMMIT` when it is set. -/
def recreateOutboxEvent (idempotencyKey transactionId eventId : Uuid) (maxRetry : ℕ)
    (processedTopic : KafkaTopic) (outboxId processedId : Uuid) : Tx Stmt Res Bool := do
  let alreadyExist : Option ProcessedEvent ← sql (.findUniqueProcessedEvent idempotencyKey)
  if alreadyExist.isSome then
    return false
  let transaction : Option Transaction ← sql (.findUniqueTransaction transactionId)
  if transaction.isNone then
    Tx.throw s!"Транзакция {transactionId} не найдена"
  else
    let retryCount : ℕ ← sql (.updateRetryCount transactionId)
    if retryCount < maxRetry then
      let event : Option OutboxEvent ← sql (.findUniqueOutboxEvent eventId)
      match event with
      | none => Tx.throw s!"Event {eventId} не найден"
      | some event =>
        if event.payload.isNone then
          Tx.throw s!"Payload event {eventId} не найден"
        else
          sql (.createOutboxEvent ⟨outboxId,event.transactionId,event.topic,event.payload,false⟩)
          sql (.createProcessedEvent ⟨processedId,idempotencyKey,processedTopic⟩)
          return false
    else
      sql (.updateStatus transactionId .failed)
      return true

/-- The value is `retriesExhausted`; the method throws after the `COMMIT` when it is set. -/
def recreateTransferOutboxEvent (idempotencyKey outId inId eventId : Uuid) (maxRetry : ℕ)
    (processedTopic : KafkaTopic) (outboxId processedId : Uuid) : Tx Stmt Res Bool := do
  let alreadyExist : Option ProcessedEvent ← sql (.findUniqueProcessedEvent idempotencyKey)
  if alreadyExist.isSome then
    return false
  let txs : List Transaction ← sql (.findManyTransactions [outId,inId])
  if txs.length < 2 then
    Tx.throw s!"Одна из транзакций не найдена: {outId} | {inId} "
  else
    let updated : List ℕ ← sql (.updateManyRetryCount [outId,inId])
    match updated.head? with
    | none => Tx.throw "Cannot read properties of undefined (reading 'retryCount')"
    | some retryCount =>
      if retryCount < maxRetry then
        let event : Option OutboxEvent ← sql (.findUniqueOutboxEvent eventId)
        match event with
        | none => Tx.throw s!"Event {eventId} не найден"
        | some event =>
          if event.payload.isNone then
            Tx.throw s!"Payload event {eventId} не найден"
          else
            sql (.createOutboxEvent ⟨outboxId,event.transactionId,event.topic,event.payload,false⟩)
            sql (.createProcessedEvent ⟨processedId,idempotencyKey,processedTopic⟩)
            return false
      else
        sql (.updateManyStatus [outId,inId] .failed)
        return true

def setStatusUpdatedByIdsAndCreateProcessedEvent (idempotencyKey outId inId processedId : Uuid) :
    Tx Stmt Res Unit := do
  let alreadyExist : Option ProcessedEvent ← sql (.findUniqueProcessedEvent idempotencyKey)
  if alreadyExist.isSome then
    return ()
  let rows : List Transaction ← sql (.selectTransactionsForUpdate [outId,inId])
  if rows.length = 0 then
    Tx.throw "Транзакции не найдены"
  else
    sql (.updateStatus outId .balanceUpdated)
    sql (.updateStatus inId .balanceUpdated)
    sql (.createProcessedEvent ⟨processedId,idempotencyKey,.tranferSuccess⟩)

end NestHomework.TransactionService
