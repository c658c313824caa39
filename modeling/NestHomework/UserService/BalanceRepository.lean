import NestHomework.UserService.Schema

/-! `BalanceRepository`. Each method is the body of its database transaction; the uuids that
`uuidv7()` yields in a call are arguments of it. -/
namespace NestHomework.UserService
open Contracts Postgres

def depositAndCreateOutboxEvent (idempotencyKey : Uuid) (currency : String) (amount : ℤ)
    (accountId transactionId eventId : Uuid) (processedId outboxId : Uuid) :
    Tx Stmt Res Unit := do
  let balances : List Uuid ← sql (.selectBalanceForUpdate accountId currency)
  match balances.head? with
  | none => Tx.throw "Счет не найден"
  | some balance =>
    let alreadyExist : Option ProcessedEvent ←
      sql (.findUniqueProcessedEvent idempotencyKey)
    if alreadyExist.isSome then
      return ()
    sql (.updateBalance balance amount)
    sql (.createProcessedEvent ⟨processedId,idempotencyKey,.depositPaidSuccess⟩)
    sql (.createOutboxEvent
      ⟨outboxId,balance,.depositCreditingSuccess,.depositCrediting ⟨eventId,transactionId⟩,false⟩)

def createOutboxEvent (accountId : Uuid) (currency : String) (topic : KafkaTopic)
    (payload : Payload) (outboxId : Uuid) : Tx Stmt Res Unit := do
  let balance : Option Uuid ← sql (.findFirstBalance accountId currency)
  match balance with
  | none => Tx.throw "Счет не найден"
  | some balance => sql (.createOutboxEvent ⟨outboxId,balance,topic,payload,false⟩)

/-- The two account ids are sorted before the query, which only orders its `IN` list. -/
def transferAndCreateOutboxEvent (idempotencyKey fromAccountId toAccountId : Uuid)
    (currency : String) (amount : ℤ) (eventId outId inId : Uuid) (processedId outboxId : Uuid) :
    Tx Stmt Res Unit := do
  let alreadyExist : Option ProcessedEvent ← sql (.findUniqueProcessedEvent idempotencyKey)
  if alreadyExist.isSome then
    return ()
  let balances : List Balance ←
    sql (.selectBalancesForUpdate [fromAccountId,toAccountId] currency)
  if balances.length < 2 then
    Tx.throw "Один из аккаунтов не найден"
  else
    match balances.find? (fun b => b.accountId = fromAccountId),
        balances.find? (fun b => b.accountId = toAccountId) with
    | some senderBalance, some receiverBalance =>
      if senderBalance.blockedAt.isSome || receiverBalance.blockedAt.isSome then
        Tx.throw "Один из балансов заблокирован"
      else if senderBalance.amount < amount then
        Tx.throw "Недостаточно средств"
      else
        sql (.updateBalance senderBalance.id (-amount))
        sql (.updateBalance receiverBalance.id amount)
        sql (.createProcessedEvent ⟨processedId,idempotencyKey,.transferInited⟩)
        sql (.createOutboxEvent
          ⟨outboxId,senderBalance.id,.tranferSuccess,.transferResult ⟨eventId,outId,inId⟩,false⟩)
    | _, _ => Tx.throw "Один из балансов не найден"

def resetAllBalances : Tx Stmt Res Unit := sql .updateAllBalances

end NestHomework.UserService
