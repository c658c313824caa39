import NestHomework.UserService.Locking

/-! The bodies of the balance repository statement by statement, from each statement to the end. -/
namespace NestHomework.UserService
open Contracts Postgres

section Deposit
variable (idempotencyKey : Uuid) (currency : String) (amount : ℤ)
  (accountId transactionId eventId : Uuid) (processedId outboxId : Uuid)

def depositOutbox (balance : Uuid) : Tx Stmt Res Unit :=
  .exec (.createOutboxEvent ⟨outboxId,balance,.depositCreditingSuccess,
    .depositCrediting ⟨eventId,transactionId⟩,false⟩) .pure

def depositRecord (balance : Uuid) : Tx Stmt Res Unit :=
  .exec (.createProcessedEvent ⟨processedId,idempotencyKey,.depositPaidSuccess⟩)
    (fun _ => depositOutbox transactionId eventId outboxId balance)

def depositUpdate (balance : Uuid) : Tx Stmt Res Unit :=
  .exec (.updateBalance balance amount)
    (fun _ => depositRecord idempotencyKey transactionId eventId processedId outboxId balance)

def depositChecked (balance : Uuid) (alreadyExist : Option ProcessedEvent) : Tx Stmt Res Unit :=
  if alreadyExist.isSome then .pure ()
  else depositUpdate idempotencyKey amount transactionId eventId processedId outboxId balance

def depositSelected : List Uuid → Tx Stmt Res Unit
  | [] => .throw "Счет не найден"
  | balance::_ => .exec (.findUniqueProcessedEvent idempotencyKey)
      (depositChecked idempotencyKey amount transactionId eventId processedId outboxId balance)

theorem depositAndCreateOutboxEvent_eq :
    depositAndCreateOutboxEvent idempotencyKey currency amount accountId transactionId eventId
      processedId outboxId =
    .exec (.selectBalanceForUpdate accountId currency)
      (depositSelected idempotencyKey amount transactionId eventId processedId outboxId) := by
  refine congrArg (Tx.exec _) (funext fun balances => ?_)
  cases balances <;> rfl

end Deposit

section Transfer
variable (idempotencyKey fromAccountId toAccountId : Uuid) (currency : String) (amount : ℤ)
  (eventId outId inId : Uuid) (processedId outboxId : Uuid)

def transferOutbox (sender : Uuid) : Tx Stmt Res Unit :=
  .exec (.createOutboxEvent ⟨outboxId,sender,.tranferSuccess,
    .transferResult ⟨eventId,outId,inId⟩,false⟩) .pure

def transferRecord (sender : Uuid) : Tx Stmt Res Unit :=
  .exec (.createProcessedEvent ⟨processedId,idempotencyKey,.transferInited⟩)
    (fun _ => transferOutbox eventId outId inId outboxId sender)

def transferIncrement (sender receiver : Uuid) : Tx Stmt Res Unit :=
  .exec (.updateBalance receiver amount)
    (fun _ => transferRecord idempotencyKey eventId outId inId processedId outboxId sender)

def transferDecrement (sender receiver : Uuid) : Tx Stmt Res Unit :=
  .exec (.updateBalance sender (-amount))
    (fun _ => transferIncrement idempotencyKey amount eventId outId inId processedId outboxId
      sender receiver)

def transferSelected (balances : List Balance) : Tx Stmt Res Unit :=
  if balances.length < 2 then .throw "Один из аккаунтов не найден"
  else
    match balances.find? (fun b => b.accountId = fromAccountId),
        balances.find? (fun b => b.accountId = toAccountId) with
    | some sender, some receiver =>
      if sender.blockedAt.isSome || receiver.blockedAt.isSome then
        .throw "Один из балансов заблокирован"
      else if sender.amount < amount then .throw "Недостаточно средств"
      else transferDecrement idempotencyKey amount eventId outId inId processedId outboxId
        sender.id receiver.id
    | _, _ => .throw "Один из балансов не найден"

def transferChecked (alreadyExist : Option ProcessedEvent) : Tx Stmt Res Unit :=
  if alreadyExist.isSome then .pure ()
  else .exec (.selectBalancesForUpdate [fromAccountId,toAccountId] currency)
    (transferSelected idempotencyKey fromAccountId toAccountId amount eventId outId inId
      processedId outboxId)

theorem transferAndCreateOutboxEvent_eq :
    transferAndCreateOutboxEvent idempotencyKey fromAccountId toAccountId currency amount eventId
      outId inId processedId outboxId =
    .exec (.findUniqueProcessedEvent idempotencyKey)
      (transferChecked idempotencyKey fromAccountId toAccountId currency amount eventId outId inId
        processedId outboxId) := by
  refine congrArg (Tx.exec _) (funext fun alreadyExist => ?_)
  cases alreadyExist with
  | some e => rfl
  | none =>
    refine congrArg (Tx.exec _) (funext fun (balances : List Balance) => ?_)
    change (if balances.length < 2 then _ else _) = transferSelected _ _ _ _ _ _ _ _ _ balances
    unfold transferSelected
    cases balances.find? (fun b => b.accountId = fromAccountId) with
    | none => rfl
    | some sender =>
      cases balances.find? (fun b => b.accountId = toAccountId) with
      | none => rfl
      | some receiver => rfl

end Transfer

section CreateOutboxEvent
variable (accountId : Uuid) (currency : String) (topic : KafkaTopic) (payload : Payload)
  (outboxId : Uuid)

def outboxFound : Option Uuid → Tx Stmt Res Unit
  | none => .throw "Счет не найден"
  | some balance => .exec (.createOutboxEvent ⟨outboxId,balance,topic,payload,false⟩) .pure

theorem createOutboxEvent_eq :
    createOutboxEvent accountId currency topic payload outboxId =
    .exec (.findFirstBalance accountId currency) (outboxFound topic payload outboxId) := by
  refine congrArg (Tx.exec _) (funext fun balance => ?_)
  cases balance <;> rfl

end CreateOutboxEvent

theorem resetAllBalances_eq : resetAllBalances = .exec .updateAllBalances .pure := rfl

/-- A transfer that is not refused has two unblocked balances and enough funds. -/
theorem transferSelected_cases (idempotencyKey fromAccountId toAccountId : Uuid) (amount : ℤ)
    (eventId outId inId processedId outboxId : Uuid) (balances : List Balance) :
    (∃ e, transferSelected idempotencyKey fromAccountId toAccountId amount eventId outId inId
        processedId outboxId balances = .throw e) ∨
    (∃ sender receiver,
      balances.find? (fun b => b.accountId = fromAccountId) = some sender ∧
      balances.find? (fun b => b.accountId = toAccountId) = some receiver ∧
      2 ≤ balances.length ∧ sender.blockedAt = none ∧ receiver.blockedAt = none ∧
      amount ≤ sender.amount ∧
      transferSelected idempotencyKey fromAccountId toAccountId amount eventId outId inId
        processedId outboxId balances =
      transferDecrement idempotencyKey amount eventId outId inId processedId outboxId
        sender.id receiver.id) := by
  unfold transferSelected
  split
  · exact .inl ⟨_,rfl⟩
  · rename_i hlen
    split
    · rename_i sender receiver hs hr
      split
      · exact .inl ⟨_,rfl⟩
      · rename_i hb
        split
        · exact .inl ⟨_,rfl⟩
        · rename_i hf
          simp only [Bool.or_eq_true,not_or,Bool.not_eq_true,Option.isSome_eq_false_iff,
            Option.isNone_iff_eq_none] at hb
          exact .inr ⟨sender,receiver,hs,hr,by omega,hb.1,hb.2,by omega,rfl⟩
    · exact .inl ⟨_,rfl⟩

section Guarded
variable (check : Bool)

theorem deposit_guarded (idempotencyKey : Uuid) (currency : String) (amount : ℤ)
    (accountId transactionId eventId processedId outboxId : Uuid) :
    (lawful check).Guarded (depositAndCreateOutboxEvent idempotencyKey currency amount accountId
      transactionId eventId processedId outboxId) (fun _ => False) := by
  rw [depositAndCreateOutboxEvent_eq]
  rintro (_ | ⟨balance,_⟩)
  · trivial
  · rintro (_ | e)
    · intro _ _ _ k
      simp [Stmt.absent,Stmt.inserts]
    · intro k
      simp [Stmt.absent,Stmt.inserts]

theorem transfer_guarded (idempotencyKey fromAccountId toAccountId : Uuid) (currency : String)
    (amount : ℤ) (eventId outId inId processedId outboxId : Uuid) :
    (lawful check).Guarded (transferAndCreateOutboxEvent idempotencyKey fromAccountId toAccountId
      currency amount eventId outId inId processedId outboxId) (fun _ => False) := by
  rw [transferAndCreateOutboxEvent_eq]
  rintro (_ | e)
  · intro (balances : List Balance)
    rcases transferSelected_cases idempotencyKey fromAccountId toAccountId amount eventId outId
      inId processedId outboxId balances with ⟨e,h⟩ | ⟨sender,receiver,-,-,-,-,-,-,h⟩
    · rw [h]
      trivial
    · rw [h]
      intro _ _ _ _ k
      simp [Stmt.absent,Stmt.inserts]
  · intro k
    simp [Stmt.absent,Stmt.inserts]

theorem createOutboxEvent_guarded (accountId : Uuid) (currency : String) (topic : KafkaTopic)
    (payload : Payload) (outboxId : Uuid) :
    (lawful check).Guarded (createOutboxEvent accountId currency topic payload outboxId)
      (fun _ => False) := by
  rw [createOutboxEvent_eq]
  rintro (_ | balance)
  · trivial
  · intro _ k
    simp [Stmt.absent,Stmt.inserts]

theorem resetAllBalances_guarded : (lawful check).Guarded resetAllBalances (fun _ => False) := by
  intro _ k
  simp [Stmt.absent,Stmt.inserts]

end Guarded

/-- A call of the repository, with the uuids that it generates. -/
inductive BalanceCall where
  | deposit (idempotencyKey : Uuid) (currency : String) (amount : ℤ)
      (accountId transactionId eventId processedId outboxId : Uuid)
  | transfer (idempotencyKey fromAccountId toAccountId : Uuid) (currency : String) (amount : ℤ)
      (eventId outId inId processedId outboxId : Uuid)
  | createOutboxEvent (accountId : Uuid) (currency : String) (topic : KafkaTopic)
      (payload : Payload) (outboxId : Uuid)
  | reset

def BalanceCall.body : BalanceCall → Tx Stmt Res Unit
  | .deposit key currency amount accountId transactionId eventId processedId outboxId =>
    depositAndCreateOutboxEvent key currency amount accountId transactionId eventId processedId
      outboxId
  | .transfer key fromAccountId toAccountId currency amount eventId outId inId processedId
      outboxId =>
    transferAndCreateOutboxEvent key fromAccountId toAccountId currency amount eventId outId inId
      processedId outboxId
  | .createOutboxEvent accountId currency topic payload outboxId =>
    UserService.createOutboxEvent accountId currency topic payload outboxId
  | .reset => resetAllBalances

theorem BalanceCall.guarded (check : Bool) (c : BalanceCall) :
    (lawful check).Guarded c.body (fun _ => False) := by
  cases c with
  | deposit => exact deposit_guarded check _ _ _ _ _ _ _ _
  | transfer => exact transfer_guarded check _ _ _ _ _ _ _ _ _ _
  | createOutboxEvent => exact createOutboxEvent_guarded check _ _ _ _ _
  | reset => exact resetAllBalances_guarded check

end NestHomework.UserService
