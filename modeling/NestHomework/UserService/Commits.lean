import NestHomework.UserService.Accounts

/-! What a balance operation commits when nothing runs beside it. -/
namespace NestHomework.UserService
open Contracts Postgres

def depositWrites (idempotencyKey : Uuid) (amount : ℤ)
    (transactionId eventId processedId outboxId balance : Uuid) : List Write :=
  [.addAmount balance amount,
    .insertProcessedEvent ⟨processedId,idempotencyKey,.depositPaidSuccess⟩,
    .insertOutboxEvent ⟨outboxId,balance,.depositCreditingSuccess,
      .depositCrediting ⟨eventId,transactionId⟩,false⟩]

def transferWrites (idempotencyKey : Uuid) (amount : ℤ)
    (eventId outId inId processedId outboxId sender receiver : Uuid) : List Write :=
  [.addAmount sender (-amount),.addAmount receiver amount,
    .insertProcessedEvent ⟨processedId,idempotencyKey,.transferInited⟩,
    .insertOutboxEvent ⟨outboxId,sender,.tranferSuccess,.transferResult ⟨eventId,outId,inId⟩,false⟩]

/-- The committed writes of a deposit, or why it is rolled back. -/
def depositAlone (check : Bool) (db : UserDb) (idempotencyKey : Uuid) (currency : String)
    (amount : ℤ) (accountId transactionId eventId processedId outboxId : Uuid) :
    Except String (Unit × List Write) :=
  match db.balanceOf accountId currency with
  | none => .error "Счет не найден"
  | some balance =>
    if (db.processed idempotencyKey).isSome then .ok ((),[])
    else if check && balance.amount+amount < 0 then .error "balance_amount_non_negative"
    else .ok ((),depositWrites idempotencyKey amount transactionId eventId processedId outboxId
      balance.id)

/-- The committed writes of a transfer, or why it is rolled back. -/
def transferAlone (check : Bool) (db : UserDb) (idempotencyKey fromAccountId toAccountId : Uuid)
    (currency : String) (amount : ℤ) (eventId outId inId processedId outboxId : Uuid) :
    Except String (Unit × List Write) :=
  if (db.processed idempotencyKey).isSome then .ok ((),[])
  else if fromAccountId = toAccountId then .error "Один из аккаунтов не найден"
  else
    match db.balanceOf fromAccountId currency, db.balanceOf toAccountId currency with
    | some sender, some receiver =>
      if sender.blockedAt.isSome || receiver.blockedAt.isSome then
        .error "Один из балансов заблокирован"
      else if sender.amount < amount then .error "Недостаточно средств"
      else if check && receiver.amount+amount < 0 then .error "balance_amount_non_negative"
      else .ok ((),transferWrites idempotencyKey amount eventId outId inId processedId outboxId
        sender.id receiver.id)
    | _, _ => .error "Один из аккаунтов не найден"

section Apply
variable {db : UserDb} {id : Uuid}

/-- The row after an update of its amount. -/
theorem balance_addAmount (increment : ℤ) (q : Uuid) :
    ((Write.addAmount id increment).apply db).balance q =
      (db.balance q).map (fun b => if b.id = id then {b with amount := b.amount+increment} else b) := by
  unfold UserDb.balance Write.apply
  rw [List.find?_map]
  congr 2
  funext b
  simp only [Function.comp_apply]
  split <;> rfl

@[simp] theorem processed_addAmount (increment : ℤ) (key : Uuid) :
    ((Write.addAmount id increment).apply db).processed key = db.processed key := rfl

@[simp] theorem balance_insertProcessedEvent (data : ProcessedEvent) (q : Uuid) :
    ((Write.insertProcessedEvent data).apply db).balance q = db.balance q := rfl

theorem exec_updateBalance {check : Bool} {b : Balance} {increment : ℤ}
    (hb : db.balance id = some b) (hc : ¬(check && b.amount+increment < 0)) :
    (server check).exec (.updateBalance id increment) db = .ok ((),[.addAmount id increment]) := by
  simp only [server_exec,Stmt.exec,hb]
  rw [if_neg hc]

theorem exec_updateBalance_negative {b : Balance} {increment : ℤ} (hb : db.balance id = some b)
    (hc : b.amount+increment < 0) :
    (server true).exec (.updateBalance id increment) db =
      .error "balance_amount_non_negative" := by
  simp [Stmt.exec,hb,hc]

theorem exec_createProcessedEvent {check : Bool} {data : ProcessedEvent}
    (h : db.processed data.idempotencyKey = none) :
    (server check).exec (.createProcessedEvent data) db = .ok ((),[.insertProcessedEvent data]) := by
  simp [Stmt.exec,h]

theorem exec_createOutboxEvent {check : Bool} {data : OutboxEvent}
    (h : (db.balance data.balanceId).isSome) :
    (server check).exec (.createOutboxEvent data) db = .ok ((),[.insertOutboxEvent data]) := by
  simp [Stmt.exec,h]

end Apply

section Answers
variable {check : Bool} {db : UserDb}

theorem exec_updateBalance_ok {id : Uuid} {amount : ℤ} {ws : List Write}
    (h : (server check).exec (.updateBalance id amount) db = .ok ((),ws)) :
    ws = [.addAmount id amount] := by
  simp only [server_exec,Stmt.exec] at h
  split at h
  · contradiction
  · split at h
    · contradiction
    · cases h
      rfl

theorem exec_createProcessedEvent_ok {data : ProcessedEvent} {ws : List Write}
    (h : (server check).exec (.createProcessedEvent data) db = .ok ((),ws)) :
    ws = [.insertProcessedEvent data] := by
  simp only [server_exec,Stmt.exec] at h
  split at h
  · contradiction
  · cases h
    rfl

theorem exec_createOutboxEvent_ok {data : OutboxEvent} {ws : List Write}
    (h : (server check).exec (.createOutboxEvent data) db = .ok ((),ws)) :
    ws = [.insertOutboxEvent data] := by
  simp only [server_exec,Stmt.exec] at h
  split at h
  · cases h
    rfl
  · contradiction

end Answers

section Alone
variable {check : Bool} {db : UserDb}

/-- A deposit that found its key missing raises the balance, unless it would go negative. -/
theorem depositUpdate_run {balance : Balance} (hb : db.balance balance.id = some balance)
    {idempotencyKey : Uuid} (hp : db.processed idempotencyKey = none) (amount : ℤ)
    (transactionId eventId processedId outboxId : Uuid) :
    (server check).run none (depositUpdate idempotencyKey amount transactionId eventId processedId
        outboxId balance.id) db =
      if check && balance.amount+amount < 0 then .error "balance_amount_non_negative"
      else .ok ((),depositWrites idempotencyKey amount transactionId eventId processedId outboxId
        balance.id) := by
  by_cases hc : check && balance.amount+amount < 0
  · rw [if_pos hc]
    simp only [Bool.and_eq_true,decide_eq_true_eq] at hc
    obtain ⟨rfl,hc⟩ := hc
    exact Engine.run_exec_error (exec_updateBalance_negative hb hc) _
  · rw [if_neg hc,depositUpdate,Engine.run_exec_ok (exec_updateBalance hb hc),depositRecord,
      Engine.run_exec_ok (exec_createProcessedEvent (by simpa using hp)),depositOutbox,
      Engine.run_exec_ok (exec_createOutboxEvent (by simp [balance_addAmount,hb])),
      Engine.run_pure]
    rfl

theorem deposit_run (hw : db.WellFormed) (idempotencyKey : Uuid) (currency : String) (amount : ℤ)
    (accountId transactionId eventId processedId outboxId : Uuid) :
    (server check).run none (depositAndCreateOutboxEvent idempotencyKey currency amount accountId
        transactionId eventId processedId outboxId) db =
      depositAlone check db idempotencyKey currency amount accountId transactionId eventId
        processedId outboxId := by
  rw [depositAndCreateOutboxEvent_eq,depositAlone,Engine.run_exec_read rfl,ofAccounts_eq hw]
  cases hb : db.balanceOf accountId currency with
  | none => simp [depositSelected]
  | some b =>
    have hrow := hw.balance_eq (hw.balanceOf_eq_some.mp hb).1
    simp only [Option.toList_some,List.map_cons,List.map_nil,depositSelected]
    rw [Engine.run_exec_read rfl,depositChecked]
    split
    · simp
    · rename_i hp
      exact depositUpdate_run hrow (by simpa using hp) _ _ _ _ _

/-- What the transfer does with the rows that it locked. -/
theorem transferSelected_eq (hw : db.WellFormed) (idempotencyKey fromAccountId toAccountId : Uuid)
    (currency : String) (amount : ℤ) (eventId outId inId processedId outboxId : Uuid) :
    transferSelected idempotencyKey fromAccountId toAccountId amount eventId outId inId processedId
        outboxId (orderByAccount (db.ofAccounts [fromAccountId,toAccountId] currency)) =
      if fromAccountId = toAccountId then .throw "Один из аккаунтов не найден"
      else
        match db.balanceOf fromAccountId currency, db.balanceOf toAccountId currency with
        | some sender, some receiver =>
          if sender.blockedAt.isSome || receiver.blockedAt.isSome then
            .throw "Один из балансов заблокирован"
          else if sender.amount < amount then .throw "Недостаточно средств"
          else transferDecrement idempotencyKey amount eventId outId inId processedId outboxId
            sender.id receiver.id
        | _, _ => .throw "Один из аккаунтов не найден" := by
  have hlen := two_le_length_selected hw fromAccountId toAccountId currency
  have hfrom : fromAccountId ∈ [fromAccountId,toAccountId] := by simp
  have hto : toAccountId ∈ [fromAccountId,toAccountId] := by simp
  rw [transferSelected,find?_orderByAccount hw currency hfrom,find?_orderByAccount hw currency hto]
  by_cases hne : fromAccountId = toAccountId
  · have hshort : ¬2 ≤ _ := fun h => (hlen.mp h).1 hne
    rw [if_pos (by omega),if_pos hne]
  · rw [if_neg hne]
    cases hs : db.balanceOf fromAccountId currency with
    | none => rw [if_pos (by simp [hs] at hlen; omega)]
    | some sender =>
      cases hr : db.balanceOf toAccountId currency with
      | none => rw [if_pos (by simp [hr] at hlen; omega)]
      | some receiver => rw [if_neg (by simp [hs,hr,hne] at hlen; omega)]

/-- A transfer that passed its checks moves the amount, unless the receiver would go negative. -/
theorem transferDecrement_run {sender receiver : Balance} (hs : db.balance sender.id = some sender)
    (hr : db.balance receiver.id = some receiver) (hne : receiver.id ≠ sender.id)
    {idempotencyKey : Uuid} (hp : db.processed idempotencyKey = none) {amount : ℤ}
    (hfunds : amount ≤ sender.amount) (eventId outId inId processedId outboxId : Uuid) :
    (server check).run none (transferDecrement idempotencyKey amount eventId outId inId processedId
        outboxId sender.id receiver.id) db =
      if check && receiver.amount+amount < 0 then .error "balance_amount_non_negative"
      else .ok ((),transferWrites idempotencyKey amount eventId outId inId processedId outboxId
        sender.id receiver.id) := by
  have hcs : ¬(check && sender.amount+-amount < 0) := by
    simp only [Bool.and_eq_true,decide_eq_true_eq,not_and]
    omega
  have hr' : ((Write.addAmount sender.id (-amount)).apply db).balance receiver.id =
      some receiver := by simp [balance_addAmount,hr,hne]
  rw [transferDecrement,Engine.run_exec_ok (exec_updateBalance hs hcs),transferIncrement]
  by_cases hc : check && receiver.amount+amount < 0
  · rw [if_pos hc]
    simp only [Bool.and_eq_true,decide_eq_true_eq] at hc
    obtain ⟨rfl,hc⟩ := hc
    rw [Engine.run_exec_error (exec_updateBalance_negative (by simpa using hr') hc)]
    rfl
  · rw [if_neg hc,Engine.run_exec_ok (exec_updateBalance (by simpa using hr') hc),transferRecord,
      Engine.run_exec_ok (exec_createProcessedEvent (by simpa using hp)),transferOutbox,
      Engine.run_exec_ok (exec_createOutboxEvent (by simp [balance_addAmount,hs])),
      Engine.run_pure]
    rfl

theorem transfer_run (hw : db.WellFormed) (idempotencyKey fromAccountId toAccountId : Uuid)
    (currency : String) (amount : ℤ) (eventId outId inId processedId outboxId : Uuid) :
    (server check).run none (transferAndCreateOutboxEvent idempotencyKey fromAccountId toAccountId
        currency amount eventId outId inId processedId outboxId) db =
      transferAlone check db idempotencyKey fromAccountId toAccountId currency amount eventId outId
        inId processedId outboxId := by
  rw [transferAndCreateOutboxEvent_eq,transferAlone,Engine.run_exec_read rfl,transferChecked]
  split
  · simp
  · rename_i hp
    rw [Engine.run_exec_read rfl,transferSelected_eq hw]
    by_cases hne : fromAccountId = toAccountId
    · simp [hne]
    · rw [if_neg hne,if_neg hne]
      cases hs : db.balanceOf fromAccountId currency with
      | none => simp
      | some sender =>
        cases hr : db.balanceOf toAccountId currency with
        | none => simp
        | some receiver =>
          obtain ⟨hsm,hsa,-⟩ := hw.balanceOf_eq_some.mp hs
          obtain ⟨hrm,hra,-⟩ := hw.balanceOf_eq_some.mp hr
          have hid : receiver.id ≠ sender.id := by
            intro he
            rw [← hsa,← hra,hw.eq_of_id hrm hsm he] at hne
            exact hne rfl
          by_cases hb : (sender.blockedAt.isSome || receiver.blockedAt.isSome) = true
          · simp [hb]
          · by_cases hfunds : sender.amount < amount
            · simp [hb,hfunds]
            · simp only [if_neg hb,if_neg hfunds]
              exact transferDecrement_run (hw.balance_eq hsm) (hw.balance_eq hrm) hid
                (by simpa using hp) (by omega) _ _ _ _ _

theorem createOutboxEvent_run (hw : db.WellFormed) (accountId : Uuid) (currency : String)
    (topic : KafkaTopic) (payload : Payload) (outboxId : Uuid) :
    (server check).run none (createOutboxEvent accountId currency topic payload outboxId) db =
      match db.balanceOf accountId currency with
      | none => .error "Счет не найден"
      | some balance =>
        .ok ((),[.insertOutboxEvent ⟨outboxId,balance.id,topic,payload,false⟩]) := by
  rw [createOutboxEvent_eq,Engine.run_exec_read rfl,ofAccounts_eq hw]
  cases hb : db.balanceOf accountId currency with
  | none => simp [outboxFound]
  | some b =>
    have hrow := hw.balance_eq (hw.balanceOf_eq_some.mp hb).1
    simp only [Option.toList_some,List.map_cons,List.map_nil,List.head?_cons,outboxFound]
    rw [Engine.run_exec_ok (exec_createOutboxEvent (by simp [hrow])),Engine.run_pure]
    rfl

theorem resetAllBalances_run : (server check).run none resetAllBalances db =
    .ok ((),db.balances.map (fun b => .setAmount b.id 0)) := by
  have h : (server check).exec .updateAllBalances db =
      .ok ((),db.balances.map (fun b => .setAmount b.id 0)) := rfl
  rw [resetAllBalances_eq,Engine.run_exec_ok h,Engine.run_pure]
  simp [Except.map]

end Alone
end NestHomework.UserService
