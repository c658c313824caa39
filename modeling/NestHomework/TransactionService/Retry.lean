import NestHomework.TransactionService.TransactionRepository

/-! The two retry methods have one shape. Here is each of them cut at its statements, and what it
commits alone. -/
namespace NestHomework.TransactionService
open Contracts Postgres

/-- What a failure message is about: a deposit, or the two legs of a transfer. -/
inductive RetryTarget where
  | deposit (transactionId : Uuid)
  | transfer (outId inId : Uuid)
  deriving DecidableEq, Repr

namespace RetryTarget

def ids : RetryTarget → List Uuid
  | .deposit transactionId => [transactionId]
  | .transfer outId inId => [outId,inId]

/-- All rows of the target are there. -/
def present (g : RetryTarget) (db : TxDb) : Bool := g.ids.length ≤ (db.ofIds g.ids).length

/-- The count that decides on another retry is the one of the first row. -/
def retryCount (g : RetryTarget) (db : TxDb) : ℕ :=
  ((db.ofIds g.ids).head?.map (·.retryCount)).getD 0

end RetryTarget

/-- The arguments that all runs for one failure message share. -/
structure RetryCall where
  target : RetryTarget
  idempotencyKey : Uuid
  eventId : Uuid
  maxRetry : ℕ
  processedTopic : KafkaTopic
  deriving DecidableEq, Repr

/-- The uuids of one run: of the copied event and of the processed event. -/
structure RetryIds where
  outboxId : Uuid
  processedId : Uuid
  deriving DecidableEq, Repr

namespace RetryCall
variable (c : RetryCall) (i : RetryIds)

def body : Tx Stmt Res Bool :=
  match c.target with
  | .deposit transactionId => recreateOutboxEvent c.idempotencyKey transactionId c.eventId c.maxRetry
      c.processedTopic i.outboxId i.processedId
  | .transfer outId inId => recreateTransferOutboxEvent c.idempotencyKey outId inId c.eventId
      c.maxRetry c.processedTopic i.outboxId i.processedId

/-- The error after the `COMMIT` of a run that has no retry left. -/
def exhausted : String :=
  match c.target with
  | .deposit _ => s!"Попытки опубликовать event исчерпаны | Статус транзакции -> {TransactionStatus.failed.name}"
  | .transfer _ _ =>
    s!"Попытки опубликовать event исчерпаны | Статус транзакций -> {TransactionStatus.failed.name}"

/-- What follows the transaction. -/
def afterRecreate : Except String Bool → Proc Stmt Res Bool (Except String Unit)
  | .ok retriesExhausted => .done (if retriesExhausted then .error c.exhausted else .ok ())
  | .error e => .done (.error e)

def recreate : Proc Stmt Res Bool (Except String Unit) := .transaction (c.body i) c.afterRecreate

def copy (event : OutboxEvent) : OutboxEvent :=
  ⟨i.outboxId,event.transactionId,event.topic,event.payload,false⟩

def record : ProcessedEvent := ⟨i.processedId,c.idempotencyKey,c.processedTopic⟩

def retryRecord : Tx Stmt Res Bool := .exec (.createProcessedEvent (c.record i)) fun _ => .pure false

def retryCopy (event : OutboxEvent) : Tx Stmt Res Bool :=
  .exec (.createOutboxEvent (copy i event)) fun _ => c.retryRecord i

def retryFound : Option OutboxEvent → Tx Stmt Res Bool
  | none => .throw s!"Event {c.eventId} не найден"
  | some event =>
    if event.payload.isNone then .throw s!"Payload event {c.eventId} не найден"
    else c.retryCopy i event

def retryExhausted : Tx Stmt Res Bool :=
  match c.target with
  | .deposit transactionId => .exec (.updateStatus transactionId .failed) fun _ => .pure true
  | .transfer outId inId => .exec (.updateManyStatus [outId,inId] .failed) fun _ => .pure true

def retryUpdated (retryCount : ℕ) : Tx Stmt Res Bool :=
  if retryCount < c.maxRetry then .exec (.findUniqueOutboxEvent c.eventId) (c.retryFound i)
  else c.retryExhausted

def retryUpdate : Tx Stmt Res Bool :=
  match c.target with
  | .deposit transactionId => .exec (.updateRetryCount transactionId) (c.retryUpdated i)
  | .transfer outId inId => .exec (.updateManyRetryCount [outId,inId]) fun (updated : List ℕ) =>
    match updated.head? with
    | none => .throw "Cannot read properties of undefined (reading 'retryCount')"
    | some retryCount => c.retryUpdated i retryCount

def missing : String :=
  match c.target with
  | .deposit transactionId => s!"Транзакция {transactionId} не найдена"
  | .transfer outId inId => s!"Одна из транзакций не найдена: {outId} | {inId} "

def retryExists (found : Bool) : Tx Stmt Res Bool :=
  if found then c.retryUpdate i else .throw c.missing

def retryFind : Tx Stmt Res Bool :=
  match c.target with
  | .deposit transactionId => .exec (.findUniqueTransaction transactionId)
      fun (transaction : Option Transaction) => c.retryExists i transaction.isSome
  | .transfer outId inId => .exec (.findManyTransactions [outId,inId])
      fun (txs : List Transaction) => c.retryExists i (2 ≤ txs.length)

def retryChecked (alreadyExist : Option ProcessedEvent) : Tx Stmt Res Bool :=
  if alreadyExist.isSome then .pure false else c.retryFind i

theorem body_eq :
    c.body i = .exec (.findUniqueProcessedEvent c.idempotencyKey) (c.retryChecked i) := by
  obtain ⟨target,key,eventId,maxRetry,processedTopic⟩ := c
  cases target with
  | deposit transactionId =>
    refine congrArg (Tx.exec _) (funext fun (alreadyExist : Option ProcessedEvent) => ?_)
    cases alreadyExist with
    | some e => rfl
    | none =>
      refine congrArg (Tx.exec _) (funext fun (transaction : Option Transaction) => ?_)
      cases transaction with
      | none => rfl
      | some t =>
        refine congrArg (Tx.exec _) (funext fun (retryCount : ℕ) => ?_)
        refine if_congr Iff.rfl (congrArg (Tx.exec _) (funext fun event => ?_)) rfl
        cases event <;> rfl
  | transfer outId inId =>
    refine congrArg (Tx.exec _) (funext fun (alreadyExist : Option ProcessedEvent) => ?_)
    cases alreadyExist with
    | some e => rfl
    | none =>
      refine congrArg (Tx.exec _) (funext fun (txs : List Transaction) => ?_)
      change (if txs.length < 2 then _ else _) = retryExists _ i (decide (2 ≤ txs.length))
      by_cases h : txs.length < 2
      · rw [if_pos h,decide_eq_false (by omega)]
        rfl
      · rw [if_neg h,decide_eq_true (by omega)]
        refine congrArg (Tx.exec _) (funext fun (updated : List ℕ) => ?_)
        cases updated with
        | nil => rfl
        | cons retryCount rest =>
          refine if_congr Iff.rfl (congrArg (Tx.exec _) (funext fun event => ?_)) rfl
          cases event <;> rfl

def copyWrites (event : OutboxEvent) : List Write :=
  [.addRetryCount c.target.ids,.insertOutboxEvent (copy i event),
    .insertProcessedEvent (c.record i)]

def failWrites : List Write := [.addRetryCount c.target.ids,.setStatus c.target.ids .failed]

/-- The committed writes of a run that meets no other. -/
def commit (db : TxDb) : Option (List Write) :=
  if (db.processed c.idempotencyKey).isSome then some []
  else if !c.target.present db then none
  else if c.target.retryCount db+1 < c.maxRetry then
    match db.outboxEvent c.eventId with
    | none => none
    | some event =>
      if event.payload.isSome && (db.transaction event.transactionId).isSome then
        some (c.copyWrites i event)
      else none
  else some c.failWrites

section Statements
variable {db : TxDb}

theorem present_deposit (transactionId : Uuid) :
    (RetryTarget.deposit transactionId).present db = (db.transaction transactionId).isSome := by
  rw [TxDb.transaction,Bool.eq_iff_iff,List.find?_isSome]
  simp [RetryTarget.present,RetryTarget.ids,TxDb.ofIds,Nat.succ_le_iff,List.length_pos_iff_exists_mem]

theorem retryCount_deposit {transactionId : Uuid} {t : Transaction}
    (h : db.transaction transactionId = some t) :
    (RetryTarget.deposit transactionId).retryCount db = t.retryCount := by
  have hhead : (db.ofIds [transactionId]).head? = some t := by
    rw [TxDb.ofIds,List.head?_filter,← h]
    simp [TxDb.transaction]
  simp [RetryTarget.retryCount,RetryTarget.ids,hhead]

theorem retryFind_exec : ∃ st k, c.retryFind i = .exec st k ∧ ∀ db : TxDb, ∃ r,
    st.exec db = .ok (r,[]) ∧ k r = c.retryExists i (c.target.present db) := by
  unfold retryFind
  cases hg : c.target with
  | deposit transactionId =>
    exact ⟨_,_,rfl,fun db => ⟨_,rfl,by rw [present_deposit]⟩⟩
  | transfer outId inId => exact ⟨_,_,rfl,fun db => ⟨_,rfl,rfl⟩⟩

theorem retryUpdate_exec : ∃ st k, c.retryUpdate i = .exec st k ∧ ∀ db : TxDb,
    st.rows db = (db.ofIds c.target.ids).map (·.id) ∧ (c.target.present db → ∃ r,
      st.exec db = .ok (r,[.addRetryCount c.target.ids]) ∧
      k r = c.retryUpdated i (c.target.retryCount db+1)) := by
  unfold retryUpdate
  cases hg : c.target with
  | deposit transactionId =>
    refine ⟨_,_,rfl,fun db => ⟨rfl,fun h => ?_⟩⟩
    rw [present_deposit] at h
    obtain ⟨t,ht⟩ := Option.isSome_iff_exists.mp h
    exact ⟨t.retryCount+1,by simp [Stmt.exec,ht,RetryTarget.ids],by rw [retryCount_deposit ht]⟩
  | transfer outId inId =>
    refine ⟨_,_,rfl,fun db => ⟨rfl,fun h => ⟨_,rfl,?_⟩⟩⟩
    cases hrows : db.ofIds [outId,inId] with
    | nil => simp [RetryTarget.present,RetryTarget.ids,hrows] at h
    | cons t ts => simp [RetryTarget.retryCount,RetryTarget.ids,hrows]

theorem retryExhausted_exec : ∃ st k, c.retryExhausted = .exec st k ∧ ∀ db : TxDb,
    c.target.present db → ∃ r, st.exec db = .ok (r,[.setStatus c.target.ids .failed]) ∧
      k r = .pure true := by
  unfold retryExhausted
  cases hg : c.target with
  | deposit transactionId =>
    refine ⟨_,_,rfl,fun db h => ⟨(),?_,rfl⟩⟩
    rw [present_deposit] at h
    simp [Stmt.exec,h,RetryTarget.ids]
  | transfer outId inId => exact ⟨_,_,rfl,fun db _ => ⟨(),rfl,rfl⟩⟩

/-- The rows stay when their counts or statuses change. -/
theorem map_id_apply {w : Write} (h : ∀ data, w ≠ .insertTransaction data) :
    (w.apply db).transactions.map (·.id) = db.transactions.map (·.id) := by
  cases w with
  | insertTransaction data => exact absurd rfl (h data)
  | setStatus ids status => exact map_id_update (fun _ => rfl)
  | addRetryCount ids => exact map_id_update (fun _ => rfl)
  | insertOutboxEvent data => rfl
  | insertProcessedEvent data => rfl

theorem transaction_isSome_congr {db' : TxDb}
    (h : db'.transactions.map (·.id) = db.transactions.map (·.id)) (id : Uuid) :
    (db'.transaction id).isSome = (db.transaction id).isSome := by
  have hmem : ∀ d : TxDb, (d.transaction id).isSome ↔ id ∈ d.transactions.map (·.id) := by
    intro d
    simp [TxDb.transaction,List.find?_isSome]
  rw [Bool.eq_iff_iff,hmem,hmem,h]

theorem map_id_ofIds (ids : List Uuid) : (db.ofIds ids).map (·.id) =
    (db.transactions.map (·.id)).filter (fun id => ids.contains id) := by
  rw [List.filter_map]
  rfl

theorem map_id_ofIds_congr {db' : TxDb}
    (h : db'.transactions.map (·.id) = db.transactions.map (·.id)) (ids : List Uuid) :
    (db'.ofIds ids).map (·.id) = (db.ofIds ids).map (·.id) := by
  rw [map_id_ofIds,map_id_ofIds,h]

theorem present_congr {db' : TxDb}
    (h : db'.transactions.map (·.id) = db.transactions.map (·.id)) (g : RetryTarget) :
    g.present db' = g.present db := by
  have hlen := congrArg List.length (map_id_ofIds_congr h g.ids)
  rw [List.length_map,List.length_map] at hlen
  rw [RetryTarget.present,RetryTarget.present,hlen]

theorem retryRecord_run : server.run none (c.retryRecord i) db =
    if (db.processed c.idempotencyKey).isSome then
      .error "Unique constraint failed on the fields: (idempotency_key)"
    else .ok (false,[.insertProcessedEvent (c.record i)]) := by
  rw [retryRecord,Engine.run_exec]
  split <;> simp_all [Stmt.exec,record,Except.bind,Except.map]

theorem retryCopy_run (event : OutboxEvent) : server.run none (c.retryCopy i event) db =
    if (db.transaction event.transactionId).isSome then
      if (db.processed c.idempotencyKey).isSome then
        .error "Unique constraint failed on the fields: (idempotency_key)"
      else .ok (false,[.insertOutboxEvent (copy i event),.insertProcessedEvent (c.record i)])
    else .error "Foreign key constraint violated: outbox_events_transaction_id_fkey" := by
  by_cases h : (db.transaction event.transactionId).isSome
  · have he : server.exec (.createOutboxEvent (copy i event)) db =
        .ok ((),[.insertOutboxEvent (copy i event)]) := by simp [Stmt.exec,copy,h]
    have hp : (server.applyAll db [.insertOutboxEvent (copy i event)]).processed c.idempotencyKey =
        db.processed c.idempotencyKey := rfl
    rw [retryCopy,Engine.run_exec_ok he,retryRecord_run,hp,if_pos h]
    split <;> rfl
  · have he : server.exec (.createOutboxEvent (copy i event)) db =
        .error "Foreign key constraint violated: outbox_events_transaction_id_fkey" := by
      simp [Stmt.exec,copy,h]
    rw [retryCopy,Engine.run_exec_error he,if_neg h]

/-- What a run commits that meets no other. -/
theorem body_run : (server.run none (c.body i) db).toOption.map (·.2) = c.commit i db := by
  rw [body_eq,Engine.run_exec_read rfl,retryChecked,commit]
  by_cases hk : (db.processed c.idempotencyKey).isSome
  · rw [if_pos hk,if_pos hk]
    rfl
  rw [if_neg hk,if_neg hk]
  obtain ⟨st,k,hc,hfind⟩ := c.retryFind_exec i
  obtain ⟨r,hr,hrest⟩ := hfind db
  rw [hc,Engine.run_exec_read hr,hrest,retryExists]
  cases hpres : c.target.present db with
  | false => rfl
  | true =>
    obtain ⟨st',k',hc',hupdate⟩ := c.retryUpdate_exec i
    obtain ⟨r',hr',hrest'⟩ := (hupdate db).2 hpres
    rw [if_pos rfl,hc',Engine.run_exec_ok hr',hrest',retryUpdated]
    have hids : (server.applyAll db [.addRetryCount c.target.ids]).transactions.map (·.id) =
        db.transactions.map (·.id) := map_id_apply (w := .addRetryCount c.target.ids) (by simp)
    by_cases hmax : c.target.retryCount db+1 < c.maxRetry
    · rw [if_pos hmax,Engine.run_exec_read rfl]
      have hev : (server.applyAll db [.addRetryCount c.target.ids]).outboxEvent c.eventId =
          db.outboxEvent c.eventId := rfl
      have hpr : (server.applyAll db [.addRetryCount c.target.ids]).processed c.idempotencyKey =
          db.processed c.idempotencyKey := rfl
      rw [hev]
      cases hevent : db.outboxEvent c.eventId with
      | none => simp [retryFound,Except.map,Except.toOption,hmax]
      | some event =>
        cases hpay : event.payload with
        | none => simp [retryFound,hpay,Except.map,Except.toOption,hmax]
        | some payload =>
          rw [retryFound,hpay,if_neg (by simp),retryCopy_run,transaction_isSome_congr hids,hpr,
            if_neg hk]
          by_cases hfk : (db.transaction event.transactionId).isSome
          · simp [hfk,hpay,hmax,Except.map,Except.toOption,copyWrites]
          · simp [hfk,hpay,hmax,Except.map,Except.toOption]
    · rw [if_neg hmax]
      have hpres' : c.target.present (server.applyAll db [.addRetryCount c.target.ids]) := by
        rw [present_congr hids,hpres]
      obtain ⟨st'',k'',hc'',hex⟩ := c.retryExhausted_exec
      obtain ⟨r'',hr'',hrest''⟩ := hex _ hpres'
      rw [hc'',Engine.run_exec_ok hr'',hrest'',Engine.run_pure]
      simp [hmax,Except.map,Except.toOption,failWrites]

theorem after_body : server.after none (c.body i) db =
    server.applyAll db ((c.commit i db).getD []) := by
  rw [← body_run,Engine.after]
  rcases server.run none (c.body i) db with e | ⟨x,ws⟩ <;> rfl

end Statements

end RetryCall
end NestHomework.TransactionService
