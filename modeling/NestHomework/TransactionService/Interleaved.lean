import NestHomework.Postgres.Isolation
import NestHomework.TransactionService.Commits

/-! What a call commits while others run. Its statements see what is committed at that moment, so
little of what it reads still holds at its `COMMIT`: the rows that it locked are as it read them, the
event that it found is stored, and the unique keys that it inserts are still free. -/
namespace NestHomework.TransactionService
open Contracts Postgres

/-- What a statement writes, if it does not fail. -/
def Stmt.writes : Stmt → List Write
  | .createTransaction data => [.insertTransaction data]
  | .updateStatus id status => [.setStatus [id] status]
  | .updateManyStatus ids status => [.setStatus ids status]
  | .updateRetryCount id => [.addRetryCount [id]]
  | .updateManyRetryCount ids => [.addRetryCount ids]
  | .createOutboxEvent data => [.insertOutboxEvent data]
  | .createProcessedEvent data => [.insertProcessedEvent data]
  | _ => []

def Write.rows : Write → List Uuid
  | .setStatus ids _ => ids
  | .addRetryCount ids => ids
  | _ => []

def Transaction.uniqueKeys (t : Transaction) : List UniqueKey :=
  .transactionId t.id::.transaction t.idempotencyKey::t.providerPaymentId.toList.map .payment

def Write.entries : Write → List UniqueKey
  | .insertTransaction data => data.uniqueKeys
  | .insertProcessedEvent data => [.processedEvent data.idempotencyKey]
  | _ => []

/-- The contents of the unique indexes. -/
def TxDb.index (db : TxDb) : List UniqueKey :=
  db.transactions.flatMap (·.uniqueKeys)++
    db.processedEvents.map (fun e => .processedEvent e.idempotencyKey)

section Index
variable {db : TxDb}

section UniqueKeys
variable {t : Transaction}

@[simp] theorem transactionId_mem_uniqueKeys {id : Uuid} :
    .transactionId id ∈ t.uniqueKeys ↔ t.id = id := by
  simp only [Transaction.uniqueKeys,List.mem_cons,List.mem_map,UniqueKey.transactionId.injEq,
    reduceCtorEq,and_false,exists_false,or_false]
  exact eq_comm

@[simp] theorem transaction_mem_uniqueKeys {key : String} :
    .transaction key ∈ t.uniqueKeys ↔ t.idempotencyKey = key := by
  simp only [Transaction.uniqueKeys,List.mem_cons,List.mem_map,UniqueKey.transaction.injEq,
    reduceCtorEq,and_false,exists_false,or_false,false_or]
  exact eq_comm

@[simp] theorem payment_mem_uniqueKeys {p : String} :
    .payment p ∈ t.uniqueKeys ↔ t.providerPaymentId = some p := by
  simp [Transaction.uniqueKeys]

@[simp] theorem processedEvent_mem_uniqueKeys {key : Uuid} :
    .processedEvent key ∉ t.uniqueKeys := by
  simp [Transaction.uniqueKeys]

end UniqueKeys

theorem transactionId_mem_index {id : Uuid} :
    .transactionId id ∈ db.index ↔ (db.transaction id).isSome := by
  simp [TxDb.index,TxDb.transaction]

theorem transaction_mem_index {key : String} :
    .transaction key ∈ db.index ↔ (db.transactionOfKey key).isSome := by
  simp [TxDb.index,TxDb.transactionOfKey]

theorem payment_mem_index {p : String} : .payment p ∈ db.index ↔ db.ofPayment p ≠ [] := by
  simp [TxDb.index,TxDb.ofPayment]

theorem processedEvent_mem_index {key : Uuid} :
    .processedEvent key ∈ db.index ↔ (db.processed key).isSome := by
  simp [TxDb.index,TxDb.processed]

theorem Transaction.nodup_uniqueKeys (t : Transaction) : t.uniqueKeys.Nodup := by
  cases h : t.providerPaymentId <;> simp [uniqueKeys,h]

theorem index_apply (db : TxDb) (w : Write) : (w.apply db).index.Perm (db.index++w.entries) := by
  have hmap : ∀ (ids : List Uuid) (f : Transaction → Transaction),
      (∀ t, (f t).uniqueKeys = t.uniqueKeys) →
      (db.transactions.map (fun t => if ids.contains t.id then f t else t)).flatMap
        (·.uniqueKeys) = db.transactions.flatMap (·.uniqueKeys) := by
    intro ids f hf
    rw [List.flatMap_map]
    refine List.flatMap_congr (fun t _ => ?_)
    split
    · exact hf t
    · rfl
  cases w with
  | insertTransaction data =>
    simp only [TxDb.index,Write.apply,Write.entries,List.flatMap_append,List.flatMap_cons,
      List.flatMap_nil,List.append_nil,List.append_assoc]
    exact List.perm_append_comm.append_left _
  | insertProcessedEvent data => simp [TxDb.index,Write.apply,Write.entries]
  | setStatus ids status =>
    simp only [TxDb.index,Write.apply,Write.entries,List.append_nil]
    rw [hmap ids (fun t => {t with status := status}) (fun _ => rfl)]
  | addRetryCount ids =>
    simp only [TxDb.index,Write.apply,Write.entries,List.append_nil]
    rw [hmap ids (fun t => {t with retryCount := t.retryCount+1}) (fun _ => rfl)]
  | insertOutboxEvent data => simp [TxDb.index,Write.apply,Write.entries]

theorem exec_writes {s : Stmt} {r : Res s} {ws : List Write} (h : s.exec db = .ok (r,ws)) :
    ws = s.writes := by
  cases s <;> simp only [Stmt.exec] at h
  case updateRetryCount id =>
    split at h
    · contradiction
    · cases h
      rfl
  case createTransaction data =>
    split at h
    · contradiction
    · split at h
      · contradiction
      · split at h <;> cases h
        rfl
  all_goals first | (split at h <;> cases h <;> rfl) | (cases h; rfl)

/-- The entries of a statement that does not fail were free. -/
theorem exec_unique {s : Stmt} {r : Res s} {ws : List Write} (h : s.exec db = .ok (r,ws))
    (hu : db.index.Nodup) : (server.applyAll db ws).index.Nodup := by
  have hadd : ∀ w : Write, w.entries.Nodup → (∀ k ∈ w.entries, k ∉ db.index) →
      (w.apply db).index.Nodup := by
    intro w hn hfree
    rw [(index_apply db w).nodup_iff,List.nodup_append]
    refine ⟨hu,hn,?_⟩
    rintro k hk _ hk' rfl
    exact hfree k hk' hk
  cases exec_writes h
  cases s with
  | createTransaction data =>
    refine hadd (.insertTransaction data) data.nodup_uniqueKeys (fun k hk hi => ?_)
    simp only [Stmt.exec] at h
    split at h
    · contradiction
    rename_i hid
    split at h
    · contradiction
    rename_i hkey
    split at h
    · contradiction
    rename_i hpay
    simp only [Write.entries,Transaction.uniqueKeys,List.mem_cons,List.mem_map,
      Option.mem_toList] at hk
    rcases hk with rfl | rfl | ⟨p,hp,rfl⟩
    · exact hid (transactionId_mem_index.mp hi)
    · exact hkey (transaction_mem_index.mp hi)
    · exact hpay (by simpa [hp] using payment_mem_index.mp hi)
  | createProcessedEvent data =>
    refine hadd (.insertProcessedEvent data) (List.nodup_singleton _) (fun k hk hi => ?_)
    rw [Write.entries,List.mem_singleton] at hk
    subst hk
    simp [Stmt.exec,processedEvent_mem_index.mp hi] at h
  | updateStatus id status =>
    exact hadd (.setStatus [id] status) List.nodup_nil (by simp [Write.entries])
  | updateManyStatus ids status =>
    exact hadd (.setStatus ids status) List.nodup_nil (by simp [Write.entries])
  | updateRetryCount id => exact hadd (.addRetryCount [id]) List.nodup_nil (by simp [Write.entries])
  | updateManyRetryCount ids =>
    exact hadd (.addRetryCount ids) List.nodup_nil (by simp [Write.entries])
  | createOutboxEvent data =>
    exact hadd (.insertOutboxEvent data) List.nodup_nil (by simp [Write.entries])
  | _ => exact hu

/-- A unique index holds every id and every key once. -/
theorem nodup_of_index (h : db.index.Nodup) : (db.transactions.map (·.id)).Nodup ∧
    (db.transactions.map (·.idempotencyKey)).Nodup := by
  have hrows := (List.nodup_flatMap.mp (List.nodup_append.mp h).1).2
  constructor
  · refine List.pairwise_map.mpr (hrows.imp ?_)
    intro t u hd heq
    exact hd (transactionId_mem_uniqueKeys.mpr rfl) (transactionId_mem_uniqueKeys.mpr heq.symm)
  · refine List.pairwise_map.mpr (hrows.imp ?_)
    intro t u hd heq
    exact hd (transaction_mem_uniqueKeys.mpr rfl) (transaction_mem_uniqueKeys.mpr heq.symm)

end Index

/-- The footprint of the server of the transaction service. -/
def footprint : Footprint server where
  writes := Stmt.writes
  rows := Write.rows
  entries := Write.entries
  index := TxDb.index
  exec_writes := exec_writes
  exec_unique := exec_unique
  inserts_eq s := by cases s <;> simp [Stmt.inserts,Stmt.writes,Write.entries,Transaction.uniqueKeys]
  index_apply := index_apply

/-- The event as it was created. -/
def OutboxEvent.created (e : OutboxEvent) : OutboxEvent := {e with processed := false}

theorem OutboxEvent.fields_of_created {e e' : OutboxEvent} (h : e'.created = e.created) :
    e'.id = e.id ∧ e'.transactionId = e.transactionId ∧ e'.topic = e.topic ∧
      e'.payload = e.payload := by
  simpa only [created,mk.injEq,and_true] using h

/-- The event is stored, whether or not it has been published. -/
def TxDb.Stores (db : TxDb) (e : OutboxEvent) : Prop :=
  ∃ e' ∈ db.outboxEvents, e'.created = e.created

/-- What a session knows of an answer until its transaction ends. -/
def Known (db : TxDb) (own : Uuid → Prop) (before : List Write) : (s : Stmt) → Res s → Prop
  | .selectPaymentForUpdate providerPaymentId, (rows : List Transaction) => before = [] →
    ∀ t ∈ rows, t ∈ db.transactions ∧ t.providerPaymentId = some providerPaymentId ∧ own t.id
  | .selectTransactionsForUpdate ids, (rows : List Transaction) => ∀ t ∈ rows, t.id ∈ ids
  | .findUniqueOutboxEvent id, (event : Option OutboxEvent) =>
    (∀ e, .insertOutboxEvent e ∉ before) → ∀ e, event = some e → db.Stores e ∧ e.id = id
  | _, _ => True

section Known
variable {db : TxDb} {own : Uuid → Prop} {before : List Write}

theorem outboxEvents_applyAll_of_not_mem {ws : List Write} (h : ∀ e, .insertOutboxEvent e ∉ ws) :
    (server.applyAll db ws).outboxEvents = db.outboxEvents := by
  induction ws generalizing db with
  | nil => rfl
  | cons w ws ih =>
    rw [Engine.applyAll_cons,ih (fun e he => h e (List.mem_cons_of_mem _ he))]
    cases w with
    | insertOutboxEvent e => exact absurd List.mem_cons_self (h e)
    | _ => rfl

theorem TxDb.Stores.applyAll {e : OutboxEvent} (h : db.Stores e) (ws : List Write) :
    TxDb.Stores (server.applyAll db ws) e := by
  induction ws generalizing db with
  | nil => exact h
  | cons w ws ih =>
    obtain ⟨e',he,heq⟩ := h
    refine ih ⟨e',?_,heq⟩
    cases w with
    | insertOutboxEvent data => exact List.mem_append_left _ he
    | _ => exact he

/-- Rows stay. -/
theorem isSome_transaction_applyAll {id : Uuid} (h : (db.transaction id).isSome) (ws : List Write) :
    (TxDb.transaction (server.applyAll db ws) id).isSome := by
  induction ws generalizing db with
  | nil => exact h
  | cons w ws ih =>
    refine ih ?_
    cases w with
    | insertTransaction data =>
      rw [server_apply,TransactionCall.transaction_insertTransaction,Option.isSome_or,h,
        Bool.true_or]
    | _ => rwa [server_apply,RetryCall.transaction_isSome_congr (RetryCall.map_id_apply (by simp))]

/-- A row that no write concerns. -/
theorem mem_applyAll_of_not_rows {t : Transaction} (ht : t ∈ db.transactions) {ws : List Write}
    (h : t.id ∉ ws.flatMap Write.rows) : t ∈ (server.applyAll db ws).transactions := by
  induction ws generalizing db with
  | nil => exact ht
  | cons w ws ih =>
    rw [List.flatMap_cons,List.mem_append,not_or] at h
    refine ih ?_ h.2
    cases w with
    | insertTransaction data => exact List.mem_append_left _ ht
    | setStatus ids status =>
      exact List.mem_map.mpr ⟨t,ht,if_neg (by simpa [Write.rows] using h.1)⟩
    | addRetryCount ids =>
      exact List.mem_map.mpr ⟨t,ht,if_neg (by simpa [Write.rows] using h.1)⟩
    | insertOutboxEvent data => exact ht
    | insertProcessedEvent data => exact ht

/-- What is known stays true while the owned rows are not written. -/
theorem Known.mono {db' : TxDb} {own' : Uuid → Prop} {s : Stmt} {r : Res s}
    (h : Known db own before s r) (hrows : ∀ t ∈ db.transactions, own t.id →
      t ∈ db'.transactions ∧ own' t.id) (hevents : ∀ e, db.Stores e → db'.Stores e) :
    Known db' own' before s r := by
  cases s with
  | selectPaymentForUpdate providerPaymentId =>
    intro hb t ht
    obtain ⟨hmem,hp,ho⟩ := h hb t ht
    exact ⟨(hrows t hmem ho).1,hp,(hrows t hmem ho).2⟩
  | findUniqueOutboxEvent id => exact fun hb e he => ⟨hevents e (h hb e he).1,(h hb e he).2⟩
  | _ => exact h

theorem known_stable : footprint.Stable Known where
  owner ho h := h.mono (fun t ht hown => ⟨ht,ho _ hown⟩) (fun _ => id)
  frame hvs h := h.mono
    (fun t ht hown => ⟨mem_applyAll_of_not_rows ht (fun hm => hvs _ hm hown),hown⟩)
    (fun e he => he.applyAll _)
  answer := by
    intro db own ws s r vs he hrows
    cases s with
    | selectPaymentForUpdate providerPaymentId =>
      intro hb t ht
      subst hb
      cases he
      have hpay : t ∈ db.transactions ∧ t.providerPaymentId = some providerPaymentId := by
        simpa [TxDb.ofPayment] using ht
      exact ⟨hpay.1,hpay.2,hrows _ (List.mem_map_of_mem ht)⟩
    | selectTransactionsForUpdate ids =>
      intro t ht
      cases he
      simpa using (List.mem_filter.mp ht).2
    | findUniqueOutboxEvent id =>
      intro hb e hr
      cases he
      have hfind : db.outboxEvents.find? (fun e => e.id = id) = some e := by
        rw [← outboxEvents_applyAll_of_not_mem hb]
        exact hr
      exact ⟨⟨e,List.mem_of_find?_eq_some hfind,rfl⟩,by simpa using List.find?_some hfind⟩
    | _ => trivial

end Known

namespace TransactionCall

def body : TransactionCall → Tx Stmt Res Unit
  | .create n => (TransactionService.create n.data).ignore
  | .createTransfer n => (TransactionService.createTransfer n.fromAccountId n.toAccountId n.amount
      n.currency n.idempotencyKey n.outId n.inId n.eventId).ignore
  | .setStatusCompleted providerPaymentId eventId =>
    (setStatusCompletedAndCreateOutboxEvent providerPaymentId eventId).ignore
  | .setStatusTimeout providerPaymentId =>
    (TransactionService.setStatusTimeout providerPaymentId).ignore
  | .setStatusUpdated idempotencyKey transactionId processedId =>
    (setStatusUpdatedAndCreateProcessedEvent idempotencyKey transactionId processedId).ignore
  | .setStatusUpdatedByIds idempotencyKey outId inId processedId =>
    (setStatusUpdatedByIdsAndCreateProcessedEvent idempotencyKey outId inId processedId).ignore
  | .recreate c ids => (c.body ids).ignore

/-- What a call can commit on this database while others run. -/
inductive Lands (db : TxDb) : TransactionCall → List Write → Prop
  | nothing {c} : Lands db c []
  | created {n} : Lands db (.create n) [.insertTransaction n.data]
  | createdTransfer {n} : Lands db (.createTransfer n)
      [.insertTransaction n.txOut,.insertTransaction n.txIn,.insertOutboxEvent n.event]
  | completed {providerPaymentId eventId t} (ht : t ∈ db.transactions)
      (hp : t.providerPaymentId = some providerPaymentId) (hs : t.status = .pending) :
      Lands db (.setStatusCompleted providerPaymentId eventId)
        [.setStatus [t.id] .completed,.insertOutboxEvent (t.paidEvent eventId)]
  | timedOut {providerPaymentId t} (ht : t ∈ db.transactions)
      (hp : t.providerPaymentId = some providerPaymentId) (hs : t.status = .pending) :
      Lands db (.setStatusTimeout providerPaymentId) [.setStatus [t.id] .timeout]
  | updated {idempotencyKey transactionId processedId} :
      Lands db (.setStatusUpdated idempotencyKey transactionId processedId)
        [.setStatus [transactionId] .balanceUpdated,
          .insertProcessedEvent ⟨processedId,idempotencyKey,.depositCreditingSuccess⟩]
  | updatedByIds {idempotencyKey outId inId processedId} :
      Lands db (.setStatusUpdatedByIds idempotencyKey outId inId processedId)
        [.setStatus [outId] .balanceUpdated,.setStatus [inId] .balanceUpdated,
          .insertProcessedEvent ⟨processedId,idempotencyKey,.tranferSuccess⟩]
  | copied {c : RetryCall} {ids event} (hevent : db.Stores event) :
      Lands db (.recreate c ids) (c.copyWrites ids event)
  | failed {c : RetryCall} {ids} : Lands db (.recreate c ids) c.failWrites

section Paths
variable {db : TxDb} {own : Uuid → Prop} {answered : List ((s : Stmt) × Res s)}

/-- The writes of the statements that were answered. -/
def written (answered : List ((s : Stmt) × Res s)) : List Write := answered.flatMap (·.1.writes)

theorem create_path {n : NewDeposit} {x : Uuid}
    (hp : (TransactionService.create n.data).Path answered (.pure x)) :
    Lands db (.create n) (written answered) := by
  rw [create_eq] at hp
  obtain ⟨(existing : Option Transaction),rest,rfl,h1⟩ := hp.exec_pure
  cases existing with
  | some existing =>
    obtain ⟨rfl,-⟩ := h1.cases_pure
    exact .nothing
  | none =>
    obtain ⟨created,rest,rfl,h2⟩ := h1.exec_pure
    obtain ⟨rfl,-⟩ := h2.cases_pure
    exact .created

theorem createTransfer_path {n : NewTransfer} {x : Transaction}
    (hp : (TransactionService.createTransfer n.fromAccountId n.toAccountId n.amount n.currency
      n.idempotencyKey n.outId n.inId n.eventId).Path answered (.pure x)) :
    Lands db (.createTransfer n) (written answered) := by
  rw [createTransfer_eq] at hp
  obtain ⟨(existingTx : Option Transaction),rest,rfl,h1⟩ := hp.exec_pure
  cases existingTx with
  | some existingTx =>
    obtain ⟨rfl,-⟩ := h1.cases_pure
    exact .nothing
  | none =>
    obtain ⟨txOut,rest,rfl,h2⟩ := h1.exec_pure
    obtain ⟨txIn,rest,rfl,h3⟩ := h2.exec_pure
    obtain ⟨event,rest,rfl,h4⟩ := h3.exec_pure
    obtain ⟨rfl,-⟩ := h4.cases_pure
    exact .createdTransfer

/-- A call about a payment goes on with a stored row of the payment, which it found pending. -/
theorem selected_path {ρ : Type} {providerPaymentId : String} {x : ρ}
    {selected : Option Transaction → Tx Stmt Res ρ} {rest : Transaction → Tx Stmt Res ρ}
    (hnone : ∃ e, selected none = .throw e)
    (hsome : ∀ t, ∃ e, selected (some t) = if t.status ≠ .pending then .throw e else rest t)
    (hp : (Tx.exec (.selectPaymentForUpdate providerPaymentId)
      (fun (rows : List Transaction) => selected rows.head?)).Path answered (.pure x))
    (hk : Answered Stmt.writes (Known db own) [] answered) :
    ∃ rows t later, answered = ⟨.selectPaymentForUpdate providerPaymentId,rows⟩::later ∧
      t ∈ db.transactions ∧ t.providerPaymentId = some providerPaymentId ∧ t.status = .pending ∧
      (rest t).Path later (.pure x) := by
  obtain ⟨(rows : List Transaction),later,rfl,h1⟩ := hp.exec_pure
  cases hrow : rows.head? with
  | none =>
    obtain ⟨e,he⟩ := hnone
    rw [hrow,he] at h1
    exact absurd h1 Tx.Path.not_throw
  | some t =>
    obtain ⟨e,he⟩ := hsome t
    rw [hrow,he] at h1
    obtain ⟨ht,hpay,-⟩ := hk.1 rfl t (List.mem_of_mem_head? hrow)
    split at h1
    · exact absurd h1 Tx.Path.not_throw
    · rename_i hs
      exact ⟨rows,t,later,rfl,ht,hpay,not_not.mp hs,h1⟩

theorem setStatusCompleted_path {providerPaymentId : String} {eventId : Uuid} {x : StatusChange}
    (hp : (setStatusCompletedAndCreateOutboxEvent providerPaymentId eventId).Path answered (.pure x))
    (hk : Answered Stmt.writes (Known db own) [] answered) :
    Lands db (.setStatusCompleted providerPaymentId eventId) (written answered) := by
  rw [setStatusCompleted_eq] at hp
  obtain ⟨rows,t,rest,rfl,ht,hpay,hs,h1⟩ := selected_path ⟨_,rfl⟩ (fun t => ⟨_,rfl⟩) hp hk
  obtain ⟨_,rest,rfl,h2⟩ := h1.exec_pure
  obtain ⟨_,rest,rfl,h3⟩ := h2.exec_pure
  obtain ⟨rfl,-⟩ := h3.cases_pure
  exact .completed ht hpay hs

theorem setStatusTimeout_path {providerPaymentId : String} {x : StatusChange}
    (hp : (TransactionService.setStatusTimeout providerPaymentId).Path answered (.pure x))
    (hk : Answered Stmt.writes (Known db own) [] answered) :
    Lands db (.setStatusTimeout providerPaymentId) (written answered) := by
  rw [setStatusTimeout_eq] at hp
  obtain ⟨rows,t,rest,rfl,ht,hpay,hs,h1⟩ := selected_path ⟨_,rfl⟩ (fun t => ⟨_,rfl⟩) hp hk
  obtain ⟨_,rest,rfl,h2⟩ := h1.exec_pure
  obtain ⟨rfl,-⟩ := h2.cases_pure
  exact .timedOut ht hpay hs

theorem setStatusUpdated_path {idempotencyKey transactionId processedId : Uuid} {x : Unit}
    (hp : (setStatusUpdatedAndCreateProcessedEvent idempotencyKey transactionId processedId).Path
      answered (.pure x)) (hk : Answered Stmt.writes (Known db own) [] answered) :
    Lands db (.setStatusUpdated idempotencyKey transactionId processedId) (written answered) := by
  rw [setStatusUpdated_eq] at hp
  obtain ⟨(alreadyExist : Option ProcessedEvent),rest,rfl,h1⟩ := hp.exec_pure
  cases alreadyExist with
  | some e =>
    obtain ⟨rfl,-⟩ := h1.cases_pure
    exact .nothing
  | none =>
    obtain ⟨(rows : List Transaction),rest,rfl,h2⟩ := h1.exec_pure
    cases hrow : rows.head? with
    | none =>
      rw [hrow] at h2
      exact absurd h2 Tx.Path.not_throw
    | some t =>
      rw [hrow,updatedSelected] at h2
      have hid : t.id ∈ [transactionId] := hk.2.1 t (List.mem_of_mem_head? hrow)
      rw [List.mem_singleton] at hid
      split at h2
      · exact absurd h2 Tx.Path.not_throw
      · obtain ⟨_,rest,rfl,h3⟩ := h2.exec_pure
        obtain ⟨_,rest,rfl,h4⟩ := h3.exec_pure
        obtain ⟨rfl,-⟩ := h4.cases_pure
        rw [← hid]
        exact .updated

theorem setStatusUpdatedByIds_path {idempotencyKey outId inId processedId : Uuid} {x : Unit}
    (hp : (setStatusUpdatedByIdsAndCreateProcessedEvent idempotencyKey outId inId processedId).Path
      answered (.pure x)) :
    Lands db (.setStatusUpdatedByIds idempotencyKey outId inId processedId) (written answered) := by
  rw [setStatusUpdatedByIds_eq] at hp
  obtain ⟨(alreadyExist : Option ProcessedEvent),rest,rfl,h1⟩ := hp.exec_pure
  cases alreadyExist with
  | some e =>
    obtain ⟨rfl,-⟩ := h1.cases_pure
    exact .nothing
  | none =>
    obtain ⟨(rows : List Transaction),rest,rfl,h2⟩ := h1.exec_pure
    rw [byIdsSelected] at h2
    split at h2
    · exact absurd h2 Tx.Path.not_throw
    · obtain ⟨_,rest,rfl,h3⟩ := h2.exec_pure
      obtain ⟨_,rest,rfl,h4⟩ := h3.exec_pure
      obtain ⟨_,rest,rfl,h5⟩ := h4.exec_pure
      obtain ⟨rfl,-⟩ := h5.cases_pure
      exact .updatedByIds

section Retry
variable {Fact : List Write → (s : Stmt) → Res s → Prop} {c : RetryCall} {ids : RetryIds} {x : Bool}

/-- The update of the count was answered with this number. -/
def Raised (Fact : List Write → (s : Stmt) → Res s → Prop) : RetryTarget → ℕ → Prop
  | .deposit transactionId, retryCount => Fact [] (.updateRetryCount transactionId) retryCount
  | .transfer outId inId, retryCount =>
    ∃ counts, Fact [] (.updateManyRetryCount [outId,inId]) (retryCount::counts)

/-- The rest of a retry, once it has raised the count. -/
theorem retryUpdated_path {retryCount : ℕ}
    (hp : (c.retryUpdated ids retryCount).Path answered (.pure x))
    (hk : Answered Stmt.writes Fact [.addRetryCount c.target.ids] answered) :
    (retryCount < c.maxRetry ∧ ∃ event,
      Fact [.addRetryCount c.target.ids] (.findUniqueOutboxEvent c.eventId) (some event) ∧
      .addRetryCount c.target.ids::written answered = c.copyWrites ids event) ∨
    .addRetryCount c.target.ids::written answered = c.failWrites := by
  rw [RetryCall.retryUpdated] at hp
  split at hp
  · rename_i hlimit
    obtain ⟨(event : Option OutboxEvent),rest,rfl,h1⟩ := hp.exec_pure
    cases event with
    | none => exact absurd h1 Tx.Path.not_throw
    | some event =>
      rw [RetryCall.retryFound] at h1
      split at h1
      · exact absurd h1 Tx.Path.not_throw
      · obtain ⟨_,rest,rfl,h2⟩ := h1.exec_pure
        obtain ⟨_,rest,rfl,h3⟩ := h2.exec_pure
        obtain ⟨rfl,-⟩ := h3.cases_pure
        exact .inl ⟨hlimit,event,hk.1,rfl⟩
  · rw [RetryCall.retryExhausted] at hp
    obtain ⟨target,idempotencyKey,eventId,maxRetry,processedTopic⟩ := c
    cases target with
    | deposit transactionId =>
      obtain ⟨_,rest,rfl,h1⟩ := hp.exec_pure
      obtain ⟨rfl,-⟩ := h1.cases_pure
      exact .inr rfl
    | transfer outId inId =>
      obtain ⟨_,rest,rfl,h1⟩ := hp.exec_pure
      obtain ⟨rfl,-⟩ := h1.cases_pure
      exact .inr rfl

/-- A retry writes nothing, or it has raised the count and copies the event below the limit, or it
fails the transaction. -/
theorem recreate_written (hp : (c.body ids).Path answered (.pure x))
    (hk : Answered Stmt.writes Fact [] answered) : written answered = [] ∨
    ∃ retryCount, Raised Fact c.target retryCount ∧ ((retryCount < c.maxRetry ∧ ∃ event,
      Fact [.addRetryCount c.target.ids] (.findUniqueOutboxEvent c.eventId) (some event) ∧
      written answered = c.copyWrites ids event) ∨ written answered = c.failWrites) := by
  rw [RetryCall.body_eq] at hp
  obtain ⟨(alreadyExist : Option ProcessedEvent),rest,rfl,h1⟩ := hp.exec_pure
  cases alreadyExist with
  | some e =>
    obtain ⟨rfl,-⟩ := h1.cases_pure
    exact .inl rfl
  | none =>
    obtain ⟨target,idempotencyKey,eventId,maxRetry,processedTopic⟩ := c
    cases target with
    | deposit transactionId =>
      obtain ⟨transaction,rest,rfl,h2⟩ := h1.exec_pure
      rw [RetryCall.retryExists] at h2
      split at h2
      · obtain ⟨retryCount,rest,rfl,h3⟩ := h2.exec_pure
        exact .inr ⟨retryCount,hk.2.2.1,retryUpdated_path h3 hk.2.2.2⟩
      · exact absurd h2 Tx.Path.not_throw
    | transfer outId inId =>
      obtain ⟨txs,rest,rfl,h2⟩ := h1.exec_pure
      rw [RetryCall.retryExists] at h2
      split at h2
      · obtain ⟨(updated : List ℕ),rest,rfl,h3⟩ := h2.exec_pure
        cases updated with
        | nil => exact absurd h3 Tx.Path.not_throw
        | cons retryCount counts =>
          exact .inr ⟨retryCount,⟨counts,hk.2.2.1⟩,retryUpdated_path h3 hk.2.2.2⟩
      · exact absurd h2 Tx.Path.not_throw

theorem recreate_path (hp : (c.body ids).Path answered (.pure x))
    (hk : Answered Stmt.writes (Known db own) [] answered) :
    Lands db (.recreate c ids) (written answered) := by
  rcases recreate_written hp hk with hnone | ⟨_,-,⟨-,event,hfound,hcopy⟩ | hfail⟩
  · rw [hnone]
    exact .nothing
  · rw [hcopy]
    exact .copied (hfound (by simp) event rfl).1
  · rw [hfail]
    exact .failed

end Retry

/-- What a call has written when it comes to its `COMMIT`. -/
theorem lands_of_path {c : TransactionCall} (hp : c.body.Path answered (.pure ()))
    (hk : Answered Stmt.writes (Known db own) [] answered) : c.Lands db (written answered) := by
  have hend : ∀ {ρ : Type} {p : Tx Stmt Res ρ}, p.ignore.Path answered (.pure ()) →
      ∃ x, p.Path answered (.pure x) := by
    intro ρ p h
    obtain ⟨q,hq,hpath⟩ := h.of_ignore
    obtain ⟨x,rfl⟩ := Tx.pure_of_ignore hq.symm
    exact ⟨x,hpath⟩
  cases c with
  | create n =>
    obtain ⟨x,hx⟩ := hend hp
    exact create_path hx
  | createTransfer n =>
    obtain ⟨x,hx⟩ := hend hp
    exact createTransfer_path hx
  | setStatusCompleted providerPaymentId eventId =>
    obtain ⟨x,hx⟩ := hend hp
    exact setStatusCompleted_path hx hk
  | setStatusTimeout providerPaymentId =>
    obtain ⟨x,hx⟩ := hend hp
    exact setStatusTimeout_path hx hk
  | setStatusUpdated idempotencyKey transactionId processedId =>
    obtain ⟨x,hx⟩ := hend hp
    exact setStatusUpdated_path hx hk
  | setStatusUpdatedByIds idempotencyKey outId inId processedId =>
    obtain ⟨x,hx⟩ := hend hp
    exact setStatusUpdatedByIds_path hx
  | recreate c ids =>
    obtain ⟨x,hx⟩ := hend hp
    exact recreate_path hx hk

end Paths
end TransactionCall

/-- The rows of an update that answers without them too. -/
def Stmt.many : Stmt → List Uuid
  | .updateManyStatus ids _ => ids
  | .updateManyRetryCount ids => ids
  | _ => []

/-- A statement changes only rows that it locks, when none of them is missing. -/
theorem exec_covers {db : TxDb} {s : Stmt} {r : Res s} {ws : List Write}
    (h : s.exec db = .ok (r,ws)) (hmany : ∀ id ∈ s.many, (db.transaction id).isSome) :
    ∀ q ∈ s.writes.flatMap Write.rows, q ∈ s.rows db := by
  have hrows : ∀ (ids : List Uuid) (q : Uuid), q ∈ ids → (db.transaction q).isSome →
      q ∈ (db.ofIds ids).map (·.id) := by
    intro ids q hq hs
    obtain ⟨t,ht,rfl⟩ := TransactionCall.isSome_transaction.mp hs
    exact List.mem_map_of_mem (List.mem_filter.mpr ⟨ht,by simpa using hq⟩)
  intro q hq
  cases s with
  | updateStatus id status =>
    have hid : q = id := by simpa [Stmt.writes,Write.rows] using hq
    subst hid
    refine hrows [q] q (by simp) ?_
    by_contra hnone
    simp [Stmt.exec,hnone] at h
  | updateManyStatus ids status =>
    have hid : q ∈ ids := by simpa [Stmt.writes,Write.rows] using hq
    exact hrows ids q hid (hmany q hid)
  | updateRetryCount id =>
    have hid : q = id := by simpa [Stmt.writes,Write.rows] using hq
    subst hid
    refine hrows [q] q (by simp) ?_
    by_contra hnone
    simp [Stmt.exec,Option.not_isSome_iff_eq_none.mp hnone] at h
  | updateManyRetryCount ids =>
    have hid : q ∈ ids := by simpa [Stmt.writes,Write.rows] using hq
    exact hrows ids q hid (hmany q hid)
  | _ => simp [Stmt.writes,Write.rows] at hq

/-- The rows that a call updates without a look at each of them. -/
def TransactionCall.many : TransactionCall → List Uuid
  | .recreate c _ => match c.target with
    | .deposit _ => []
    | .transfer outId inId => [outId,inId]
  | _ => []

namespace TransactionCall
section Many
variable (ids : RetryIds)

theorem create_every (data : Transaction) :
    (TransactionService.create data).Every (fun s => s.many = []) := by
  rw [create_eq]
  refine ⟨rfl,fun (existing : Option Transaction) => ?_⟩
  cases existing with
  | some existing => trivial
  | none => exact ⟨rfl,fun _ => trivial⟩

theorem createTransfer_every (n : NewTransfer) :
    (TransactionService.createTransfer n.fromAccountId n.toAccountId n.amount n.currency
      n.idempotencyKey n.outId n.inId n.eventId).Every (fun s => s.many = []) := by
  rw [createTransfer_eq]
  refine ⟨rfl,fun (existingTx : Option Transaction) => ?_⟩
  cases existingTx with
  | some existingTx => trivial
  | none => exact ⟨rfl,fun _ => ⟨rfl,fun _ => ⟨rfl,fun _ => trivial⟩⟩⟩

theorem setStatusCompleted_every (providerPaymentId : String) (eventId : Uuid) :
    (setStatusCompletedAndCreateOutboxEvent providerPaymentId eventId).Every
      (fun s => s.many = []) := by
  rw [setStatusCompleted_eq]
  refine ⟨rfl,fun (rows : List Transaction) => ?_⟩
  cases rows with
  | nil => trivial
  | cons t rows =>
    simp only [List.head?_cons,completedSelected]
    split
    · trivial
    · exact ⟨rfl,fun _ => ⟨rfl,fun _ => trivial⟩⟩

theorem setStatusTimeout_every (providerPaymentId : String) :
    (TransactionService.setStatusTimeout providerPaymentId).Every (fun s => s.many = []) := by
  rw [setStatusTimeout_eq]
  refine ⟨rfl,fun (rows : List Transaction) => ?_⟩
  cases rows with
  | nil => trivial
  | cons t rows =>
    simp only [List.head?_cons,timeoutSelected]
    split
    · trivial
    · exact ⟨rfl,fun _ => trivial⟩

theorem setStatusUpdated_every (idempotencyKey transactionId processedId : Uuid) :
    (setStatusUpdatedAndCreateProcessedEvent idempotencyKey transactionId processedId).Every
      (fun s => s.many = []) := by
  rw [setStatusUpdated_eq]
  refine ⟨rfl,fun (alreadyExist : Option ProcessedEvent) => ?_⟩
  cases alreadyExist with
  | some e => trivial
  | none =>
    refine ⟨rfl,fun (rows : List Transaction) => ?_⟩
    cases rows with
    | nil => trivial
    | cons t rows =>
      simp only [List.head?_cons,updatedSelected]
      split
      · trivial
      · exact ⟨rfl,fun _ => ⟨rfl,fun _ => trivial⟩⟩

theorem setStatusUpdatedByIds_every (idempotencyKey outId inId processedId : Uuid) :
    (setStatusUpdatedByIdsAndCreateProcessedEvent idempotencyKey outId inId processedId).Every
      (fun s => s.many = []) := by
  rw [setStatusUpdatedByIds_eq]
  refine ⟨rfl,fun (alreadyExist : Option ProcessedEvent) => ?_⟩
  cases alreadyExist with
  | some e => trivial
  | none =>
    refine ⟨rfl,fun (rows : List Transaction) => ?_⟩
    rw [byIdsSelected]
    split
    · trivial
    · exact ⟨rfl,fun _ => ⟨rfl,fun _ => ⟨rfl,fun _ => trivial⟩⟩⟩

variable (c : RetryCall)

theorem retryUpdated_every (retryCount : ℕ) : (c.retryUpdated ids retryCount).Every
    (fun s => ∀ id ∈ s.many, id ∈ (TransactionCall.recreate c ids).many) := by
  rw [RetryCall.retryUpdated]
  split
  · refine ⟨by simp [Stmt.many],fun (event : Option OutboxEvent) => ?_⟩
    cases event with
    | none => trivial
    | some event =>
      simp only [RetryCall.retryFound]
      split
      · trivial
      · exact ⟨by simp [Stmt.many],fun _ => ⟨by simp [Stmt.many],fun _ => trivial⟩⟩
  · rw [RetryCall.retryExhausted]
    obtain ⟨target,idempotencyKey,eventId,maxRetry,processedTopic⟩ := c
    cases target with
    | deposit transactionId => exact ⟨by simp [Stmt.many],fun _ => trivial⟩
    | transfer outId inId =>
      exact ⟨by simp [Stmt.many,TransactionCall.many],fun _ => trivial⟩

theorem recreate_every : (c.body ids).Every
    (fun s => ∀ id ∈ s.many, id ∈ (TransactionCall.recreate c ids).many) := by
  rw [RetryCall.body_eq]
  refine ⟨by simp [Stmt.many],fun (alreadyExist : Option ProcessedEvent) => ?_⟩
  cases alreadyExist with
  | some e => trivial
  | none =>
    obtain ⟨target,idempotencyKey,eventId,maxRetry,processedTopic⟩ := c
    cases target with
    | deposit transactionId =>
      refine ⟨by simp [Stmt.many],fun transaction => ?_⟩
      simp only [RetryCall.retryExists]
      split
      · exact ⟨by simp [Stmt.many],fun retryCount => retryUpdated_every ids _ retryCount⟩
      · trivial
    | transfer outId inId =>
      refine ⟨by simp [Stmt.many],fun txs => ?_⟩
      simp only [RetryCall.retryExists]
      split
      · refine ⟨by simp [Stmt.many,TransactionCall.many],fun (updated : List ℕ) => ?_⟩
        cases updated with
        | nil => trivial
        | cons retryCount counts => exact retryUpdated_every ids _ retryCount
      · trivial

end Many

theorem body_every (c : TransactionCall) :
    c.body.Every (fun s => ∀ id ∈ s.many, id ∈ c.many) := by
  have hnone : ∀ s : Stmt, s.many = [] → ∀ id ∈ s.many, id ∈ c.many := by
    intro s hs id hid
    rw [hs] at hid
    contradiction
  cases c with
  | create n => exact ((create_every n.data).mono hnone).ignore
  | createTransfer n => exact ((createTransfer_every n).mono hnone).ignore
  | setStatusCompleted providerPaymentId eventId =>
    exact ((setStatusCompleted_every providerPaymentId eventId).mono hnone).ignore
  | setStatusTimeout providerPaymentId =>
    exact ((setStatusTimeout_every providerPaymentId).mono hnone).ignore
  | setStatusUpdated idempotencyKey transactionId processedId =>
    exact ((setStatusUpdated_every idempotencyKey transactionId processedId).mono hnone).ignore
  | setStatusUpdatedByIds idempotencyKey outId inId processedId =>
    exact ((setStatusUpdatedByIds_every idempotencyKey outId inId processedId).mono hnone).ignore
  | recreate c ids => exact (recreate_every ids c).ignore

end TransactionCall
end NestHomework.TransactionService
