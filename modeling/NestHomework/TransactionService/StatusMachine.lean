import NestHomework.TransactionService.Commits
import NestHomework.Transition.Run

/-! The status machine of a transaction. Two calls write a status without looking at the one that
is there, so a late message can leave the machine. -/
namespace NestHomework.TransactionService
open Contracts Postgres

/-- The changes of status that the machine has. The last three states are final. -/
def TransactionType.allows : TransactionType → TransactionStatus → TransactionStatus → Bool
  | .deposit, .pending, .completed => true
  | .deposit, .pending, .timeout => true
  | .deposit, .completed, .balanceUpdated => true
  | .deposit, .completed, .failed => true
  | .transferIn, .pending, .balanceUpdated => true
  | .transferIn, .pending, .failed => true
  | .transferOut, .pending, .balanceUpdated => true
  | .transferOut, .pending, .failed => true
  | _, _, _ => false

/-- Type and status of a transaction. -/
def TxDb.phase (db : TxDb) (id : Uuid) : Option (TransactionType × TransactionStatus) :=
  (db.transaction id).map (fun t => (t.type,t.status))

/-- Each transaction is still there, and its status is the same or a next one. -/
def Obeys (db db' : TxDb) : Prop :=
  ∀ id type status, db.phase id = some (type,status) →
    ∃ status', db'.phase id = some (type,status') ∧ (status' = status ∨ type.allows status status')

/-- The transaction awaits the outcome of its money message. -/
def Transaction.awaiting (t : Transaction) : Bool :=
  match t.type with
  | .deposit => t.status = .completed
  | .transferIn => t.status = .pending
  | .transferOut => t.status = .pending
  | .withdrawal => false

/-- A call that writes a status without looking at it meets only rows that await the outcome, or
that have it already. -/
def TransactionCall.Timely (db : TxDb) : TransactionCall → Prop
  | .recreate c _ => db.processed c.idempotencyKey = none → c.target.present db →
      c.maxRetry ≤ c.target.retryCount db+1 →
      ∀ t ∈ db.ofIds c.target.ids, t.awaiting ∨ t.status = .failed
  | .setStatusUpdatedByIds idempotencyKey outId inId _ => db.processed idempotencyKey = none →
      (db.transaction outId).isSome → (db.transaction inId).isSome →
      ∀ t ∈ db.ofIds [outId,inId], t.awaiting ∨ t.status = .balanceUpdated
  | _ => True

/-- A call, and where it is cut off. -/
structure TransactionStep where
  call : TransactionCall
  fault : Option ℕ
  deriving DecidableEq, Repr

def TransactionStep.next (db : TxDb) (a : TransactionStep) : Option TxDb :=
  some (a.call.after a.fault db)

/-- What holds of the rows after any calls. -/
structure TxDb.Sound (db : TxDb) : Prop where
  ids : (db.transactions.map (·.id)).Nodup
  paid : ∀ t ∈ db.transactions, t.providerPaymentId.isSome → t.type = .deposit
  completed : ∀ t ∈ db.transactions, t.status = .completed → t.type = .deposit

section Phase
variable {db : TxDb} {ids : List Uuid} {status : TransactionStatus} {t : Transaction} {id : Uuid}

theorem TxDb.Sound.transaction_iff (h : db.Sound) :
    db.transaction id = some t ↔ t ∈ db.transactions ∧ t.id = id :=
  find?_key_iff h.ids

theorem TxDb.Sound.phase_eq (h : db.Sound) (ht : t ∈ db.transactions) :
    db.phase t.id = some (t.type,t.status) := by
  rw [TxDb.phase,h.transaction_iff.mpr ⟨ht,rfl⟩]
  rfl

/-- An update that keeps the ids, seen from one row. -/
theorem transaction_update {f : Transaction → Transaction} (hf : ∀ t, (f t).id = t.id) :
    ({db with transactions := db.transactions.map (fun t => if ids.contains t.id then f t else t)} :
      TxDb).transaction id = (db.transaction id).map (fun t => if ids.contains id then f t else t) := by
  unfold TxDb.transaction
  rw [@find?_map_key _ _ _ Transaction.id _ _ _ (by intro t; split <;> simp [hf])]
  refine Option.map_congr (fun t ht => ?_)
  rw [(TransactionCall.transaction_mem ht).2]

theorem transaction_setStatus : ((Write.setStatus ids status).apply db).transaction id =
    (db.transaction id).map (fun t => if ids.contains id then {t with status := status} else t) :=
  transaction_update (fun _ => rfl)

theorem transaction_addRetryCount : ((Write.addRetryCount ids).apply db).transaction id =
    (db.transaction id).map
      (fun t => if ids.contains id then {t with retryCount := t.retryCount+1} else t) :=
  transaction_update (fun _ => rfl)

@[simp] theorem phase_setStatus : ((Write.setStatus ids status).apply db).phase id =
    (db.phase id).map (fun p => if ids.contains id then (p.1,status) else p) := by
  simp only [TxDb.phase,transaction_setStatus,Option.map_map]
  congr 1
  funext t
  simp only [Function.comp_apply]
  split <;> rfl

@[simp] theorem phase_addRetryCount : ((Write.addRetryCount ids).apply db).phase id =
    db.phase id := by
  simp only [TxDb.phase,transaction_addRetryCount,Option.map_map]
  congr 1
  funext t
  simp only [Function.comp_apply]
  split <;> rfl

@[simp] theorem phase_insertOutboxEvent (data : OutboxEvent) :
    ((Write.insertOutboxEvent data).apply db).phase id = db.phase id := rfl

@[simp] theorem phase_insertProcessedEvent (data : ProcessedEvent) :
    ((Write.insertProcessedEvent data).apply db).phase id = db.phase id := rfl

theorem phase_insertTransaction (data : Transaction) :
    ((Write.insertTransaction data).apply db).phase id =
      (db.phase id).or (if data.id = id then some (data.type,data.status) else none) := by
  rw [TxDb.phase,TransactionCall.transaction_insertTransaction,Option.map_or]
  split <;> rfl

/-- Nothing but new rows. -/
theorem Obeys.of_phase {db' : TxDb} (h : ∀ id p, db.phase id = some p → db'.phase id = some p) :
    Obeys db db' := fun id _ _ hp => ⟨_,h id _ hp,.inl rfl⟩

/-- The rows of an update without a condition may all take the new status. -/
theorem obeys_setStatus_iff (h : db.Sound) {db' : TxDb} (hphase : ∀ id, db'.phase id =
      (db.phase id).map (fun p => if ids.contains id then (p.1,status) else p)) :
    Obeys db db' ↔ ∀ t ∈ db.ofIds ids, status = t.status ∨ t.type.allows t.status status := by
  constructor
  · intro ho t ht
    simp only [TxDb.ofIds,List.mem_filter] at ht
    obtain ⟨status',hs,hnext⟩ := ho t.id t.type t.status (h.phase_eq ht.1)
    rw [hphase,h.phase_eq ht.1,Option.map_some,if_pos ht.2] at hs
    cases hs
    exact hnext
  · intro hall id type old hp
    rw [hphase,hp,Option.map_some]
    obtain ⟨t,ht,heq⟩ := Option.map_eq_some_iff.mp hp
    cases heq
    obtain ⟨hmem,rfl⟩ := TransactionCall.transaction_mem ht
    by_cases hid : ids.contains t.id
    · exact ⟨status,by rw [if_pos hid],hall t (by simp [TxDb.ofIds,hmem]; simpa using hid)⟩
    · exact ⟨t.status,by rw [if_neg hid],.inl rfl⟩

theorem allows_balanceUpdated (t : Transaction) :
    t.type.allows t.status .balanceUpdated = t.awaiting := by
  unfold Transaction.awaiting
  cases t.type <;> cases t.status <;> rfl

theorem allows_failed (t : Transaction) : t.type.allows t.status .failed = t.awaiting := by
  unfold Transaction.awaiting
  cases t.type <;> cases t.status <;> rfl

end Phase

section Sound
variable {db : TxDb} (h : db.Sound)
include h

/-- An update that changes no type and completes deposits only. -/
theorem TxDb.Sound.update {ids : List Uuid} {f : Transaction → Transaction}
    (hid : ∀ t, (f t).id = t.id) (htype : ∀ t, (f t).type = t.type)
    (hpaid : ∀ t, (f t).providerPaymentId = t.providerPaymentId)
    (hc : ∀ t ∈ db.ofIds ids, (f t).status = .completed → t.type = .deposit ∨ t.status = .completed) :
    ({db with transactions := db.transactions.map (fun t => if ids.contains t.id then f t else t)} :
      TxDb).Sound := by
  refine ⟨?_,?_,?_⟩
  · rw [map_id_update hid]
    exact h.ids
  · intro t ht hp
    obtain ⟨u,hu,rfl⟩ := List.mem_map.mp ht
    split at hp <;> split <;> simp_all [h.paid u hu]
  · intro t ht hst
    obtain ⟨u,hu,rfl⟩ := List.mem_map.mp ht
    split at hst <;> split
    · rename_i hmem _
      rw [htype]
      exact (hc u (List.mem_filter.mpr ⟨hu,hmem⟩) hst).elim id (h.completed u hu)
    · contradiction
    · contradiction
    · exact h.completed u hu hst

theorem TxDb.Sound.setStatus {ids : List Uuid} {status : TransactionStatus}
    (hc : status = .completed → ∀ t ∈ db.ofIds ids, t.type = .deposit) :
    ((Write.setStatus ids status).apply db).Sound :=
  h.update (fun _ => rfl) (fun _ => rfl) (fun _ => rfl) (fun t ht hst => .inl (hc hst t ht))

theorem TxDb.Sound.addRetryCount (ids : List Uuid) :
    ((Write.addRetryCount ids).apply db).Sound :=
  h.update (fun _ => rfl) (fun _ => rfl) (fun _ => rfl) (fun _ _ hst => .inr hst)

theorem TxDb.Sound.insertOutboxEvent (data : OutboxEvent) :
    ((Write.insertOutboxEvent data).apply db).Sound := ⟨h.ids,h.paid,h.completed⟩

theorem TxDb.Sound.insertProcessedEvent (data : ProcessedEvent) :
    ((Write.insertProcessedEvent data).apply db).Sound := ⟨h.ids,h.paid,h.completed⟩

theorem TxDb.Sound.insertTransaction {data : Transaction} (hnew : db.transaction data.id = none)
    (hp : data.providerPaymentId.isSome → data.type = .deposit) (hs : data.status = .pending) :
    ((Write.insertTransaction data).apply db).Sound := by
  have hid : ∀ t ∈ db.transactions, t.id ≠ data.id := by
    simpa [TxDb.transaction] using hnew
  refine ⟨?_,?_,?_⟩
  · simp only [Write.apply,List.map_append,List.map_cons,List.map_nil]
    refine List.Nodup.append h.ids (List.nodup_singleton _) (fun i hi hj => ?_)
    obtain ⟨t,ht,rfl⟩ := List.mem_map.mp hi
    exact hid t ht (List.mem_singleton.mp hj)
  · intro t ht
    rcases List.mem_append.mp ht with ht | ht
    · exact h.paid t ht
    · rw [List.mem_singleton.mp ht]
      exact hp
  · intro t ht
    rcases List.mem_append.mp ht with ht | ht
    · exact h.completed t ht
    · rw [List.mem_singleton.mp ht,hs]
      simp

theorem TxDb.Sound.eq_of_ofIds {t u : Transaction} (ht : t ∈ db.transactions)
    (hu : u ∈ db.ofIds [t.id]) : u = t := by
  simp only [TxDb.ofIds,List.mem_filter,List.contains_cons,List.contains_nil,Bool.or_false,
    beq_iff_eq] at hu
  exact List.inj_on_of_nodup_map h.ids hu.1 ht hu.2

theorem TxDb.Sound.effect {c : TransactionCall} {ws : List Write}
    (he : TransactionCall.Effect db c ws) : (server.applyAll db ws).Sound := by
  cases he with
  | nothing => exact h
  | created hid => exact h.insertTransaction hid (fun _ => rfl) rfl
  | @createdTransfer n hout hin hne =>
    have hfirst : ((Write.insertTransaction n.txOut).apply db).Sound :=
      h.insertTransaction hout (by simp [NewTransfer.txOut]) rfl
    have hsecond : ((Write.insertTransaction n.txIn).apply
        ((Write.insertTransaction n.txOut).apply db)).Sound := by
      refine hfirst.insertTransaction ?_ (by simp [NewTransfer.txIn]) rfl
      rw [TransactionCall.transaction_insertTransaction]
      simp [NewTransfer.txIn,NewTransfer.txOut,hin,hne]
    exact hsecond.insertOutboxEvent _
  | completed ht hp hs =>
    refine (h.setStatus (fun _ u hu => ?_)).insertOutboxEvent _
    rw [h.eq_of_ofIds ht hu]
    exact h.paid _ ht (by simp [hp])
  | timedOut ht hp hs => exact h.setStatus (by simp)
  | updated hnew ht hs => exact (h.setStatus (by simp)).insertProcessedEvent _
  | updatedByIds hnew hout hin =>
    exact ((h.setStatus (by simp)).setStatus (by simp)).insertProcessedEvent _
  | copied hnew hpres hlimit hevent hpay =>
    exact ((h.addRetryCount _).insertOutboxEvent _).insertProcessedEvent _
  | failed hnew hpres hlimit => exact (h.addRetryCount _).setStatus (by simp)

end Sound

section Step
variable {db : TxDb} (h : db.Sound) {c : TransactionCall} {fault : Option ℕ}

theorem Obeys.refl (db : TxDb) : Obeys db db := .of_phase fun _ _ => id

theorem obeys_insertTransaction {db' : TxDb} {data : Transaction} (h : Obeys db db') :
    Obeys db ((Write.insertTransaction data).apply db') := by
  intro id type status hp
  obtain ⟨status',hp',hnext⟩ := h id type status hp
  refine ⟨status',?_,hnext⟩
  rw [phase_insertTransaction,hp']
  rfl

/-- The phases after a retry without any retry left. -/
theorem phase_failWrites (c : RetryCall) (id : Uuid) :
    (server.applyAll db c.failWrites).phase id =
      (db.phase id).map (fun p => if c.target.ids.contains id then (p.1,.failed) else p) := by
  simp [RetryCall.failWrites]

theorem phase_updatedByIds {outId inId : Uuid} {record : ProcessedEvent} (id : Uuid) :
    (server.applyAll db [.setStatus [outId] .balanceUpdated,.setStatus [inId] .balanceUpdated,
        .insertProcessedEvent record]).phase id = (db.phase id).map
      (fun p => if [outId,inId].contains id then (p.1,.balanceUpdated) else p) := by
  simp only [Engine.applyAll_cons,Engine.applyAll_nil,server_apply,phase_insertProcessedEvent,
    phase_setStatus,Option.map_map]
  congr 1
  funext p
  by_cases hout : id = outId
  · simp [hout]
  · by_cases hin : id = inId
    · subst hin
      simp [hout]
    · simp [hout,hin]

include h

theorem obeys_of_one {t : Transaction} (ht : t ∈ db.transactions) {status : TransactionStatus}
    (hnext : t.type.allows t.status status) {db' : TxDb}
    (hphase : ∀ id, db'.phase id = ((Write.setStatus [t.id] status).apply db).phase id) :
    Obeys db db' := by
  refine (obeys_setStatus_iff h (fun id => (hphase id).trans phase_setStatus)).mpr ?_
  intro u hu
  rw [h.eq_of_ofIds ht hu]
  exact .inr hnext

/-- A call that is not late obeys the machine. -/
theorem obeys_of_effect {ws : List Write} (he : TransactionCall.Effect db c ws)
    (htime : c.Timely db) : Obeys db (server.applyAll db ws) := by
  cases he with
  | nothing => exact .refl db
  | created hid => exact obeys_insertTransaction (.refl db)
  | createdTransfer hout hin hne =>
    exact obeys_insertTransaction (obeys_insertTransaction (.refl db))
  | completed ht hp hs =>
    refine @obeys_of_one _ h _ ht .completed ?_ _ (fun id => rfl)
    rw [h.paid _ ht (by simp [hp]),hs]
    rfl
  | timedOut ht hp hs =>
    refine @obeys_of_one _ h _ ht .timeout ?_ _ (fun id => rfl)
    rw [h.paid _ ht (by simp [hp]),hs]
    rfl
  | updated hnew ht hs =>
    refine @obeys_of_one _ h _ ht .balanceUpdated ?_ _ (fun id => rfl)
    rw [h.completed _ ht hs,hs]
    rfl
  | updatedByIds hnew hout hin =>
    refine (obeys_setStatus_iff h phase_updatedByIds).mpr (fun t ht => ?_)
    rw [allows_balanceUpdated]
    exact (htime hnew hout hin t ht).symm.imp_left Eq.symm
  | copied hnew hpres hlimit hevent hpay =>
    exact .of_phase (fun id p hp => by simpa [RetryCall.copyWrites] using hp)
  | @failed c ids hnew hpres hlimit =>
    refine (obeys_setStatus_iff h (phase_failWrites c)).mpr (fun t ht => ?_)
    rw [allows_failed]
    exact (htime hnew hpres hlimit t ht).symm.imp_left Eq.symm

/-- A call obeys the machine exactly when it is cut off or not late. -/
theorem obeys_after_iff : Obeys db (c.after fault db) ↔
    (c.interrupted fault db = false → c.Timely db) := by
  rw [TransactionCall.after_eq]
  cases hi : c.interrupted fault db with
  | true => simp [Obeys.refl]
  | false =>
    simp only [Bool.false_eq_true,if_false,forall_const]
    constructor
    · intro ho
      cases c with
      | setStatusUpdatedByIds idempotencyKey outId inId processedId =>
        intro hnew hout hin t ht
        rw [TransactionCall.commit,if_neg (by simp [hnew]),if_pos (by simp [hout,hin]),
          Option.getD_some,obeys_setStatus_iff h phase_updatedByIds] at ho
        rw [← allows_balanceUpdated]
        exact (ho t ht).symm.imp_right Eq.symm
      | recreate c ids =>
        intro hnew hpres hlimit t ht
        rw [TransactionCall.commit,RetryCall.commit,if_neg (by simp [hnew]),if_neg (by simp [hpres]),
          if_neg (by omega),Option.getD_some,obeys_setStatus_iff h (phase_failWrites c)] at ho
        rw [← allows_failed]
        exact (ho t ht).symm.imp_right Eq.symm
      | _ => trivial
    · intro htime
      cases hc : c.commit db with
      | none => exact .refl db
      | some ws => exact obeys_of_effect h (TransactionCall.effect_of_commit hc) htime

end Step

section Runs

theorem TxDb.Sound.next {db db' : TxDb} (h : db.Sound) {a : TransactionStep}
    (hs : a.next db = some db') : db'.Sound := by
  cases hs
  obtain ⟨ws,he,hafter⟩ := a.call.exists_effect a.fault db
  rw [hafter]
  exact h.effect he

/-- In a run of calls every change of status is one of the machine, if and only if a transfer
success and a retry without any retry left only ever meet rows that await the outcome or have it. -/
theorem statuses_obey_machine_iff (steps : List TransactionStep) :
    Transition.Along TransactionStep.next (fun db a => Obeys db (a.call.after a.fault db))
        ⟨[],[],[]⟩ steps ↔
      Transition.Along TransactionStep.next
        (fun db a => a.call.interrupted a.fault db = false → a.call.Timely db)
        ⟨[],[],[]⟩ steps := by
  have h0 : TxDb.Sound ⟨[],[],[]⟩ := ⟨List.nodup_nil,by simp,by simp⟩
  constructor
  · exact Transition.Along.of_invariant (I := TxDb.Sound) (fun _ _ _ h _ hs => h.next hs)
      (fun _ _ h => (obeys_after_iff h).mp) h0
  · exact Transition.Along.of_invariant (I := TxDb.Sound) (fun _ _ _ h _ hs => h.next hs)
      (fun _ _ h => (obeys_after_iff h).mpr) h0

/-- A deposit that is credited, and a failure message that comes late under another key. -/
theorem late_failure_leaves_balanceUpdated :
    let steps : List TransactionStep := [⟨.create ⟨1,10,100,"k","p"⟩,none⟩,
      ⟨.setStatusCompleted "p" 5,none⟩,⟨.setStatusUpdated 21 1 22,none⟩]
    let late : TransactionStep :=
      ⟨.recreate ⟨.deposit 1,31,5,1,.depositCreditingFailed⟩ ⟨32,33⟩,none⟩
    (Transition.runs TransactionStep.next ⟨[],[],[]⟩ steps).map (·.statuses) =
        some [(1,.balanceUpdated)] ∧
      (Transition.runs TransactionStep.next ⟨[],[],[]⟩ (steps++[late])).map (·.statuses) =
        some [(1,.failed)] ∧
      ¬Transition.Along TransactionStep.next (fun db a => Obeys db (a.call.after a.fault db))
        ⟨[],[],[]⟩ (steps++[late]) := by
  refine ⟨by decide,by decide,fun halong => ?_⟩
  obtain ⟨-,h1⟩ := halong
  obtain ⟨-,h2⟩ := h1 _ rfl
  obtain ⟨-,h3⟩ := h2 _ rfl
  obtain ⟨status,hs,hnext⟩ := (h3 _ rfl).1 1 .deposit .balanceUpdated (by decide)
  have hfailed : status = .failed := by
    revert hs
    cases status <;> decide
  subst hfailed
  revert hnext
  decide

end Runs
end NestHomework.TransactionService
