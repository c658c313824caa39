import NestHomework.Outbox.Backlog
import NestHomework.Services.Agreement

/-! What the services still owe a transaction. A row that waits for its money has an unpublished event,
an unhandled message or a handler that will take it further, as long as nothing is lost: neither the
failure event of a handler nor the call for a result may be cut off. -/
namespace NestHomework.Services
open Contracts Postgres Outbox TransactionService Shared Transition
open UserService (BalanceMessage UserDb Balance RunIds)

/-- Nothing is under way for the row. A deposit in `PENDING` waits for its payment. -/
def finished (t : Transaction) : Bool :=
  t.status ≠ .completed && (t.status ≠ .pending || t.type = .deposit)

/-- All rows of the target are finished. -/
def Served (db : TxDb) (v : Target) : Prop :=
  ∀ t ∈ db.transactions, transactionTarget t = v → finished t

def isUnhandled (handled : List Uuid) (m : KafkaMessage) : Bool :=
  m.idempotencyKey.all (fun key => !handled.contains key)

namespace State
variable (s : State)

def txBacklog : List OutboxEvent := txTable.backlog s.txTick s.tx

def userBacklog : List UserService.OutboxEvent := userTable.backlog s.userTick s.user

def unhandled : List KafkaMessage := s.messages.filter (isUnhandled s.handled)

/-- `validationAccount` found the balance that pays, or gets the money. -/
def validated : Request → Bool
  | .depositRub n => (s.user.balanceOf n.accountId "RUB").isSome
  | .transferRub n => (s.user.balanceOf n.fromAccountId n.currency).isSome
  | _ => true

/-- A step that loses nothing. Workers may crash or publish twice, the database may cut off a request
or a money transaction, and a message may be handled many times. -/
def Lossless (s : State) : Action → Prop
  | .request r _ => s.validated r
  | .txWorker a => a.Distinct txTable.id
  | .userWorker a => a.Distinct userTable.id
  | .resume _ fault => fault = none
  | .handleResult _ _ fault => fault = none
  | _ => True

end State

/-- Something is on its way that is about the target. -/
def Owed (s : State) (v : Target) : Prop :=
  (∃ e ∈ s.txBacklog, e.payload.map payloadTarget = some v) ∨
  (∃ m ∈ s.unhandled, payloadTarget m.value = v) ∨
  (∃ r ∈ s.handlers, messageTarget r.message = v) ∨
  ∃ e ∈ s.userBacklog, payloadTarget e.payload = v

section Tables

theorem txTable_lawful : txTable.Lawful := ⟨fun _ _ => filter_mark (fun _ => rfl)⟩

theorem userTable_lawful : userTable.Lawful := ⟨fun _ _ => filter_mark (fun _ => rfl)⟩

end Tables

section Served
variable {db : TxDb} {v : Target}

theorem Served.insertTransaction (h : Served db v) {data : Transaction}
    (hd : transactionTarget data = v → finished data) :
    Served ((Write.insertTransaction data).apply db) v := by
  intro t ht htv
  obtain ht | ht := List.mem_append.mp ht
  · exact h t ht htv
  · rw [List.mem_singleton.mp ht] at htv ⊢
    exact hd htv

theorem Served.setStatus {ids : List Uuid} {status : TransactionStatus}
    (h : ∀ t ∈ db.transactions, transactionTarget t = v →
      if t.id ∈ ids then finished {t with status := status} else finished t) :
    Served ((Write.setStatus ids status).apply db) v := by
  intro t ht htv
  obtain ⟨u,hu,rfl⟩ := List.mem_map.mp ht
  by_cases hid : u.id ∈ ids
  · have hif := List.contains_iff_mem.mpr hid
    simp only [if_pos hif] at htv ⊢
    simpa [hid] using h u hu htv
  · have hif : ¬ids.contains u.id := by simpa using hid
    simp only [if_neg hif] at htv ⊢
    simpa [hid] using h u hu htv

theorem Served.addRetryCount (h : Served db v) (ids : List Uuid) :
    Served ((Write.addRetryCount ids).apply db) v := by
  intro t ht htv
  obtain ⟨u,hu,rfl⟩ := List.mem_map.mp ht
  have hkeep := h u hu
  split at htv <;> split <;> exact hkeep htv

/-- A status that ends the rows. -/
theorem Served.setFinal (h : Served db v) {ids : List Uuid} {status : TransactionStatus}
    (h1 : status ≠ .completed) (h2 : status ≠ .pending) :
    Served ((Write.setStatus ids status).apply db) v := by
  refine .setStatus (fun t ht htv => ?_)
  split
  · simp [finished,h1,h2]
  · exact h t ht htv

/-- All rows of the target get a final status. -/
theorem Served.of_setFinal {ids : List Uuid} {status : TransactionStatus} (h1 : status ≠ .completed)
    (h2 : status ≠ .pending) (hids : ∀ t ∈ db.transactions, transactionTarget t = v → t.id ∈ ids) :
    Served ((Write.setStatus ids status).apply db) v := by
  refine .setStatus (fun t ht htv => ?_)
  rw [if_pos (hids t ht htv)]
  simp [finished,h1,h2]

/-- A call leaves a served target served, or creates an event for it. -/
theorem Served.effect (hv : Served db v) (hs : db.Sound) {c : TransactionCall} {ws : List Write}
    (he : TransactionCall.Effect db c ws) : Served (server.applyAll db ws) v ∨
      ∃ e ∈ newEvents ws, e.processed = false ∧ e.payload.map payloadTarget = some v := by
  cases he with
  | nothing => exact .inl hv
  | created hid => exact .inl (hv.insertTransaction (fun _ => rfl))
  | @createdTransfer n hout hin hne =>
    by_cases htv : .transfer n.outId n.inId = v
    · exact .inr ⟨n.event,by simp [newEvents],rfl,congrArg some htv⟩
    · have hout : Served ((Write.insertTransaction n.txOut).apply db) v :=
        hv.insertTransaction (fun h => absurd h htv)
      have hin : Served ((Write.insertTransaction n.txIn).apply _) v :=
        hout.insertTransaction (fun h => absurd h htv)
      exact .inl hin
  | @completed providerPaymentId eventId u ht hp hst =>
    by_cases htv : .deposit u.id = v
    · exact .inr ⟨u.paidEvent eventId,by simp [newEvents],rfl,congrArg some htv⟩
    · refine .inl (Served.setStatus (fun t hmem htarget => ?_))
      split
      · rename_i hid
        obtain rfl := List.inj_on_of_nodup_map hs.ids hmem ht (List.mem_singleton.mp hid)
        have htype := hs.paid t hmem (by simp [hp])
        exact absurd (by simpa [transactionTarget,htype] using htarget) htv
      · exact hv t hmem htarget
  | timedOut ht hp hst => exact .inl (hv.setFinal (by simp) (by simp))
  | updated hnew ht hst => exact .inl (hv.setFinal (by simp) (by simp))
  | updatedByIds hnew hout hin =>
    exact .inl (@Served.setFinal _ _ (hv.setFinal (by simp) (by simp)) _ _ (by simp) (by simp))
  | copied hnew hpres hlimit hevent hpay => exact .inl (hv.addRetryCount _)
  | failed hnew hpres hlimit =>
    exact .inl (@Served.setFinal _ _ (hv.addRetryCount _) _ _ (by simp) (by simp))

end Served

section Results
variable {db : TxDb} {b : BalanceMessage} {v : Target}

/-- The row that a genuine message pays from is there, as it was created. -/
theorem Genuine.payer_row (hb : Genuine db b) : ∃ t ∈ frozen db, t.type ≠ .transferIn ∧
    t.accountId = b.payer ∧ t.currency = b.currency := by
  cases b with
  | depositPaidSuccess p =>
    obtain ⟨n,hn,hp,-⟩ := hb
    exact ⟨_,hn,by simp [NewDeposit.data],(congrArg DepositPaidSuccessPayload.accountId hp).symm,
      (congrArg DepositPaidSuccessPayload.currency hp).symm⟩
  | transferInited p =>
    obtain ⟨n,⟨hout,-,-⟩,rfl,-⟩ := hb
    exact ⟨_,hout,by simp [NewTransfer.txOut],rfl,rfl⟩

/-- The event of a genuine message can be copied. -/
theorem Genuine.copyable (hb : Genuine db b) (h : TxContents db) :
    ∃ e, db.outboxEvent (messageEventId b) = some e ∧ e.payload = some (messagePayload b) ∧
      (db.transaction e.transactionId).isSome := by
  obtain ⟨e,he,hid,-,hpay⟩ := hb.event
  refine ⟨e,h.outboxEvent_iff.mpr ⟨he,hid⟩,hpay,?_⟩
  have hrow : ∃ e', e'.id = messageEventId b ∧ e'.transactionId ∈ (messageTarget b).ids ∧
      e' ∈ frozenEvents db := by
    cases b with
    | depositPaidSuccess p =>
      obtain ⟨n,-,hp,hev⟩ := hb
      refine ⟨_,rfl,?_,hev⟩
      rw [hp]
      exact List.mem_singleton_self _
    | transferInited p =>
      obtain ⟨n,-,rfl,hev⟩ := hb
      exact ⟨_,rfl,by simp [messageTarget,RetryTarget.ids,NewTransfer.event,NewTransfer.payload],hev⟩
  obtain ⟨e',hid',htx,hmem⟩ := hrow
  obtain ⟨e'',he'',rfl⟩ := List.mem_map.mp hmem
  obtain rfl := List.inj_on_of_nodup_map h.eventIds he he'' (hid.trans hid'.symm)
  exact hb.isSome htx

/-- The legs of a genuine transfer are two rows. -/
theorem Genuine.nodup_ids (hb : Genuine db b) (h : TxContents db) : (messageTarget b).ids.Nodup := by
  cases b with
  | depositPaidSuccess p => exact List.nodup_singleton _
  | transferInited p =>
    obtain ⟨n,⟨hout,hin,-⟩,rfl,-⟩ := hb
    refine List.nodup_cons.mpr ⟨fun hmem => ?_,List.nodup_singleton _⟩
    have hsame := h.eq_of_frozen hout hin (List.mem_singleton.mp hmem)
    cases congrArg Transaction.type hsame

theorem Genuine.present (hb : Genuine db b) (h : TxContents db) : (messageTarget b).present db := by
  have hsub : (messageTarget b).ids ⊆ (db.ofIds (messageTarget b).ids).map (·.id) := by
    intro id hid
    obtain ⟨t,ht,rfl⟩ := TransactionCall.isSome_transaction.mp (hb.isSome hid)
    exact List.mem_map_of_mem (by simp [TxDb.ofIds,ht,hid])
  have hle := ((hb.nodup_ids h).subperm hsub).length_le
  rw [List.length_map] at hle
  simpa [RetryTarget.present] using hle

/-- A success message that was not processed yet serves its target. -/
theorem served_success (h : TxContents db) (hr : EventsReleased db) (hb : Genuine db b) {key : Uuid}
    (hnew : db.processed key = none) (processedId : Uuid) :
    Served (server.applyAll db (((successCall b key processedId).commit db).getD []))
      (messageTarget b) := by
  have hids : ∀ t ∈ db.transactions, transactionTarget t = messageTarget b →
      t.id ∈ (messageTarget b).ids := fun t _ htv => htv ▸ id_mem_target t
  cases b with
  | depositPaidSuccess p =>
    obtain ⟨t,ht⟩ := Option.isSome_iff_exists.mp (hb.isSome (List.mem_singleton_self _))
    obtain ⟨hmem,hid⟩ := TransactionCall.transaction_mem ht
    simp only [successCall,TransactionCall.commit,hnew,ht,Option.isSome_none,Bool.false_eq_true,
      if_false]
    split
    · refine (Served.of_setFinal (by simp) (by simp) (fun u hu htv => ?_))
      rw [hid]
      exact hids u hu htv
    · rename_i hst
      obtain ⟨phase,hphase,hpending,-⟩ := hb.released hr
      intro u hu htv
      have hu' : u = t := List.inj_on_of_nodup_map h.sound.ids hu hmem
        ((List.mem_singleton.mp (hids u hu htv)).trans hid.symm)
      rw [← hid,h.sound.phase_eq hmem,Option.some.injEq] at hphase
      rw [← hphase] at hpending
      rw [hu']
      simp [finished,hst,hpending]
  | transferInited p =>
    have hout : (db.transaction p.outId).isSome := hb.isSome (List.mem_cons_self ..)
    have hin : (db.transaction p.inId).isSome := hb.isSome (List.mem_cons_of_mem _ (by simp))
    simp only [successCall,TransactionCall.commit,hnew,hout,hin,Option.isSome_none,
      Bool.false_eq_true,if_false,Bool.and_self,if_true,Option.getD_some]
    refine Served.setStatus (fun t ht htv => ?_)
    split
    · simp [finished]
    · rename_i hne
      obtain ⟨u,hu,rfl⟩ := List.mem_map.mp ht
      have hid := hids u hu (by split at htv <;> exact htv)
      have hne' : u.id ≠ p.inId := by
        intro heq
        split at hne <;> simp [heq] at hne
      have heq : u.id = p.outId := by simpa [messageTarget,RetryTarget.ids,hne'] using hid
      simp [finished,heq]

/-- A failure message that was not processed yet serves its target, or creates another event. -/
theorem served_failure (h : TxContents db) (hb : Genuine db b) {key : Uuid}
    (hnew : db.processed key = none) (maxRetry : ℕ) (ids : RetryIds) :
    Served (server.applyAll db (((failureCall maxRetry b key).commit ids db).getD []))
      (messageTarget b) ∨ ∃ e ∈ newEvents (((failureCall maxRetry b key).commit ids db).getD []),
        e.processed = false ∧ e.payload = some (messagePayload b) := by
  obtain ⟨e,he,hpay,htx⟩ := hb.copyable h
  have hpres := hb.present h
  simp only [failureCall] at hpres ⊢
  simp only [RetryCall.commit,hnew,hpres,he,hpay,htx,Option.isSome_none,Bool.false_eq_true,if_false,
    Bool.not_true,Option.isSome_some,Bool.and_self,if_true]
  split
  · exact .inr ⟨RetryCall.copy ids e,by simp [newEvents,RetryCall.copyWrites],rfl,hpay⟩
  · exact .inl (Served.of_setFinal (by simp) (by simp) (fun t _ htv => htv ▸ id_mem_target t))

end Results
end NestHomework.Services
