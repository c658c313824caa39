import NestHomework.Services.AtMostOnce

/-! The statuses of the transactions follow the orders when every row is published once and every
message is handled once. -/
namespace NestHomework.Services
open Contracts Postgres Outbox TransactionService Shared Transition
open UserService (BalanceMessage UserDb Balance RunIds)

/-- Every row is published at most once, and every message is handled at most once. -/
def State.Single (s : State) : Action → Prop
  | .txWorker (.publish p) => p.header.isSome → ∀ t, s.txTick = some t →
      ∀ e ∈ t.events.head?, ¬published s.messages e.id
  | .userWorker (.publish p) => p.header.isSome → ∀ t, s.userTick = some t →
      ∀ e ∈ t.events.head?, ¬published s.messages e.id
  | .handleBalance m _ _ => ∀ key, m.idempotencyKey = some key → key ∉ s.handled
  | .handleResult m _ _ => ∀ key, m.idempotencyKey = some key → key ∉ s.handled
  | _ => True

/-- What handlers leave behind was handled. -/
structure Tracked (s : State) : Prop where
  answered : ∀ key ∈ s.answered, key ∈ s.handled
  handlers : ∀ r ∈ s.handlers, ∀ key, r.idempotencyKey = some key → key ∈ s.handled

/-- No order is left, and no failure message will give one. -/
structure Ended (maxRetry : ℕ) (s : State) (v : Target) : Prop where
  released : Released s.tx v
  outward : s.outward v = 0
  retryCount : maxRetry ≤ v.retryCount s.tx

/-- What each status says about the orders. -/
structure Statuses (maxRetry : ℕ) (s : State) : Prop where
  failed : ∀ t ∈ s.tx.transactions, t.status = .failed → Ended maxRetry s (transactionTarget t)
  timeout : ∀ t ∈ s.tx.transactions, t.status = .timeout → t.type = .deposit
  updated : ∀ t ∈ s.tx.transactions, t.status = .balanceUpdated →
    settled s.user.outboxEvents (transactionTarget t) ≠ 0
  succeeded : ∀ m ∈ s.messages, isSuccess m.topic →
    settled s.user.outboxEvents (payloadTarget m.value) ≠ 0

/-- A call gives the status to the row. -/
inductive Sets (db : TxDb) : TransactionCall → Uuid → TransactionType → TransactionStatus → Prop
  | pending {c id type} : Sets db c id type .pending
  | completed {providerPaymentId eventId id type} :
      Sets db (.setStatusCompleted providerPaymentId eventId) id type .completed
  | timedOut {providerPaymentId id} : Sets db (.setStatusTimeout providerPaymentId) id .deposit .timeout
  | updated {idempotencyKey id processedId type} :
      Sets db (.setStatusUpdated idempotencyKey id processedId) id type .balanceUpdated
  | updatedByIds {idempotencyKey outId inId processedId id type} (hid : id ∈ [outId,inId]) :
      Sets db (.setStatusUpdatedByIds idempotencyKey outId inId processedId) id type .balanceUpdated
  | failed {c : RetryCall} {ids id type} (hlimit : c.maxRetry ≤ c.target.retryCount db+1)
      (hid : id ∈ c.target.ids) : Sets db (.recreate c ids) id type .failed

section Rows
variable {db db' : TxDb} {c : TransactionCall} {ws : List Write} {id : Uuid} {type : TransactionType}
  {status : TransactionStatus}

theorem phase_insert_cases {data : Transaction} (hs : data.status = .pending)
    (hp : ((Write.insertTransaction data).apply db).phase id = some (type,status)) :
    db.phase id = some (type,status) ∨ status = .pending := by
  rw [phase_insertTransaction,Option.or_eq_some_iff] at hp
  rcases hp with hp | ⟨-,hp⟩
  · exact .inl hp
  · split at hp
    · cases hp
      exact .inr hs
    · contradiction

theorem phase_setStatus_cases {ids : List Uuid} {new : TransactionStatus}
    (hp : (db.phase id).map (fun p => if ids.contains id then (p.1,new) else p) =
      some (type,status)) :
    db.phase id = some (type,status) ∨
      (id ∈ ids ∧ status = new ∧ ∃ old, db.phase id = some (type,old)) := by
  obtain ⟨⟨type',old⟩,hold,heq⟩ := Option.map_eq_some_iff.mp hp
  split at heq
  · rename_i hid
    cases heq
    exact .inr ⟨List.contains_iff_mem.mp hid,rfl,old,hold⟩
  · exact .inl (heq ▸ hold)

/-- A row has its status from before, or the call gave it. -/
theorem phase_effect (hs : db.Sound) (he : TransactionCall.Effect db c ws)
    (hp : (server.applyAll db ws).phase id = some (type,status)) :
    db.phase id = some (type,status) ∨ Sets db c id type status := by
  cases he with
  | nothing => exact .inl hp
  | created hid =>
    rcases phase_insert_cases rfl hp with hp | rfl
    · exact .inl hp
    · exact .inr .pending
  | @createdTransfer n hout hin hne =>
    rcases phase_insert_cases (show n.txIn.status = .pending from rfl) hp with hp | rfl
    · rcases phase_insert_cases rfl hp with hp | rfl
      · exact .inl hp
      · exact .inr .pending
    · exact .inr .pending
  | completed ht hpay hst =>
    rcases phase_setStatus_cases (phase_setStatus.symm.trans hp) with hp | ⟨-,rfl,-⟩
    · exact .inl hp
    · exact .inr .completed
  | @timedOut _ u ht hpay hst =>
    rcases phase_setStatus_cases (phase_setStatus.symm.trans hp) with hp | ⟨hid,rfl,old,hold⟩
    · exact .inl hp
    · rw [List.mem_singleton.mp hid,hs.phase_eq ht,hs.paid u ht (by simp [hpay])] at hold
      cases hold
      exact .inr .timedOut
  | updated hnew ht hst =>
    rcases phase_setStatus_cases (phase_setStatus.symm.trans hp) with hp | ⟨hid,rfl,-⟩
    · exact .inl hp
    · rw [List.mem_singleton.mp hid]
      exact .inr .updated
  | updatedByIds hnew hout hin =>
    rcases phase_setStatus_cases ((phase_updatedByIds id).symm.trans hp) with hp | ⟨hid,rfl,-⟩
    · exact .inl hp
    · exact .inr (.updatedByIds hid)
  | copied hnew hpres hlimit hevent hpay =>
    exact .inl (by simpa [RetryCall.copyWrites] using hp)
  | @failed c ids hnew hpres hlimit =>
    rcases phase_setStatus_cases ((phase_failWrites c id).symm.trans hp) with hp | ⟨hid,rfl,-⟩
    · exact .inl hp
    · exact .inr (.failed hlimit hid)

/-- A call that is not about a timed out deposit leaves it alone. -/
theorem timeout_effect (hs : db.Sound) (he : TransactionCall.Effect db c ws)
    (hp : db.phase id = some (.deposit,.timeout))
    (hupdated : ∀ key outId inId processedId,
      c = .setStatusUpdatedByIds key outId inId processedId → id ∉ [outId,inId])
    (hfailed : ∀ r ids, c = .recreate r ids → id ∉ r.target.ids) :
    (server.applyAll db ws).phase id = some (.deposit,.timeout) := by
  have hother : ∀ u ∈ db.transactions, u.status ≠ .timeout → ¬[u.id].contains id := by
    intro u hu hst hid
    rw [List.contains_iff_mem,List.mem_singleton] at hid
    rw [hid,hs.phase_eq hu,Option.some.injEq] at hp
    exact hst (Prod.mk.inj hp).2
  cases he with
  | nothing => exact hp
  | created hid => exact (phase_insertTransaction _).trans (by rw [hp]; rfl)
  | createdTransfer hout hin hne =>
    refine (phase_insertTransaction _).trans ?_
    rw [server_apply,phase_insertTransaction,hp]
    rfl
  | completed ht hpay hst =>
    refine phase_setStatus.trans ?_
    rw [hp,Option.map_some,if_neg (hother _ ht (by simp [hst]))]
  | timedOut ht hpay hst =>
    refine phase_setStatus.trans ?_
    rw [hp,Option.map_some,if_neg (hother _ ht (by simp [hst]))]
  | updated hnew ht hst =>
    refine phase_setStatus.trans ?_
    rw [hp,Option.map_some,if_neg (hother _ ht (by simp [hst]))]
  | updatedByIds hnew hout hin =>
    rw [phase_updatedByIds,hp,Option.map_some,
      if_neg (fun hid => hupdated _ _ _ _ rfl (List.contains_iff_mem.mp hid))]
  | copied hnew hpres hlimit hevent hpay => simpa [RetryCall.copyWrites] using hp
  | failed hnew hpres hlimit =>
    rw [phase_failWrites,hp,Option.map_some,
      if_neg (fun hid => hfailed _ _ rfl (List.contains_iff_mem.mp hid))]

/-- A row that had a phase before is the old row. -/
theorem row_of_phase (h' : db'.Sound) (hold : Older db db') {t : Transaction}
    (ht : t ∈ db'.transactions) (hp : db.phase t.id = some (type,status)) :
    ∃ u ∈ db.transactions, u.status = status ∧ frozenRow u = frozenRow t := by
  obtain ⟨u,hu,heq⟩ := Option.map_eq_some_iff.mp hp
  obtain ⟨hmem,hid⟩ := TransactionCall.transaction_mem hu
  obtain ⟨t',ht',hfr⟩ := List.mem_map.mp (hold.rows _ (mem_frozen hmem))
  have hid' : t'.id = u.id := (congrArg Transaction.id hfr :)
  have hsame : t' = t := List.inj_on_of_nodup_map h'.ids ht' ht (hid'.trans hid)
  refine ⟨u,hmem,(Prod.mk.inj heq).2,?_⟩
  rw [← hfr,hsame]

theorem transactionTarget_frozen {t u : Transaction} (h : frozenRow t = frozenRow u) :
    transactionTarget t = transactionTarget u := by
  have htype := congrArg Transaction.type h
  have href := congrArg Transaction.referenceId h
  have hid := congrArg Transaction.id h
  simp only [frozenRow] at htype href hid
  simp only [transactionTarget,htype,href,hid]

/-- The rows of a genuine message are the rows of its target. -/
theorem Genuine.target_of_mem {b : BalanceMessage} (h : db.Sound) (hb : Genuine db b)
    {t : Transaction} (ht : t ∈ db.transactions) (hid : t.id ∈ (messageTarget b).ids) :
    transactionTarget t = messageTarget b := by
  have hrow : ∀ data ∈ frozen db, data.id = t.id → transactionTarget t = transactionTarget data := by
    intro data hdata hid
    obtain ⟨u,hu,rfl⟩ := List.mem_map.mp hdata
    rw [List.inj_on_of_nodup_map h.ids ht hu hid.symm]
    rfl
  cases b with
  | depositPaidSuccess p =>
    obtain ⟨n,hn,hp,-⟩ := hb
    have hpid : p.transactionId = n.data.id := congrArg DepositPaidSuccessPayload.transactionId hp
    have hid := List.mem_singleton.mp hid
    rw [hrow _ hn (hpid.symm.trans hid.symm)]
    exact congrArg RetryTarget.deposit hpid.symm
  | transferInited p =>
    obtain ⟨n,⟨hout,hin,-⟩,rfl,-⟩ := hb
    rcases List.mem_pair.mp hid with hid | hid
    · exact hrow _ hout hid.symm
    · exact hrow _ hin hid.symm

/-- The rows of a genuine transfer are no deposits. -/
theorem Genuine.leg_type {p : TransferInitedPayload} (h : db.Sound)
    (hb : Genuine db (.transferInited p)) (hid : id ∈ [p.outId,p.inId]) {status : TransactionStatus} :
    db.phase id ≠ some (.deposit,status) := by
  obtain ⟨n,⟨hout,hin,-⟩,rfl,-⟩ := hb
  intro hp
  obtain ⟨u,hu,heq⟩ := Option.map_eq_some_iff.mp hp
  obtain ⟨hmem,rfl⟩ := TransactionCall.transaction_mem hu
  have hrow : ∀ data ∈ frozen db, u.id = data.id → u.type = data.type := by
    intro data hdata hid
    obtain ⟨w,hw,rfl⟩ := List.mem_map.mp hdata
    rw [List.inj_on_of_nodup_map h.ids hmem hw hid]
    rfl
  have htype := (Prod.mk.inj heq).1
  rcases List.mem_pair.mp hid with hid | hid
  · rw [hrow _ hout hid] at htype
    cases htype
  · rw [hrow _ hin hid] at htype
    cases htype

/-- Counts of retries only grow. -/
theorem retryCount_le_apply (v : Target) (w : Write) :
    v.retryCount db ≤ v.retryCount (w.apply db) := by
  have hmap : ∀ f : Transaction → Transaction, (∀ t, (f t).id = t.id) →
      (∀ t, t.retryCount ≤ (f t).retryCount) → v.retryCount db ≤
        ((((db.transactions.map f).filter (fun t => v.ids.contains t.id)).head?.map
          (·.retryCount)).getD 0) := by
    intro f hid hle
    rw [ofIds_map hid,List.head?_map,RetryTarget.retryCount]
    cases (db.ofIds v.ids).head? with
    | none => exact le_rfl
    | some t => exact hle t
  cases w with
  | insertTransaction data =>
    simp only [RetryTarget.retryCount,TxDb.ofIds,Write.apply,List.filter_append]
    cases db.transactions.filter (fun t => v.ids.contains t.id) with
    | nil => exact Nat.zero_le _
    | cons t ts => exact le_rfl
  | setStatus ids status =>
    exact hmap _ (fun t => by split <;> rfl) (fun t => by split <;> exact le_rfl)
  | addRetryCount ids =>
    exact hmap _ (fun t => by split <;> rfl) (fun t => by split <;> simp)
  | insertOutboxEvent data => exact le_rfl
  | insertProcessedEvent data => exact le_rfl

theorem retryCount_le_applyAll (v : Target) (ws : List Write) :
    v.retryCount db ≤ v.retryCount (server.applyAll db ws) := by
  induction ws generalizing db with
  | nil => exact le_rfl
  | cons w ws ih => exact (retryCount_le_apply v w).trans ih

theorem retryCount_addRetryCount {v : Target} (hpres : v.present db) :
    v.retryCount ((Write.addRetryCount v.ids).apply db) = v.retryCount db+1 := by
  have hlen : 0 < (db.ofIds v.ids).length := by
    have hids : 0 < v.ids.length := by cases v <;> simp [RetryTarget.ids]
    have := of_decide_eq_true hpres
    omega
  rw [RetryTarget.retryCount,RetryTarget.retryCount,ofIds_addRetryCount,List.head?_map]
  cases hrow : db.ofIds v.ids with
  | nil => simp [hrow] at hlen
  | cons t ts => simp only [List.head?_cons,Option.map_some,Option.getD_some]

end Rows

section Steps
variable {s t : State} {maxRetry : ℕ} {a : Action} {v : Target}

theorem State.Single.careful (hsingle : s.Single a) (h : Tracked s) : s.Careful a := by
  cases a with
  | txWorker a => cases a <;> exact hsingle
  | userWorker a =>
    cases a with
    | publish p => exact fun hp t ht e he _ => hsingle hp t ht e he
    | _ => exact hsingle
  | handleBalance m ids fault =>
    intro b key amount hb hk ha
    have hkey := hsingle key hk
    exact .inl ((isOpen_iff hk).mpr
      ⟨fun hin => hkey (h.answered key hin),fun r hr heq => hkey (h.handlers r hr key heq)⟩)
  | _ => trivial

theorem Change.tracked (hc : Change maxRetry s a t) (h : Tracked s) : Tracked t := by
  have hgrow : ∀ key, Tracked {s with handled := s.handled++[key]} := fun key =>
    ⟨fun k hk => List.mem_append_left _ (h.answered k hk),
      fun r hr k hk => List.mem_append_left _ (h.handlers r hr k hk)⟩
  cases hc with
  | skipped hm hb hk => exact hgrow _
  | @moved m b ids fault key amount hm hb hk ha hnew hpay =>
    refine ⟨fun k hin => ?_,(hgrow key).handlers⟩
    simp only [State.commit] at hin ⊢
    split at hin
    · exact (hgrow key).answered k hin
    · rcases List.mem_append.mp hin with hin | hin
      · exact (hgrow key).answered k hin
      · exact List.mem_append_right _ (by simpa using hin)
  | @refused m b ids fault key amount hm hb hk ha hcause =>
    refine ⟨(hgrow key).answered,fun r hr k hrk => ?_⟩
    rcases List.mem_append.mp hr with hr | hr
    · exact (hgrow key).handlers r hr k hrk
    · rw [List.mem_singleton.mp hr,Option.some.injEq] at hrk
      exact List.mem_append_right _ (by simp [hrk])
  | @reported i r fault e hi htopic hpay =>
    refine ⟨fun k hin => ?_,fun r' hr' => h.handlers r' (List.mem_of_mem_eraseIdx hr')⟩
    simp only [State.commit,if_neg (List.cons_ne_nil _ _)] at hin ⊢
    rcases List.mem_append.mp hin with hin | hin
    · exact h.answered k hin
    · exact h.handlers r (List.mem_of_getElem? hi) k (by simpa using hin)
  | dropped hi => exact ⟨h.answered,fun r' hr' => h.handlers r' (List.mem_of_mem_eraseIdx hr')⟩
  | result hm hk hc he => exact ⟨(hgrow _).answered,(hgrow _).handlers⟩
  | _ => exact ⟨h.answered,h.handlers⟩

theorem Change.released (hc : Change maxRetry s a t) (h : Contents s) (hv : Released s.tx v) :
    Released t.tx v := by
  cases hc with
  | request hr he => exact hv.effect h.tx.sound he
  | result hm hk hc he => exact hv.effect h.tx.sound he
  | txMark => exact hv.of_phase (fun _ p hp => ⟨p,hp,fun h1 h2 => ⟨h1,h2⟩⟩)
  | _ => exact hv

theorem Change.retryCount_le (hc : Change maxRetry s a t) (v : Target) :
    v.retryCount s.tx ≤ v.retryCount t.tx := by
  cases hc with
  | request hr he => exact retryCount_le_applyAll v _
  | result hm hk hc he => exact retryCount_le_applyAll v _
  | _ => exact le_rfl

/-- Settled targets stay settled. -/
theorem Change.settled_le (hc : Change maxRetry s a t) (v : Target) :
    settled s.user.outboxEvents v ≤ settled t.user.outboxEvents v := by
  have happend : ∀ ws, settled s.user.outboxEvents v ≤
      settled ((UserService.server true).applyAll s.user ws).outboxEvents v := by
    intro ws
    rw [userEvents_applyAll,settled,settled,List.countP_append]
    exact Nat.le_add_right _ _
  cases hc with
  | moved hm hb hk ha hnew hpay => exact happend _
  | reported hi htopic hpay => exact happend _
  | userMark => exact (settled_mark _ _).ge
  | _ => exact le_rfl

/-- What has ended stays so. -/
theorem Ended.change (h : Ended maxRetry s v) (hc : Change maxRetry s a t) (hcon : Contents s)
    (hf : Flow maxRetry s t v) : Ended maxRetry t v := by
  refine ⟨hc.released hcon h.released,?_,h.retryCount.trans (hc.retryCount_le v)⟩
  have hout := h.outward
  have hcount := h.retryCount
  cases hf with
  | keep ho hr => omega
  | back ho hr => omega
  | copy ho hr hlimit => omega
  | release ho hr hnew => exact absurd h.released hnew.not_released

/-- A success message was sent for a settled target. -/
theorem Change.succeeded (hc : Change maxRetry s a t) (h : Contents s)
    (hs : ∀ m ∈ s.messages, isSuccess m.topic →
      settled s.user.outboxEvents (payloadTarget m.value) ≠ 0)
    (hmono : ∀ v, settled s.user.outboxEvents v ≠ 0 → settled t.user.outboxEvents v ≠ 0)
    {m : KafkaMessage} (hm : m ∈ t.messages) (ht : isSuccess m.topic) :
    settled t.user.outboxEvents (payloadTarget m.value) ≠ 0 := by
  cases hc with
  | @txPublish p e events ids ids' header m' htick hp hm' =>
    rcases List.mem_append.mp hm with hm | hm
    · exact hs m hm ht
    · obtain ⟨b,-,-,rfl⟩ := h.speaks_txEvent (h.txTick _ htick e (by simp)) hm'
      rw [List.mem_singleton.mp hm] at ht
      cases b <;> simp [isSuccess,BalanceMessage.topic] at ht
  | @userPublish p e events ids ids' header htick hp =>
    rcases List.mem_append.mp hm with hm | hm
    · exact hs m hm ht
    · obtain ⟨e',he',-,het,hpay⟩ := stored_of_frozenUser (h.userTick _ htick e (by simp))
      rw [List.mem_singleton.mp hm] at ht ⊢
      refine (List.countP_pos_iff.mpr ⟨e',he',?_⟩).ne'
      simp only [het,hpay]
      simpa using ht
  | _ => exact hmono _ (hs m hm ht)

theorem settled_le_outward (s : State) (v : Target) : settled s.user.outboxEvents v ≤ s.outward v := by
  simp only [State.outward]
  omega

theorem sets_successCall {db : TxDb} {b : BalanceMessage} {key processedId id : Uuid}
    {type : TransactionType} {status : TransactionStatus}
    (h : Sets db (successCall b key processedId) id type status) :
    status = .pending ∨ (status = .balanceUpdated ∧ id ∈ (messageTarget b).ids) := by
  cases b with
  | depositPaidSuccess p =>
    cases h with
    | pending => exact .inl rfl
    | updated => exact .inr ⟨rfl,List.mem_singleton_self _⟩
  | transferInited p =>
    cases h with
    | pending => exact .inl rfl
    | updatedByIds hid => exact .inr ⟨rfl,hid⟩

theorem sets_recreate {db : TxDb} {c : RetryCall} {ids : RetryIds} {id : Uuid}
    {type : TransactionType} {status : TransactionStatus}
    (h : Sets db (.recreate c ids) id type status) :
    status = .pending ∨
      (status = .failed ∧ c.maxRetry ≤ c.target.retryCount db+1 ∧ id ∈ c.target.ids) := by
  cases h with
  | pending => exact .inl rfl
  | failed hlimit hid => exact .inr ⟨rfl,hlimit,hid⟩

/-- What a row of the transaction service was before, or how it got its status. -/
theorem Change.row_cases (hc : Change maxRetry s a t) (h : Contents s)
    (hfresh : ∀ u ∈ a.uuids, u ∉ s.used) {row : Transaction} (hrow : row ∈ t.tx.transactions) :
    (∃ u ∈ s.tx.transactions, u.status = row.status ∧ frozenRow u = frozenRow row) ∨
      row.status = .pending ∨ row.status = .completed ∨
      (row.status = .timeout ∧ row.type = .deposit) ∨
      ∃ m ∈ s.messages, ∃ b, Genuine s.tx b ∧ m.value = b.resultPayload ∧
        row.id ∈ (messageTarget b).ids ∧
        ((row.status = .balanceUpdated ∧ m.topic = b.successTopic) ∨
          (row.status = .failed ∧ m.topic = b.failedTopic ∧
            (m.idempotencyKey.bind t.tx.processed).isNone ∧
            maxRetry ≤ (messageTarget b).retryCount t.tx)) := by
  have hcontents := hc.tx_contents h hfresh
  have hold := hc.older
  cases hc with
  | @request r fault ws hr he =>
    rcases phase_effect h.tx.sound he (hcontents.sound.phase_eq hrow) with hp | hset
    · exact .inl (row_of_phase hcontents.sound hold hrow hp)
    · generalize hst : row.status = status at hset
      generalize htype : row.type = type at hset
      generalize hcall : r.call = c at hset
      cases hset with
      | pending => exact .inr (.inl rfl)
      | completed => exact .inr (.inr (.inl rfl))
      | timedOut => exact .inr (.inr (.inr (.inl ⟨rfl,rfl⟩)))
      | _ => cases r <;> cases hcall
  | @result m ids fault call ws key hm hk hcall he =>
    rcases phase_effect h.tx.sound he (hcontents.sound.phase_eq hrow) with hp | hset
    · exact .inl (row_of_phase hcontents.sound hold hrow hp)
    · obtain ⟨b,hb,hv,⟨ht,rfl⟩ | ⟨ht,rfl⟩⟩ := resultCall_cases (h.messages m hm) hk hcall
      · rcases sets_successCall hset with hst | ⟨hst,hid⟩
        · exact .inr (.inl hst)
        · exact .inr (.inr (.inr (.inr ⟨m,hm,b,hb,hv,hid,.inl ⟨hst,ht⟩⟩)))
      · cases he with
        | nothing => exact .inl ⟨row,hrow,rfl,rfl⟩
        | copied hnew hpres hlimit hevent hpay =>
          rcases sets_recreate hset with hst | ⟨-,hlimit',-⟩
          · exact .inr (.inl hst)
          · omega
        | failed hnew hpres hlimit =>
          rcases sets_recreate hset with hst | ⟨hst,-,hid⟩
          · exact .inr (.inl hst)
          · refine .inr (.inr (.inr (.inr ⟨m,hm,b,hb,hv,hid,.inr ⟨hst,ht,?_,?_⟩⟩)))
            · have hdone : (server.applyAll s.tx
                  (failureCall maxRetry b key).failWrites).processed key = none := hnew
              simp [hk,hdone]
            · have hcount := retryCount_addRetryCount hpres
              have hle := @retryCount_le_apply ((Write.addRetryCount (messageTarget b).ids).apply
                s.tx) (messageTarget b) (.setStatus (messageTarget b).ids .failed)
              have hmax : maxRetry ≤ (messageTarget b).retryCount s.tx+1 := hlimit
              have hadd : (messageTarget b).retryCount ((Write.addRetryCount
                (messageTarget b).ids).apply s.tx) = (messageTarget b).retryCount s.tx+1 := hcount
              exact (hmax.trans hadd.ge).trans hle
  | _ => exact .inl ⟨row,hrow,rfl,rfl⟩

/-- A failure message that is not processed holds the only order. -/
theorem outward_eq_zero_of_failure (hcarried : s.carried v ≤ 1) {m : KafkaMessage}
    (hm : m ∈ s.messages) (ht : isFailure m.topic) (hv : payloadTarget m.value = v)
    (hnew : (m.idempotencyKey.bind s.tx.processed).isNone) : s.outward v = 0 := by
  have hpos : 0 < inReturn s.tx s.messages v :=
    List.countP_pos_iff.mpr ⟨m,hm,by simp [ht,hv,hnew]⟩
  simp only [State.carried] at hcarried
  omega

/-- Every step keeps what the statuses say. -/
theorem Statuses.change (hst : Statuses maxRetry s) (hc : Change maxRetry s a t) (h : Once s)
    (ht : Once {t with used := t.used++a.uuids}) (hfresh : ∀ u ∈ a.uuids, u ∉ s.used)
    (hf : ∀ v, Flow maxRetry s t v) : Statuses maxRetry t := by
  have hsound : t.tx.Sound := ht.contents.tx.sound
  have hmono : ∀ v, settled s.user.outboxEvents v ≠ 0 → settled t.user.outboxEvents v ≠ 0 := by
    intro v hv
    have := hc.settled_le v
    omega
  refine ⟨fun row hrow hs => ?_,fun row hrow hs => ?_,fun row hrow hs => ?_,fun m hm hs => ?_⟩
  · rcases hc.row_cases h.contents hfresh hrow with
      ⟨u,hu,hus,hfr⟩ | hs' | hs' | ⟨hs',-⟩ | ⟨m,hm,b,hb,hv,hid,hrest⟩
    · rw [← transactionTarget_frozen hfr]
      exact (hst.failed u hu (hus.trans hs)).change hc h.contents (hf _)
    · simp [hs] at hs'
    · simp [hs] at hs'
    · simp [hs] at hs'
    · rcases hrest with ⟨hs',-⟩ | ⟨-,htopic,hnew,hmax⟩
      · simp [hs] at hs'
      · rw [(hb.mono hc.older).target_of_mem hsound hrow hid]
        refine ⟨(hb.mono hc.older).released ht.released,?_,hmax⟩
        refine outward_eq_zero_of_failure (ht.carried _) (hc.messages_subset m hm) ?_ ?_ hnew
        · rw [htopic]
          exact isFailure_failedTopic b
        · rw [hv,payloadTarget_resultPayload]
  · rcases hc.row_cases h.contents hfresh hrow with
      ⟨u,hu,hus,hfr⟩ | hs' | hs' | ⟨-,htype⟩ | ⟨m,hm,b,hb,hv,hid,hrest⟩
    · have htype : u.type = row.type := (congrArg Transaction.type hfr :)
      rw [← htype]
      exact hst.timeout u hu (hus.trans hs)
    · simp [hs] at hs'
    · simp [hs] at hs'
    · exact htype
    · rcases hrest with ⟨hs',-⟩ | ⟨hs',-⟩ <;> simp [hs] at hs'
  · rcases hc.row_cases h.contents hfresh hrow with
      ⟨u,hu,hus,hfr⟩ | hs' | hs' | ⟨hs',-⟩ | ⟨m,hm,b,hb,hv,hid,hrest⟩
    · rw [← transactionTarget_frozen hfr]
      exact hmono _ (hst.updated u hu (hus.trans hs))
    · simp [hs] at hs'
    · simp [hs] at hs'
    · simp [hs] at hs'
    · rcases hrest with ⟨-,htopic⟩ | ⟨hs',-⟩
      · rw [(hb.mono hc.older).target_of_mem hsound hrow hid,← payloadTarget_resultPayload,← hv]
        exact hmono _ (hst.succeeded m hm (htopic ▸ isSuccess_successTopic b))
      · simp [hs] at hs'
  · refine hc.succeeded h.contents hst.succeeded ?_ hm hs
    exact hmono

/-- A deposit that timed out stays so. -/
theorem Change.timeout_stays (hc : Change maxRetry s a t) (h : Contents s)
    (hr : EventsReleased s.tx) {id : Uuid} (hp : s.tx.phase id = some (.deposit,.timeout)) :
    t.tx.phase id = some (.deposit,.timeout) := by
  have hid : ∀ b, Genuine s.tx b → id ∉ (messageTarget b).ids := by
    intro b hb hmem
    cases b with
    | depositPaidSuccess p =>
      obtain ⟨p',hp',-,hne⟩ := hb.released hr
      rw [← List.mem_singleton.mp hmem,hp] at hp'
      cases hp'
      exact hne rfl
    | transferInited p => exact hb.leg_type h.tx.sound hmem hp
  cases hc with
  | @request r fault ws hacc he =>
    refine timeout_effect h.tx.sound he hp ?_ ?_
    · rintro key outId inId processedId hcall
      cases r <;> cases hcall
    · rintro c ids hcall
      cases r <;> cases hcall
  | @result m ids fault call ws key hm hk hcall he =>
    obtain ⟨b,hb,-,⟨-,rfl⟩ | ⟨-,rfl⟩⟩ := resultCall_cases (h.messages m hm) hk hcall
    · refine timeout_effect h.tx.sound he hp ?_ ?_
      · rintro key' outId inId processedId hcall
        cases b <;> cases hcall
        exact hid _ hb
      · rintro c ids' hcall
        cases b <;> cases hcall
    · refine timeout_effect h.tx.sound he hp ?_ ?_
      · rintro key' outId inId processedId hcall
        cases hcall
      · rintro c ids' hcall
        cases hcall
        exact hid _ hb
  | _ => exact hp

end Steps
end NestHomework.Services
