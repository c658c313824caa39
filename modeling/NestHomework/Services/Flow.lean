import NestHomework.Services.Carriers

/-! How a step moves the orders: none is added, except when a deposit is paid or a transfer created,
and when a retry turns a failure message into a new event. -/
namespace NestHomework.Services
open Contracts Postgres Outbox TransactionService Shared
open UserService (BalanceMessage UserDb Balance RunIds)

/-- The order to move the money was given. -/
def Released (db : TxDb) : Target → Prop
  | .deposit id => ∃ p, db.phase id = some p ∧ p.2 ≠ .pending ∧ p.2 ≠ .timeout
  | .transfer outId _ => (db.phase outId).isSome

/-- The order is not given yet, and may be. -/
def Waiting (db : TxDb) : Target → Prop
  | .deposit id => ∃ type, db.phase id = some (type,.pending)
  | .transfer outId _ => db.phase outId = none

/-- Only released targets have events. -/
def EventsReleased (db : TxDb) : Prop :=
  ∀ e ∈ db.outboxEvents, ∀ v, e.payload.map payloadTarget = some v → Released db v

/-- What a step does to the orders of a target. -/
inductive Flow (maxRetry : ℕ) (s t : State) (v : Target) : Prop
  | keep (ho : t.outward v ≤ s.outward v)
      (hr : inReturn t.tx t.messages v ≤ inReturn s.tx s.messages v)
  /-- A failure event is published. -/
  | back (ho : t.outward v+1 ≤ s.outward v)
      (hr : inReturn t.tx t.messages v ≤ inReturn s.tx s.messages v+1)
  | copy (ho : t.outward v ≤ s.outward v+1)
      (hr : inReturn t.tx t.messages v+1 ≤ inReturn s.tx s.messages v)
      (hlimit : v.retryCount s.tx+1 < maxRetry)
  | release (ho : t.outward v ≤ s.outward v+1)
      (hr : inReturn t.tx t.messages v ≤ inReturn s.tx s.messages v)
      (hnew : Waiting s.tx v)

/-- The balance that a recorded message refers to is there. -/
def Recorded (s : State) : Prop :=
  ∀ p ∈ s.user.processedEvents, ∃ m ∈ s.messages, ∃ b, balanceMessage m = some b ∧
    m.idempotencyKey = some p.idempotencyKey ∧ (s.user.balanceOf b.payer b.currency).isSome

section Released
variable {db : TxDb} {v : Target}

theorem payloadTarget_messagePayload (b : BalanceMessage) :
    payloadTarget (messagePayload b) = messageTarget b := by
  cases b <;> rfl

theorem payloadTarget_resultPayload (b : BalanceMessage) :
    payloadTarget b.resultPayload = messageTarget b := by
  cases b <;> rfl

theorem Waiting.not_released (h : Waiting db v) : ¬Released db v := by
  cases v with
  | deposit id =>
    obtain ⟨type,h⟩ := h
    rintro ⟨p,hp,hne,-⟩
    rw [h] at hp
    cases hp
    exact hne rfl
  | transfer outId inId =>
    intro hrel
    rw [Waiting] at h
    simp [Released,h] at hrel

/-- A genuine message was released. -/
theorem Genuine.released {b : BalanceMessage} (hb : Genuine db b) (h : EventsReleased db) :
    Released db (messageTarget b) := by
  obtain ⟨e,he,-,-,hp⟩ := hb.event
  refine h e he _ ?_
  rw [hp,Option.map_some,payloadTarget_messagePayload]

theorem Released.of_phase {db' : TxDb} (hv : Released db v)
    (h : ∀ id p, db.phase id = some p → ∃ p', db'.phase id = some p' ∧
      (p.2 ≠ .pending → p.2 ≠ .timeout → p'.2 ≠ .pending ∧ p'.2 ≠ .timeout)) :
    Released db' v := by
  cases v with
  | deposit id =>
    obtain ⟨p,hp,h1,h2⟩ := hv
    obtain ⟨p',hp',hkeep⟩ := h id p hp
    exact ⟨p',hp',hkeep h1 h2⟩
  | transfer outId inId =>
    obtain ⟨p,hp⟩ := Option.isSome_iff_exists.mp hv
    obtain ⟨p',hp',-⟩ := h outId p hp
    exact Option.isSome_iff_exists.mpr ⟨p',hp'⟩

theorem Released.insertTransaction (hv : Released db v) (data : Transaction) :
    Released ((Write.insertTransaction data).apply db) v :=
  hv.of_phase (fun id p hp => ⟨p,by rw [phase_insertTransaction,hp]; rfl,fun h1 h2 => ⟨h1,h2⟩⟩)

/-- Statuses that end a deposit, or take it further. -/
theorem Released.setStatus (hv : Released db v) {ids : List Uuid} {status : TransactionStatus}
    (h1 : status ≠ .pending) (h2 : status ≠ .timeout) :
    Released ((Write.setStatus ids status).apply db) v := by
  refine hv.of_phase (fun id p hp => ?_)
  rw [phase_setStatus,hp,Option.map_some]
  refine ⟨_,rfl,fun hp1 hp2 => ?_⟩
  split
  · exact ⟨h1,h2⟩
  · exact ⟨hp1,hp2⟩

theorem Released.addRetryCount (hv : Released db v) (ids : List Uuid) :
    Released ((Write.addRetryCount ids).apply db) v :=
  hv.of_phase (fun id p hp => ⟨p,by rw [phase_addRetryCount,hp],fun h1 h2 => ⟨h1,h2⟩⟩)

theorem Released.insertOutboxEvent (hv : Released db v) (data : OutboxEvent) :
    Released ((Write.insertOutboxEvent data).apply db) v :=
  hv.of_phase (fun _ p hp => ⟨p,hp,fun h1 h2 => ⟨h1,h2⟩⟩)

theorem Released.insertProcessedEvent (hv : Released db v) (data : ProcessedEvent) :
    Released ((Write.insertProcessedEvent data).apply db) v :=
  hv.of_phase (fun _ p hp => ⟨p,hp,fun h1 h2 => ⟨h1,h2⟩⟩)

/-- No call takes a release back. -/
theorem Released.effect (hv : Released db v) (hs : db.Sound) {c : TransactionCall} {ws : List Write}
    (he : TransactionCall.Effect db c ws) : Released (server.applyAll db ws) v := by
  cases he with
  | nothing => exact hv
  | created hid => exact hv.insertTransaction _
  | createdTransfer hout hin hne =>
    exact ((hv.insertTransaction _).insertTransaction _).insertOutboxEvent _
  | completed ht hp hst => exact (hv.setStatus (by simp) (by simp)).insertOutboxEvent _
  | @timedOut providerPaymentId u ht hp hst =>
    refine hv.of_phase (fun id p hph => ?_)
    simp only [Engine.applyAll_cons,Engine.applyAll_nil,server_apply,phase_setStatus,hph,
      Option.map_some]
    refine ⟨_,rfl,fun h1 h2 => ?_⟩
    split
    · rename_i hid
      have hid : id = u.id := by simpa using hid
      rw [hid,hs.phase_eq ht,hst] at hph
      cases hph
      exact absurd rfl h1
    · exact ⟨h1,h2⟩
  | updated hnew ht hst => exact (hv.setStatus (by simp) (by simp)).insertProcessedEvent _
  | updatedByIds hnew hout hin =>
    exact ((hv.setStatus (by simp) (by simp)).setStatus (by simp) (by simp)).insertProcessedEvent _
  | copied hnew hpres hlimit hevent hpay =>
    exact ((hv.addRetryCount _).insertOutboxEvent _).insertProcessedEvent _
  | failed hnew hpres hlimit => exact (hv.addRetryCount _).setStatus (by simp) (by simp)

/-- The new event of a call is released. -/
theorem released_newEvents (h : TxContents db) (hr : EventsReleased db) {c : TransactionCall}
    {ws : List Write} (hfit : Fits db c) (he : TransactionCall.Effect db c ws) {e : OutboxEvent}
    (hm : e ∈ newEvents ws) (hv : e.payload.map payloadTarget = some v) :
    Released (server.applyAll db ws) v := by
  have hsound := h.sound
  cases he with
  | @createdTransfer n hout hin hne =>
    simp only [newEvents,List.filterMap_cons,List.filterMap_nil,List.mem_singleton] at hm
    subst hm
    cases hv
    change ((((Write.insertTransaction n.txIn).apply
      ((Write.insertTransaction n.txOut).apply db))).phase n.outId).isSome
    rw [phase_insertTransaction,phase_insertTransaction]
    simp [NewTransfer.txOut]
  | @completed providerPaymentId eventId u ht hp hst =>
    simp only [newEvents,List.filterMap_cons,List.filterMap_nil,List.mem_singleton] at hm
    subst hm
    cases hv
    refine ⟨(u.type,.completed),?_,by simp,by simp⟩
    simp only [Engine.applyAll_cons,Engine.applyAll_nil,server_apply,phase_insertOutboxEvent,
      phase_setStatus]
    rw [show (u.depositPaid eventId).transactionId = u.id from rfl,hsound.phase_eq ht]
    simp
  | @copied c ids event hnew hpres hlimit hevent hpay =>
    simp only [newEvents,RetryCall.copyWrites,List.filterMap_cons,List.filterMap_nil,
      List.mem_singleton] at hm
    subst hm
    have hold : Released db v := hr event (h.outboxEvent_iff.mp hevent).1 v hv
    exact ((hold.addRetryCount _).insertOutboxEvent _).insertProcessedEvent _
  | _ => simp [newEvents,RetryCall.failWrites] at hm

theorem EventsReleased.effect (hr : EventsReleased db) (h : TxContents db) {c : TransactionCall}
    {ws : List Write} (hfit : Fits db c) (he : TransactionCall.Effect db c ws) :
    EventsReleased (server.applyAll db ws) := by
  intro e hm v hv
  rw [outboxEvents_applyAll,List.mem_append] at hm
  rcases hm with hm | hm
  · exact (hr e hm v hv).effect h.sound he
  · exact released_newEvents h hr hfit he hm hv

theorem EventsReleased.mark (hr : EventsReleased db) (ids : List Uuid) :
    EventsReleased (txTable.markEventsAsProcessed ids db) := by
  intro e he v hv
  obtain ⟨e',he',rfl⟩ := List.mem_map.mp he
  have hp : e'.payload.map payloadTarget = some v := by
    split at hv <;> exact hv
  exact (hr e' he' v hp).of_phase (fun _ p hp => ⟨p,hp,fun h1 h2 => ⟨h1,h2⟩⟩)

theorem Change.eventsReleased {s t : State} {maxRetry : ℕ} {a : Action}
    (hc : Change maxRetry s a t) (h : Contents s) (hr : EventsReleased s.tx)
    (hfresh : ∀ u ∈ a.uuids, u ∉ s.used) : EventsReleased t.tx := by
  cases hc with
  | request hacc he => exact hr.effect h.tx (fits_request h hacc hfresh) he
  | result hm hk hc he =>
    exact hr.effect h.tx (fits_result h hm hk hc (hfresh _ (by simp [Action.uuids]))) he
  | txMark => exact hr.mark _
  | _ => exact hr

end Released

section Carried
variable {s : State} {v : Target}

theorem Contents.genuine_of_event (h : Contents s) {e : OutboxEvent} (he : e ∈ s.tx.outboxEvents)
    (hv : e.payload.map payloadTarget = some v) : ∃ b, Genuine s.tx b ∧ messageTarget b = v := by
  obtain ⟨b,hb,-,hp⟩ := h.tx.events e he
  rw [hp,Option.map_some,payloadTarget_messagePayload,Option.some.injEq] at hv
  exact ⟨b,hb,hv⟩

theorem Contents.genuine_of_userEvent (h : Contents s) {e : UserService.OutboxEvent}
    (he : e ∈ s.user.outboxEvents) (hv : payloadTarget e.payload = v) :
    ∃ b, Genuine s.tx b ∧ messageTarget b = v := by
  obtain ⟨b,hb,hp,-⟩ := h.userEvents e he
  rw [hp,payloadTarget_resultPayload] at hv
  exact ⟨b,hb,hv⟩

theorem Contents.genuine_of_message (h : Contents s) {m : KafkaMessage} (hm : m ∈ s.messages)
    (hv : payloadTarget m.value = v) : ∃ b, Genuine s.tx b ∧ messageTarget b = v := by
  obtain ⟨b,hb,⟨-,hp⟩ | ⟨hp,-⟩⟩ := h.messages m hm
  · rw [hp,payloadTarget_messagePayload] at hv
    exact ⟨b,hb,hv⟩
  · rw [hp,payloadTarget_resultPayload] at hv
    exact ⟨b,hb,hv⟩

/-- There is an order for the target: it belongs to a genuine message. -/
theorem Contents.genuine_of_carried (h : Contents s) (hv : s.carried v ≠ 0) :
    ∃ b, Genuine s.tx b ∧ messageTarget b = v := by
  have hsome : inTxOutbox s.tx.outboxEvents s.messages v ≠ 0 ∨
      inBroker s.messages s.answered s.handlers v ≠ 0 ∨ inHandlers s.handlers v ≠ 0 ∨
      inUserOutbox s.user.outboxEvents s.messages v ≠ 0 ∨ settled s.user.outboxEvents v ≠ 0 ∨
      inReturn s.tx s.messages v ≠ 0 := by
    by_contra hall
    push Not at hall
    exact hv (by simp [State.carried,State.outward,hall])
  rcases hsome with hv | hv | hv | hv | hv | hv <;> obtain ⟨x,hx,hp⟩ := exists_of_countP_ne_zero hv
  · rw [Bool.and_eq_true,decide_eq_true_eq] at hp
    exact h.genuine_of_event hx hp.1
  · rw [Bool.and_eq_true,decide_eq_true_eq] at hp
    obtain ⟨b,hb,hbv⟩ := Option.map_eq_some_iff.mp hp.1
    exact ⟨b,(h.messages x hx).genuine hb,hbv⟩
  · exact ⟨x.message,h.handler_genuine hx,of_decide_eq_true hp⟩
  · rw [Bool.and_eq_true,Bool.and_eq_true,decide_eq_true_eq] at hp
    exact h.genuine_of_userEvent hx hp.1.2
  · rw [Bool.and_eq_true,decide_eq_true_eq] at hp
    exact h.genuine_of_userEvent hx hp.2
  · rw [Bool.and_eq_true,Bool.and_eq_true,decide_eq_true_eq] at hp
    exact h.genuine_of_message hx hp.1.2

/-- No order before the release. -/
theorem Contents.carried_eq_zero (h : Contents s) (hr : EventsReleased s.tx)
    (hv : ¬Released s.tx v) : s.carried v = 0 := by
  by_contra hne
  obtain ⟨b,hb,rfl⟩ := h.genuine_of_carried hne
  exact hv (hb.released hr)

end Carried

section Flow
variable {s : State} {v : Target} {maxRetry : ℕ}

/-- The writes of a call, with the new events counted. -/
theorem outward_applyAll (ws : List Write) (handled : List Uuid) :
    ({s with tx := server.applyAll s.tx ws, handled := handled} : State).outward v ≤
      s.outward v+(newEvents ws).countP (fun e => e.payload.map payloadTarget = some v) := by
  have := inTxOutbox_append s.tx.outboxEvents (newEvents ws) s.messages v
  simp only [State.outward,outboxEvents_applyAll]
  omega

theorem countP_newEvent (e : OutboxEvent) {u : Target}
    (hu : e.payload.map payloadTarget = some u) :
    [e].countP (fun e => e.payload.map payloadTarget = some v) = if u = v then 1 else 0 := by
  rw [List.countP_singleton]
  simp [hu]

/-- A call whose writes hold no event keeps the orders. -/
theorem flow_quiet {ws : List Write} (handled : List Uuid) (hnew : newEvents ws = []) :
    Flow maxRetry s {s with tx := server.applyAll s.tx ws, handled := handled} v := by
  have ho := outward_applyAll (s := s) (v := v) ws handled
  rw [hnew,List.countP_nil,Nat.add_zero] at ho
  exact .keep ho (inReturn_mono (fun _ => processed_applyAll ws))

/-- A call that releases a target gives one order. -/
theorem flow_release {ws : List Write} {e : OutboxEvent} {u : Target} (handled : List Uuid)
    (hnew : newEvents ws = [e]) (hu : e.payload.map payloadTarget = some u)
    (hrel : Waiting s.tx u) :
    Flow maxRetry s {s with tx := server.applyAll s.tx ws, handled := handled} v := by
  have ho := outward_applyAll (s := s) (v := v) ws handled
  rw [hnew,countP_newEvent e hu] at ho
  by_cases huv : u = v
  · subst huv
    rw [if_pos rfl] at ho
    exact .release ho (inReturn_mono (fun _ => processed_applyAll ws)) hrel
  · rw [if_neg huv,Nat.add_zero] at ho
    exact .keep ho (inReturn_mono (fun _ => processed_applyAll ws))

theorem flow_request (h : Contents s) {r : Request} {ws : List Write}
    (he : TransactionCall.Effect s.tx r.call ws) :
    Flow maxRetry s {s with tx := server.applyAll s.tx ws} v := by
  cases r with
  | depositRub n =>
    generalize hc : (Request.depositRub n).call = c at he
    cases he with
    | nothing => exact flow_quiet s.handled rfl
    | created hid => exact flow_quiet s.handled rfl
    | _ => cases hc
  | transferRub n =>
    generalize hc : (Request.transferRub n).call = c at he
    cases he with
    | nothing => exact flow_quiet s.handled rfl
    | @createdTransfer n' hout hin hne =>
      refine flow_release (e := n'.event) (u := .transfer n'.outId n'.inId) s.handled rfl rfl ?_
      simp [Waiting,TxDb.phase,hout]
    | _ => cases hc
  | succeeded paymentId eventId =>
    generalize hc : (Request.succeeded paymentId eventId).call = c at he
    cases he with
    | nothing => exact flow_quiet s.handled rfl
    | @completed paymentId' eventId' u ht hp hst =>
      refine flow_release (e := u.paidEvent eventId') (u := .deposit u.id) s.handled rfl rfl ?_
      exact ⟨u.type,by rw [h.tx.sound.phase_eq ht,hst]⟩
    | _ => cases hc
  | canceled paymentId =>
    generalize hc : (Request.canceled paymentId).call = c at he
    cases he with
    | nothing => exact flow_quiet s.handled rfl
    | timedOut ht hp hst => exact flow_quiet s.handled rfl
    | _ => cases hc

/-- A retry takes the failure message and gives a new order, or gives up. -/
theorem flow_recreate (h : Contents s) {m : KafkaMessage} {b : BalanceMessage} {key : Uuid}
    {ids : RetryIds} {ws : List Write} (hm : m ∈ s.messages) (hk : m.idempotencyKey = some key)
    (hb : Genuine s.tx b) (hv : m.value = b.resultPayload) (ht : m.topic = b.failedTopic)
    (handled : List Uuid)
    (he : TransactionCall.Effect s.tx (.recreate (failureCall maxRetry b key) ids) ws) :
    Flow maxRetry s {s with tx := server.applyAll s.tx ws, handled := handled} v := by
  cases he with
  | nothing => exact flow_quiet handled rfl
  | failed hnew hpres hlimit => exact flow_quiet handled rfl
  | @copied _ _ event hnew hpres hlimit hevent hpay =>
    have hcopy := (h.tx.payload_of_outboxEvent hb hevent).2
    have ho := outward_applyAll (s := s) (v := v)
      ((failureCall maxRetry b key).copyWrites ids event) handled
    have hevents : newEvents ((failureCall maxRetry b key).copyWrites ids event) =
        [RetryCall.copy ids event] := rfl
    rw [hevents,countP_newEvent (u := messageTarget b) _
      (by rw [RetryCall.copy,hcopy,Option.map_some,payloadTarget_messagePayload])] at ho
    by_cases hbv : messageTarget b = v
    · subst hbv
      rw [if_pos rfl] at ho
      refine .copy ho (inReturn_process (fun _ => processed_applyAll _) hm hk ?_ ?_ hnew ?_) hlimit
      · rw [ht]
        cases b <;> rfl
      · rw [hv,payloadTarget_resultPayload]
      · simp [RetryCall.copyWrites,RetryCall.record,failureCall,Write.apply,TxDb.processed]
    · rw [if_neg hbv,Nat.add_zero] at ho
      exact .keep ho (inReturn_mono (fun _ => processed_applyAll _))

theorem flow_result (h : Contents s) {m : KafkaMessage} {ids : RetryIds} {call : TransactionCall}
    {ws : List Write} {key : Uuid} (hm : m ∈ s.messages) (hk : m.idempotencyKey = some key)
    (hc : resultCall maxRetry m ids = some call) (he : TransactionCall.Effect s.tx call ws)
    (handled : List Uuid) :
    Flow maxRetry s {s with tx := server.applyAll s.tx ws, handled := handled} v := by
  obtain ⟨b,hb,hv,⟨-,rfl⟩ | ⟨ht,rfl⟩⟩ := resultCall_cases (h.messages m hm) hk hc
  · cases b with
    | depositPaidSuccess p =>
      generalize hcall : successCall (.depositPaidSuccess p) key ids.processedId = c at he
      cases he with
      | nothing => exact flow_quiet handled rfl
      | updated hnew ht hst => exact flow_quiet handled rfl
      | _ => cases hcall
    | transferInited p =>
      generalize hcall : successCall (.transferInited p) key ids.processedId = c at he
      cases he with
      | nothing => exact flow_quiet handled rfl
      | updatedByIds hnew hout hin => exact flow_quiet handled rfl
      | _ => cases hcall
  · exact flow_recreate h hm hk hb hv ht handled he

/-- The published event turns into a message. -/
theorem flow_txPublish (h : Contents s) {e : OutboxEvent} {events : List OutboxEvent}
    {processedIds ids' : List Uuid} {header : Uuid} {m : KafkaMessage}
    (ht : s.txTick = some ⟨e::events,processedIds⟩) (hm : txTable.message e header = some m)
    (hnew : ¬published s.messages e.id) :
    Flow maxRetry s {s with txTick := some ⟨events,ids'⟩, messages := s.messages++[m]} v := by
  have hfrozen := h.txTick _ ht e (by simp)
  obtain ⟨b,-,hp,rfl⟩ := h.speaks_txEvent hfrozen hm
  obtain ⟨e',he',hid,-,hep⟩ := stored_of_frozen hfrozen
  have hpay : e'.payload = some (messagePayload b) := hep.trans hp
  have hbm : balanceMessage ⟨e.id,b.topic,messagePayload b,some header⟩ = some b :=
    balanceMessage_iff.mpr ⟨rfl,rfl⟩
  have hfail : isFailure b.topic = false := by cases b <;> rfl
  have hbroker := inBroker_append_le s.messages s.answered s.handlers
    ⟨e.id,b.topic,messagePayload b,some header⟩ v
  have hreturn := inReturn_append_le s.tx s.messages ⟨e.id,b.topic,messagePayload b,some header⟩ v
  have huser := inUserOutbox_append_le s.user.outboxEvents s.messages
    ⟨e.id,b.topic,messagePayload b,some header⟩ v
  rw [hbm,Option.map_some] at hbroker
  rw [hfail,Bool.false_and,if_neg Bool.false_ne_true] at hreturn
  refine .keep ?_ hreturn
  simp only [State.outward]
  by_cases hv : messageTarget b = v
  · have hout := inTxOutbox_publish (m := ⟨e.id,b.topic,messagePayload b,some header⟩) (v := v)
      he' hid.symm (hid ▸ hnew) (by rw [hpay,Option.map_some,payloadTarget_messagePayload,hv])
    rw [if_pos (by rw [hv])] at hbroker
    omega
  · have hout := inTxOutbox_append_le s.tx.outboxEvents s.messages
      ⟨e.id,b.topic,messagePayload b,some header⟩ v
    rw [if_neg (by simpa using hv)] at hbroker
    omega

theorem flow_userPublish (h : Contents s) {e : UserService.OutboxEvent}
    {events : List UserService.OutboxEvent} {processedIds ids' : List Uuid} {header : Uuid}
    (ht : s.userTick = some ⟨e::events,processedIds⟩)
    (hnew : isFailure e.topic → ¬published s.messages e.id) :
    Flow maxRetry s {s with
      userTick := some ⟨events,ids'⟩
      messages := s.messages++[⟨e.id,e.topic,e.payload,some header⟩]} v := by
  have hfrozen := h.userTick _ ht e (by simp)
  obtain ⟨b,-,hp,htopic⟩ := h.answers_userEvent hfrozen
  obtain ⟨e',he',hid,het,hpay⟩ := stored_of_frozenUser hfrozen
  have hbm : balanceMessage ⟨e.id,e.topic,e.payload,some header⟩ = none := by
    refine Option.eq_none_iff_forall_ne_some.mpr (fun b' hb' => ?_)
    have hb' := (balanceMessage_iff.mp hb').1
    rcases htopic with htopic | htopic <;> rw [htopic] at hb'
    · exact successTopic_ne_topic b b' hb'
    · exact failedTopic_ne_topic b b' hb'
  have hbroker := inBroker_append_le s.messages s.answered s.handlers
    ⟨e.id,e.topic,e.payload,some header⟩ v
  have hreturn := inReturn_append_le s.tx s.messages ⟨e.id,e.topic,e.payload,some header⟩ v
  have hout := inTxOutbox_append_le s.tx.outboxEvents s.messages
    ⟨e.id,e.topic,e.payload,some header⟩ v
  rw [hbm,Option.map_none,if_neg (by simp),Nat.add_zero] at hbroker
  by_cases hf : isFailure e.topic && payloadTarget e.payload = v
  · rw [if_pos hf] at hreturn
    rw [Bool.and_eq_true,decide_eq_true_eq] at hf
    have huser := inUserOutbox_publish (m := ⟨e.id,e.topic,e.payload,some header⟩) (v := v)
      he' hid.symm (hid ▸ hnew hf.1) (het ▸ hf.1) (hpay ▸ hf.2)
    refine .back ?_ hreturn
    simp only [State.outward]
    omega
  · rw [if_neg hf,Nat.add_zero] at hreturn
    have huser := inUserOutbox_append_le s.user.outboxEvents s.messages
      ⟨e.id,e.topic,e.payload,some header⟩ v
    refine .keep ?_ hreturn
    simp only [State.outward]
    omega

/-- Marking changes no order. -/
theorem inTxOutbox_mark (ids : List Uuid) (db : TxDb) (messages : List KafkaMessage) :
    inTxOutbox (txTable.markEventsAsProcessed ids db).outboxEvents messages v =
      inTxOutbox db.outboxEvents messages v := by
  simp only [inTxOutbox,txTable,List.countP_map]
  refine List.countP_congr (fun e _ => ?_)
  simp only [Function.comp_apply]
  split <;> rfl

theorem inUserOutbox_mark (ids : List Uuid) (db : UserDb) (messages : List KafkaMessage) :
    inUserOutbox (userTable.markEventsAsProcessed ids db).outboxEvents messages v =
      inUserOutbox db.outboxEvents messages v := by
  simp only [inUserOutbox,userTable,List.countP_map]
  refine List.countP_congr (fun e _ => ?_)
  simp only [Function.comp_apply]
  split <;> rfl

theorem settled_mark (ids : List Uuid) (db : UserDb) :
    settled (userTable.markEventsAsProcessed ids db).outboxEvents v =
      settled db.outboxEvents v := by
  simp only [settled,userTable,List.countP_map]
  refine List.countP_congr (fun e _ => ?_)
  simp only [Function.comp_apply]
  split <;> rfl

theorem isSuccess_successTopic (b : BalanceMessage) : isSuccess b.successTopic := by
  cases b <;> rfl

theorem isFailure_successTopic (b : BalanceMessage) : isFailure b.successTopic = false := by
  cases b <;> rfl

theorem isSuccess_failedTopic (b : BalanceMessage) : isSuccess b.failedTopic = false := by
  cases b <;> rfl

theorem isFailure_failedTopic (b : BalanceMessage) : isFailure b.failedTopic := by
  cases b <;> rfl

/-- The committed money transaction settles the order of its message. -/
theorem flow_moved {m : KafkaMessage} {b : BalanceMessage} {ids : RunIds} {key : Uuid} {amount : ℤ}
    (hm : m ∈ s.messages) (hb : balanceMessage m = some b) (hk : m.idempotencyKey = some key)
    (hpay : b.payable amount s.user) (hopen : isOpen s.answered s.handlers m)
    (handled : List Uuid) :
    Flow maxRetry s
      ({s with handled := handled}.commit b (some key) (b.writes key amount ids s.user)) v := by
  obtain ⟨row,hrow⟩ := payer_of_payable hpay
  have hne : b.writes key amount ids s.user ≠ [] := by simp [BalanceMessage.writes]
  have huser := inUserOutbox_append s.user.outboxEvents
    ⟨ids.outboxId,row.id,b.successTopic,b.resultPayload,false⟩ s.messages v
  have hsettled := settled_append (v := v) s.user.outboxEvents
    ⟨ids.outboxId,row.id,b.successTopic,b.resultPayload,false⟩
  rw [isFailure_successTopic,Bool.false_and,if_neg Bool.false_ne_true] at huser
  rw [isSuccess_successTopic,Bool.true_and,payloadTarget_resultPayload] at hsettled
  have hclosed : ¬isOpen (s.answered++[key]) s.handlers m := by
    rw [isOpen_iff hk]
    simp
  have hmono : ∀ m ∈ s.messages, isOpen (s.answered++[key]) s.handlers m →
      isOpen s.answered s.handlers m := by
    intro m' _ ho
    cases hk' : m'.idempotencyKey with
    | none => simp [isOpen,hk'] at ho
    | some key' =>
      rw [isOpen_iff hk'] at ho ⊢
      exact ⟨fun hin => ho.1 (List.mem_append_left _ hin),ho.2⟩
  refine .keep ?_ le_rfl
  simp only [State.outward,State.commit,if_neg hne,userEvents_applyAll,newUserEvents_writes hrow,
    Option.toList_some]
  by_cases hv : messageTarget b = v
  · have hclose := inBroker_close (v := v) hmono hm (by rw [hb,Option.map_some,hv]) hopen hclosed
    rw [decide_eq_true hv,if_pos rfl] at hsettled
    omega
  · have hclose := inBroker_mono (v := v) hmono
    rw [decide_eq_false hv,if_neg Bool.false_ne_true] at hsettled
    omega

/-- The refused message goes to a handler. -/
theorem flow_refused {m : KafkaMessage} {b : BalanceMessage} {key : Uuid}
    (rest : Proc UserService.Stmt UserService.Res Unit UserService.Outcome)
    (hm : m ∈ s.messages) (hb : balanceMessage m = some b) (hk : m.idempotencyKey = some key)
    (hopen : isOpen s.answered s.handlers m) (handled : List Uuid) :
    Flow maxRetry s {s with
      handled := handled
      handlers := s.handlers++[⟨b,some key,rest⟩]} v := by
  have hclosed : ¬isOpen s.answered (s.handlers++[⟨b,some key,rest⟩]) m := by
    rw [isOpen_iff hk]
    simp
  have hmono : ∀ m ∈ s.messages, isOpen s.answered (s.handlers++[⟨b,some key,rest⟩]) m →
      isOpen s.answered s.handlers m := by
    intro m' _ ho
    cases hk' : m'.idempotencyKey with
    | none => simp [isOpen,hk'] at ho
    | some key' =>
      rw [isOpen_iff hk'] at ho ⊢
      exact ⟨ho.1,fun r hr => ho.2 r (List.mem_append_left _ hr)⟩
  refine .keep ?_ le_rfl
  simp only [State.outward,inHandlers_append]
  by_cases hv : messageTarget b = v
  · have hclose := inBroker_close (v := v) hmono hm (by rw [hb,Option.map_some,hv]) hopen hclosed
    rw [if_pos hv]
    omega
  · have hclose := inBroker_mono (v := v) hmono
    rw [if_neg hv]
    omega

/-- The failure event takes the order from its handler. -/
theorem flow_reported (h : Contents s) {i : ℕ} {r : Handler} {e : UserService.OutboxEvent}
    (hi : s.handlers[i]? = some r) (htopic : e.topic = r.message.failedTopic)
    (hpay : e.payload = r.message.resultPayload) :
    Flow maxRetry s ({s with handlers := s.handlers.eraseIdx i}.commit r.message r.idempotencyKey
      [.insertOutboxEvent e]) v := by
  obtain ⟨-,m,-,-,hkey⟩ := h.handlers r (List.mem_of_getElem? hi)
  have huser := inUserOutbox_append s.user.outboxEvents e s.messages v
  have hsettled := settled_append (v := v) s.user.outboxEvents e
  rw [htopic,hpay,isFailure_failedTopic,Bool.true_and,payloadTarget_resultPayload] at huser
  rw [htopic,isSuccess_failedTopic,Bool.false_and,if_neg Bool.false_ne_true] at hsettled
  have hhandlers := inHandlers_eraseIdx (v := v) hi
  have hmono : ∀ m ∈ s.messages, isOpen (s.answered++r.idempotencyKey.toList)
      (s.handlers.eraseIdx i) m → isOpen s.answered s.handlers m := by
    intro m' _ ho
    have hsame : isOpen s.answered (s.handlers.eraseIdx i) m' ∧
        m'.idempotencyKey ≠ r.idempotencyKey := by
      cases hk' : m'.idempotencyKey with
      | none => simp [isOpen,hk'] at ho
      | some key' =>
        rw [isOpen_iff hk'] at ho ⊢
        refine ⟨⟨fun hin => ho.1 (List.mem_append_left _ hin),ho.2⟩,fun heq => ho.1 ?_⟩
        simp [← heq]
    exact (isOpen_eraseIdx hi hsame.1).resolve_right hsame.2
  have hbroker := inBroker_mono (v := v) hmono
  have hevents : ((UserService.server true).applyAll s.user [.insertOutboxEvent e]).outboxEvents =
      s.user.outboxEvents++[e] := rfl
  refine .keep ?_ le_rfl
  simp only [State.outward,State.commit,if_neg (List.cons_ne_nil _ _),hevents]
  by_cases hv : messageTarget r.message = v
  · rw [decide_eq_true hv,if_pos rfl] at huser
    rw [if_pos hv] at hhandlers
    omega
  · rw [decide_eq_false hv,if_neg Bool.false_ne_true] at huser
    rw [if_neg hv] at hhandlers
    omega

/-- A handler that is dropped opens its message again. -/
theorem flow_dropped (h : Contents s) {i : ℕ} {r : Handler} (hi : s.handlers[i]? = some r) :
    Flow maxRetry s {s with handlers := s.handlers.eraseIdx i} v := by
  obtain ⟨-,m,hm,hb,hkey⟩ := h.handlers r (List.mem_of_getElem? hi)
  have hhandlers := inHandlers_eraseIdx (v := v) hi
  refine .keep ?_ le_rfl
  simp only [State.outward]
  by_cases hv : messageTarget r.message = v
  · have hbroker : inBroker s.messages s.answered (s.handlers.eraseIdx i) v ≤
        inBroker s.messages s.answered s.handlers v+1 := by
      refine countP_le_add_one h.headers (k := r.idempotencyKey) (fun m' _ ho => ?_)
      rw [Bool.and_eq_true] at ho ⊢
      exact (isOpen_eraseIdx hi ho.2).imp_left (fun hopen => ⟨ho.1,hopen⟩)
    rw [if_pos hv] at hhandlers
    omega
  · have hbroker : inBroker s.messages s.answered (s.handlers.eraseIdx i) v ≤
        inBroker s.messages s.answered s.handlers v := by
      refine List.countP_mono_left (fun m' hm' ho => ?_)
      rw [Bool.and_eq_true,decide_eq_true_eq] at ho ⊢
      refine ⟨ho.1,(isOpen_eraseIdx hi ho.2).resolve_right (fun heq => hv ?_)⟩
      have hsame := List.inj_on_of_nodup_map h.headers hm' hm (heq.trans hkey.symm)
      have htarget := ho.1
      rw [hsame,hb,Option.map_some,Option.some.injEq] at htarget
      exact htarget
    rw [if_neg hv] at hhandlers
    omega

theorem Recorded.balanceOf (hrec : Recorded s) (h : Contents s) {m : KafkaMessage}
    (hm : m ∈ s.messages) {b : BalanceMessage} {key : Uuid} (hb : balanceMessage m = some b)
    (hk : m.idempotencyKey = some key) (hp : (s.user.processed key).isSome) :
    (s.user.balanceOf b.payer b.currency).isSome := by
  obtain ⟨p,hp⟩ := Option.isSome_iff_exists.mp hp
  obtain ⟨m',hm',b',hb',hk',hrow⟩ := hrec p (List.mem_of_find?_eq_some hp)
  have hkey : p.idempotencyKey = key := by simpa using List.find?_some hp
  have hsame := List.inj_on_of_nodup_map h.headers hm' hm (by rw [hk',hk,hkey])
  rw [hsame,hb,Option.some.injEq] at hb'
  exact hb' ▸ hrow

/-- A careful step gives no order away twice. -/
theorem Change.flow {t : State} {a : Action} (hc : Change maxRetry s a t) (h : Contents s)
    (hrec : Recorded s) (hcare : s.Careful a) (v : Target) : Flow maxRetry s t v := by
  cases hc with
  | request hr he => exact flow_request h he
  | createAccount hids hnew hacc => exact .keep le_rfl le_rfl
  | txIdle ht => exact .keep le_rfl le_rfl
  | @txPublish p e events ids ids' header m ht hp hm =>
    exact flow_txPublish h ht hm (hcare (by simp [hp]) _ ht e (by simp))
  | txMark =>
    refine .keep ?_ le_rfl
    simp only [State.outward,inTxOutbox_mark]
    exact le_rfl
  | userIdle ht => exact .keep le_rfl le_rfl
  | @userPublish p e events ids ids' header ht hp =>
    exact flow_userPublish h ht (hcare (by simp [hp]) _ ht e (by simp))
  | userMark =>
    refine .keep ?_ le_rfl
    simp only [State.outward,inUserOutbox_mark,settled_mark]
    exact le_rfl
  | skipped hm hb hk => exact .keep le_rfl le_rfl
  | moved hm hb hk ha hnew hpay =>
    have hopen := (hcare _ _ _ hb hk ha).resolve_right (fun hdone => by simp [hnew] at hdone)
    exact flow_moved hm hb hk hpay hopen _
  | @refused m b ids fault key amount hm hb hk ha hcause =>
    have hopen := (hcare _ _ _ hb hk ha).resolve_right
      (fun hdone => hdone.2 (hcause hdone.1 (hrec.balanceOf h hm hb hk hdone.1)))
    exact flow_refused _ hm hb hk hopen _
  | reported hi htopic hpay => exact flow_reported h hi htopic hpay
  | dropped hi => exact flow_dropped h hi
  | result hm hk hc he => exact flow_result h hm hk hc he _

end Flow
end NestHomework.Services
