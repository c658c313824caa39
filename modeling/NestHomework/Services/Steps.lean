import NestHomework.Services.Contents

/-! What a step of the two services can do, and what their tables, messages and handlers hold after
any steps. -/
namespace NestHomework.Services
open Contracts Postgres Outbox TransactionService
open UserService (BalanceMessage UserDb Balance RunIds)

def frozenUserEvents (db : UserDb) : List UserService.OutboxEvent :=
  db.outboxEvents.map (fun e => {e with processed := false})

/-- A money message, or the outcome of one. -/
def Speaks (db : TxDb) (m : KafkaMessage) : Prop :=
  ∃ b, Genuine db b ∧ ((m.topic = b.topic ∧ m.value = messagePayload b) ∨
    (m.value = b.resultPayload ∧ (m.topic = b.successTopic ∨ m.topic = b.failedTopic)))

/-- The row tells the outcome of a money message. -/
def Answers (db : TxDb) (e : UserService.OutboxEvent) : Prop :=
  ∃ b, Genuine db b ∧ e.payload = b.resultPayload ∧
    (e.topic = b.successTopic ∨ e.topic = b.failedTopic)

structure Contents (s : State) : Prop where
  tx : TxContents s.tx
  user : s.user.WellFormed
  txUsed : ∀ e ∈ s.tx.outboxEvents, e.id ∈ s.used
  txTick : ∀ t, s.txTick = some t → ∀ e ∈ t.events, {e with processed := false} ∈ frozenEvents s.tx
  userTick : ∀ t, s.userTick = some t →
    ∀ e ∈ t.events, {e with processed := false} ∈ frozenUserEvents s.user
  userEvents : ∀ e ∈ s.user.outboxEvents, Answers s.tx e
  messages : ∀ m ∈ s.messages, Speaks s.tx m
  headers : (s.messages.map (·.idempotencyKey)).Nodup
  headersUsed : ∀ m ∈ s.messages, ∃ key ∈ s.used, m.idempotencyKey = some key
  handlers : ∀ h ∈ s.handlers, (∃ ids, h.rest = h.message.catchBlock ids) ∧
    ∃ m ∈ s.messages, balanceMessage m = some h.message ∧ m.idempotencyKey = h.idempotencyKey

/-- What a step can do. -/
inductive Change (maxRetry : ℕ) (s : State) : Action → State → Prop
  | request {r fault ws} (hr : r.accepted) (he : TransactionCall.Effect s.tx r.call ws) :
      Change maxRetry s (.request r fault) {s with tx := server.applyAll s.tx ws}
  | createAccount {accountId rubId usdId usdtId} (hids : [rubId,usdId,usdtId].Nodup)
      (hnew : ∀ b ∈ s.user.balances, b.id ∉ [rubId,usdId,usdtId])
      (hacc : ∀ b ∈ s.user.balances, b.accountId ≠ accountId) :
      Change maxRetry s (.createAccount accountId rubId usdId usdtId)
        {s with user := s.user.createAccount accountId rubId usdId usdtId}
  | txIdle {a tick} (ht : ∀ t, tick = some t →
      ∀ e ∈ t.events, {e with processed := false} ∈ frozenEvents s.tx) :
      Change maxRetry s (.txWorker a) {s with txTick := tick}
  | txPublish {p e events ids ids' header m} (ht : s.txTick = some ⟨e::events,ids⟩)
      (hp : p.header = some header) (hm : txTable.message e header = some m) :
      Change maxRetry s (.txWorker (.publish p))
        {s with txTick := some ⟨events,ids'⟩, messages := s.messages++[m]}
  | txMark {fails ids} : Change maxRetry s (.txWorker (.mark fails))
      {s with txTick := none, tx := txTable.markEventsAsProcessed ids s.tx}
  | userIdle {a tick} (ht : ∀ t, tick = some t →
      ∀ e ∈ t.events, {e with processed := false} ∈ frozenUserEvents s.user) :
      Change maxRetry s (.userWorker a) {s with userTick := tick}
  | userPublish {p e events ids ids' header} (ht : s.userTick = some ⟨e::events,ids⟩)
      (hp : p.header = some header) :
      Change maxRetry s (.userWorker (.publish p)) {s with
        userTick := some ⟨events,ids'⟩
        messages := s.messages++[⟨e.id,e.topic,e.payload,some header⟩]}
  | userMark {fails ids} : Change maxRetry s (.userWorker (.mark fails))
      {s with userTick := none, user := userTable.markEventsAsProcessed ids s.user}
  | skipped {m b ids fault key} (hm : m ∈ s.messages) (hb : balanceMessage m = some b)
      (hk : m.idempotencyKey = some key) :
      Change maxRetry s (.handleBalance m ids fault) {s with handled := s.handled++[key]}
  | moved {m b ids fault key amount} (hm : m ∈ s.messages) (hb : balanceMessage m = some b)
      (hk : m.idempotencyKey = some key) (ha : b.amount = some amount)
      (hnew : s.user.processed key = none) (hpay : b.payable amount s.user) :
      Change maxRetry s (.handleBalance m ids fault)
        ({s with handled := s.handled++[key]}.commit b (some key) (b.writes key amount ids s.user))
  | refused {m b ids fault key amount} (hm : m ∈ s.messages) (hb : balanceMessage m = some b)
      (hk : m.idempotencyKey = some key) (ha : b.amount = some amount)
      (hcause : (s.user.processed key).isSome → (s.user.balanceOf b.payer b.currency).isSome →
        (UserService.server true).interrupts fault (b.call key amount ids).body s.user) :
      Change maxRetry s (.handleBalance m ids fault) {s with
        handled := s.handled++[key]
        handlers := s.handlers++[⟨b,some key,b.catchBlock ids⟩]}
  | reported {i h fault} {e : UserService.OutboxEvent} (hi : s.handlers[i]? = some h)
      (htopic : e.topic = h.message.failedTopic) (hpay : e.payload = h.message.resultPayload) :
      Change maxRetry s (.resume i fault) ({s with handlers := s.handlers.eraseIdx i}.commit
        h.message h.idempotencyKey [.insertOutboxEvent e])
  | dropped {i h fault} (hi : s.handlers[i]? = some h) :
      Change maxRetry s (.resume i fault) {s with handlers := s.handlers.eraseIdx i}
  | result {m ids fault call ws key} (hm : m ∈ s.messages) (hk : m.idempotencyKey = some key)
      (hc : resultCall maxRetry m ids = some call) (he : TransactionCall.Effect s.tx call ws) :
      Change maxRetry s (.handleResult m ids fault)
        {s with tx := server.applyAll s.tx ws, handled := s.handled++[key]}

section Messages
variable {db : TxDb} {m : KafkaMessage} {b : BalanceMessage}

theorem balanceMessage_iff :
    balanceMessage m = some b ↔ m.topic = b.topic ∧ m.value = messagePayload b := by
  unfold balanceMessage
  constructor
  · intro h
    split at h
    · rename_i ht hv
      cases h
      exact ⟨ht,hv⟩
    · rename_i ht hv
      cases h
      exact ⟨ht,hv⟩
    · contradiction
  · rintro ⟨ht,hv⟩
    cases b <;> simp [ht,hv,BalanceMessage.topic,messagePayload]

theorem successTopic_ne_topic (b b' : BalanceMessage) : b.successTopic ≠ b'.topic := by
  cases b <;> cases b' <;> simp [BalanceMessage.successTopic,BalanceMessage.topic]

theorem failedTopic_ne_topic (b b' : BalanceMessage) : b.failedTopic ≠ b'.topic := by
  cases b <;> cases b' <;> simp [BalanceMessage.failedTopic,BalanceMessage.topic]

theorem Speaks.genuine (h : Speaks db m) (hb : balanceMessage m = some b) : Genuine db b := by
  obtain ⟨ht,hv⟩ := balanceMessage_iff.mp hb
  obtain ⟨b',hgen,h' | ⟨-,h' | h'⟩⟩ := h
  · have := balanceMessage_iff.mpr h'
    rw [hb] at this
    cases this
    exact hgen
  · exact absurd (h'.symm.trans ht) (successTopic_ne_topic b' b)
  · exact absurd (h'.symm.trans ht) (failedTopic_ne_topic b' b)

/-- The amount of a genuine message is a number. -/
theorem Genuine.amount (h : Genuine db b) : ∃ amount, b.amount = some amount := by
  cases b with
  | depositPaidSuccess p =>
    obtain ⟨n,-,hp,-⟩ := h
    refine ⟨n.amount,?_⟩
    rw [hp]
    exact Shared.stringToBigInt_toString n.amount
  | transferInited p =>
    obtain ⟨n,-,rfl,-⟩ := h
    exact ⟨n.amount,Shared.stringToBigInt_toString n.amount⟩

/-- The call for a success message. -/
def successCall (b : BalanceMessage) (idempotencyKey processedId : Uuid) : TransactionCall :=
  match b with
  | .depositPaidSuccess p => .setStatusUpdated idempotencyKey p.transactionId processedId
  | .transferInited p => .setStatusUpdatedByIds idempotencyKey p.outId p.inId processedId

/-- The call for a failure message. -/
def failureCall (maxRetry : ℕ) (b : BalanceMessage) (idempotencyKey : Uuid) : RetryCall :=
  ⟨messageTarget b,idempotencyKey,messageEventId b,maxRetry,b.failedTopic⟩

theorem resultCall_cases {maxRetry : ℕ} {ids : RetryIds} {call : TransactionCall} {key : Uuid}
    (h : Speaks db m) (hk : m.idempotencyKey = some key)
    (hc : resultCall maxRetry m ids = some call) :
    ∃ b, Genuine db b ∧ m.value = b.resultPayload ∧
      ((m.topic = b.successTopic ∧ call = successCall b key ids.processedId) ∨
        (m.topic = b.failedTopic ∧ call = .recreate (failureCall maxRetry b key) ids)) := by
  obtain ⟨b,hgen,⟨ht,hv⟩ | ⟨hv,ht⟩⟩ := h
  · unfold resultCall at hc
    rw [hk,ht,hv] at hc
    cases b <;> cases hc
  · unfold resultCall at hc
    refine ⟨b,hgen,hv,?_⟩
    rcases ht with ht | ht <;> rw [hk,ht,hv] at hc <;> cases b <;> cases hc
    · exact .inl ⟨ht,rfl⟩
    · exact .inl ⟨ht,rfl⟩
    · exact .inr ⟨ht,rfl⟩
    · exact .inr ⟨ht,rfl⟩

end Messages

section Inversion
variable {s s' : State} {maxRetry : ℕ}

theorem mem_frozenEvents {db : TxDb} {e : OutboxEvent} (h : e ∈ txTable.unprocessed db) :
    {e with processed := false} ∈ frozenEvents db :=
  List.mem_map.mpr ⟨e,(List.mem_filter.mp h).1,rfl⟩

theorem mem_frozenUserEvents {db : UserDb} {e : UserService.OutboxEvent}
    (h : e ∈ userTable.unprocessed db) : {e with processed := false} ∈ frozenUserEvents db :=
  List.mem_map.mpr ⟨e,(List.mem_filter.mp h).1,rfl⟩

theorem change_of_txWorker (h : Contents s) {a : WorkerAction OutboxEvent}
    {w : Work TxDb OutboxEvent} (hw : txTable.Works s.txTick s.tx a w) :
    Change maxRetry s (.txWorker a)
      {s with tx := w.db, txTick := w.tick, messages := s.messages++w.sent.toList} := by
  cases hw with
  | @idle a tick' hread =>
    rw [Option.toList_none,List.append_nil]
    refine .txIdle (fun t' ht' e he => ?_)
    rcases hread t' ht' e he with hm | ⟨t,ht,hm⟩
    · exact mem_frozenEvents hm
    · exact h.txTick t ht e hm
  | @publish p e events ids ids' header ht hp =>
    cases hm : txTable.message e header with
    | none =>
      rw [Option.toList_none,List.append_nil]
      refine .txIdle (fun t' ht' e' he => ?_)
      cases ht'
      exact h.txTick _ ht e' (List.mem_cons_of_mem _ he)
    | some m => exact .txPublish ht hp hm
  | mark =>
    rw [Option.toList_none,List.append_nil]
    exact .txMark

theorem change_of_userWorker (h : Contents s) {a : WorkerAction UserService.OutboxEvent}
    {w : Work UserDb UserService.OutboxEvent} (hw : userTable.Works s.userTick s.user a w) :
    Change maxRetry s (.userWorker a)
      {s with user := w.db, userTick := w.tick, messages := s.messages++w.sent.toList} := by
  cases hw with
  | @idle a tick' hread =>
    rw [Option.toList_none,List.append_nil]
    refine .userIdle (fun t' ht' e he => ?_)
    rcases hread t' ht' e he with hm | ⟨t,ht,hm⟩
    · exact mem_frozenUserEvents hm
    · exact h.userTick t ht e hm
  | publish ht hp => exact .userPublish ht hp
  | mark =>
    rw [Option.toList_none,List.append_nil]
    exact .userMark

theorem change_of_handleBalance (h : Contents s) {m : KafkaMessage} (hm : m ∈ s.messages)
    {b : BalanceMessage} (hb : balanceMessage m = some b) (ids : RunIds) (fault : Option ℕ) :
    Change maxRetry s (.handleBalance m ids fault)
      ({s with handled := s.handled++m.idempotencyKey.toList}.proceed b m.idempotencyKey fault
        (b.handle m.idempotencyKey ids)) := by
  obtain ⟨key,-,hk⟩ := h.headersUsed m hm
  obtain ⟨amount,ha⟩ := ((h.messages m hm).genuine hb).amount
  rw [hk,b.handle_some key ids ha]
  simp only [State.proceed,Option.toList_some]
  cases hrun : (UserService.server true).run fault (b.call key amount ids).body s.user with
  | ok x =>
    obtain ⟨⟨⟩,ws⟩ := x
    rcases b.call_ok h.user key amount ids hrun with rfl | ⟨hnew,hpay,rfl⟩
    · exact .skipped hm hb hk
    · exact .moved hm hb hk ha hnew hpay
  | error e =>
    simp only [BalanceMessage.afterCall,b.catchBlock_eq,State.park]
    rw [← b.catchBlock_eq]
    exact .refused hm hb hk ha (b.interrupts_of_call_error h.user key amount ids hrun)

theorem change_of_resume (h : Contents s) {i : ℕ} {r : Handler} (hi : s.handlers[i]? = some r)
    (fault : Option ℕ) : Change maxRetry s (.resume i fault)
      ({s with handlers := s.handlers.eraseIdx i}.proceed r.message r.idempotencyKey fault
        r.rest) := by
  obtain ⟨⟨ids,hrest⟩,-⟩ := h.handlers r (List.mem_of_getElem? hi)
  rw [hrest,BalanceMessage.catchBlock_eq]
  simp only [State.proceed]
  cases hrun : (UserService.server true).run fault (r.message.failure ids).body s.user with
  | ok x =>
    obtain ⟨⟨⟩,ws⟩ := x
    obtain ⟨e,htopic,hpay,rfl⟩ := r.message.failure_committed hrun
    exact .reported hi htopic hpay
  | error e => exact .dropped hi

/-- The inversion of a step. -/
theorem change_of_step (h : Contents s) {a : Action} (hs : s.step maxRetry a = some s') :
    Change maxRetry s a s' := by
  cases a with
  | request r fault =>
    simp only [State.step] at hs
    split at hs
    · rename_i hr
      cases hs
      obtain ⟨ws,he,hafter⟩ := r.call.exists_effect fault s.tx
      rw [hafter]
      exact .request hr he
    · contradiction
  | createAccount accountId rubId usdId usdtId =>
    simp only [State.step] at hs
    split at hs
    · rename_i hnew
      cases hs
      exact .createAccount hnew.1 hnew.2.1 hnew.2.2
    · contradiction
  | txWorker a =>
    obtain ⟨w,hw,rfl⟩ := Option.map_eq_some_iff.mp hs
    exact change_of_txWorker h (Table.works_of_work hw)
  | userWorker a =>
    obtain ⟨w,hw,rfl⟩ := Option.map_eq_some_iff.mp hs
    exact change_of_userWorker h (Table.works_of_work hw)
  | handleBalance m ids fault =>
    simp only [State.step] at hs
    split at hs
    · rename_i hm
      obtain ⟨b,hb,rfl⟩ := Option.map_eq_some_iff.mp hs
      exact change_of_handleBalance h hm hb ids fault
    · contradiction
  | resume i fault =>
    obtain ⟨r,hr,rfl⟩ := Option.map_eq_some_iff.mp hs
    exact change_of_resume h hr fault
  | handleResult m ids fault =>
    simp only [State.step] at hs
    split at hs
    · rename_i hm
      obtain ⟨call,hc,rfl⟩ := Option.map_eq_some_iff.mp hs
      obtain ⟨ws,he,hafter⟩ := call.exists_effect fault s.tx
      obtain ⟨key,-,hk⟩ := h.headersUsed m hm
      rw [hafter,hk]
      exact .result hm hk hc he
    · contradiction

end Inversion

section Preserved
variable {s t : State} {maxRetry : ℕ} {a : Action}

theorem Change.older (h : Change maxRetry s a t) : Older s.tx t.tx := by
  cases h with
  | request hr he => exact Older.applyAll _ _
  | result hm hk hc he => exact Older.applyAll _ _
  | txMark => exact Older.mark _
  | _ => exact Older.refl _

theorem Change.used_eq (h : Change maxRetry s a t) : t.used = s.used := by
  cases h <;> rfl

/-- Messages are only added. -/
theorem Change.messages_subset (h : Change maxRetry s a t) : ∀ m ∈ s.messages, m ∈ t.messages := by
  cases h with
  | txPublish ht hp hm => exact fun m hm => List.mem_append_left _ hm
  | userPublish ht hp => exact fun m hm => List.mem_append_left _ hm
  | _ => exact fun m => id

theorem mem_eventUuids_request {r : Request} {u : Uuid} (h : u ∈ eventUuids r.call) :
    u ∈ r.uuids := by
  cases r <;> simp_all [Request.call,Request.uuids,eventUuids]

theorem mem_eventUuids_result {m : KafkaMessage} {ids : RetryIds} {call : TransactionCall}
    (hc : resultCall maxRetry m ids = some call) {u : Uuid} (h : u ∈ eventUuids call) :
    u = ids.outboxId := by
  unfold resultCall at hc
  split at hc <;> cases hc <;> simp_all [eventUuids]

theorem fits_request (h : Contents s) {r : Request} (hr : r.accepted)
    (hfresh : ∀ u ∈ r.uuids, u ∉ s.used) : Fits s.tx r.call := by
  refine ⟨fun e he hu => hfresh _ (mem_eventUuids_request hu) (h.txUsed e he),?_,?_⟩
  · intro n hn
    cases r <;> cases hn
    simpa [Request.accepted] using hr
  · intro c ids hc
    cases r <;> cases hc

theorem fits_result (h : Contents s) {m : KafkaMessage} (hm : m ∈ s.messages) {ids : RetryIds}
    {call : TransactionCall} {key : Uuid} (hk : m.idempotencyKey = some key)
    (hc : resultCall maxRetry m ids = some call) (hfresh : ids.outboxId ∉ s.used) :
    Fits s.tx call := by
  refine ⟨fun e he hu => hfresh (mem_eventUuids_result hc hu ▸ h.txUsed e he),?_,?_⟩
  · rintro n rfl
    obtain ⟨b,-,-,⟨-,hcall⟩ | ⟨-,hcall⟩⟩ := resultCall_cases (h.messages m hm) hk hc
    · cases b <;> cases hcall
    · cases hcall
  · rintro r ids' rfl
    obtain ⟨b,hgen,-,⟨-,hcall⟩ | ⟨-,hcall⟩⟩ := resultCall_cases (h.messages m hm) hk hc
    · cases b <;> cases hcall
    · cases hcall
      exact ⟨b,hgen,rfl,rfl⟩

theorem Change.tx_contents (hc : Change maxRetry s a t) (h : Contents s)
    (hfresh : ∀ u ∈ a.uuids, u ∉ s.used) : TxContents t.tx := by
  cases hc with
  | request hr he => exact h.tx.effect (fits_request h hr hfresh) he
  | result hm hk hc he =>
    exact h.tx.effect (fits_result h hm hk hc (hfresh _ (by simp [Action.uuids]))) he
  | txMark => exact h.tx.mark _
  | _ => exact h.tx

theorem Change.tx_used (hc : Change maxRetry s a t) (h : Contents s) :
    ∀ e ∈ t.tx.outboxEvents, e.id ∈ s.used++a.uuids := by
  have hold : ∀ e ∈ s.tx.outboxEvents, e.id ∈ s.used++a.uuids :=
    fun e he => List.mem_append_left _ (h.txUsed e he)
  cases hc with
  | request hr he =>
    intro e hm
    rw [outboxEvents_applyAll,List.mem_append] at hm
    rcases hm with hm | hm
    · exact hold e hm
    · exact List.mem_append_right _ (mem_eventUuids_request (effect_newEvents he hm))
  | result hm hk hc he =>
    intro e hm
    rw [outboxEvents_applyAll,List.mem_append] at hm
    rcases hm with hm | hm
    · exact hold e hm
    · rw [mem_eventUuids_result hc (effect_newEvents he hm)]
      simp [Action.uuids]
  | txMark =>
    intro e he
    obtain ⟨e',he',rfl⟩ := List.mem_map.mp he
    have := hold e' he'
    split <;> exact this
  | _ => exact hold

theorem Change.user_wellFormed (hc : Change maxRetry s a t) (h : Contents s) :
    t.user.WellFormed := by
  have hlater : ∀ ws, ((UserService.server true).applyAll s.user ws).WellFormed := fun ws =>
    UserService.Later.wellFormed
      (UserService.Later.applyAll (UserService.Similar.refl _ _ s.user) ws) h.user
  cases hc with
  | createAccount hids hnew hacc => exact h.user.createAccount hids hnew hacc
  | userMark => exact ⟨h.user.ids,h.user.accounts⟩
  | moved hm hb hk ha hnew hpay => exact hlater _
  | reported hi htopic hpay => exact hlater _
  | _ => exact h.user

theorem Answers.mono {db db' : TxDb} (h : Older db db') {e : UserService.OutboxEvent}
    (ha : Answers db e) : Answers db' e := by
  obtain ⟨b,hb,hrest⟩ := ha
  exact ⟨b,hb.mono h,hrest⟩

theorem Speaks.mono {db db' : TxDb} (h : Older db db') {m : KafkaMessage} (hm : Speaks db m) :
    Speaks db' m := by
  obtain ⟨b,hb,hrest⟩ := hm
  exact ⟨b,hb.mono h,hrest⟩

/-- A handler handles a genuine message. -/
theorem Contents.handler_genuine (h : Contents s) {r : Handler} (hr : r ∈ s.handlers) :
    Genuine s.tx r.message := by
  obtain ⟨-,m,hm,hb,-⟩ := h.handlers r hr
  exact (h.messages m hm).genuine hb

/-- The stored event that a read one was. -/
theorem stored_of_frozen {db : TxDb} {e : OutboxEvent}
    (he : {e with processed := false} ∈ frozenEvents db) :
    ∃ e' ∈ db.outboxEvents, e'.id = e.id ∧ e'.topic = e.topic ∧ e'.payload = e.payload := by
  obtain ⟨e',he',heq⟩ := List.mem_map.mp he
  simp only [OutboxEvent.mk.injEq] at heq
  exact ⟨e',he',heq.1,heq.2.2.1,heq.2.2.2.1⟩

theorem stored_of_frozenUser {db : UserDb} {e : UserService.OutboxEvent}
    (he : {e with processed := false} ∈ frozenUserEvents db) :
    ∃ e' ∈ db.outboxEvents, e'.id = e.id ∧ e'.topic = e.topic ∧ e'.payload = e.payload := by
  obtain ⟨e',he',heq⟩ := List.mem_map.mp he
  simp only [UserService.OutboxEvent.mk.injEq] at heq
  exact ⟨e',he',heq.1,heq.2.2.1,heq.2.2.2.1⟩

/-- The payload of a message that an unprocessed event was read for. -/
theorem Contents.speaks_txEvent (h : Contents s) {e : OutboxEvent} {m : KafkaMessage} {header : Uuid}
    (he : {e with processed := false} ∈ frozenEvents s.tx) (hm : txTable.message e header = some m) :
    ∃ b, Genuine s.tx b ∧ e.payload = some (messagePayload b) ∧
      m = ⟨e.id,b.topic,messagePayload b,some header⟩ := by
  obtain ⟨e',he',-,htopic,hpay⟩ := stored_of_frozen he
  obtain ⟨b,hb,hbt,hbp⟩ := h.tx.events e' he'
  have hep : e.payload = some (messagePayload b) := hpay.symm.trans hbp
  have het : e.topic = b.topic := htopic.symm.trans hbt
  refine ⟨b,hb,hep,?_⟩
  simp only [txTable,hep,het,Option.map_some,Option.some.injEq] at hm
  exact hm.symm

theorem Contents.answers_userEvent (h : Contents s) {e : UserService.OutboxEvent}
    (he : {e with processed := false} ∈ frozenUserEvents s.user) : Answers s.tx e := by
  obtain ⟨e',he',-,htopic,hpay⟩ := stored_of_frozenUser he
  obtain ⟨b,hb,hbp,hbt⟩ := h.userEvents e' he'
  exact ⟨b,hb,hpay.symm.trans hbp,htopic ▸ hbt⟩

/-- The events of the user service are only added to. -/
theorem outboxEvents_commit (b : BalanceMessage) (key : Option Uuid) (ws : List UserService.Write) :
    ∀ e ∈ (s.commit b key ws).user.outboxEvents,
      e ∈ s.user.outboxEvents ∨ .insertOutboxEvent e ∈ ws := fun _ he =>
  (UserService.mem_outboxEvents_applyAll ws).mp he

theorem Change.userEvents (hc : Change maxRetry s a t) (h : Contents s) :
    ∀ e ∈ t.user.outboxEvents, Answers t.tx e := by
  have hold := hc.older
  have hkeep : ∀ e ∈ s.user.outboxEvents, Answers t.tx e :=
    fun e he => (h.userEvents e he).mono hold
  cases hc with
  | @moved m b ids fault key amount hm hb hk ha hnew hpay =>
    intro e he
    rcases outboxEvents_commit _ _ _ e he with he | he
    · exact hkeep e he
    · have hgen := (h.messages m hm).genuine hb
      have hevent : .insertOutboxEvent e ∈ b.resultEvent ids.outboxId b.successTopic s.user := by
        simp only [BalanceMessage.writes,List.mem_append,List.mem_cons,reduceCtorEq,false_or] at he
        refine he.resolve_left (fun hmove => ?_)
        cases b <;> simp [BalanceMessage.moves] at hmove
      obtain ⟨balance,-,heq⟩ := List.mem_map.mp hevent
      cases heq
      exact ⟨b,hgen,rfl,.inl rfl⟩
  | @reported i r fault e' hi htopic hpay =>
    intro e he
    rcases outboxEvents_commit _ _ _ e he with he | he
    · exact hkeep e he
    · simp only [List.mem_singleton,UserService.Write.insertOutboxEvent.injEq] at he
      subst he
      exact ⟨r.message,h.handler_genuine (List.mem_of_getElem? hi),hpay,.inr htopic⟩
  | userMark =>
    intro e he
    obtain ⟨e',he',rfl⟩ := List.mem_map.mp he
    obtain ⟨b,hb,hpay,htopic⟩ := hkeep e' he'
    refine ⟨b,hb,?_,?_⟩
    · split <;> exact hpay
    · split <;> exact htopic
  | _ => exact hkeep

theorem Change.frozenUserEvents_subset (hc : Change maxRetry s a t) :
    ∀ e ∈ frozenUserEvents s.user, e ∈ frozenUserEvents t.user := by
  have hcommit : ∀ ws, ∀ e ∈ frozenUserEvents s.user,
      e ∈ frozenUserEvents ((UserService.server true).applyAll s.user ws) := by
    intro ws e he
    obtain ⟨e',he',rfl⟩ := List.mem_map.mp he
    exact List.mem_map_of_mem ((UserService.mem_outboxEvents_applyAll ws).mpr (.inl he'))
  cases hc with
  | moved hm hb hk ha hnew hpay => exact hcommit _
  | reported hi htopic hpay => exact hcommit _
  | userMark =>
    intro e he
    obtain ⟨e',he',rfl⟩ := List.mem_map.mp he
    refine List.mem_map.mpr ⟨_,List.mem_map_of_mem he',?_⟩
    split <;> rfl
  | _ => exact fun e => id

theorem Change.txTick (hc : Change maxRetry s a t) (h : Contents s) : ∀ tick, t.txTick = some tick →
    ∀ e ∈ tick.events, {e with processed := false} ∈ frozenEvents t.tx := by
  have hold := hc.older
  have hkeep : ∀ tick, s.txTick = some tick →
      ∀ e ∈ tick.events, {e with processed := false} ∈ frozenEvents t.tx :=
    fun tick ht e he => hold.events _ (h.txTick tick ht e he)
  cases hc with
  | txIdle ht => exact ht
  | txPublish ht hp hm =>
    intro tick htick e he
    cases htick
    exact hkeep _ ht e (List.mem_cons_of_mem _ he)
  | txMark => simp
  | _ => exact hkeep

theorem Change.userTick (hc : Change maxRetry s a t) (h : Contents s) :
    ∀ tick, t.userTick = some tick →
      ∀ e ∈ tick.events, {e with processed := false} ∈ frozenUserEvents t.user := by
  have hold := hc.frozenUserEvents_subset
  have hkeep : ∀ tick, s.userTick = some tick →
      ∀ e ∈ tick.events, {e with processed := false} ∈ frozenUserEvents t.user :=
    fun tick ht e he => hold _ (h.userTick tick ht e he)
  cases hc with
  | userIdle ht => exact ht
  | userPublish ht hp =>
    intro tick htick e he
    cases htick
    exact hkeep _ ht e (List.mem_cons_of_mem _ he)
  | userMark => simp
  | _ => exact hkeep

/-- A new message is the one of the event that was published. -/
theorem Change.messages_cases (hc : Change maxRetry s a t) (h : Contents s) :
    t.messages = s.messages ∨ ∃ m header, t.messages = s.messages++[m] ∧
      m.idempotencyKey = some header ∧ a.uuids = [header] ∧ Speaks s.tx m := by
  cases hc with
  | @txPublish p e events ids ids' header m ht hp hm =>
    obtain ⟨b,hb,-,rfl⟩ := h.speaks_txEvent (h.txTick _ ht e (by simp)) hm
    exact .inr ⟨_,header,rfl,rfl,by simp [Action.uuids,WorkerAction.uuids,hp],b,hb,.inl ⟨rfl,rfl⟩⟩
  | @userPublish p e events ids ids' header ht hp =>
    obtain ⟨b,hb,hpay,htopic⟩ := h.answers_userEvent (h.userTick _ ht e (by simp))
    exact .inr ⟨_,header,rfl,rfl,by simp [Action.uuids,WorkerAction.uuids,hp],b,hb,
      .inr ⟨hpay,htopic⟩⟩
  | _ => exact .inl rfl

theorem Change.handlers (hc : Change maxRetry s a t) (h : Contents s) :
    ∀ r ∈ t.handlers, (∃ ids, r.rest = r.message.catchBlock ids) ∧
      ∃ m ∈ t.messages, balanceMessage m = some r.message ∧
        m.idempotencyKey = r.idempotencyKey := by
  have hkeep : ∀ r ∈ s.handlers, (∃ ids, r.rest = r.message.catchBlock ids) ∧
      ∃ m ∈ t.messages, balanceMessage m = some r.message ∧
        m.idempotencyKey = r.idempotencyKey := by
    intro r hr
    obtain ⟨hrest,m,hm,hb,hk⟩ := h.handlers r hr
    exact ⟨hrest,m,hc.messages_subset m hm,hb,hk⟩
  cases hc with
  | @refused m b ids fault key amount hm hb hk ha hcause =>
    intro r hr
    rcases List.mem_append.mp hr with hr | hr
    · exact hkeep r hr
    · rw [List.mem_singleton.mp hr]
      exact ⟨⟨ids,rfl⟩,m,hm,hb,hk⟩
  | reported hi htopic hpay => exact fun r hr => hkeep r (List.mem_of_mem_eraseIdx hr)
  | dropped hi => exact fun r hr => hkeep r (List.mem_of_mem_eraseIdx hr)
  | _ => exact hkeep

/-- Every step keeps the contents. -/
theorem Contents.change (h : Contents s) (hc : Change maxRetry s a t)
    (hfresh : ∀ u ∈ a.uuids, u ∉ s.used) : Contents {t with used := t.used++a.uuids} := by
  have hused := hc.used_eq
  refine ⟨hc.tx_contents h hfresh,hc.user_wellFormed h,?_,hc.txTick h,hc.userTick h,
    hc.userEvents h,?_,?_,?_,hc.handlers h⟩
  · rw [hused]
    exact hc.tx_used h
  · rcases hc.messages_cases h with hm | ⟨m,header,hm,-,-,hspeaks⟩
    · rw [hm]
      exact fun m hm => (h.messages m hm).mono hc.older
    · rw [hm]
      intro m' hm'
      rcases List.mem_append.mp hm' with hm' | hm'
      · exact (h.messages m' hm').mono hc.older
      · rw [List.mem_singleton.mp hm']
        exact hspeaks.mono hc.older
  · rcases hc.messages_cases h with hm | ⟨m,header,hm,hk,hu,-⟩
    · rw [hm]
      exact h.headers
    · rw [hm,List.map_append,List.map_cons,List.map_nil,hk]
      refine List.Nodup.append h.headers (List.nodup_singleton _) (fun k hi hj => ?_)
      obtain ⟨m',hm',rfl⟩ := List.mem_map.mp hi
      obtain ⟨key,hkey,hk'⟩ := h.headersUsed m' hm'
      rw [hk',List.mem_singleton,Option.some.injEq] at hj
      exact hfresh header (by simp [hu]) (hj ▸ hkey)
  · have hold : ∀ m ∈ s.messages, ∃ key ∈ t.used++a.uuids, m.idempotencyKey = some key := by
      intro m hm
      obtain ⟨key,hkey,hk⟩ := h.headersUsed m hm
      exact ⟨key,List.mem_append_left _ (hused ▸ hkey),hk⟩
    rcases hc.messages_cases h with hm | ⟨m,header,hm,hk,hu,-⟩
    · rw [hm]
      exact hold
    · rw [hm]
      intro m' hm'
      rcases List.mem_append.mp hm' with hm' | hm'
      · exact hold m' hm'
      · rw [List.mem_singleton.mp hm']
        exact ⟨header,List.mem_append_right _ (by simp [hu]),hk⟩

/-- The inversion of a step with the uuids that it generates. -/
theorem change_of_next {s' : State} (h : Contents s) (hs : s.next maxRetry a = some s') :
    ∃ t, Change maxRetry s a t ∧ (∀ u ∈ a.uuids, u ∉ s.used) ∧
      s' = {t with used := t.used++a.uuids} := by
  unfold State.next at hs
  split at hs
  · rename_i hu
    obtain ⟨t,ht,rfl⟩ := Option.map_eq_some_iff.mp hs
    exact ⟨t,change_of_step h ht,hu.2,rfl⟩
  · contradiction

theorem Contents.next {s' : State} (h : Contents s) (hs : s.next maxRetry a = some s') :
    Contents s' := by
  obtain ⟨t,hc,hfresh,rfl⟩ := change_of_next h hs
  exact h.change hc hfresh

theorem Contents.initial {balances : List Balance}
    (hw : UserDb.WellFormed ⟨balances,[],[]⟩) : Contents (.initial balances) := by
  refine ⟨⟨⟨List.nodup_nil,by simp [State.initial],by simp [State.initial]⟩,?_,List.nodup_nil,?_⟩,hw,
    ?_,?_,?_,?_,?_,List.nodup_nil,?_,?_⟩
  all_goals simp [State.initial,frozen]

end Preserved
end NestHomework.Services
