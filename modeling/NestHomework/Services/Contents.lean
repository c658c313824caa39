import NestHomework.Services.System
import NestHomework.TransactionService.StatusMachine

/-! What the database of the transaction service holds, statuses and retry counts apart, and which
messages speak of it. Rows and events are only ever added. -/
namespace NestHomework.Services
open Contracts Postgres Outbox TransactionService
open UserService (BalanceMessage)

/-- The row as it was created. -/
def frozenRow (t : Transaction) : Transaction := {t with status := .pending, retryCount := 0}

def frozen (db : TxDb) : List Transaction := db.transactions.map frozenRow

/-- The events as they were created. -/
def frozenEvents (db : TxDb) : List OutboxEvent :=
  db.outboxEvents.map (fun e => {e with processed := false})

/-- Everything is still there. -/
structure Older (db db' : TxDb) : Prop where
  rows : ∀ t ∈ frozen db, t ∈ frozen db'
  events : ∀ e ∈ frozenEvents db, e ∈ frozenEvents db'

def messagePayload : BalanceMessage → Payload
  | .depositPaidSuccess p => .depositPaid p
  | .transferInited p => .transferInited p

def messageEventId : BalanceMessage → Uuid
  | .depositPaidSuccess p => p.eventId
  | .transferInited p => p.eventId

/-- The transfer was created, with both legs. -/
def HasTransfer (db : TxDb) (n : NewTransfer) : Prop :=
  n.txOut ∈ frozen db ∧ n.txIn ∈ frozen db ∧ n.fromAccountId ≠ n.toAccountId

/-- A message about a deposit or a transfer that was created here, and the event it came from. -/
def Genuine (db : TxDb) : BalanceMessage → Prop
  | .depositPaidSuccess p => ∃ n : NewDeposit, n.data ∈ frozen db ∧
      p = n.data.depositPaid p.eventId ∧ n.data.paidEvent p.eventId ∈ frozenEvents db
  | .transferInited p => ∃ n : NewTransfer, HasTransfer db n ∧ p = n.payload ∧
      n.event ∈ frozenEvents db

/-- The row is a deposit or a leg, with its pair. -/
def Created (db : TxDb) (t : Transaction) : Prop :=
  (∃ n : NewDeposit, t = n.data) ∨
    ∃ n : NewTransfer, (t = n.txOut ∨ t = n.txIn) ∧ HasTransfer db n

structure TxContents (db : TxDb) : Prop where
  sound : db.Sound
  created : ∀ t ∈ frozen db, Created db t
  eventIds : (db.outboxEvents.map (·.id)).Nodup
  events : ∀ e ∈ db.outboxEvents, ∃ b, Genuine db b ∧ e.topic = b.topic ∧
    e.payload = some (messagePayload b)

/-- The ids of the events that a call may create. -/
def eventUuids : TransactionCall → List Uuid
  | .createTransfer n => [n.eventId]
  | .setStatusCompleted _ eventId => [eventId]
  | .recreate _ ids => [ids.outboxId]
  | _ => []

/-- What a call needs of its uuids and of the message it was made for. -/
structure Fits (db : TxDb) (c : TransactionCall) : Prop where
  fresh : ∀ e ∈ db.outboxEvents, e.id ∉ eventUuids c
  accounts : ∀ n, c = .createTransfer n → n.fromAccountId ≠ n.toAccountId
  genuine : ∀ r ids, c = .recreate r ids →
    ∃ b, Genuine db b ∧ r.eventId = messageEventId b ∧ r.target = messageTarget b

section Older
variable {db db' : TxDb}

theorem Older.refl (db : TxDb) : Older db db := ⟨fun _ => id,fun _ => id⟩

theorem Older.trans {db'' : TxDb} (h : Older db db') (h' : Older db' db'') : Older db db'' :=
  ⟨fun t ht => h'.rows t (h.rows t ht),fun e he => h'.events e (h.events e he)⟩

theorem HasTransfer.mono (h : Older db db') {n : NewTransfer} (hn : HasTransfer db n) :
    HasTransfer db' n := ⟨h.rows _ hn.1,h.rows _ hn.2.1,hn.2.2⟩

theorem Genuine.mono (h : Older db db') {b : BalanceMessage} (hb : Genuine db b) :
    Genuine db' b := by
  cases b with
  | depositPaidSuccess p =>
    obtain ⟨n,hn,hp,he⟩ := hb
    exact ⟨n,h.rows _ hn,hp,h.events _ he⟩
  | transferInited p =>
    obtain ⟨n,hn,hp,he⟩ := hb
    exact ⟨n,hn.mono h,hp,h.events _ he⟩

@[simp] theorem frozen_setStatus (ids : List Uuid) (status : TransactionStatus) :
    frozen ((Write.setStatus ids status).apply db) = frozen db := by
  simp only [frozen,Write.apply,List.map_map]
  refine List.map_congr_left (fun t _ => ?_)
  simp only [Function.comp_apply]
  split <;> rfl

@[simp] theorem frozen_addRetryCount (ids : List Uuid) :
    frozen ((Write.addRetryCount ids).apply db) = frozen db := by
  simp only [frozen,Write.apply,List.map_map]
  refine List.map_congr_left (fun t _ => ?_)
  simp only [Function.comp_apply]
  split <;> rfl

@[simp] theorem frozen_insertTransaction (data : Transaction) :
    frozen ((Write.insertTransaction data).apply db) =
      frozen db++[frozenRow data] := by
  simp [frozen,Write.apply]

@[simp] theorem frozen_insertOutboxEvent (data : OutboxEvent) :
    frozen ((Write.insertOutboxEvent data).apply db) = frozen db := rfl

@[simp] theorem frozen_insertProcessedEvent (data : ProcessedEvent) :
    frozen ((Write.insertProcessedEvent data).apply db) = frozen db := rfl

theorem outboxEvents_apply (w : Write) : (w.apply db).outboxEvents =
    db.outboxEvents++match w with | .insertOutboxEvent data => [data] | _ => [] := by
  cases w <;> simp [Write.apply]

theorem Older.apply (w : Write) : Older db (w.apply db) := by
  constructor
  · intro t ht
    cases w <;> simp [ht]
  · intro e he
    rw [frozenEvents,outboxEvents_apply,List.map_append]
    exact List.mem_append_left _ he

theorem Older.applyAll (db : TxDb) (ws : List Write) :
    Older db (server.applyAll db ws) := by
  induction ws generalizing db with
  | nil => exact .refl db
  | cons w ws ih => exact (Older.apply w).trans (ih _)

end Older

section TxContents
variable {db : TxDb}

theorem mem_frozen {t : Transaction} (ht : t ∈ db.transactions) : frozenRow t ∈ frozen db :=
  List.mem_map_of_mem ht

/-- The event of a genuine message is stored. -/
theorem Genuine.event {b : BalanceMessage} (hb : Genuine db b) :
    ∃ e ∈ db.outboxEvents, e.id = messageEventId b ∧ e.topic = b.topic ∧
      e.payload = some (messagePayload b) := by
  cases b with
  | depositPaidSuccess p =>
    obtain ⟨n,-,hp,hev⟩ := hb
    obtain ⟨e,he,heq⟩ := List.mem_map.mp hev
    have hid := congrArg OutboxEvent.id heq
    have htopic := congrArg OutboxEvent.topic heq
    have hpay := congrArg OutboxEvent.payload heq
    refine ⟨e,he,hid,htopic,hpay.trans ?_⟩
    rw [messagePayload,hp]
    rfl
  | transferInited p =>
    obtain ⟨n,-,rfl,hev⟩ := hb
    obtain ⟨e,he,heq⟩ := List.mem_map.mp hev
    have hid := congrArg OutboxEvent.id heq
    have htopic := congrArg OutboxEvent.topic heq
    have hpay := congrArg OutboxEvent.payload heq
    exact ⟨e,he,hid,htopic,hpay⟩

theorem TxContents.outboxEvent_iff (h : TxContents db) {id : Uuid}
    {e : OutboxEvent} :
    db.outboxEvent id = some e ↔ e ∈ db.outboxEvents ∧ e.id = id := find?_key_iff h.eventIds

/-- The event that a retry copies is the one of the message. -/
theorem TxContents.payload_of_outboxEvent (h : TxContents db) {b : BalanceMessage}
    (hb : Genuine db b) {e : OutboxEvent}
    (he : db.outboxEvent (messageEventId b) = some e) :
    e.topic = b.topic ∧ e.payload = some (messagePayload b) := by
  obtain ⟨e',he',hid,htopic,hpay⟩ := hb.event
  rw [h.outboxEvent_iff.mpr ⟨he',hid⟩] at he
  cases he
  exact ⟨htopic,hpay⟩

/-- A row with a payment is a deposit as it was created. -/
theorem TxContents.deposit_of_payment (h : TxContents db) {t : Transaction}
    (ht : t ∈ db.transactions) (hp : t.providerPaymentId.isSome) :
    ∃ n : NewDeposit, frozenRow t = n.data := by
  rcases h.created _ (mem_frozen ht) with hn | ⟨n,hn | hn,-⟩
  · exact hn
  all_goals
    have := congrArg Transaction.providerPaymentId hn
    simp only [frozenRow,NewTransfer.txOut,NewTransfer.txIn] at this
    simp [this] at hp

theorem Created.mono {db' : TxDb} (hold : Older db db') {t : Transaction} (h : Created db t) :
    Created db' t :=
  h.imp_right (fun ⟨n,hn,htr⟩ => ⟨n,hn,htr.mono hold⟩)

/-- New rows, and changes of statuses and counts. -/
theorem TxContents.of_rows {db' : TxDb} (h : TxContents db) (hs : db'.Sound)
    {new : List Transaction} (hrows : frozen db' = frozen db++new)
    (hnew : ∀ t ∈ new, Created db' t) (hevents : db'.outboxEvents = db.outboxEvents) :
    TxContents db' := by
  have hold : Older db db' := by
    refine ⟨fun t ht => hrows ▸ List.mem_append_left new ht,fun e he => ?_⟩
    rw [frozenEvents,hevents]
    exact he
  refine ⟨hs,fun t ht => ?_,hevents ▸ h.eventIds,fun e he => ?_⟩
  · rcases List.mem_append.mp (hrows ▸ ht) with ht | ht
    · exact (h.created t ht).mono hold
    · exact hnew t ht
  · obtain ⟨b,hb,hrest⟩ := h.events e (hevents ▸ he)
    exact ⟨b,hb.mono hold,hrest⟩

theorem TxContents.of_same {db' : TxDb} (h : TxContents db) (hs : db'.Sound)
    (hrows : frozen db' = frozen db) (hevents : db'.outboxEvents = db.outboxEvents) :
    TxContents db' :=
  h.of_rows hs (hrows.trans (List.append_nil _).symm) (by simp) hevents

theorem TxContents.insertOutboxEvent (h : TxContents db) {data : OutboxEvent}
    (hid : ∀ e ∈ db.outboxEvents, e.id ≠ data.id) (hb : ∃ b,
      Genuine ((Write.insertOutboxEvent data).apply db) b ∧ data.topic = b.topic ∧
        data.payload = some (messagePayload b)) :
    TxContents ((Write.insertOutboxEvent data).apply db) := by
  have hold : Older db ((Write.insertOutboxEvent data).apply db) := Older.apply _
  refine ⟨h.sound.insertOutboxEvent data,fun t ht => ?_,?_,fun e he => ?_⟩
  · exact (h.created t ht).mono hold
  · simp only [Write.apply,List.map_append,List.map_cons,List.map_nil]
    refine List.Nodup.append h.eventIds (List.nodup_singleton _) (fun i hi hj => ?_)
    obtain ⟨e,he,rfl⟩ := List.mem_map.mp hi
    exact hid e he (List.mem_singleton.mp hj)
  · rcases List.mem_append.mp he with he | he
    · obtain ⟨b,hgen,hrest⟩ := h.events e he
      exact ⟨b,hgen.mono hold,hrest⟩
    · rw [List.mem_singleton.mp he]
      exact hb

theorem mem_frozenEvents_insert (data : OutboxEvent)
    (hp : data.processed = false) :
    data ∈ frozenEvents ((Write.insertOutboxEvent data).apply db) := by
  refine List.mem_map.mpr ⟨data,by simp [Write.apply],?_⟩
  cases data
  simp_all

theorem TxContents.insertProcessedEvent (h : TxContents db)
    (data : ProcessedEvent) :
    TxContents ((Write.insertProcessedEvent data).apply db) :=
  h.of_same (h.sound.insertProcessedEvent data) rfl rfl

theorem TxContents.setStatus (h : TxContents db) {ids : List Uuid} {status : TransactionStatus}
    (hs : ((Write.setStatus ids status).apply db).Sound) :
    TxContents ((Write.setStatus ids status).apply db) :=
  h.of_same hs (frozen_setStatus ids status) rfl

theorem TxContents.addRetryCount (h : TxContents db) (ids : List Uuid) :
    TxContents ((Write.addRetryCount ids).apply db) :=
  h.of_same (h.sound.addRetryCount ids) (frozen_addRetryCount ids) rfl

/-- Calls keep the contents. -/
theorem TxContents.effect (h : TxContents db) {c : TransactionCall}
    {ws : List Write} (hfit : Fits db c)
    (he : TransactionCall.Effect db c ws) :
    TxContents (server.applyAll db ws) := by
  have hsound := h.sound.effect he
  cases he with
  | nothing => exact h
  | @created n hid =>
    refine h.of_rows hsound (frozen_insertTransaction n.data) (fun t ht => ?_) rfl
    exact .inl ⟨n,List.mem_singleton.mp ht⟩
  | @createdTransfer n hout hin hne =>
    have hfresh : ∀ e ∈ db.outboxEvents, e.id ≠ n.eventId := by
      simpa [eventUuids] using hfit.fresh
    let db' := (Write.insertTransaction n.txIn).apply ((Write.insertTransaction n.txOut).apply db)
    have hrows : frozen db' = frozen db++[n.txOut,n.txIn] := by
      simp [db',frozenRow,NewTransfer.txOut,NewTransfer.txIn]
    have hboth : HasTransfer db' n := ⟨by simp [hrows],by simp [hrows],hfit.accounts n rfl⟩
    have hcontents : TxContents db' := by
      refine h.of_rows ⟨hsound.ids,hsound.paid,hsound.completed⟩ hrows (fun t ht => ?_) rfl
      rw [List.mem_pair] at ht
      exact .inr ⟨n,ht,hboth⟩
    refine @TxContents.insertOutboxEvent _ hcontents n.event hfresh
      ⟨.transferInited n.payload,⟨n,hboth.mono (Older.apply _),rfl,?_⟩,rfl,rfl⟩
    exact mem_frozenEvents_insert n.event rfl
  | @completed providerPaymentId eventId t ht hp hs =>
    obtain ⟨n,hn⟩ := h.deposit_of_payment ht (by simp [hp])
    have hdata : n.data ∈ frozen db := hn ▸ mem_frozen ht
    have hpaid : t.paidEvent eventId = n.data.paidEvent eventId := by
      rw [← hn]
      rfl
    have hcontents : TxContents ((Write.setStatus [t.id] .completed).apply db) :=
      h.setStatus ⟨hsound.ids,hsound.paid,hsound.completed⟩
    have hfresh : ∀ e ∈ db.outboxEvents, e.id ≠ eventId := by
      simpa [eventUuids] using hfit.fresh
    refine @TxContents.insertOutboxEvent _ hcontents (t.paidEvent eventId) hfresh
      ⟨.depositPaidSuccess (n.data.depositPaid eventId),⟨n,?_,rfl,?_⟩,rfl,?_⟩
    · rw [frozen_insertOutboxEvent,frozen_setStatus]
      exact hdata
    · rw [hpaid]
      exact mem_frozenEvents_insert _ rfl
    · rw [hpaid]
      rfl
  | timedOut ht hp hs => exact h.setStatus hsound
  | updated hnew ht hs =>
    exact (h.setStatus ⟨hsound.ids,hsound.paid,hsound.completed⟩).insertProcessedEvent _
  | updatedByIds hnew hout hin =>
    exact h.of_same hsound (by simp) rfl
  | @copied c ids event hnew hpres hlimit hevent hpay =>
    obtain ⟨b,hb,hid,-⟩ := hfit.genuine c ids rfl
    have hfresh : ∀ e ∈ db.outboxEvents, e.id ≠ ids.outboxId := by
      simpa [eventUuids] using hfit.fresh
    rw [hid] at hevent
    obtain ⟨htopic,hpayload⟩ := h.payload_of_outboxEvent hb hevent
    refine (@TxContents.insertOutboxEvent _ (h.addRetryCount c.target.ids) (RetryCall.copy ids event)
      hfresh ⟨b,?_,htopic,hpayload⟩).insertProcessedEvent _
    exact hb.mono ((Older.apply _).trans (Older.apply _))
  | failed hnew hpres hlimit => exact h.of_same hsound (by simp [RetryCall.failWrites]) rfl

/-- The events that the writes insert. -/
def newEvents (ws : List Write) : List OutboxEvent :=
  ws.filterMap (fun w => match w with | .insertOutboxEvent e => some e | _ => none)

theorem outboxEvents_applyAll (db : TxDb) (ws : List Write) :
    (server.applyAll db ws).outboxEvents = db.outboxEvents++newEvents ws := by
  induction ws generalizing db with
  | nil => simp [newEvents]
  | cons w ws ih =>
    rw [Engine.applyAll_cons,ih,server_apply,outboxEvents_apply]
    cases w <;> simp [newEvents]

theorem effect_newEvents {c : TransactionCall} {ws : List Write}
    (he : TransactionCall.Effect db c ws) {e : OutboxEvent} (hm : e ∈ newEvents ws) :
    e.id ∈ eventUuids c := by
  cases he with
  | createdTransfer hout hin hne =>
    simp only [newEvents,List.filterMap_cons,List.filterMap_nil,List.mem_singleton] at hm
    subst hm
    exact List.mem_singleton_self _
  | completed ht hp hs =>
    simp only [newEvents,List.filterMap_cons,List.filterMap_nil,List.mem_singleton] at hm
    subst hm
    exact List.mem_singleton_self _
  | copied hnew hpres hlimit hevent hpay =>
    simp only [newEvents,RetryCall.copyWrites,List.filterMap_cons,List.filterMap_nil,
      List.mem_singleton] at hm
    subst hm
    exact List.mem_singleton_self _
  | _ => simp [newEvents,RetryCall.failWrites] at hm

/-- Marking events as processed keeps the contents. -/
theorem frozenEvents_mark (ids : List Uuid) :
    frozenEvents (txTable.markEventsAsProcessed ids db) = frozenEvents db := by
  simp only [frozenEvents,txTable,List.map_map]
  refine List.map_congr_left (fun e _ => ?_)
  simp only [Function.comp_apply]
  split <;> rfl

theorem Older.mark (ids : List Uuid) : Older db (txTable.markEventsAsProcessed ids db) :=
  ⟨fun _ ht => ht,fun _ he => (frozenEvents_mark ids).symm ▸ he⟩

theorem TxContents.mark (h : TxContents db) (ids : List Uuid) :
    TxContents (txTable.markEventsAsProcessed ids db) := by
  have hids : (txTable.markEventsAsProcessed ids db).outboxEvents.map (·.id) =
      db.outboxEvents.map (·.id) := by
    simp only [txTable,List.map_map]
    refine List.map_congr_left (fun _ _ => ?_)
    simp only [Function.comp_apply]
    split <;> rfl
  refine ⟨⟨h.sound.ids,h.sound.paid,h.sound.completed⟩,
    fun t ht => (h.created t ht).mono (Older.mark ids),hids ▸ h.eventIds,fun e he => ?_⟩
  obtain ⟨e',he',rfl⟩ := List.mem_map.mp he
  obtain ⟨b,hb,htopic,hpay⟩ := h.events e' he'
  refine ⟨b,hb.mono (Older.mark ids),?_,?_⟩
  · split <;> exact htopic
  · split <;> exact hpay

end TxContents
end NestHomework.Services
