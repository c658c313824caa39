import NestHomework.Services.Steps
import NestHomework.Shared.Count

/-! Where the order to move the money of a target is. It is on its way out in an unpublished event, in
a message, in a handler that failed or in an unpublished failure event; it is on its way back in a
failure message; and it is settled when the success event is written. -/
namespace NestHomework.Services
open Contracts Postgres Outbox TransactionService Shared
open UserService (BalanceMessage UserDb Balance RunIds)

def isSuccess : KafkaTopic → Bool
  | .depositCreditingSuccess => true
  | .tranferSuccess => true
  | _ => false

def isFailure : KafkaTopic → Bool
  | .depositCreditingFailed => true
  | .tranferFailed => true
  | _ => false

/-- An event is published under its own id. -/
def published (messages : List KafkaMessage) (id : Uuid) : Bool :=
  messages.any (fun m => m.key = id)

/-- Nothing was committed for the message, and none of its handlers is about to. -/
def isOpen (answered : List Uuid) (handlers : List Handler) (m : KafkaMessage) : Bool :=
  match m.idempotencyKey with
  | none => false
  | some key => !answered.contains key && handlers.all (fun r => r.idempotencyKey ≠ some key)

def inTxOutbox (events : List OutboxEvent) (messages : List KafkaMessage) (v : Target) : ℕ :=
  events.countP (fun e => e.payload.map payloadTarget = some v && !published messages e.id)

def inBroker (messages : List KafkaMessage) (answered : List Uuid) (handlers : List Handler)
    (v : Target) : ℕ :=
  messages.countP (fun m =>
    (balanceMessage m).map messageTarget = some v && isOpen answered handlers m)

def inHandlers (handlers : List Handler) (v : Target) : ℕ :=
  handlers.countP (fun r => messageTarget r.message = v)

def inUserOutbox (events : List UserService.OutboxEvent) (messages : List KafkaMessage)
    (v : Target) : ℕ :=
  events.countP (fun e =>
    isFailure e.topic && payloadTarget e.payload = v && !published messages e.id)

def inReturn (db : TxDb) (messages : List KafkaMessage) (v : Target) : ℕ :=
  messages.countP (fun m => isFailure m.topic && payloadTarget m.value = v &&
    (m.idempotencyKey.bind db.processed).isNone)

def settled (events : List UserService.OutboxEvent) (v : Target) : ℕ :=
  events.countP (fun e => isSuccess e.topic && payloadTarget e.payload = v)

namespace State
variable (s : State)

/-- The orders on their way out, and the settled ones. -/
def outward (v : Target) : ℕ :=
  inTxOutbox s.tx.outboxEvents s.messages v+inBroker s.messages s.answered s.handlers v+
    inHandlers s.handlers v+inUserOutbox s.user.outboxEvents s.messages v+
    settled s.user.outboxEvents v

def carried (v : Target) : ℕ := s.outward v+inReturn s.tx s.messages v

/-- A step that does not hand out a second order. An event that may move money is published once.
A money message is handled again only while nothing came of it, or when it is recorded and its
transaction is not cut off. So two handlers of one message do not overlap: the one that the unique
index rolls back is cut off while its key is recorded. -/
def Careful (s : State) : Action → Prop
  | .txWorker (.publish p) => p.header.isSome → ∀ t, s.txTick = some t →
      ∀ e ∈ t.events.head?, ¬published s.messages e.id
  | .userWorker (.publish p) => p.header.isSome → ∀ t, s.userTick = some t →
      ∀ e ∈ t.events.head?, isFailure e.topic → ¬published s.messages e.id
  | .handleBalance m ids fault => ∀ b key amount, balanceMessage m = some b →
      m.idempotencyKey = some key → b.amount = some amount →
      isOpen s.answered s.handlers m ∨ ((s.user.processed key).isSome ∧
        ¬(UserService.server true).interrupts fault (b.call key amount ids).body s.user)
  | _ => True

end State

section Places
variable {messages : List KafkaMessage} {m : KafkaMessage} {v : Target} {answered : List Uuid}
  {handlers : List Handler} {r : Handler}

theorem published_append (id : Uuid) :
    published (messages++[m]) id = (published messages id || decide (m.key = id)) := by
  simp [published]

theorem not_published_of_append {p : Bool} {id : Uuid} (h : p && !published (messages++[m]) id) :
    p && !published messages id := by
  simp only [published_append,Bool.and_eq_true,Bool.not_eq_true',Bool.or_eq_false_iff] at h ⊢
  exact ⟨h.1,h.2.1⟩

/-- New messages can only take events out of the outboxes. -/
theorem inTxOutbox_append_le (events : List OutboxEvent) (messages : List KafkaMessage)
    (m : KafkaMessage) (v : Target) :
    inTxOutbox events (messages++[m]) v ≤ inTxOutbox events messages v :=
  List.countP_mono_left (fun _ _ he => not_published_of_append he)

theorem inUserOutbox_append_le (events : List UserService.OutboxEvent)
    (messages : List KafkaMessage) (m : KafkaMessage) (v : Target) :
    inUserOutbox events (messages++[m]) v ≤ inUserOutbox events messages v :=
  List.countP_mono_left (fun _ _ he => not_published_of_append he)

/-- The event that is published leaves the outbox. -/
theorem inTxOutbox_publish {events : List OutboxEvent} {e : OutboxEvent} (he : e ∈ events)
    (hkey : m.key = e.id) (hnew : ¬published messages e.id)
    (hv : e.payload.map payloadTarget = some v) :
    inTxOutbox events (messages++[m]) v+1 ≤ inTxOutbox events messages v := by
  refine countP_add_one_le (fun e _ he => not_published_of_append he) he ?_ ?_
  · simp [hv,hnew]
  · simp [published_append,hkey]

theorem inUserOutbox_publish {events : List UserService.OutboxEvent} {e : UserService.OutboxEvent}
    (he : e ∈ events) (hkey : m.key = e.id) (hnew : ¬published messages e.id)
    (hf : isFailure e.topic) (hv : payloadTarget e.payload = v) :
    inUserOutbox events (messages++[m]) v+1 ≤ inUserOutbox events messages v := by
  refine countP_add_one_le (fun e _ he => not_published_of_append he) he ?_ ?_
  · simp [hv,hf,hnew]
  · simp [published_append,hkey]

/-- A new message is one more at most. -/
theorem inBroker_append_le (messages : List KafkaMessage) (answered : List Uuid)
    (handlers : List Handler) (m : KafkaMessage) (v : Target) :
    inBroker (messages++[m]) answered handlers v ≤ inBroker messages answered handlers v+
      if (balanceMessage m).map messageTarget = some v then 1 else 0 := by
  rw [inBroker,List.countP_append,List.countP_singleton]
  refine Nat.add_le_add_left ?_ _
  by_cases h : (balanceMessage m).map messageTarget = some v
  · rw [if_pos h]
    split <;> omega
  · simp [h]

theorem inReturn_append_le (db : TxDb) (messages : List KafkaMessage) (m : KafkaMessage)
    (v : Target) : inReturn db (messages++[m]) v ≤
    inReturn db messages v+if isFailure m.topic && payloadTarget m.value = v then 1 else 0 := by
  rw [inReturn,List.countP_append,List.countP_singleton]
  refine Nat.add_le_add_left ?_ _
  split
  · rename_i h
    rw [if_pos (Bool.and_eq_true_iff.mp h).1]
  · exact Nat.zero_le _

theorem isOpen_iff {key : Uuid} (hk : m.idempotencyKey = some key) :
    isOpen answered handlers m ↔ key ∉ answered ∧ ∀ r ∈ handlers, r.idempotencyKey ≠ some key := by
  simp [isOpen,hk]

/-- What stays open when more is answered and more handlers run. -/
theorem inBroker_mono {answered' : List Uuid} {handlers' : List Handler}
    (h : ∀ m ∈ messages, isOpen answered' handlers' m → isOpen answered handlers m) :
    inBroker messages answered' handlers' v ≤ inBroker messages answered handlers v := by
  refine List.countP_mono_left (fun m hm ho => ?_)
  rw [Bool.and_eq_true] at ho ⊢
  exact ⟨ho.1,h m hm ho.2⟩

/-- The message that is closed leaves. -/
theorem inBroker_close {answered' : List Uuid} {handlers' : List Handler}
    (h : ∀ m ∈ messages, isOpen answered' handlers' m → isOpen answered handlers m)
    (hm : m ∈ messages) (hv : (balanceMessage m).map messageTarget = some v)
    (ho : isOpen answered handlers m) (hc : ¬isOpen answered' handlers' m) :
    inBroker messages answered' handlers' v+1 ≤ inBroker messages answered handlers v := by
  refine countP_add_one_le (fun m hm ho => ?_) hm ?_ ?_
  · rw [Bool.and_eq_true] at ho ⊢
    exact ⟨ho.1,h m hm ho.2⟩
  · simp [hv,ho]
  · simp [hc]

theorem mem_or_mem_eraseIdx {i : ℕ} (hi : handlers[i]? = some r) {r' : Handler}
    (hr : r' ∈ handlers) : r' = r ∨ r' ∈ handlers.eraseIdx i := by
  obtain ⟨hlt,rfl⟩ := List.getElem?_eq_some_iff.mp hi
  have hmem := (List.getElem_cons_eraseIdx_perm hlt).mem_iff.mpr hr
  exact List.mem_cons.mp hmem

/-- A handler that ends can only open its own message. -/
theorem isOpen_eraseIdx {i : ℕ} (hi : handlers[i]? = some r)
    (ho : isOpen answered (handlers.eraseIdx i) m) :
    isOpen answered handlers m ∨ m.idempotencyKey = r.idempotencyKey := by
  cases hk : m.idempotencyKey with
  | none => simp [isOpen,hk] at ho
  | some key =>
    rw [isOpen_iff hk] at ho ⊢
    by_cases hr : r.idempotencyKey = some key
    · exact .inr hr.symm
    · refine .inl ⟨ho.1,fun r' hr' => ?_⟩
      rcases mem_or_mem_eraseIdx hi hr' with rfl | hr'
      · exact hr
      · exact ho.2 r' hr'

theorem inHandlers_append : inHandlers (handlers++[r]) v =
    inHandlers handlers v+if messageTarget r.message = v then 1 else 0 := by
  simp [inHandlers,List.countP_append,List.countP_singleton]

theorem inHandlers_eraseIdx {i : ℕ} (hi : handlers[i]? = some r) :
    inHandlers (handlers.eraseIdx i) v+(if messageTarget r.message = v then 1 else 0) =
      inHandlers handlers v := by
  obtain ⟨hlt,rfl⟩ := List.getElem?_eq_some_iff.mp hi
  have hperm := List.getElem_cons_eraseIdx_perm hlt
  rw [inHandlers,inHandlers,← hperm.countP_eq,List.countP_cons]
  simp

theorem inTxOutbox_append (events new : List OutboxEvent) (messages : List KafkaMessage)
    (v : Target) : inTxOutbox (events++new) messages v ≤ inTxOutbox events messages v+
      new.countP (fun e => e.payload.map payloadTarget = some v) := by
  rw [inTxOutbox,List.countP_append]
  exact Nat.add_le_add_left
    (List.countP_mono_left (fun _ _ he => (Bool.and_eq_true_iff.mp he).1)) _

theorem inUserOutbox_append (events : List UserService.OutboxEvent) (e : UserService.OutboxEvent)
    (messages : List KafkaMessage) (v : Target) :
    inUserOutbox (events++[e]) messages v ≤ inUserOutbox events messages v+
      if isFailure e.topic && payloadTarget e.payload = v then 1 else 0 := by
  rw [inUserOutbox,List.countP_append,List.countP_singleton]
  refine Nat.add_le_add_left ?_ _
  split
  · rename_i h
    rw [if_pos (Bool.and_eq_true_iff.mp h).1]
  · exact Nat.zero_le _

theorem settled_append (events : List UserService.OutboxEvent) (e : UserService.OutboxEvent) :
    settled (events++[e]) v = settled events v+
      if isSuccess e.topic && payloadTarget e.payload = v then 1 else 0 := by
  rw [settled,List.countP_append,List.countP_singleton,settled]

/-- A processed message does not come back. -/
theorem inReturn_mono {db db' : TxDb} (h : ∀ key, db'.processed key = none → db.processed key = none) :
    inReturn db' messages v ≤ inReturn db messages v := by
  refine List.countP_mono_left (fun m _ hm => ?_)
  rw [Bool.and_eq_true] at hm ⊢
  refine ⟨hm.1,?_⟩
  cases hk : m.idempotencyKey with
  | none => rfl
  | some key =>
    rw [hk,Option.isNone_iff_eq_none,Option.bind_some] at hm
    simp [h key hm.2]

theorem inReturn_process {db db' : TxDb} {key : Uuid}
    (h : ∀ key, db'.processed key = none → db.processed key = none) (hm : m ∈ messages)
    (hk : m.idempotencyKey = some key) (hf : isFailure m.topic) (hv : payloadTarget m.value = v)
    (hnew : db.processed key = none) (hdone : (db'.processed key).isSome) :
    inReturn db' messages v+1 ≤ inReturn db messages v := by
  refine countP_add_one_le (fun m _ hm => ?_) hm ?_ ?_
  · rw [Bool.and_eq_true] at hm ⊢
    refine ⟨hm.1,?_⟩
    cases hk : m.idempotencyKey with
    | none => rfl
    | some key =>
      rw [hk,Option.isNone_iff_eq_none,Option.bind_some] at hm
      simp [h key hm.2]
  · simp [hf,hv,hk,hnew]
  · have hne : db'.processed key ≠ none := Option.isSome_iff_ne_none.mp hdone
    simp [hk,hne]

end Places

section Writes

theorem processed_applyAll {db : TxDb} (ws : List Write) {key : Uuid}
    (h : (server.applyAll db ws).processed key = none) : db.processed key = none := by
  induction ws generalizing db with
  | nil => exact h
  | cons w ws ih =>
    have hw : (w.apply db).processed key = none := ih h
    cases w with
    | insertProcessedEvent data =>
      simp only [Write.apply,TxDb.processed,List.find?_append,Option.or_eq_none_iff] at hw
      exact hw.1
    | _ => exact hw

/-- The events that the writes of the user service insert. -/
def newUserEvents (ws : List UserService.Write) : List UserService.OutboxEvent :=
  ws.filterMap (fun w => match w with | .insertOutboxEvent e => some e | _ => none)

theorem userEvents_applyAll (db : UserDb) (ws : List UserService.Write) :
    ((UserService.server true).applyAll db ws).outboxEvents =
      db.outboxEvents++newUserEvents ws := by
  rw [UserService.outboxEvents_applyAll]
  refine congrArg (db.outboxEvents++·) (List.filterMap_congr (fun w _ => ?_))
  cases w <;> rfl

/-- A payable message has a balance to refer to. -/
theorem payer_of_payable {b : BalanceMessage} {amount : ℤ} {db : UserDb}
    (h : b.payable amount db) : ∃ row, db.balanceOf b.payer b.currency = some row :=
  Option.isSome_iff_exists.mp (UserService.payer_of_payable b h)

theorem newUserEvents_writes {b : BalanceMessage} {key : Uuid} {amount : ℤ} {ids : RunIds}
    {db : UserDb} {row : Balance} (h : db.balanceOf b.payer b.currency = some row) :
    newUserEvents (b.writes key amount ids db) =
      [⟨ids.outboxId,row.id,b.successTopic,b.resultPayload,false⟩] := by
  have hmoves : newUserEvents (b.moves amount db) = [] := by
    cases b <;> simp [newUserEvents,BalanceMessage.moves]
  unfold newUserEvents at hmoves ⊢
  rw [BalanceMessage.writes,List.filterMap_append,hmoves,BalanceMessage.resultEvent,h]
  rfl

theorem any_isIncrement_writes {b : BalanceMessage} {key : Uuid} {amount : ℤ} {ids : RunIds}
    {db : UserDb} {row : Balance} (h : db.balanceOf b.payer b.currency = some row) :
    (b.writes key amount ids db).any isIncrement := by
  cases b <;> simp_all [BalanceMessage.writes,BalanceMessage.moves,BalanceMessage.payer,
    BalanceMessage.currency,isIncrement]

end Writes
end NestHomework.Services
