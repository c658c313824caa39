import NestHomework.UserService.BalanceKafka

/-! Deliveries of one message, one after another. A delivery may be cut off at any statement of its
money transaction and at any statement of the transaction of its failure event, and other calls may
run between two deliveries. -/
namespace NestHomework.UserService
open Contracts Postgres

/-- One delivery: the uuids of the run, and where its two transactions are cut off. -/
structure Delivery where
  ids : RunIds
  fault : Option ℕ
  catchFault : Option ℕ
  deriving DecidableEq, Repr

inductive Traffic where
  | delivery (d : Delivery)
  | other (call : BalanceCall) (fault : Option ℕ)

/-- The database, and what the runs of the message have committed to it. -/
structure Served where
  db : UserDb
  own : List Write
  deriving DecidableEq, Repr

namespace BalanceMessage

/-- What a delivery commits. -/
def delivered (m : BalanceMessage) (idempotencyKey : Uuid) (d : Delivery) (db : UserDb) :
    List Write :=
  ((m.handle (some idempotencyKey) d.ids).run (server true).toEngine
    [d.fault,d.catchFault] db).2.flatten

def serve (m : BalanceMessage) (idempotencyKey : Uuid) (s : Served) : Traffic → Option Served
  | .delivery d =>
    let ws := m.delivered idempotencyKey d s.db
    some ⟨(server true).applyAll s.db ws,s.own++ws⟩
  | .other call fault =>
    match (server true).run fault call.body s.db with
    | .ok (_,ws) => some ⟨(server true).applyAll s.db ws,s.own⟩
    | .error _ => some s

/-- The delivery finds the message payable and not recorded, and nothing cuts its money transaction
off. -/
def GoesThrough (m : BalanceMessage) (idempotencyKey : Uuid) (s : Served) : Traffic → Prop
  | .delivery d => ∃ amount, m.amount = some amount ∧ s.db.processed idempotencyKey = none ∧
      m.payable amount s.db ∧
      ¬(server true).interrupts d.fault (m.call idempotencyKey amount d.ids).body s.db
  | .other _ _ => False

/-- The money transaction of the delivery is cut off, or refused, and nothing cuts off the
transaction of its failure event. -/
def FailsOver (m : BalanceMessage) (idempotencyKey : Uuid) (s : Served) : Traffic → Prop
  | .delivery d => ∃ amount, m.amount = some amount ∧
      ((server true).interrupts d.fault (m.call idempotencyKey amount d.ids).body s.db ∨
        (s.db.processed idempotencyKey = none ∧ ¬m.payable amount s.db)) ∧
      (s.db.balanceOf m.payer m.currency).isSome ∧
      ¬(server true).interrupts d.catchFault (m.failure d.ids).body s.db
  | .other _ _ => False

end BalanceMessage

/-- The outbox holds a row on the topic that some run of the message inserted. -/
def Served.Produced (s : Served) (topic : KafkaTopic) : Prop :=
  ∃ e ∈ s.db.outboxEvents, e.topic = topic ∧ .insertOutboxEvent e ∈ s.own

def Write.outboxEvent? : Write → Option OutboxEvent
  | .insertOutboxEvent e => some e
  | _ => none

section Outbox
variable {check : Bool} {e : OutboxEvent}

/-- The outbox holds the inserted rows in their order. -/
theorem outboxEvents_applyAll (db : UserDb) (ws : List Write) :
    ((server check).applyAll db ws).outboxEvents =
      db.outboxEvents++ws.filterMap Write.outboxEvent? := by
  induction ws generalizing db with
  | nil => simp
  | cons w ws ih =>
    rw [Engine.applyAll_cons,ih]
    cases w <;> simp [Write.apply,Write.outboxEvent?,List.filterMap_cons]

theorem Write.outboxEvent?_eq_some {w : Write} :
    w.outboxEvent? = some e ↔ w = .insertOutboxEvent e := by
  cases w <;> simp [Write.outboxEvent?]

/-- Outbox rows stay. -/
theorem mem_outboxEvents_applyAll {db : UserDb} (ws : List Write) :
    e ∈ ((server check).applyAll db ws).outboxEvents ↔
      e ∈ db.outboxEvents ∨ .insertOutboxEvent e ∈ ws := by
  simp only [outboxEvents_applyAll,List.mem_append,List.mem_filterMap,Write.outboxEvent?_eq_some,
    exists_eq_right]

end Outbox

section Step
variable {db : UserDb} (hw : db.WellFormed) (m : BalanceMessage) (idempotencyKey : Uuid) {amount : ℤ}
  (ha : m.amount = some amount) (d : Delivery)

theorem payer_of_payable (h : m.payable amount db) : (db.balanceOf m.payer m.currency).isSome := by
  cases m with
  | depositPaidSuccess payload =>
    simp only [BalanceMessage.payable] at h
    split at h
    · rename_i b hb
      simp [BalanceMessage.payer,BalanceMessage.currency,hb]
    · contradiction
  | transferInited payload =>
    simp only [BalanceMessage.payable] at h
    split at h
    · rename_i sender receiver hs hr
      simp [BalanceMessage.payer,BalanceMessage.currency,hs]
    · contradiction

include ha

theorem delivered_of_call_ok {ws : List Write}
    (h : (server true).run d.fault (m.call idempotencyKey amount d.ids).body db = .ok ((),ws)) :
    m.delivered idempotencyKey d db = ws := by
  rw [BalanceMessage.delivered,m.handle_some idempotencyKey d.ids ha,Proc.run_transaction,h]
  simp [BalanceMessage.afterCall]

theorem delivered_of_call_error {e : String}
    (h : (server true).run d.fault (m.call idempotencyKey amount d.ids).body db = .error e) :
    m.delivered idempotencyKey d db =
      match (server true).run d.catchFault (m.failure d.ids).body db with
      | .ok (_,ws) => ws
      | .error _ => [] := by
  rw [BalanceMessage.delivered,m.handle_some idempotencyKey d.ids ha,Proc.run_transaction,h]
  simp only [BalanceMessage.afterCall,m.catchBlock_eq,Proc.run_transaction]
  rcases (server true).run d.catchFault (m.failure d.ids).body db with e' | ⟨_,ws⟩ <;>
    simp [BalanceMessage.afterFailure]

end Step

/-- The writes hold an outbox row on the topic. -/
def Emits (topic : KafkaTopic) (ws : List Write) : Prop :=
  ∃ e : OutboxEvent, e.topic = topic ∧ .insertOutboxEvent e ∈ ws

theorem successTopic_ne_failedTopic (m : BalanceMessage) : m.successTopic ≠ m.failedTopic := by
  cases m <;> simp [BalanceMessage.successTopic,BalanceMessage.failedTopic]

theorem not_emits_nil (topic : KafkaTopic) : ¬Emits topic [] := by simp [Emits]

section Emits
variable {db : UserDb} {m : BalanceMessage}

theorem emits_resultEvent (id : Uuid) {topic topic' : KafkaTopic} :
    Emits topic (m.resultEvent id topic' db) ↔
      topic' = topic ∧ (db.balanceOf m.payer m.currency).isSome := by
  unfold Emits BalanceMessage.resultEvent
  cases db.balanceOf m.payer m.currency with
  | none => simp
  | some b =>
    simp only [Option.toList_some,List.map_cons,List.map_nil,List.mem_singleton,
      Write.insertOutboxEvent.injEq,Option.isSome_some,and_true]
    constructor
    · rintro ⟨e,he,rfl⟩
      exact he
    · intro h
      exact ⟨_,h,rfl⟩

theorem emits_writes {topic : KafkaTopic} {idempotencyKey : Uuid} {amount : ℤ} {ids : RunIds} :
    Emits topic (m.writes idempotencyKey amount ids db) ↔
      m.successTopic = topic ∧ (db.balanceOf m.payer m.currency).isSome := by
  rw [← emits_resultEvent ids.outboxId]
  have hmoves : ∀ e, .insertOutboxEvent e ∉ m.moves amount db := by
    intro e he
    cases m <;> simp [BalanceMessage.moves] at he
  simp [Emits,BalanceMessage.writes,hmoves]

end Emits

section Step
variable {db : UserDb} (hw : db.WellFormed) (m : BalanceMessage) (idempotencyKey : Uuid) (d : Delivery)
  {own : List Write}
include hw

theorem delivered_of_goesThrough (h : m.GoesThrough idempotencyKey ⟨db,own⟩ (.delivery d)) :
    ∃ amount, m.amount = some amount ∧ m.payable amount db ∧
      m.delivered idempotencyKey d db = m.writes idempotencyKey amount d.ids db := by
  obtain ⟨amount,ha,hp,hpay,hint⟩ := h
  refine ⟨amount,ha,hpay,delivered_of_call_ok m idempotencyKey ha d ?_⟩
  rw [Engine.run_of_not_interrupts _ hint,m.call_run_payable hw idempotencyKey amount d.ids hp hpay]

/-- A money transaction that neither goes through nor fails found the message recorded. -/
theorem delivered_of_not_goesThrough {amount : ℤ} (ha : m.amount = some amount)
    (h : ¬m.GoesThrough idempotencyKey ⟨db,own⟩ (.delivery d)) :
    (m.FailsOver idempotencyKey ⟨db,own⟩ (.delivery d) ∧
      m.delivered idempotencyKey d db = m.resultEvent d.ids.failedId m.failedTopic db) ∨
    (¬m.FailsOver idempotencyKey ⟨db,own⟩ (.delivery d) ∧ m.delivered idempotencyKey d db = []) := by
  have hfail : ∀ e, (server true).run d.fault (m.call idempotencyKey amount d.ids).body db =
      .error e → ((server true).interrupts d.fault (m.call idempotencyKey amount d.ids).body db ∨
        (db.processed idempotencyKey = none ∧ ¬m.payable amount db)) ∨
        db.balanceOf m.payer m.currency = none := by
    intro e he
    by_contra hn
    simp only [not_or,not_and,not_not] at hn
    obtain ⟨⟨hi,hpay⟩,hb⟩ := hn
    rw [Engine.run_of_not_interrupts _ hi] at he
    cases hp : db.processed idempotencyKey with
    | none => exact h ⟨amount,ha,hp,hpay hp,hi⟩
    | some e' =>
      rw [m.call_run_recorded hw idempotencyKey amount d.ids (by simp [hp])
        (Option.isSome_iff_ne_none.mpr hb)] at he
      contradiction
  cases hrun : (server true).run d.fault (m.call idempotencyKey amount d.ids).body db with
  | ok x =>
    obtain ⟨⟨⟩,ws⟩ := x
    have hi : ¬(server true).interrupts d.fault (m.call idempotencyKey amount d.ids).body db := by
      intro hi
      obtain ⟨e,he⟩ := Engine.run_of_interrupts _ hi
      rw [he] at hrun
      contradiction
    rw [Engine.run_of_not_interrupts _ hi] at hrun
    have hrec : (db.processed idempotencyKey).isSome := by
      by_contra hp
      rw [Option.not_isSome_iff_eq_none] at hp
      by_cases hpay : m.payable amount db
      · exact h ⟨amount,ha,hp,hpay,hi⟩
      · obtain ⟨e,he⟩ := m.call_run_refused hw idempotencyKey amount d.ids hp hpay
        rw [he] at hrun
        contradiction
    have hws := m.call_run_writes hw idempotencyKey amount d.ids hrec hrun
    refine .inr ⟨?_,?_⟩
    · rintro ⟨a,ha',hor | ⟨hp,-⟩,-⟩
      · rw [ha] at ha'
        cases ha'
        exact hi hor
      · simp [hp] at hrec
    · rw [← Engine.run_of_not_interrupts _ hi] at hrun
      rw [delivered_of_call_ok m idempotencyKey ha d hrun,hws]
  | error e =>
    have hcause := hfail e hrun
    rw [delivered_of_call_error m idempotencyKey ha d hrun]
    cases hb : db.balanceOf m.payer m.currency with
    | none =>
      refine .inr ⟨fun ⟨_,_,_,hs,_⟩ => by simp [hb] at hs,?_⟩
      obtain ⟨e',he'⟩ := m.failure_run_of_missing hw d.ids hb
      cases hi : (server true).interrupts d.catchFault (m.failure d.ids).body db with
      | true =>
        obtain ⟨e'',he''⟩ := Engine.run_of_interrupts _ hi
        rw [he'']
      | false => rw [Engine.run_of_not_interrupts _ (by simp [hi]),he']
    | some b =>
      have hcause := hcause.resolve_right (by simp [hb])
      cases hi : (server true).interrupts d.catchFault (m.failure d.ids).body db with
      | true =>
        obtain ⟨e'',he''⟩ := Engine.run_of_interrupts _ hi
        rw [he'']
        exact .inr ⟨fun ⟨_,_,_,_,hn⟩ => hn hi,rfl⟩
      | false =>
        rw [Engine.run_of_not_interrupts _ (by simp [hi]),m.failure_run hw d.ids (by simp [hb])]
        exact .inl ⟨⟨amount,ha,hcause,by simp [hb],by simp [hi]⟩,rfl⟩

theorem delivered_of_not_numeric (ha : m.amount = none) :
    m.delivered idempotencyKey d db = [] ∨
      m.delivered idempotencyKey d db = m.resultEvent d.ids.failedId m.failedTopic db := by
  have hd : m.delivered idempotencyKey d db =
      match (server true).run d.fault (m.failure d.ids).body db with
      | .ok (_,ws) => ws
      | .error _ => [] := by
    rw [BalanceMessage.delivered,m.handle_of_not_numeric idempotencyKey d.ids ha,m.catchBlock_eq,
      Proc.run_transaction]
    rcases (server true).run d.fault (m.failure d.ids).body db with e' | ⟨_,ws⟩ <;>
      simp [BalanceMessage.afterFailure]
  rw [hd]
  cases hrun : (server true).run d.fault (m.failure d.ids).body db with
  | error e => exact .inl rfl
  | ok x =>
    obtain ⟨⟨⟩,ws⟩ := x
    have halone := Engine.run_ok_of_fault _ hrun
    cases hb : db.balanceOf m.payer m.currency with
    | none =>
      obtain ⟨e',he'⟩ := m.failure_run_of_missing hw d.ids hb
      rw [he'] at halone
      contradiction
    | some b =>
      rw [m.failure_run hw d.ids (by simp [hb])] at halone
      cases halone
      exact .inr rfl

/-- A delivery emits the success event exactly when it goes through. -/
theorem emits_success_iff (own : List Write) :
    Emits m.successTopic (m.delivered idempotencyKey d db) ↔
      m.GoesThrough idempotencyKey ⟨db,own⟩ (.delivery d) := by
  by_cases h : m.GoesThrough idempotencyKey ⟨db,own⟩ (.delivery d)
  · obtain ⟨amount,-,hpay,hd⟩ := delivered_of_goesThrough hw m idempotencyKey d h
    rw [hd,emits_writes]
    simp [h,payer_of_payable m hpay]
  · have hne := (successTopic_ne_failedTopic m).symm
    have hnot : ¬Emits m.successTopic (m.delivered idempotencyKey d db) := by
      cases ha : m.amount with
      | none =>
        rcases delivered_of_not_numeric hw m idempotencyKey d ha with hd | hd <;> rw [hd]
        · exact not_emits_nil _
        · simp [emits_resultEvent,hne]
      | some amount =>
        rcases delivered_of_not_goesThrough hw m idempotencyKey d ha h with ⟨-,hd⟩ | ⟨-,hd⟩ <;>
          rw [hd]
        · simp [emits_resultEvent,hne]
        · exact not_emits_nil _
    simp [h,hnot]

/-- A delivery emits the failure event exactly when its money transaction fails and the transaction
of the event does not. -/
theorem emits_failed_iff (own : List Write) {amount : ℤ} (ha : m.amount = some amount) :
    Emits m.failedTopic (m.delivered idempotencyKey d db) ↔
      m.FailsOver idempotencyKey ⟨db,own⟩ (.delivery d) := by
  by_cases h : m.GoesThrough idempotencyKey ⟨db,own⟩ (.delivery d)
  · obtain ⟨amount',ha',hpay,hd⟩ := delivered_of_goesThrough hw m idempotencyKey d h
    have hnot : ¬m.FailsOver idempotencyKey ⟨db,own⟩ (.delivery d) := by
      obtain ⟨a,ha₁,-,-,hi⟩ := h
      rintro ⟨a',ha₂,hor | ⟨-,hn⟩,-⟩
      · rw [ha₁] at ha₂
        cases ha₂
        exact hi hor
      · rw [ha'] at ha₂
        cases ha₂
        exact hn hpay
    rw [hd,emits_writes]
    simp [hnot,successTopic_ne_failedTopic m]
  · rcases delivered_of_not_goesThrough hw m idempotencyKey d ha h with ⟨hf,hd⟩ | ⟨hf,hd⟩ <;> rw [hd]
    · have hs : (db.balanceOf m.payer m.currency).isSome := by
        obtain ⟨-,-,-,hs,-⟩ := hf
        exact hs
      simp [emits_resultEvent,hf,hs]
    · simp [not_emits_nil,hf]

end Step

section Runs
variable {m : BalanceMessage} {idempotencyKey : Uuid} {s s' : Served}

/-- What holds between two deliveries. -/
structure Served.Sound (s : Served) : Prop where
  wellFormed : s.db.WellFormed
  kept : ∀ e, .insertOutboxEvent e ∈ s.own → e ∈ s.db.outboxEvents

theorem Served.Sound.produced_iff (h : s.Sound) (topic : KafkaTopic) :
    s.Produced topic ↔ Emits topic s.own := by
  constructor
  · rintro ⟨e,-,he,hm⟩
    exact ⟨e,he,hm⟩
  · rintro ⟨e,he,hm⟩
    exact ⟨e,h.kept e hm,he,hm⟩

theorem Served.Sound.serve (h : s.Sound) {a : Traffic} (hs : m.serve idempotencyKey s a = some s') :
    s'.Sound := by
  have hlater : ∀ ws, ((server true).applyAll s.db ws).WellFormed := fun ws =>
    Later.wellFormed (Later.applyAll (Similar.refl _ _ s.db) ws) h.wellFormed
  cases a with
  | delivery d =>
    simp only [BalanceMessage.serve,Option.some.injEq] at hs
    subst hs
    refine ⟨hlater _,fun e he => ?_⟩
    rw [mem_outboxEvents_applyAll]
    exact (List.mem_append.mp he).imp (h.kept e) id
  | other call fault =>
    simp only [BalanceMessage.serve] at hs
    split at hs <;> cases hs
    · exact ⟨hlater _,fun e he => (mem_outboxEvents_applyAll _).mpr (.inl (h.kept e he))⟩
    · exact h

theorem emits_append {topic : KafkaTopic} {ws vs : List Write} :
    Emits topic (ws++vs) ↔ Emits topic ws ∨ Emits topic vs := by
  simp only [Emits,List.mem_append,and_or_left,exists_or]

/-- A step emits what its delivery emits. -/
theorem produced_step {topic : KafkaTopic} {emits : Traffic → Prop}
    (hd : ∀ d, Emits topic (m.delivered idempotencyKey d s.db) ↔ emits (.delivery d))
    (ho : ∀ call fault, ¬emits (.other call fault)) (h : s.Sound) {a : Traffic}
    (hs : m.serve idempotencyKey s a = some s') :
    s'.Produced topic ↔ s.Produced topic ∨ emits a := by
  rw [(h.serve hs).produced_iff,h.produced_iff]
  cases a with
  | delivery d =>
    simp only [BalanceMessage.serve,Option.some.injEq] at hs
    subst hs
    rw [emits_append,hd]
  | other call fault =>
    simp only [BalanceMessage.serve] at hs
    split at hs <;> cases hs <;> simp [ho]

theorem produced_success_step (h : s.Sound) {a : Traffic}
    (hs : m.serve idempotencyKey s a = some s') :
    s'.Produced m.successTopic ↔ s.Produced m.successTopic ∨ m.GoesThrough idempotencyKey s a :=
  produced_step (fun d => emits_success_iff h.wellFormed m idempotencyKey d s.own)
    (fun _ _ => id) h hs

theorem produced_failed_step (h : s.Sound) {amount : ℤ} (ha : m.amount = some amount) {a : Traffic}
    (hs : m.serve idempotencyKey s a = some s') :
    s'.Produced m.failedTopic ↔ s.Produced m.failedTopic ∨ m.FailsOver idempotencyKey s a :=
  produced_step (fun d => emits_failed_iff h.wellFormed m idempotencyKey d s.own ha)
    (fun _ _ => id) h hs

/-- The events of one message exclude each other exactly in the runs where no delivery goes through
or no delivery fails over to its failure event. -/
theorem success_excludes_failure_iff (m : BalanceMessage) (idempotencyKey : Uuid) (db₀ : UserDb)
    (hw : db₀.WellFormed) (traffic : List Traffic) (s : Served)
    (hs : Transition.runs (m.serve idempotencyKey) ⟨db₀,[]⟩ traffic = some s) :
    ¬(s.Produced m.successTopic ∧ s.Produced m.failedTopic) ↔
      Transition.Along (m.serve idempotencyKey)
        (fun s a => ¬m.GoesThrough idempotencyKey s a) ⟨db₀,[]⟩ traffic ∨
      Transition.Along (m.serve idempotencyKey)
        (fun s a => ¬m.FailsOver idempotencyKey s a) ⟨db₀,[]⟩ traffic := by
  have hsound : (⟨db₀,[]⟩ : Served).Sound := ⟨hw,by simp⟩
  have hnone : ∀ topic, ¬(⟨db₀,[]⟩ : Served).Produced topic := by
    rintro topic ⟨e,-,-,he⟩
    simp at he
  have hsuccess := Transition.flag_iff (I := Served.Sound) (fun _ _ _ h hs => h.serve hs)
    (fun _ _ _ h hs => produced_success_step h hs) hsound hs
  rw [or_iff_right (hnone m.successTopic)] at hsuccess
  cases ha : m.amount with
  | none =>
    have hgood : Transition.Along (m.serve idempotencyKey)
        (fun s a => ¬m.GoesThrough idempotencyKey s a) ⟨db₀,[]⟩ traffic := by
      refine .of_forall (fun a _ s => ?_) _
      cases a with
      | delivery d => rintro ⟨amount,ha',-⟩; simp [ha] at ha'
      | other call fault => exact id
    have := mt hsuccess.mp (not_not.mpr hgood)
    simp [hgood,this]
  | some amount =>
    have hfailed := Transition.flag_iff (I := Served.Sound) (fun _ _ _ h hs => h.serve hs)
      (fun _ _ _ h hs => produced_failed_step h ha hs) hsound hs
    rw [or_iff_right (hnone m.failedTopic)] at hfailed
    rw [hsuccess,hfailed,not_and_or,not_not,not_not]

/-- A transfer whose first delivery loses the connection before its `COMMIT` and again in the `catch`
block, and whose second delivery goes through. -/
theorem success_excludes_failure_iff_retry :
    let m := BalanceMessage.transferInited ⟨40,30,31,10,20,"RUB","25"⟩
    let start : Served := ⟨⟨[⟨1,50,"RUB",10,none⟩,⟨2,0,"RUB",20,none⟩],[],[]⟩,[]⟩
    let traffic : List Traffic :=
      [.delivery ⟨⟨61,62,63⟩,some 6,some 0⟩,.delivery ⟨⟨71,72,73⟩,none,none⟩]
    Transition.Along (m.serve 7) (fun s a => ¬m.GoesThrough 7 s a) start traffic ∨
      Transition.Along (m.serve 7) (fun s a => ¬m.FailsOver 7 s a) start traffic := by
  intro m start traffic
  refine (success_excludes_failure_iff m 7 start.db ⟨by decide,by decide⟩ traffic _ rfl).mp ?_
  rintro ⟨-,hfailed⟩
  revert hfailed
  unfold Served.Produced
  decide

/-- A deposit that is credited, and whose message is delivered again while the database is down for
a moment. -/
theorem success_and_failure_of_one_message :
    ∃ s : Served, Transition.runs ((BalanceMessage.depositPaidSuccess ⟨40,30,10,"RUB","100"⟩).serve 7)
        ⟨⟨[⟨1,0,"RUB",10,none⟩],[],[]⟩,[]⟩
        [.delivery ⟨⟨61,62,63⟩,none,none⟩,.delivery ⟨⟨71,72,73⟩,some 0,none⟩] = some s ∧
      s.Produced .depositCreditingSuccess ∧ s.Produced .depositCreditingFailed := by
  refine ⟨_,rfl,?_,?_⟩
  · exact ⟨⟨62,1,.depositCreditingSuccess,.depositCrediting ⟨40,30⟩,false⟩,by decide,rfl,by decide⟩
  · exact ⟨⟨73,1,.depositCreditingFailed,.depositCrediting ⟨40,30⟩,false⟩,by decide,rfl,by decide⟩

end Runs
end NestHomework.UserService
