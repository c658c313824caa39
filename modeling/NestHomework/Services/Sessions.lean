import NestHomework.Services.Register
import NestHomework.Services.Steps
import NestHomework.TransactionService.Webhook

/-! The transaction service under load: any number of requests, notifications and Kafka messages at
once, each in a session of its own, one SQL statement at a time. -/
namespace NestHomework.Services
open Contracts Postgres TransactionService
open UserService (BalanceMessage UserDb Balance)

/-- The transaction that a call runs. Its outcome only reaches the caller and the log. -/
def callHandler (c : TransactionCall) : Proc Stmt Res Unit Unit :=
  .transaction c.body (fun _ => .done ())

/-- Session `t` runs call number `t`. -/
def handlers (calls : List TransactionCall) (t : ℕ) : Proc Stmt Res Unit Unit :=
  (calls[t]?.map callHandler).getD (.done ())

/-- The Kafka message is an answer to this event. -/
def answersEvent (value : Payload) (e : OutboxEvent) : Bool :=
  match e.payload, value with
  | some (.depositPaid p), .depositCrediting q => q = ⟨p.eventId,p.transactionId⟩
  | some (.transferInited p), .transferResult q => q = ⟨p.eventId,p.outId,p.inId⟩
  | _, _ => false

section Messages
variable {c : TransactionCall}

/-- A Kafka handler calls the repository for what its message is about. -/
theorem callTarget_of_resultCall {maxRetry : ℕ} {m : KafkaMessage} {ids : RetryIds}
    (hc : resultCall maxRetry m ids = some c) : callTarget c = some (payloadTarget m.value) := by
  unfold resultCall at hc
  split at hc
  · rename_i hv
    cases hc
    rw [hv]
    rfl
  · rename_i hv
    cases hc
    rw [hv]
    rfl
  · rename_i hv
    cases hc
    rw [hv]
    rfl
  · rename_i hv
    cases hc
    rw [hv]
    rfl
  · contradiction

/-- An answer repeats the ids of the payload. -/
theorem payload_of_answersEvent {value : Payload} {e : OutboxEvent} (h : answersEvent value e) :
    ∃ p, e.payload = some p ∧ payloadTarget p = payloadTarget value ∧
      payloadEventId p = payloadEventId value := by
  unfold answersEvent at h
  split at h
  · rename_i p q hp
    rw [of_decide_eq_true h]
    exact ⟨_,hp,rfl,rfl⟩
  · rename_i p q hp
    rw [of_decide_eq_true h]
    exact ⟨_,hp,rfl,rfl⟩
  · contradiction

theorem informed_of_answers {db : TxDb} {maxRetry : ℕ} {m : KafkaMessage} {ids : RetryIds}
    (ha : db.outboxEvents.any (answersEvent m.value)) (hc : resultCall maxRetry m ids = some c) :
    Informed db c := by
  obtain ⟨e,he,hans⟩ := List.any_eq_true.mp ha
  intro g hg
  rw [callTarget_of_resultCall hc] at hg
  cases hg
  obtain ⟨p,hp,htarget,-⟩ := payload_of_answersEvent hans
  exact ⟨e,he,by rw [hp,Option.map_some,htarget]⟩

/-- Between the two services no other message comes to a Kafka handler. -/
theorem answersEvent_of_speaks {db : TxDb} {maxRetry : ℕ} {m : KafkaMessage} {ids : RetryIds}
    (h : Speaks db m) (hc : resultCall maxRetry m ids = some c) :
    db.outboxEvents.any (answersEvent m.value) := by
  obtain ⟨b,hgen,⟨-,hvalue⟩ | ⟨hvalue,-⟩⟩ := h
  · unfold resultCall at hc
    cases b <;> simp [hvalue,messagePayload] at hc
  · obtain ⟨e,he,-,-,hpay⟩ := hgen.event
    refine List.any_eq_true.mpr ⟨e,he,?_⟩
    rw [hvalue]
    cases b <;> simp [answersEvent,hpay,messagePayload,BalanceMessage.resultPayload]

theorem messages_answer_events {maxRetry : ℕ} {balances : List Balance} {steps : List Action}
    {s : State} (hw : UserDb.WellFormed ⟨balances,[],[]⟩)
    (hs : Transition.runs (State.next maxRetry) (.initial balances) steps = some s) {m : KafkaMessage}
    (hm : m ∈ s.messages) {ids : RetryIds} (hc : resultCall maxRetry m ids = some c) :
    s.tx.outboxEvents.any (answersEvent m.value) := by
  have hcontents : Contents s := Transition.runs_invariant' (fun _ _ _ hi hn => hi.next hn)
    (.initial hw) hs
  exact answersEvent_of_speaks (hcontents.messages m hm) hc

/-- Events keep their ids and payloads. -/
theorem Informed.mono {db db' : TxDb} (h : Informed db c)
    (he : ∀ e ∈ db.outboxEvents, ∃ e' ∈ db'.outboxEvents, e'.payload = e.payload) :
    Informed db' c := by
  intro g hg
  obtain ⟨e,hmem,hp⟩ := h g hg
  obtain ⟨e',hmem',hp'⟩ := he e hmem
  exact ⟨e',hmem',hp' ▸ hp⟩

/-- A call creates events under its own uuids. -/
theorem id_mem_eventUuids {db : TxDb} {ws : List Write} (hl : c.Lands db ws) {e : OutboxEvent}
    (he : e ∈ newEvents ws) : e.id ∈ eventUuids c := by
  cases hl with
  | createdTransfer =>
    simp only [newEvents,List.filterMap_cons,List.filterMap_nil,List.mem_singleton] at he
    subst he
    exact List.mem_singleton_self _
  | completed =>
    simp only [newEvents,List.filterMap_cons,List.filterMap_nil,List.mem_singleton] at he
    subst he
    exact List.mem_singleton_self _
  | copied =>
    simp only [newEvents,RetryCall.copyWrites,List.filterMap_cons,List.filterMap_nil,
      List.mem_singleton] at he
    subst he
    exact List.mem_singleton_self _
  | _ => simp [newEvents,RetryCall.failWrites] at he

end Messages

/-- The database server with its sessions, the calls so far, the payments of the provider, and what
the provider has reported of them. -/
structure Sessions where
  server : Postgres.State Res TxDb Write Uuid UniqueKey Unit Unit ℕ
  calls : List TransactionCall
  payments : String → Option YookassaPaymentStatus
  reported : List YookassaPayment

inductive SessionsAction where
  | depositRub (n : NewDeposit)
  | transferRub (n : NewTransfer)
  /-- A payment changes at the provider. -/
  | payment (p : YookassaPayment)
  /-- A notification, and what the provider answers to `GET /payments`. -/
  | webhook (data : YookassaWebhookResponse) (answer : Except String YookassaPayment)
      (eventId : Uuid)
  | kafka (m : KafkaMessage) (ids : RetryIds)
  /-- The outbox worker. -/
  | mark (ids : List Uuid)
  | sql (a : SessionAction Uuid ℕ)

namespace Sessions
section Steps
variable (s : Sessions)

/-- A call starts, unless a uuid of its event has been generated before. -/
def launch (c : TransactionCall) : Option Sessions :=
  if ∀ u ∈ eventUuids c, u ∉ s.calls.flatMap eventUuids then
    some {s with
      server := s.server.launch s.calls.length (callHandler c)
      calls := s.calls++[c]}
  else none

/-- The provider answers with the true status. -/
def truthful : Except String YookassaPayment → Bool
  | .error _ => true
  | .ok payment => s.payments payment.id = some payment.status

def report : Except String YookassaPayment → Sessions
  | .error _ => s
  | .ok payment => {s with reported := s.reported++[payment]}

end Steps

def next (maxRetry : ℕ) (s : Sessions) : SessionsAction → Option Sessions
  | .depositRub n => s.launch (.create n)
  | .transferRub n => s.launch (.createTransfer n)
  | .payment p => some {s with payments := Function.update s.payments p.id (some p.status)}
  | .webhook data answer eventId =>
    if s.truthful answer then
      match processing (fun _ => answer) data eventId with
      | .ok (some c) => (s.report answer).launch c
      | _ => some (s.report answer)
    else none
  | .kafka m ids =>
    if s.server.db.outboxEvents.any (answersEvent m.value) then
      match resultCall maxRetry m ids with
      | some c => s.launch c
      | none => some s
    else none
  | .mark ids =>
    some {s with server := {s.server with db := txTable.markEventsAsProcessed ids s.server.db}}
  | .sql a => (TransactionService.server.next s.server a).map (fun v => {s with server := v})

def initial : Sessions :=
  ⟨Server.initial ⟨[],[],[]⟩ (handlers []),[],fun _ => none,[]⟩

/-- What a step does. -/
inductive Moves (s : Sessions) : Sessions → Prop
  | starts {c s'} (start : s.launch c = some s') (informed : Informed s.server.db c)
      (unpaid : ∀ p i, c ≠ .setStatusCompleted p i) : Moves s s'
  | pays (payments : String → Option YookassaPaymentStatus) : Moves s {s with payments := payments}
  | reports (answer : Except String YookassaPayment) : Moves s (s.report answer)
  | notifies {data answer eventId c s'}
      (call : processing (fun _ => answer) data eventId = .ok (some c))
      (start : (s.report answer).launch c = some s') : Moves s s'
  | ignores : Moves s s
  | marks (ids : List Uuid) : Moves s
      {s with server := {s.server with db := txTable.markEventsAsProcessed ids s.server.db}}
  | serves {a v} (step : TransactionService.server.next s.server a = some v) :
      Moves s {s with server := v}

/-- The provider has reported the payment as succeeded. -/
def Succeeded (s : Sessions) (providerPaymentId : String) : Prop :=
  ⟨providerPaymentId,.succeeded⟩ ∈ s.reported

/-- The events that were ever committed. -/
def inserted (s : Sessions) : List OutboxEvent := newEvents (s.server.log.flatMap (·.writes))

/-- What holds at any moment. -/
structure Sound (s : Sessions) : Prop where
  follows : Follows (handlers s.calls) s.server
  isolated : Isolated footprint s.server
  knows : Knows footprint Known s.server
  uuids : (s.calls.flatMap eventUuids).Nodup
  informed : ∀ c ∈ s.calls, Informed s.server.db c
  paid : ∀ p i, .setStatusCompleted p i ∈ s.calls → s.Succeeded p
  events : ∀ e ∈ s.server.db.outboxEvents, ∃ t c, s.calls[t]? = some c ∧ e.id ∈ eventUuids c ∧
    (s.server.session t).finished
  logged : s.server.db.outboxEvents.map (·.created) = s.inserted.map (·.created)
  register : ∃ pairs, Register s.server.db s.Succeeded pairs

variable {s s' : Sessions} {c : TransactionCall}

theorem moves_of_next {maxRetry : ℕ} {a : SessionsAction} (hs : s.next maxRetry a = some s') :
    s.Moves s' := by
  cases a with
  | depositRub n => exact .starts hs (fun g hg => by cases hg) (fun p i hc => by cases hc)
  | transferRub n => exact .starts hs (fun g hg => by cases hg) (fun p i hc => by cases hc)
  | payment p =>
    cases hs
    exact .pays _
  | webhook data answer eventId =>
    simp only [Sessions.next] at hs
    split at hs
    · split at hs
      · rename_i c hc
        exact .notifies hc hs
      · cases hs
        exact .reports answer
    · contradiction
  | kafka m ids =>
    simp only [Sessions.next] at hs
    split at hs
    · rename_i hans
      cases hc : resultCall maxRetry m ids with
      | none =>
        rw [hc] at hs
        cases hs
        exact .ignores
      | some c =>
        rw [hc] at hs
        refine .starts hs (informed_of_answers hans hc) (fun p i heq => ?_)
        have htarget := callTarget_of_resultCall hc
        rw [heq] at htarget
        contradiction
    · contradiction
  | mark ids =>
    cases hs
    exact .marks ids
  | sql a =>
    obtain ⟨v,hv,rfl⟩ := Option.map_eq_some_iff.mp hs
    exact .serves hv

theorem handlers_length (calls : List TransactionCall) :
    handlers calls calls.length = .done () := by
  simp [handlers]

theorem handlers_append (calls : List TransactionCall) (c : TransactionCall) :
    handlers (calls++[c]) = Function.update (handlers calls) calls.length (callHandler c) := by
  funext t
  rw [Function.update_apply,handlers,handlers]
  split
  · rename_i ht
    simp [ht]
  · rename_i ht
    rcases Nat.lt_or_gt_of_ne ht with hlt | hgt
    · rw [List.getElem?_append_left hlt]
    · rw [List.getElem?_eq_none (by simp; omega),List.getElem?_eq_none (by omega)]

/-- The call of a transaction in progress, and where its body stands. -/
theorem Sound.call (h : s.Sound) {t : ℕ} {a : Active Res Write Uuid Unit Unit}
    (ha : s.server.session t = .active a) : ∃ c, s.calls[t]? = some c ∧
      (∀ r, a.next r = .done ()) ∧ c.body.Path a.answered a.cur := by
  obtain ⟨hsuf,hpath⟩ := h.follows.active t a ha
  cases hc : s.calls[t]? with
  | none =>
    rw [handlers,hc] at hsuf
    cases hsuf.cases_done
  | some c =>
    rw [handlers,hc] at hsuf
    rcases hsuf.cases_transaction with heq | ⟨r,hdone⟩
    · simp only [Proc.transaction.injEq] at heq
      obtain ⟨hbody,hnext⟩ := heq
      rw [hbody] at hpath
      exact ⟨c,rfl,fun r => by rw [hnext],hpath⟩
    · cases hdone.cases_done

theorem nodup_eventUuids (c : TransactionCall) : (eventUuids c).Nodup := by
  cases c <;> simp [eventUuids]

/-- The start of a call. -/
theorem Sound.launch (h : s.Sound) (hs : s.launch c = some s') (hinf : Informed s.server.db c)
    (hpaid : ∀ p i, c = .setStatusCompleted p i → s.Succeeded p) : s'.Sound := by
  simp only [Sessions.launch] at hs
  split at hs
  · rename_i hnew
    cases hs
    refine ⟨?_,h.isolated.launch _ _,h.knows.launch _ _,?_,fun c' hc => ?_,fun p i hc => ?_,
      fun e he => ?_,h.logged,h.register⟩
    · rw [handlers_append]
      exact h.follows.launch (handlers_length _)
    · rw [List.flatMap_append,List.flatMap_singleton]
      exact h.uuids.append (nodup_eventUuids c) (fun u hu hu' => hnew u hu' hu)
    · rcases List.mem_append.mp hc with hc | hc
      · exact h.informed c' hc
      · rw [List.mem_singleton.mp hc]
        exact hinf
    · rcases List.mem_append.mp hc with hc | hc
      · exact h.paid p i hc
      · exact hpaid p i (List.mem_singleton.mp hc).symm
    · obtain ⟨t,c',hc,hid,hf⟩ := h.events e he
      have hlt : t < s.calls.length := (List.getElem?_eq_some_iff.mp hc).1
      refine ⟨t,c',?_,hid,?_⟩
      · rw [List.getElem?_append_left hlt]
        exact hc
      · rw [State.launch_session,if_neg hlt.ne]
        exact hf
  · contradiction

theorem Sound.report (h : s.Sound) (answer : Except String YookassaPayment) :
    (s.report answer).Sound := by
  cases answer with
  | error e => exact h
  | ok payment =>
    have hmono : ∀ p, s.Succeeded p → (s.report (.ok payment)).Succeeded p := fun p hp =>
      List.mem_append_left _ hp
    obtain ⟨pairs,hb⟩ := h.register
    exact ⟨h.follows,h.isolated,h.knows,h.uuids,h.informed,fun p i hc => hmono p (h.paid p i hc),
      h.events,h.logged,pairs,hb.report hmono⟩

/-- A notification of success only starts a call for a payment that succeeded. -/
theorem Sound.webhook (h : s.Sound) {data : YookassaWebhookResponse}
    {answer : Except String YookassaPayment} {eventId : Uuid}
    (hc : processing (fun _ => answer) data eventId = .ok (some c))
    (hs : (s.report answer).launch c = some s') : s'.Sound := by
  obtain ⟨payment,hanswer,⟨hst,rfl⟩ | ⟨hst,rfl⟩⟩ := processing_call hc
  · refine (h.report answer).launch hs (fun g hg => ?_) (fun p i heq => ?_)
    · cases hg
    · cases heq
      obtain ⟨id,status⟩ := payment
      cases hst
      rw [hanswer]
      exact List.mem_append_right _ (List.mem_singleton_self _)
  · refine (h.report answer).launch hs (fun g hg => ?_) (fun p i heq => ?_)
    · cases hg
    · cases heq

theorem Sound.mark (h : s.Sound) (ids : List Uuid) :
    Sound {s with server := {s.server with db := txTable.markEventsAsProcessed ids s.server.db}} := by
  have hmark : ∀ e ∈ s.server.db.outboxEvents,
      ∃ e' ∈ (txTable.markEventsAsProcessed ids s.server.db).outboxEvents, e'.payload = e.payload ∧
        e'.created = e.created := by
    intro e he
    refine ⟨_,List.mem_map_of_mem he,?_⟩
    split <;> exact ⟨rfl,rfl⟩
  obtain ⟨pairs,hb⟩ := h.register
  refine ⟨⟨h.follows.idle,h.follows.active,h.follows.log⟩,h.isolated.of_index rfl,
    h.knows.of_db fun own ws st r hk => hk.mono (fun t ht ho => ⟨ht,ho⟩) fun e he => ?_,h.uuids,
    fun c hc => Informed.mono (h.informed c hc) fun e he => ?_,h.paid,fun e he => ?_,?_,
    pairs,hb.mark ids⟩
  · obtain ⟨e₁,he₁,heq⟩ := he
    obtain ⟨e₂,he₂,-,heq'⟩ := hmark e₁ he₁
    exact ⟨e₂,he₂,heq'.trans heq⟩
  · obtain ⟨e',he',hp,-⟩ := hmark e he
    exact ⟨e',he',hp⟩
  · obtain ⟨e',he',rfl⟩ := List.mem_map.mp he
    obtain ⟨t,c,hc,hid,hf⟩ := h.events e' he'
    refine ⟨t,c,hc,?_,hf⟩
    split <;> exact hid
  · refine Eq.trans ?_ h.logged
    simp only [txTable,List.map_map]
    refine List.map_congr_left (fun e _ => ?_)
    simp only [Function.comp_apply]
    split <;> rfl

/-- No statement of a call updates a row unseen that is not there. -/
theorem Sound.covers (h : s.Sound) : footprint.Covers s.server := by
  intro t a st k r ws ha hc he
  obtain ⟨c,hcall,-,hpath⟩ := h.call ha
  refine exec_covers he (fun id hid => ?_)
  rw [hc] at hpath
  have hmany := (hpath.every c.body_every).1.1 id hid
  obtain ⟨pairs,hb⟩ := h.register
  cases c with
  | recreate c ids =>
    rw [TransactionCall.many] at hmany
    split at hmany
    · contradiction
    · rename_i outId inId htarget
      have hinf := h.informed _ (List.mem_of_getElem? hcall) _ rfl
      rcases hb.target hinf with ⟨t,-,-,-,hg⟩ | ⟨q,hq,hg⟩
      · rw [htarget] at hg
        contradiction
      · rw [htarget] at hg
        cases hg
        obtain ⟨hout,hinc⟩ := hb.legs_mem hq
        refine isSome_transaction_applyAll (TransactionCall.isSome_transaction.mpr ?_) _
        rcases List.mem_pair.mp hmany with rfl | rfl
        · exact ⟨_,hout,rfl⟩
        · exact ⟨_,hinc,rfl⟩
  | _ => contradiction

/-- Two calls do not share a uuid. -/
theorem Sound.eq_of_uuid (h : s.Sound) {t u : ℕ} {c d : TransactionCall} {i : Uuid}
    (ht : s.calls[t]? = some c) (hu : s.calls[u]? = some d) (hc : i ∈ eventUuids c)
    (hd : i ∈ eventUuids d) : t = u := by
  have hpair := List.pairwise_iff_getElem.mp (List.nodup_flatMap.mp h.uuids).2
  obtain ⟨htl,rfl⟩ := List.getElem?_eq_some_iff.mp ht
  obtain ⟨hul,rfl⟩ := List.getElem?_eq_some_iff.mp hu
  by_contra hne
  rcases Nat.lt_or_gt_of_ne hne with hlt | hgt
  · exact hpair t u htl hul hlt hc hd
  · exact hpair u t hul htl hgt hd hc

/-- What a transaction commits, and that the events it creates are new. -/
theorem Sound.lands (h : s.Sound) {t : ℕ} {a : Active Res Write Uuid Unit Unit} {x : Unit}
    (ha : s.server.session t = .active a) (hx : a.cur = .pure x) : ∃ c, s.calls[t]? = some c ∧
      (∀ r, a.next r = .done ()) ∧ c.Lands s.server.db a.pending ∧
      ∀ e ∈ s.server.db.outboxEvents, e.id ∉ eventUuids c := by
  obtain ⟨c,hc,hnext,hpath⟩ := h.call ha
  rw [hx] at hpath
  refine ⟨c,hc,hnext,?_,fun e he hid => ?_⟩
  · rw [h.isolated.pending t a ha]
    exact TransactionCall.lands_of_path hpath (h.knows t a ha)
  · obtain ⟨u,d,hd,hid',hf⟩ := h.events e he
    have hut := h.eq_of_uuid hc hd hid hid'
    subst hut
    rw [ha] at hf
    contradiction

/-- A step of the database server. -/
theorem Sound.sql (h : s.Sound) {act : SessionAction Uuid ℕ}
    {v : Postgres.State Res TxDb Write Uuid UniqueKey Unit Unit ℕ}
    (hs : TransactionService.server.next s.server act = some v) : Sound {s with server := v} := by
  obtain ⟨hmoves,hother⟩ := Server.moves_of_next hs
  have hkeep : ∀ t, (s.server.session t).finished → (v.session t).finished := by
    intro t hf
    have hne : t ≠ act.session := by
      rintro rfl
      cases hmoves with
      | begins before => rw [before] at hf; contradiction
      | waits before => rw [before] at hf; contradiction
      | answers _ before => rw [before] at hf; contradiction
      | commits before => rw [before] at hf; contradiction
      | fails before => rw [before] at hf; contradiction
    rwa [hother t hne]
  have hsame : v.db = s.server.db → v.log = s.server.log → Sound {s with server := v} := by
    intro hdb hlog
    refine ⟨h.follows.next hs,h.isolated.next h.covers hs,h.knows.next h.isolated known_stable hs,
      h.uuids,fun c hc => ?_,h.paid,fun e he => ?_,?_,?_⟩
    · rw [hdb]
      exact h.informed c hc
    · rw [hdb] at he
      obtain ⟨t,c,hc,hid,hf⟩ := h.events e he
      exact ⟨t,c,hc,hid,hkeep t hf⟩
    · rw [hdb,inserted,hlog]
      exact h.logged
    · rw [hdb]
      exact h.register
  cases hmoves with
  | begins _ _ db log => exact hsame db log
  | waits _ _ db log => exact hsame db log
  | answers _ _ _ _ _ _ db log => exact hsame db log
  | fails _ _ _ db log => exact hsame db log
  | @commits a x before cur after db log =>
    obtain ⟨c,hc,hnext,hl,hfresh⟩ := h.lands before cur
    have hmem := List.mem_of_getElem? hc
    obtain ⟨pairs,hb⟩ := h.register
    have hregister := hb.lands (nodup_of_index h.isolated.unique).1 hl (h.informed c hmem) hfresh
      (fun p i hci => h.paid p i (hci ▸ hmem))
    have hevents : v.db.outboxEvents = s.server.db.outboxEvents++newEvents a.pending := by
      rw [db]
      exact outboxEvents_applyAll _ _
    refine ⟨h.follows.next hs,h.isolated.next h.covers hs,h.knows.next h.isolated known_stable hs,
      h.uuids,fun c hc => ?_,h.paid,fun e he => ?_,?_,?_⟩
    · refine Informed.mono (h.informed c hc) fun e he => ⟨e,?_,rfl⟩
      rw [hevents]
      exact List.mem_append_left _ he
    · rw [hevents] at he
      rcases List.mem_append.mp he with he | he
      · obtain ⟨t,c,hc,hid,hf⟩ := h.events e he
        exact ⟨t,c,hc,hid,hkeep t hf⟩
      · refine ⟨act.session,c,hc,id_mem_eventUuids hl he,?_⟩
        rw [after,hnext]
        rfl
    · have hlog : newEvents (v.log.flatMap (·.writes)) = s.inserted++newEvents a.pending := by
        rw [log,List.flatMap_append,inserted,newEvents,List.filterMap_append]
        simp [newEvents]
      rw [hevents,inserted,hlog,List.map_append,List.map_append,h.logged]
    · rw [db]
      exact hregister

theorem Sound.initial : Sound initial := by
  refine ⟨Follows.initial _ _,.initial List.nodup_nil _,fun t a ha => ?_,List.nodup_nil,
    by simp [Sessions.initial],by simp [Sessions.initial],by simp [Sessions.initial,Server.initial],
    rfl,[],.empty⟩
  cases ha

/-- A step keeps what holds at any moment. -/
theorem Sound.next (h : s.Sound) {maxRetry : ℕ} {a : SessionsAction}
    (hs : s.next maxRetry a = some s') : s'.Sound := by
  cases moves_of_next hs with
  | starts start informed unpaid =>
    exact h.launch start informed (fun p i hc => absurd hc (unpaid p i))
  | pays payments =>
    exact ⟨h.follows,h.isolated,h.knows,h.uuids,h.informed,h.paid,h.events,h.logged,h.register⟩
  | reports answer => exact h.report answer
  | notifies call start => exact h.webhook call start
  | ignores => exact h
  | marks ids => exact h.mark ids
  | serves step => exact h.sql step

theorem launch_server (hs : s.launch c = some s') :
    s'.server = s.server.launch s.calls.length (callHandler c) ∧ s'.calls = s.calls++[c] := by
  simp only [Sessions.launch] at hs
  split at hs
  · cases hs
    exact ⟨rfl,rfl⟩
  · contradiction

theorem report_server (answer : Except String YookassaPayment) :
    (s.report answer).server = s.server := by
  cases answer <;> rfl

theorem report_calls (answer : Except String YookassaPayment) :
    (s.report answer).calls = s.calls := by
  cases answer <;> rfl

/-- A step leaves the tables alone, marks events, or commits what a transaction has written. -/
theorem db_cases {maxRetry : ℕ} {a : SessionsAction} (hs : s.next maxRetry a = some s') :
    s'.server.db = s.server.db ∨
    (∃ ids, s'.server.db = txTable.markEventsAsProcessed ids s.server.db) ∨
    ∃ t a, s.server.session t = .active a ∧ a.cur = .pure () ∧
      s'.server.db = TransactionService.server.applyAll s.server.db a.pending := by
  cases moves_of_next hs with
  | starts start =>
    rw [(launch_server start).1]
    exact .inl rfl
  | pays payments => exact .inl rfl
  | reports answer =>
    rw [report_server]
    exact .inl rfl
  | @notifies data answer eventId c _ call start =>
    rw [(launch_server start).1,report_server]
    exact .inl rfl
  | ignores => exact .inl rfl
  | marks ids => exact .inr (.inl ⟨ids,rfl⟩)
  | serves step =>
    cases (Server.moves_of_next step).1 with
    | begins _ _ db => exact .inl db
    | waits _ _ db => exact .inl db
    | answers _ _ _ _ _ _ db => exact .inl db
    | fails _ _ _ db => exact .inl db
    | commits before cur _ db => exact .inr (.inr ⟨_,_,before,cur,db⟩)

/-- What a step does to the rows. -/
theorem Sound.transactions_cases (h : s.Sound) {maxRetry : ℕ} {a : SessionsAction}
    (hs : s.next maxRetry a = some s') :
    s'.server.db.transactions = s.server.db.transactions ∨ ∃ c ∈ s.calls, ∃ ws,
      c.Lands s.server.db ws ∧ s'.server.db = TransactionService.server.applyAll s.server.db ws := by
  rcases db_cases hs with hdb | ⟨ids,hdb⟩ | ⟨t,a,ha,hx,hdb⟩
  · exact .inl (congrArg TxDb.transactions hdb)
  · rw [hdb]
    exact .inl rfl
  · obtain ⟨c,hc,-,hl,-⟩ := h.lands ha hx
    exact .inr ⟨c,List.mem_of_getElem? hc,_,hl,hdb⟩

theorem Sound.runs {maxRetry : ℕ} {as : List SessionsAction} (h : s.Sound)
    (hs : Transition.runs (Sessions.next maxRetry) s as = some s') : s'.Sound :=
  Transition.runs_invariant' (fun _ _ _ hi hn => hi.next hn) h hs

end Sessions
end NestHomework.Services
