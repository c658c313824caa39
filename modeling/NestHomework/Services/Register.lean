import NestHomework.Services.Contents
import NestHomework.TransactionService.Interleaved

/-! What the transfers and the deposits of the transaction service look like after any calls, however
their statements interleave: the legs of a transfer come in pairs that only ever change together, and
a deposit is released at most once, after the provider has reported its payment. -/
namespace NestHomework.Services
open Contracts Postgres TransactionService

/-- A leg of a transfer. -/
def isLeg (t : Transaction) : Bool :=
  match t.type with
  | .transferOut => true
  | .transferIn => true
  | _ => false

/-- A deposit that has been paid, whatever has become of it since. -/
def released (t : Transaction) : Bool :=
  match t.status with
  | .pending => false
  | .timeout => false
  | _ => true

def payloadEventId : Payload → Uuid
  | .depositPaid p => p.eventId
  | .depositCrediting p => p.eventId
  | .transferInited p => p.eventId
  | .transferResult p => p.eventId

/-- A retry gives its copy another id than the payload has. -/
def isOriginal (e : OutboxEvent) : Bool := e.payload.any (fun p => e.id = payloadEventId p)

/-- Both rows of a transfer, as they change together. -/
structure TransferPair where
  transfer : NewTransfer
  status : TransactionStatus
  retryCount : ℕ
  deriving DecidableEq, Repr

namespace TransferPair
variable (p : TransferPair)

def out : Transaction := {p.transfer.txOut with status := p.status, retryCount := p.retryCount}

def inc : Transaction := {p.transfer.txIn with status := p.status, retryCount := p.retryCount}

def legs : List Transaction := [p.out,p.inc]

end TransferPair

/-- What an outbox row tells: the start of a transfer, or the payment of a deposit. -/
inductive Tells (rows : List Transaction) (reported : String → Prop) (pairs : List TransferPair)
    (e : OutboxEvent) : Prop
  | transfer {p} (hp : p ∈ pairs) (topic : e.topic = .transferInited)
      (transactionId : e.transactionId = p.transfer.outId)
      (payload : e.payload = some (.transferInited p.transfer.payload))
  | deposit {t providerPaymentId eventId} (ht : t ∈ rows) (type : t.type = .deposit)
      (paid : t.providerPaymentId = some providerPaymentId) (isReleased : released t)
      (isReported : reported providerPaymentId) (topic : e.topic = .depositPaidSuccess)
      (transactionId : e.transactionId = t.id)
      (payload : e.payload = some (.depositPaid (t.depositPaid eventId)))

def startsTransfer (e : OutboxEvent) : Bool := e.topic = .transferInited && isOriginal e

def releases (id : Uuid) (e : OutboxEvent) : Bool :=
  e.topic = .depositPaidSuccess && e.transactionId = id && isOriginal e

/-- `reported` are the payments that the provider has reported as succeeded. -/
structure Register (db : TxDb) (reported : String → Prop) (pairs : List TransferPair) : Prop where
  legs : db.transactions.filter isLeg = pairs.flatMap TransferPair.legs
  deposits : ∀ t ∈ db.transactions, isLeg t = false → t.type = .deposit
  transfers : (db.outboxEvents.filter startsTransfer).map (·.created) = pairs.map (·.transfer.event)
  tells : ∀ e ∈ db.outboxEvents, Tells db.transactions reported pairs e
  once : ∀ id, db.outboxEvents.countP (releases id) ≤ 1
  origin : ∀ e ∈ db.outboxEvents, ∀ p, e.payload = some p →
    ∃ o ∈ db.outboxEvents, o.id = payloadEventId p

section Changes
variable (ids : List Uuid) (status : TransactionStatus → TransactionStatus) (retryCount : ℕ → ℕ)

/-- An update of statuses and counts. -/
def updateRow (t : Transaction) : Transaction :=
  if ids.contains t.id then {t with status := status t.status, retryCount := retryCount t.retryCount}
  else t

def updateRows (db : TxDb) : TxDb :=
  {db with transactions := db.transactions.map (updateRow ids status retryCount)}

def TransferPair.update (p : TransferPair) : TransferPair :=
  if ids.contains p.transfer.outId then
    {p with status := status p.status, retryCount := retryCount p.retryCount}
  else p

end Changes

section Changes
variable {ids : List Uuid} {status : TransactionStatus → TransactionStatus} {retryCount : ℕ → ℕ}
  {db : TxDb} {reported : String → Prop} {pairs : List TransferPair}

theorem setStatus_eq (ids : List Uuid) (status : TransactionStatus) (db : TxDb) :
    (Write.setStatus ids status).apply db = updateRows ids (fun _ => status) id db := rfl

theorem addRetryCount_eq (ids : List Uuid) (db : TxDb) :
    (Write.addRetryCount ids).apply db = updateRows ids id (·+1) db := rfl

theorem setStatus_pair (outId inId : Uuid) (status : TransactionStatus) (db : TxDb) :
    (Write.setStatus [inId] status).apply ((Write.setStatus [outId] status).apply db) =
      (Write.setStatus [outId,inId] status).apply db := by
  simp only [Write.apply,List.map_map]
  congr 1
  refine List.map_congr_left (fun t _ => ?_)
  by_cases hout : t.id = outId
  · simp [hout]
  · simp [hout]

@[simp] theorem updateRow_id (t : Transaction) : (updateRow ids status retryCount t).id = t.id := by
  unfold updateRow
  split <;> rfl

@[simp] theorem updateRow_isLeg (t : Transaction) :
    isLeg (updateRow ids status retryCount t) = isLeg t := by
  unfold updateRow
  split <;> rfl

@[simp] theorem updateRow_type (t : Transaction) :
    (updateRow ids status retryCount t).type = t.type := by
  unfold updateRow
  split <;> rfl

theorem updateRow_paid (t : Transaction) :
    (updateRow ids status retryCount t).providerPaymentId = t.providerPaymentId := by
  unfold updateRow
  split <;> rfl

theorem updateRow_depositPaid (t : Transaction) (eventId : Uuid) :
    (updateRow ids status retryCount t).depositPaid eventId = t.depositPaid eventId := by
  unfold updateRow
  split <;> rfl

@[simp] theorem TransferPair.update_transfer (p : TransferPair) :
    (p.update ids status retryCount).transfer = p.transfer := by
  unfold update
  split <;> rfl

/-- An update that takes both legs or none. -/
theorem TransferPair.legs_update {p : TransferPair}
    (h : ids.contains p.transfer.outId = ids.contains p.transfer.inId) :
    (p.update ids status retryCount).legs = p.legs.map (updateRow ids status retryCount) := by
  have hout : p.out.id = p.transfer.outId := rfl
  have hinc : p.inc.id = p.transfer.inId := rfl
  simp only [legs,List.map_cons,List.map_nil,updateRow,hout,hinc,update,← h]
  split <;> rfl

/-- Updates that keep legs together and releases released. -/
theorem Register.update (h : Register db reported pairs)
    (hpair : ∀ p ∈ pairs, ids.contains p.transfer.outId = ids.contains p.transfer.inId)
    (hrel : ∀ t ∈ db.transactions, released t → released (updateRow ids status retryCount t)) :
    Register (updateRows ids status retryCount db) reported
      (pairs.map (·.update ids status retryCount)) := by
  refine ⟨?_,fun t ht hl => ?_,?_,fun e he => ?_,h.once,h.origin⟩
  · have hleg : isLeg ∘ updateRow ids status retryCount = isLeg := by
      funext t
      exact updateRow_isLeg t
    rw [updateRows,List.filter_map,hleg,h.legs,List.map_flatMap,List.flatMap_map]
    exact List.flatMap_congr (fun p hp => (TransferPair.legs_update (hpair p hp)).symm)
  · obtain ⟨u,hu,rfl⟩ := List.mem_map.mp ht
    rw [updateRow_type]
    exact h.deposits u hu ((updateRow_isLeg u).symm.trans hl)
  · rw [List.map_map]
    refine h.transfers.trans (List.map_congr_left (fun p _ => ?_))
    simp
  · cases h.tells e he with
    | transfer hp topic transactionId payload =>
      exact .transfer (List.mem_map_of_mem hp) topic (by simpa using transactionId)
        (by simpa using payload)
    | deposit ht type paid isReleased isReported topic transactionId payload =>
      exact .deposit (List.mem_map_of_mem ht) ((updateRow_type _).trans type)
        ((updateRow_paid _).trans paid) (hrel _ ht isReleased) isReported topic
        (transactionId.trans (updateRow_id _).symm)
        (payload.trans (by rw [updateRow_depositPaid]))

theorem Tells.mono {rows rows' : List Transaction} {reported' : String → Prop}
    {pairs' : List TransferPair} {e : OutboxEvent} (h : Tells rows reported pairs e)
    (hrows : ∀ t ∈ rows, t ∈ rows') (hpairs : ∀ p ∈ pairs, p ∈ pairs')
    (hreported : ∀ p, reported p → reported' p) : Tells rows' reported' pairs' e := by
  cases h with
  | transfer hp topic transactionId payload =>
    exact .transfer (hpairs _ hp) topic transactionId payload
  | deposit ht type paid isReleased isReported topic transactionId payload =>
    exact .deposit (hrows _ ht) type paid isReleased (hreported _ isReported) topic transactionId
      payload

/-- More payments reported. -/
theorem Register.report (h : Register db reported pairs) {reported' : String → Prop}
    (hr : ∀ p, reported p → reported' p) : Register db reported' pairs :=
  ⟨h.legs,h.deposits,h.transfers,fun e he => (h.tells e he).mono (fun _ => id) (fun _ => id) hr,
    h.once,h.origin⟩

/-- A change that no row and no event takes part in. -/
theorem Register.congr (h : Register db reported pairs) {db' : TxDb}
    (ht : db'.transactions = db.transactions) (he : db'.outboxEvents = db.outboxEvents) :
    Register db' reported pairs := by
  refine ⟨?_,?_,?_,?_,?_,?_⟩
  all_goals
    simp only [ht,he]
  · exact h.legs
  · exact h.deposits
  · exact h.transfers
  · exact h.tells
  · exact h.once
  · exact h.origin

/-- Rows that are no legs. -/
theorem Register.insertDeposit (h : Register db reported pairs) (n : NewDeposit) :
    Register ((Write.insertTransaction n.data).apply db) reported pairs := by
  refine ⟨?_,fun t ht hl => ?_,h.transfers,fun e he => ?_,h.once,h.origin⟩
  · rw [Write.apply,List.filter_append,h.legs]
    exact List.append_nil _
  · rcases List.mem_append.mp ht with ht | ht
    · exact h.deposits t ht hl
    · rw [List.mem_singleton.mp ht]
      rfl
  · exact (h.tells e he).mono (fun t ht => List.mem_append_left _ ht) (fun _ => id) (fun _ => id)

/-- Both legs and the event of a transfer. -/
theorem Register.insertTransfer (h : Register db reported pairs) (n : NewTransfer) :
    Register (server.applyAll db [.insertTransaction n.txOut,.insertTransaction n.txIn,
      .insertOutboxEvent n.event]) reported (pairs++[⟨n,.pending,0⟩]) := by
  have hrows : (server.applyAll db [.insertTransaction n.txOut,.insertTransaction n.txIn,
      .insertOutboxEvent n.event]).transactions = db.transactions++[n.txOut,n.txIn] := by
    simp [Write.apply]
  have hevents : (server.applyAll db [.insertTransaction n.txOut,.insertTransaction n.txIn,
      .insertOutboxEvent n.event]).outboxEvents = db.outboxEvents++[n.event] := rfl
  have hstarts : startsTransfer n.event := by
    simp [startsTransfer,isOriginal,NewTransfer.event,payloadEventId,NewTransfer.payload]
  refine ⟨?_,fun t ht hl => ?_,?_,fun e he => ?_,fun id => ?_,fun e he p hp => ?_⟩
  · rw [hrows,List.filter_append,h.legs,List.flatMap_append]
    rfl
  · rw [hrows,List.mem_append,List.mem_pair] at ht
    rcases ht with ht | rfl | rfl
    · exact h.deposits t ht hl
    · contradiction
    · contradiction
  · rw [hevents,List.filter_append,List.filter_cons_of_pos hstarts,List.map_append,h.transfers,
      List.map_append]
    rfl
  · rw [hevents,List.mem_append,List.mem_singleton] at he
    rcases he with he | rfl
    · refine (h.tells e he).mono (fun t ht => ?_) (fun q hq => List.mem_append_left _ hq)
        (fun _ => id)
      rw [hrows]
      exact List.mem_append_left _ ht
    · exact .transfer (p := ⟨n,.pending,0⟩) (by simp) rfl rfl rfl
  · rw [hevents,List.countP_append]
    simpa [releases,NewTransfer.event] using h.once id
  · rw [hevents] at he ⊢
    rcases List.mem_append.mp he with he | he
    · obtain ⟨o,ho,hid⟩ := h.origin e he p hp
      exact ⟨o,List.mem_append_left _ ho,hid⟩
    · rw [List.mem_singleton.mp he] at hp
      cases hp
      exact ⟨n.event,List.mem_append_right _ (by simp),rfl⟩

/-- Any other event that tells the truth. -/
theorem Register.insertEvent (h : Register db reported pairs) {e : OutboxEvent}
    (he : Tells db.transactions reported pairs e) (hstarts : startsTransfer e = false)
    (honce : ∀ id, releases id e → db.outboxEvents.countP (releases id) = 0)
    (horigin : ∀ p, e.payload = some p →
      e.id = payloadEventId p ∨ ∃ o ∈ db.outboxEvents, o.id = payloadEventId p) :
    Register ((Write.insertOutboxEvent e).apply db) reported pairs := by
  refine ⟨h.legs,h.deposits,?_,fun e' he' => ?_,fun id => ?_,fun e' he' p hp => ?_⟩
  · rw [Write.apply,List.filter_append,List.filter_cons_of_neg (by simp [hstarts]),List.filter_nil,
      List.append_nil,h.transfers]
  · rcases List.mem_append.mp he' with he' | he'
    · exact h.tells e' he'
    · rw [List.mem_singleton.mp he']
      exact he
  · rw [Write.apply,List.countP_append,List.countP_singleton]
    split
    · rename_i hid
      rw [honce id hid]
    · exact h.once id
  · rcases List.mem_append.mp he' with he' | he'
    · obtain ⟨o,ho,hid⟩ := h.origin e' he' p hp
      exact ⟨o,List.mem_append_left _ ho,hid⟩
    · rw [List.mem_singleton.mp he'] at hp
      rcases horigin p hp with hid | ⟨o,ho,hid⟩
      · exact ⟨e,List.mem_append_right _ (by simp),hid⟩
      · exact ⟨o,List.mem_append_left _ ho,hid⟩

/-- The worker marks events. -/
theorem Register.mark (h : Register db reported pairs) (ids : List Uuid) :
    Register (txTable.markEventsAsProcessed ids db) reported pairs := by
  let mark : OutboxEvent → OutboxEvent := fun e =>
    if ids.contains e.id then {e with processed := true} else e
  have hevents : (txTable.markEventsAsProcessed ids db).outboxEvents = db.outboxEvents.map mark := rfl
  have hfield : ∀ e, (mark e).id = e.id ∧ (mark e).topic = e.topic ∧
      (mark e).transactionId = e.transactionId ∧ (mark e).payload = e.payload ∧
      (mark e).created = e.created := by
    intro e
    simp only [mark]
    split <;> exact ⟨rfl,rfl,rfl,rfl,rfl⟩
  have hstarts : startsTransfer ∘ mark = startsTransfer := by
    funext e
    obtain ⟨hid,htopic,-,hpay,-⟩ := hfield e
    simp [startsTransfer,isOriginal,hid,htopic,hpay]
  have hreleases : ∀ id, releases id ∘ mark = releases id := by
    intro id
    funext e
    obtain ⟨hid,htopic,htx,hpay,-⟩ := hfield e
    simp [releases,isOriginal,hid,htopic,htx,hpay]
  refine ⟨h.legs,h.deposits,?_,fun e he => ?_,fun id => ?_,fun e he p hp => ?_⟩
  · rw [hevents,List.filter_map,hstarts,List.map_map]
    refine Eq.trans (List.map_congr_left (fun e _ => ?_)) h.transfers
    exact (hfield e).2.2.2.2
  · obtain ⟨e',he',rfl⟩ := List.mem_map.mp he
    obtain ⟨-,htopic,htx,hpay,-⟩ := hfield e'
    cases h.tells e' he' with
    | transfer hp topic transactionId payload =>
      exact .transfer hp (htopic.trans topic) (htx.trans transactionId) (hpay.trans payload)
    | deposit ht type paid isReleased isReported topic transactionId payload =>
      exact .deposit ht type paid isReleased isReported (htopic.trans topic)
        (htx.trans transactionId) (hpay.trans payload)
  · rw [hevents,List.countP_map,hreleases]
    exact h.once id
  · obtain ⟨e',he',rfl⟩ := List.mem_map.mp he
    obtain ⟨o,ho,hid⟩ := h.origin e' he' p ((hfield e').2.2.2.1.symm.trans hp)
    exact ⟨mark o,List.mem_map_of_mem ho,(hfield o).1.trans hid⟩

end Changes

/-- What the Kafka message of a call is about. -/
def callTarget : TransactionCall → Option Target
  | .setStatusUpdated _ transactionId _ => some (.deposit transactionId)
  | .setStatusUpdatedByIds _ outId inId _ => some (.transfer outId inId)
  | .recreate c _ => some c.target
  | _ => none

/-- A Kafka message answers an event that is stored. -/
def Informed (db : TxDb) (c : TransactionCall) : Prop :=
  ∀ g, callTarget c = some g → ∃ e ∈ db.outboxEvents, e.payload.map payloadTarget = some g

section Lands
variable {db : TxDb} {reported : String → Prop} {pairs : List TransferPair} {t : Transaction}

theorem Register.empty : Register ⟨[],[],[]⟩ reported [] :=
  ⟨rfl,by simp,rfl,by simp,by simp,by simp⟩

theorem Register.legs_mem (h : Register db reported pairs) {p : TransferPair} (hp : p ∈ pairs) :
    p.out ∈ db.transactions ∧ p.inc ∈ db.transactions := by
  have hmem : ∀ t ∈ p.legs, t ∈ db.transactions := by
    intro t ht
    refine List.mem_of_mem_filter (p := isLeg) ?_
    rw [h.legs]
    exact List.mem_flatMap.mpr ⟨p,hp,ht⟩
  exact ⟨hmem _ (by simp [TransferPair.legs]),hmem _ (by simp [TransferPair.legs])⟩

/-- A row with a payment is a deposit. -/
theorem Register.deposit_of_paid (h : Register db reported pairs) (ht : t ∈ db.transactions)
    {providerPaymentId : String} (hp : t.providerPaymentId = some providerPaymentId) :
    isLeg t = false ∧ t.type = .deposit := by
  cases hl : isLeg t with
  | false => exact ⟨rfl,h.deposits t ht hl⟩
  | true =>
    have hmem : t ∈ pairs.flatMap TransferPair.legs := h.legs ▸ List.mem_filter.mpr ⟨ht,hl⟩
    obtain ⟨p,-,hleg⟩ := List.mem_flatMap.mp hmem
    rw [TransferPair.legs,List.mem_pair] at hleg
    rcases hleg with rfl | rfl <;> cases hp

section Unique
variable (h : Register db reported pairs) (hn : (db.transactions.map (·.id)).Nodup)
include h hn

omit h in
theorem eq_of_id {u : Transaction} (ht : t ∈ db.transactions) (hu : u ∈ db.transactions)
    (hid : t.id = u.id) : t = u := List.inj_on_of_nodup_map hn ht hu hid

/-- A deposit that has not been released has no event. -/
theorem Register.not_told (ht : t ∈ db.transactions) (hr : released t = false) :
    ∀ e ∈ db.outboxEvents, e.topic = .depositPaidSuccess → e.transactionId ≠ t.id := by
  intro e he htopic hid
  cases h.tells e he with
  | transfer hp topic => rw [htopic] at topic; contradiction
  | deposit hu type paid isReleased isReported topic transactionId =>
    rw [eq_of_id hn ht hu (hid.symm.trans transactionId),isReleased] at hr
    contradiction

/-- An update of one row that is no leg. -/
theorem Register.single (ht : t ∈ db.transactions) (hl : isLeg t = false) :
    ∀ p ∈ pairs, [t.id].contains p.transfer.outId = [t.id].contains p.transfer.inId := by
  have hne : ∀ u ∈ db.transactions, isLeg u → [t.id].contains u.id = false := by
    intro u hu hleg
    simp only [List.contains_cons,List.contains_nil,Bool.or_false,beq_eq_false_iff_ne]
    intro hid
    rw [eq_of_id hn hu ht hid,hl] at hleg
    contradiction
  intro p hp
  obtain ⟨hout,hinc⟩ := h.legs_mem hp
  exact (hne p.out hout rfl).trans (hne p.inc hinc rfl).symm

/-- An update of both legs of a transfer. -/
theorem Register.both {q : TransferPair} (hq : q ∈ pairs) :
    ∀ p ∈ pairs, [q.transfer.outId,q.transfer.inId].contains p.transfer.outId =
      [q.transfer.outId,q.transfer.inId].contains p.transfer.inId := by
  intro p hp
  obtain ⟨hout,hinc⟩ := h.legs_mem hp
  obtain ⟨qout,qinc⟩ := h.legs_mem hq
  rw [Bool.eq_iff_iff]
  simp only [List.contains_cons,List.contains_nil,Bool.or_false,Bool.or_eq_true,beq_iff_eq]
  have hcross : p.out ≠ q.inc ∧ p.inc ≠ q.out := by
    constructor
    all_goals
      intro heq
      cases congrArg Transaction.type heq
  constructor
  · rintro (hid | hid)
    · have heq := congrArg Transaction.referenceId (eq_of_id hn hout qout hid)
      exact .inr (Option.some.inj heq)
    · exact absurd (eq_of_id hn hout qinc hid) hcross.1
  · rintro (hid | hid)
    · exact absurd (eq_of_id hn hinc qout hid) hcross.2
    · have heq := congrArg Transaction.referenceId (eq_of_id hn hinc qinc hid)
      exact .inl (Option.some.inj heq)

omit hn in
/-- A message about a deposit was sent for a deposit, and one about a transfer for a pair. -/
theorem Register.target {g : Target}
    (hg : ∃ e ∈ db.outboxEvents, e.payload.map payloadTarget = some g) :
    (∃ t ∈ db.transactions, isLeg t = false ∧ released t ∧ g = .deposit t.id) ∨
      ∃ q ∈ pairs, g = .transfer q.transfer.outId q.transfer.inId := by
  obtain ⟨e,he,hp⟩ := hg
  cases h.tells e he with
  | @transfer q hq topic transactionId payload =>
    rw [payload] at hp
    cases hp
    exact .inr ⟨q,hq,rfl⟩
  | deposit ht type paid isReleased isReported topic transactionId payload =>
    rw [payload] at hp
    cases hp
    exact .inl ⟨_,ht,(h.deposit_of_paid ht paid).1,isReleased,rfl⟩

theorem Register.target_ids {g : Target}
    (hg : ∃ e ∈ db.outboxEvents, e.payload.map payloadTarget = some g) :
    ∀ p ∈ pairs, g.ids.contains p.transfer.outId = g.ids.contains p.transfer.inId := by
  rcases h.target hg with ⟨t,ht,hl,-,rfl⟩ | ⟨q,hq,rfl⟩
  · exact h.single hn ht hl
  · exact h.both hn hq

/-- The outcome of a message. -/
theorem Register.setStatus_target {g : Target} (status : TransactionStatus)
    (hg : ∃ e ∈ db.outboxEvents, e.payload.map payloadTarget = some g)
    (hs : ∀ t : Transaction, released {t with status := status}) :
    ∃ pairs', Register ((Write.setStatus g.ids status).apply db) reported pairs' := by
  rw [setStatus_eq]
  refine ⟨_,h.update (h.target_ids hn hg) (fun u _ hr => ?_)⟩
  rw [updateRow]
  split
  · exact hs u
  · exact hr

theorem Register.addRetryCount_target {g : Target}
    (hg : ∃ e ∈ db.outboxEvents, e.payload.map payloadTarget = some g) :
    ∃ pairs', Register ((Write.addRetryCount g.ids).apply db) reported pairs' := by
  rw [addRetryCount_eq]
  refine ⟨_,h.update (h.target_ids hn hg) (fun u _ hr => ?_)⟩
  rw [updateRow]
  split <;> exact hr

/-- A payment that is reported while its deposit is pending. -/
theorem Register.completed (ht : t ∈ db.transactions) {providerPaymentId : String}
    (hp : t.providerPaymentId = some providerPaymentId) (hs : t.status = .pending)
    (hrep : reported providerPaymentId) (eventId : Uuid) :
    ∃ pairs', Register (server.applyAll db [.setStatus [t.id] .completed,
      .insertOutboxEvent (t.paidEvent eventId)]) reported pairs' := by
  obtain ⟨hleg,htype⟩ := h.deposit_of_paid ht hp
  have hfalse : released t = false := by rw [released,hs]
  have hregister : ∃ pairs',
      Register ((Write.setStatus [t.id] .completed).apply db) reported pairs' := by
    rw [setStatus_eq]
    refine ⟨_,h.update (h.single hn ht hleg) (fun u hu hr => ?_)⟩
    rw [updateRow]
    split
    · rfl
    · exact hr
  obtain ⟨pairs',h'⟩ := hregister
  have hrow : {t with status := .completed} ∈
      ((Write.setStatus [t.id] .completed).apply db).transactions :=
    List.mem_map.mpr ⟨t,ht,by simp⟩
  have htells : Tells ((Write.setStatus [t.id] .completed).apply db).transactions reported pairs'
      (t.paidEvent eventId) := .deposit hrow htype hp rfl hrep rfl rfl rfl
  refine ⟨pairs',h'.insertEvent htells rfl (fun id hid => ?_) (fun p hp' => ?_)⟩
  · refine List.countP_eq_zero.mpr (fun e he hrel => ?_)
    simp only [releases,Bool.and_eq_true,decide_eq_true_eq] at hid hrel
    exact h.not_told hn ht hfalse e he hrel.1.1 (hrel.1.2.trans hid.1.2.symm)
  · cases hp'
    exact .inl rfl

theorem Register.timedOut (ht : t ∈ db.transactions) {providerPaymentId : String}
    (hp : t.providerPaymentId = some providerPaymentId) (hs : t.status = .pending) :
    ∃ pairs', Register ((Write.setStatus [t.id] .timeout).apply db) reported pairs' := by
  obtain ⟨hleg,-⟩ := h.deposit_of_paid ht hp
  rw [setStatus_eq]
  refine ⟨_,h.update (h.single hn ht hleg) (fun u hu hr => ?_)⟩
  rw [updateRow]
  split
  · rename_i hid
    rw [eq_of_id hn hu ht (by simpa using hid),released,hs] at hr
    contradiction
  · exact hr

omit hn in
/-- A copy of a stored event under a new id. -/
theorem Register.copy {event : OutboxEvent} (hevent : db.Stores event) {ids : RetryIds}
    (hfresh : ∀ e ∈ db.outboxEvents, e.id ≠ ids.outboxId) :
    Register ((Write.insertOutboxEvent (RetryCall.copy ids event)).apply db) reported pairs := by
  obtain ⟨e,he,heq⟩ := hevent
  obtain ⟨-,htx,htopic,hpay⟩ := OutboxEvent.fields_of_created heq
  have hcopy : isOriginal (RetryCall.copy ids event) = false := by
    rw [isOriginal,RetryCall.copy,← hpay]
    cases hp : e.payload with
    | none => rfl
    | some p =>
      obtain ⟨o,ho,hid⟩ := h.origin e he p hp
      simpa [hid] using (hfresh o ho).symm
  refine h.insertEvent ?_ ?_ (fun id hid => ?_) (fun p hp => ?_)
  · cases h.tells e he with
    | transfer hp topic transactionId payload =>
      exact .transfer hp (htopic.symm.trans topic) (htx.symm.trans transactionId)
        (hpay.symm.trans payload)
    | deposit ht type paid isReleased isReported topic transactionId payload =>
      exact .deposit ht type paid isReleased isReported (htopic.symm.trans topic)
        (htx.symm.trans transactionId) (hpay.symm.trans payload)
  · rw [startsTransfer,hcopy,Bool.and_false]
  · rw [releases,hcopy,Bool.and_false] at hid
    contradiction
  · exact .inr (h.origin e he p (hpay.trans hp))

/-- A message never concerns a deposit that has not been released. -/
theorem Register.not_mem_target_ids {g : Target}
    (hg : ∃ e ∈ db.outboxEvents, e.payload.map payloadTarget = some g) (ht : t ∈ db.transactions)
    (hl : isLeg t = false) (hr : released t = false) : t.id ∉ g.ids := by
  intro hid
  rcases h.target hg with ⟨u,hu,-,hru,rfl⟩ | ⟨q,hq,rfl⟩
  · rw [eq_of_id hn ht hu (List.mem_singleton.mp hid),hru] at hr
    contradiction
  · obtain ⟨hout,hinc⟩ := h.legs_mem hq
    rcases List.mem_pair.mp hid with hid | hid
    · rw [eq_of_id hn ht hout hid] at hl
      contradiction
    · rw [eq_of_id hn ht hinc hid] at hl
      contradiction

/-- A deposit in `TIMEOUT` is not written any more. -/
theorem Register.timeout_stays {c : TransactionCall} {ws : List Write} (hl : c.Lands db ws)
    (hinf : Informed db c) (ht : t ∈ db.transactions) (htype : t.type = .deposit)
    (hs : t.status = .timeout) : t ∈ (server.applyAll db ws).transactions := by
  have hleg : isLeg t = false := by rw [isLeg,htype]
  have hfalse : released t = false := by rw [released,hs]
  have hpending : ∀ u ∈ db.transactions, u.status = .pending → t.id ≠ u.id := by
    intro u hu hus hid
    rw [eq_of_id hn ht hu hid,hus] at hs
    contradiction
  have htarget : ∀ g, callTarget c = some g → t.id ∉ g.ids := fun g hg =>
    h.not_mem_target_ids hn (hinf g hg) ht hleg hfalse
  refine mem_applyAll_of_not_rows ht ?_
  cases hl with
  | nothing => simp
  | created => simp [Write.rows]
  | createdTransfer => simp [Write.rows]
  | completed hu hp hus => simpa [Write.rows] using hpending _ hu hus
  | timedOut hu hp hus => simpa [Write.rows] using hpending _ hu hus
  | updated => simpa [Write.rows,RetryTarget.ids] using htarget _ rfl
  | updatedByIds => simpa [Write.rows,RetryTarget.ids] using htarget _ rfl
  | copied hevent => simpa [Write.rows,RetryCall.copyWrites] using htarget _ rfl
  | failed => simpa [Write.rows,RetryCall.failWrites] using htarget _ rfl

/-- A call that commits keeps the register, whatever ran beside it. -/
theorem Register.lands {c : TransactionCall} {ws : List Write} (hl : c.Lands db ws)
    (hinf : Informed db c) (hfresh : ∀ e ∈ db.outboxEvents, e.id ∉ eventUuids c)
    (hrep : ∀ p i, c = .setStatusCompleted p i → reported p) :
    ∃ pairs', Register (server.applyAll db ws) reported pairs' := by
  cases hl with
  | nothing => exact ⟨pairs,h⟩
  | @created n => exact ⟨pairs,h.insertDeposit n⟩
  | @createdTransfer n => exact ⟨_,h.insertTransfer n⟩
  | completed ht hp hs => exact h.completed hn ht hp hs (hrep _ _ rfl) _
  | timedOut ht hp hs => exact h.timedOut hn ht hp hs
  | updated =>
    obtain ⟨pairs',h'⟩ := h.setStatus_target hn .balanceUpdated (hinf _ rfl) (fun _ => rfl)
    exact ⟨pairs',h'.congr rfl rfl⟩
  | @updatedByIds idempotencyKey outId inId processedId =>
    obtain ⟨pairs',h'⟩ := h.setStatus_target hn .balanceUpdated (hinf _ rfl) (fun _ => rfl)
    have hpair := congrArg TxDb.transactions (setStatus_pair outId inId .balanceUpdated db)
    exact ⟨pairs',h'.congr hpair rfl⟩
  | @copied c ids event hevent =>
    obtain ⟨pairs',h'⟩ := h.addRetryCount_target hn (hinf _ rfl)
    have hnew : ∀ e ∈ db.outboxEvents, e.id ≠ ids.outboxId := by
      simpa [eventUuids] using hfresh
    exact ⟨pairs',(h'.copy hevent hnew).congr rfl rfl⟩
  | @failed c ids =>
    obtain ⟨pairs',h'⟩ := h.addRetryCount_target hn (hinf _ rfl)
    have hn' : (((Write.addRetryCount c.target.ids).apply db).transactions.map (·.id)).Nodup := by
      rw [RetryCall.map_id_apply (by simp)]
      exact hn
    exact h'.setStatus_target hn' .failed (hinf _ rfl) (fun _ => rfl)

end Unique
end Lands
end NestHomework.Services
