import NestHomework.Services.Sessions

/-! The two legs of a transfer, in every state that the transaction service commits. -/
namespace NestHomework.Services
open Contracts Postgres TransactionService

/-- The rows are the two legs of one transfer. -/
structure LockStep (out inc : Transaction) : Prop where
  outType : out.type = .transferOut
  incType : inc.type = .transferIn
  outReference : out.referenceId = some inc.id
  incReference : inc.referenceId = some out.id
  amounts : out.amount+inc.amount = 0
  keys : inc.idempotencyKey = out.idempotencyKey++"_in"
  currency : inc.currency = out.currency
  status : inc.status = out.status
  retryCount : inc.retryCount = out.retryCount

/-- The event belongs to the outgoing leg, and its payload is about these two rows. -/
def names (out inc : Transaction) (e : OutboxEvent) : Bool :=
  match e.payload with
  | some (.transferInited p) => e.transactionId = out.id && p = ⟨p.eventId,out.id,inc.id,
      out.accountId,inc.accountId,out.currency,toString inc.amount⟩
  | _ => false

theorem TransferPair.lockStep (p : TransferPair) : LockStep p.out p.inc :=
  ⟨rfl,rfl,rfl,rfl,neg_add_cancel _,rfl,rfl,rfl,rfl⟩

section Register
variable {db : TxDb} {reported : String → Prop} {pairs : List TransferPair}
  (h : Register db reported pairs)
include h

/-- A column without duplicates tells the outgoing legs apart. -/
theorem Register.nodup_out {β : Type} {f : Transaction → β} (hf : (db.transactions.map f).Nodup) :
    (pairs.map (fun p => f p.out)).Nodup := by
  have hlegs : ((db.transactions.filter isLeg).map f).Nodup :=
    hf.sublist (List.filter_sublist.map f)
  rw [h.legs,List.map_flatMap] at hlegs
  refine List.pairwise_map.mpr ((List.nodup_flatMap.mp hlegs).2.imp ?_)
  intro p q hd heq
  exact hd (List.mem_cons_self) (heq ▸ List.mem_cons_self)

theorem Register.names_transfer {e : OutboxEvent} (he : e ∈ db.outboxEvents)
    (ht : e.topic = .transferInited) : ∃ p ∈ pairs, names p.out p.inc e := by
  cases h.tells e he with
  | @transfer p hp topic transactionId payload =>
    refine ⟨p,hp,?_⟩
    simp only [names,payload,transactionId]
    simp [TransferPair.out,TransferPair.inc,NewTransfer.txOut,NewTransfer.txIn,NewTransfer.payload]
  | deposit _ _ _ _ _ topic =>
    rw [ht] at topic
    contradiction

theorem Register.one_event (hn : (db.transactions.map (·.id)).Nodup) {p : TransferPair}
    (hp : p ∈ pairs) :
    db.outboxEvents.countP (fun e => names p.out p.inc e && startsTransfer e) = 1 := by
  have hpairs := h.nodup_out hn
  have hcreated : ∀ e : OutboxEvent, names p.out p.inc e = names p.out p.inc e.created := fun _ => rfl
  have hone : ∀ q ∈ pairs, names p.out p.inc q.transfer.event = true ↔ (q == p) = true := by
    intro q hq
    rw [beq_iff_eq]
    constructor
    · intro hname
      simp only [names,NewTransfer.event,Bool.and_eq_true,decide_eq_true_eq] at hname
      exact List.inj_on_of_nodup_map hpairs hq hp (of_decide_eq_true hname.1)
    · rintro rfl
      simp [names,NewTransfer.event,NewTransfer.payload,TransferPair.out,TransferPair.inc,
        NewTransfer.txOut,NewTransfer.txIn]
  calc db.outboxEvents.countP (fun e => names p.out p.inc e && startsTransfer e)
      = ((db.outboxEvents.filter startsTransfer).map (·.created)).countP (names p.out p.inc) := by
        rw [List.countP_map,← List.countP_filter]
        exact List.countP_congr (fun e _ => by rw [hcreated]; rfl)
    _ = pairs.countP (fun q => names p.out p.inc q.transfer.event) := by
        rw [h.transfers,List.countP_map]
        rfl
    _ = pairs.count p := List.countP_congr hone
    _ = 1 := List.count_eq_one_of_mem hpairs.of_map hp

end Register

/-- Whatever requests, notifications and Kafka messages come, and however their statements
interleave, fail or are cut off: the legs of the transfers stay in lock step, with one original event
for each pair, and every event of a transfer is about such a pair. -/
theorem transfer_legs_in_lock_step (maxRetry : ℕ) (as : List SessionsAction) (s : Sessions)
    (hs : Transition.runs (Sessions.next maxRetry) .initial as = some s) :
    ∃ pairs : List (Transaction × Transaction),
      s.server.db.transactions.filter isLeg = pairs.flatMap (fun p => [p.1,p.2]) ∧
      (∀ p ∈ pairs, LockStep p.1 p.2) ∧
      (pairs.map (fun p => p.1.idempotencyKey)).Nodup ∧
      (∀ p ∈ pairs, s.server.db.outboxEvents.countP
        (fun e => names p.1 p.2 e && startsTransfer e) = 1) ∧
      (∀ e ∈ s.server.db.outboxEvents, e.topic = .transferInited → ∃ p ∈ pairs, names p.1 p.2 e) ∧
      ∀ p ∈ pairs, ∀ t ∈ s.server.db.ofIds [p.1.id,p.2.id], t.retryCount = p.1.retryCount := by
  have hsound := Sessions.Sound.initial.runs hs
  obtain ⟨pairs,h⟩ := hsound.register
  obtain ⟨hids,hkeys⟩ := nodup_of_index hsound.isolated.unique
  refine ⟨pairs.map (fun p => (p.out,p.inc)),?_,?_,?_,?_,fun e he ht => ?_,?_⟩
  · rw [h.legs,List.flatMap_map]
    rfl
  · simp only [List.forall_mem_map]
    exact fun p _ => p.lockStep
  · rw [List.map_map]
    exact h.nodup_out hkeys
  · simp only [List.forall_mem_map]
    exact fun p hp => h.one_event hids hp
  · obtain ⟨p,hp,hname⟩ := h.names_transfer he ht
    exact ⟨_,List.mem_map_of_mem hp,hname⟩
  · simp only [List.forall_mem_map]
    intro p hp t ht
    obtain ⟨hout,hinc⟩ := h.legs_mem hp
    obtain ⟨hmem,hid⟩ := List.mem_filter.mp ht
    rcases List.mem_pair.mp (List.contains_iff_mem.mp hid) with hid | hid
    · rw [eq_of_id hids hmem hout hid]
    · rw [eq_of_id hids hmem hinc hid]
      rfl

/-- Two requests with one key race, and the transfer that wins is retried once. -/
theorem transfer_legs_in_lock_step_retried :
    let key := "7d444840-9dc0-11d1-b245-5ffdce74fad2"
    let race : List (SessionAction Uuid ℕ) := [.begin 0,.begin 1,.start 0 [],.exec 0,.start 1 [],
      .exec 1,.start 0 [],.exec 0,.start 0 [],.exec 0,.start 0 [(1,.keyShare)],.lock 0,.exec 0,
      .commit 0,.start 1 [],.exec 1]
    let retry : List (SessionAction Uuid ℕ) := [.begin 2,.start 2 [],.exec 2,.start 2 [],.exec 2,
      .start 2 [(2,.noKeyUpdate),(1,.noKeyUpdate)],.lock 2,.lock 2,.exec 2,.start 2 [],.exec 2,
      .start 2 [(1,.keyShare)],.lock 2,.exec 2,.start 2 [],.exec 2,.commit 2]
    let schedule : List SessionsAction := [.transferRub ⟨10,20,100,"RUB",key,1,2,5⟩,
      .transferRub ⟨10,20,100,"RUB",key,3,4,6⟩]++race.map .sql++
      [.mark [5],.kafka ⟨50,.tranferFailed,.transferResult ⟨5,1,2⟩,some 60⟩ ⟨61,62⟩]++retry.map .sql
    ∃ s, Transition.runs (Sessions.next 3) .initial schedule = some s ∧
      s.server.db.transactions.map (fun t => (t.id,t.retryCount)) = [(1,1),(2,1)] ∧
      s.server.db.outboxEvents.map (fun e => (e.id,e.processed)) = [(5,true),(61,false)] ∧
      ∃ pairs : List (Transaction × Transaction),
        s.server.db.transactions.filter isLeg = pairs.flatMap (fun p => [p.1,p.2]) ∧
        ∀ p ∈ pairs, LockStep p.1 p.2 := by
  intro key race retry schedule
  have hrun : (Transition.runs (Sessions.next 3) .initial schedule).map (fun s =>
      (s.server.db.transactions.map (fun t => (t.id,t.retryCount)),
        s.server.db.outboxEvents.map (fun e => (e.id,e.processed)))) =
      some ([(1,1),(2,1)],[(5,true),(61,false)]) := by decide +kernel
  obtain ⟨s,hs,heq⟩ := Option.map_eq_some_iff.mp hrun
  obtain ⟨hrows,hevents⟩ := Prod.mk.injEq .. ▸ heq
  obtain ⟨pairs,hlegs,hstep,-⟩ := transfer_legs_in_lock_step 3 schedule s hs
  exact ⟨s,hs,hrows,hevents,pairs,hlegs,hstep⟩

end NestHomework.Services
