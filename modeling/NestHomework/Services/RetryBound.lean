import NestHomework.Services.Release
import NestHomework.TransactionService.RetryLimit

/-! How often the event of a deposit or of a transfer is created. Each copy has raised the count of
its rows, and the limit is compared with that count. -/
namespace NestHomework.Services
open Contracts Postgres TransactionService

/-- How many outbox rows belong to the transaction. -/
def attempts (db : TxDb) (id : Uuid) : ℕ := db.outboxEvents.countP (·.transactionId = id)

/-- The message of the call repeats the ids of a stored payload. -/
def Echoes (db : TxDb) (c : RetryCall) : Prop :=
  ∃ e ∈ db.outboxEvents, ∃ p, e.payload = some p ∧ payloadTarget p = c.target ∧
    payloadEventId p = c.eventId

structure Attempts (maxRetry : ℕ) (db : TxDb) : Prop where
  ids : (db.outboxEvents.map (·.id)).Nodup
  same : ∀ e ∈ db.outboxEvents, ∀ e' ∈ db.outboxEvents, e'.transactionId = e.transactionId →
    e'.topic = e.topic ∧ e'.payload = e.payload
  original : ∀ e ∈ db.outboxEvents,
    ∃ o ∈ db.outboxEvents, o.transactionId = e.transactionId ∧ isOriginal o
  few : ∀ id, attempts db id ≤ max 1 maxRetry
  counted : ∀ t ∈ db.transactions, attempts db t.id ≤ t.retryCount+1

section Attempts
variable {maxRetry : ℕ} {db db' : TxDb} {reported : String → Prop} {pairs : List TransferPair}
  {t : Transaction}

theorem Attempts.empty : Attempts maxRetry ⟨[],[],[]⟩ :=
  ⟨.nil,List.forall_mem_nil _,List.forall_mem_nil _,fun _ => Nat.zero_le _,List.forall_mem_nil _⟩

/-- A change of the rows. -/
theorem Attempts.rows (h : Attempts maxRetry db) (he : db'.outboxEvents = db.outboxEvents)
    (ht : ∀ t ∈ db'.transactions, attempts db t.id ≤ t.retryCount+1) : Attempts maxRetry db' := by
  have hattempts : attempts db' = attempts db := by
    funext id
    rw [attempts,he,attempts]
  refine ⟨he ▸ h.ids,he ▸ h.same,he ▸ h.original,fun id => ?_,fun t hmem => ?_⟩
  · rw [hattempts]
    exact h.few id
  · rw [hattempts]
    exact ht t hmem

theorem Attempts.update (h : Attempts maxRetry db) (ids : List Uuid)
    (status : TransactionStatus → TransactionStatus) (retryCount : ℕ → ℕ)
    (hcount : ∀ n, n ≤ retryCount n) : Attempts maxRetry (updateRows ids status retryCount db) := by
  refine h.rows rfl fun t ht => ?_
  obtain ⟨u,hu,rfl⟩ := List.mem_map.mp ht
  rw [updateRow_id]
  refine (h.counted u hu).trans (Nat.succ_le_succ ?_)
  unfold updateRow
  split
  · exact hcount u.retryCount
  · exact le_rfl

/-- New rows have no event yet. -/
theorem Attempts.insertRows (h : Attempts maxRetry db) {ts : List Transaction}
    (he : db'.outboxEvents = db.outboxEvents) (ht : db'.transactions = db.transactions++ts)
    (hnew : ∀ t ∈ ts, attempts db t.id = 0) : Attempts maxRetry db' := by
  refine h.rows he fun t hmem => ?_
  rw [ht] at hmem
  rcases List.mem_append.mp hmem with hold | hts
  · exact h.counted t hold
  · rw [hnew t hts]
    exact Nat.zero_le _

theorem attempts_insertEvent (e : OutboxEvent) (id : Uuid) :
    attempts ((Write.insertOutboxEvent e).apply db) id =
      attempts db id+(if e.transactionId = id then 1 else 0) := by
  simp [attempts,Write.apply,List.countP_append,List.countP_singleton]

/-- An original, or a copy of an event of the same transaction. -/
theorem Attempts.insertEvent (h : Attempts maxRetry db) {e : OutboxEvent}
    (hfresh : ∀ e' ∈ db.outboxEvents, e'.id ≠ e.id)
    (hsame : ∀ e' ∈ db.outboxEvents, e'.transactionId = e.transactionId →
      e'.topic = e.topic ∧ e'.payload = e.payload)
    (horiginal : isOriginal e ∨ ∃ e' ∈ db.outboxEvents, e'.transactionId = e.transactionId)
    (hfew : attempts db e.transactionId+1 ≤ max 1 maxRetry)
    (hcounted : ∀ t ∈ db.transactions, t.id = e.transactionId →
      attempts db e.transactionId ≤ t.retryCount) :
    Attempts maxRetry ((Write.insertOutboxEvent e).apply db) := by
  refine ⟨?_,fun x hx y hy hxy => ?_,fun x hx => ?_,fun id => ?_,fun t ht => ?_⟩
  · rw [Write.apply,List.map_append,List.nodup_append]
    refine ⟨h.ids,List.nodup_singleton _,?_⟩
    rintro _ hid _ hnew rfl
    obtain ⟨e',he',hid'⟩ := List.mem_map.mp hid
    exact hfresh e' he' (hid'.trans (List.mem_singleton.mp hnew))
  · rcases List.mem_append.mp hx with hx | hx <;> rcases List.mem_append.mp hy with hy | hy
    · exact h.same x hx y hy hxy
    · rw [List.mem_singleton.mp hy] at hxy ⊢
      obtain ⟨htopic,hpayload⟩ := hsame x hx hxy.symm
      exact ⟨htopic.symm,hpayload.symm⟩
    · rw [List.mem_singleton.mp hx] at hxy ⊢
      exact hsame y hy hxy
    · rw [List.mem_singleton.mp hx,List.mem_singleton.mp hy]
      exact ⟨rfl,rfl⟩
  · have hstored : ∀ e' ∈ db.outboxEvents, ∃ o ∈ ((Write.insertOutboxEvent e).apply db).outboxEvents,
        o.transactionId = e'.transactionId ∧ isOriginal o := by
      intro e' he'
      obtain ⟨o,ho,hid,horig⟩ := h.original e' he'
      exact ⟨o,List.mem_append_left _ ho,hid,horig⟩
    rcases List.mem_append.mp hx with hx | hx
    · exact hstored x hx
    · rw [List.mem_singleton.mp hx]
      rcases horiginal with horig | ⟨e',he',hid⟩
      · exact ⟨e,List.mem_append_right _ (List.mem_singleton_self e),rfl,horig⟩
      · rw [← hid]
        exact hstored e' he'
  · rw [attempts_insertEvent]
    split
    · rename_i hid
      exact hid ▸ hfew
    · exact h.few id
  · rw [attempts_insertEvent]
    split
    · rename_i hid
      rw [← hid]
      exact Nat.succ_le_succ (hcounted t ht hid.symm)
    · exact h.counted t ht

/-- The first event of a transaction. -/
theorem Attempts.insertFirst (h : Attempts maxRetry db) {e : OutboxEvent}
    (hfresh : ∀ e' ∈ db.outboxEvents, e'.id ≠ e.id) (horiginal : isOriginal e)
    (hzero : attempts db e.transactionId = 0) :
    Attempts maxRetry ((Write.insertOutboxEvent e).apply db) := by
  refine h.insertEvent hfresh (fun e' he' hid => ?_) (.inl horiginal) ?_ fun _ _ _ => ?_
  · exact absurd (decide_eq_true hid) (List.countP_eq_zero.mp hzero e' he')
  · rw [hzero]
    exact le_max_left 1 maxRetry
  · rw [hzero]
    exact Nat.zero_le _

theorem Attempts.mark (h : Attempts maxRetry db) (ids : List Uuid) :
    Attempts maxRetry (txTable.markEventsAsProcessed ids db) := by
  let mark : OutboxEvent → OutboxEvent := fun e =>
    if ids.contains e.id then {e with processed := true} else e
  have hevents : (txTable.markEventsAsProcessed ids db).outboxEvents = db.outboxEvents.map mark := rfl
  have hfield : ∀ e, (mark e).id = e.id ∧ (mark e).topic = e.topic ∧
      (mark e).transactionId = e.transactionId ∧ (mark e).payload = e.payload ∧
      isOriginal (mark e) = isOriginal e := by
    intro e
    simp only [mark]
    split <;> exact ⟨rfl,rfl,rfl,rfl,rfl⟩
  have hattempts : attempts (txTable.markEventsAsProcessed ids db) = attempts db := by
    funext id
    rw [attempts,hevents,List.countP_map]
    refine List.countP_congr fun e _ => ?_
    rw [Function.comp_apply,(hfield e).2.2.1]
  refine ⟨?_,fun x hx y hy hxy => ?_,fun x hx => ?_,fun id => ?_,fun t ht => ?_⟩
  · rw [hevents,List.map_map]
    have hid : (fun e : OutboxEvent => e.id) ∘ mark = fun e => e.id := funext fun e => (hfield e).1
    rw [hid]
    exact h.ids
  · obtain ⟨e,he,rfl⟩ := List.mem_map.mp hx
    obtain ⟨e',he',rfl⟩ := List.mem_map.mp hy
    obtain ⟨-,htopic,htx,hpayload,-⟩ := hfield e
    obtain ⟨-,htopic',htx',hpayload',-⟩ := hfield e'
    obtain ⟨hsame,hsame'⟩ := h.same e he e' he' (htx'.symm.trans (hxy.trans htx))
    exact ⟨htopic'.trans (hsame.trans htopic.symm),hpayload'.trans (hsame'.trans hpayload.symm)⟩
  · obtain ⟨e,he,rfl⟩ := List.mem_map.mp hx
    obtain ⟨o,ho,hid,horig⟩ := h.original e he
    refine ⟨mark o,List.mem_map_of_mem ho,?_,(hfield o).2.2.2.2.trans horig⟩
    exact (hfield o).2.2.1.trans (hid.trans (hfield e).2.2.1.symm)
  · rw [hattempts]
    exact h.few id
  · rw [hattempts]
    exact h.counted t ht

section Unique
variable (hb : Register db reported pairs)
include hb

/-- The transaction of an event is stored. -/
theorem Register.row {e : OutboxEvent} (he : e ∈ db.outboxEvents) :
    ∃ t ∈ db.transactions, t.id = e.transactionId := by
  cases hb.tells e he with
  | transfer hp _ transactionId => exact ⟨_,(hb.legs_mem hp).1,transactionId.symm⟩
  | deposit ht _ _ _ _ _ transactionId => exact ⟨_,ht,transactionId.symm⟩

theorem Register.attempts_eq_zero {id : Uuid} (h : ∀ t ∈ db.transactions, t.id ≠ id) :
    attempts db id = 0 := by
  refine List.countP_eq_zero.mpr fun e he hid => ?_
  obtain ⟨t,ht,htid⟩ := hb.row he
  exact h t ht (htid.trans (of_decide_eq_true hid))

variable (hn : (db.transactions.map (·.id)).Nodup)
include hn

/-- A deposit that has not been released has no event of any kind. -/
theorem Register.attempts_unreleased (ht : t ∈ db.transactions) (hl : isLeg t = false)
    (hr : released t = false) : attempts db t.id = 0 := by
  refine List.countP_eq_zero.mpr fun e he hid => ?_
  replace hid : e.transactionId = t.id := of_decide_eq_true hid
  cases hb.tells e he with
  | transfer hp _ transactionId =>
    rw [← eq_of_id hn (hb.legs_mem hp).1 ht (transactionId.symm.trans hid)] at hl
    contradiction
  | deposit hu _ _ isReleased _ _ transactionId =>
    rw [← eq_of_id hn hu ht (transactionId.symm.trans hid),isReleased] at hr
    contradiction

/-- The rows that a message names have the count of the row that owns the event. -/
theorem Register.retryCount_eq {e : OutboxEvent} (he : e ∈ db.outboxEvents) {p : Payload}
    (hp : e.payload = some p) (ht : t ∈ db.transactions) (htarget : t.id ∈ (payloadTarget p).ids)
    {u : Transaction} (hu : u ∈ db.transactions) (hid : u.id = e.transactionId) :
    u.retryCount = t.retryCount ∧ u.id ∈ (payloadTarget p).ids := by
  cases hb.tells e he with
  | @transfer q hq _ transactionId payload =>
    obtain ⟨hout,hinc⟩ := hb.legs_mem hq
    cases hp.symm.trans payload
    obtain rfl := eq_of_id hn hu hout (hid.trans transactionId)
    refine ⟨?_,List.mem_cons_self⟩
    rcases List.mem_pair.mp htarget with htid | htid
    · rw [eq_of_id hn ht hout htid]
    · rw [eq_of_id hn ht hinc htid]
      rfl
  | @deposit v _ _ hv _ _ _ _ _ transactionId payload =>
    cases hp.symm.trans payload
    obtain rfl := eq_of_id hn hu hv (hid.trans transactionId)
    rw [eq_of_id hn ht hu (List.mem_singleton.mp htarget)]
    exact ⟨rfl,List.mem_singleton_self _⟩

end Unique

/-- A retry that commits. The event that it copies is the original one of its transaction. -/
theorem Attempts.retried (h : Attempts maxRetry db) (hb : Register db reported pairs)
    (hn : (db.transactions.map (·.id)).Nodup) {c : RetryCall} {ids : RetryIds} {ws : List Write}
    (hl : Retried db c ids ws) (hmax : c.maxRetry = maxRetry) (hecho : Echoes db c)
    (hfresh : ∀ e ∈ db.outboxEvents, e.id ≠ ids.outboxId) :
    Attempts maxRetry (server.applyAll db ws) := by
  have hraised := h.update c.target.ids id (·+1) Nat.le_succ
  cases hl with
  | skipped => exact h
  | failed => exact hraised.update c.target.ids (fun _ => .failed) id fun _ => le_rfl
  | @copied event t hevent hid ht htarget hlimit =>
    obtain ⟨e,he,p,hp,hpt,hpe⟩ := hecho
    obtain ⟨o,ho,hotx,horig⟩ := h.original e he
    obtain ⟨hotopic,hopayload⟩ := h.same e he o ho hotx
    obtain ⟨x,hx,heq⟩ := hevent
    obtain ⟨hxid,hxtx,hxtopic,hxpayload⟩ := OutboxEvent.fields_of_created heq
    have hoid : o.id = payloadEventId p := by
      simpa [isOriginal,hopayload,hp] using horig
    have hxo : x = o :=
      List.inj_on_of_nodup_map h.ids hx ho (hxid.trans (hid.trans (hpe.symm.trans hoid.symm)))
    subst hxo
    have htx : (RetryCall.copy ids event).transactionId = e.transactionId := hxtx.symm.trans hotx
    rw [← hpt] at htarget
    have hrow : ∀ u ∈ db.transactions, u.id = e.transactionId →
        attempts db e.transactionId ≤ u.retryCount+1 ∧ u.retryCount = t.retryCount ∧
          u.id ∈ c.target.ids := by
      intro u hu hid
      obtain ⟨hcount,hmem⟩ := hb.retryCount_eq hn he hp ht htarget hu hid
      exact ⟨hid ▸ h.counted u hu,hcount,hpt ▸ hmem⟩
    have hcopy : Attempts maxRetry ((Write.insertOutboxEvent (RetryCall.copy ids event)).apply
        (updateRows c.target.ids id (·+1) db)) := by
      refine hraised.insertEvent hfresh (fun e' he' hid => ?_) (.inr ⟨x,hx,hxtx⟩) ?_
        (fun t' ht' hid => ?_)
      · obtain ⟨htopic,hpayload⟩ := h.same e he e' he' (hid.trans htx)
        exact ⟨htopic.trans (hotopic.symm.trans hxtopic),
          hpayload.trans (hopayload.symm.trans hxpayload)⟩
      · obtain ⟨u,hu,hid⟩ := hb.row he
        obtain ⟨hle,hcount,-⟩ := hrow u hu hid
        rw [htx]
        change attempts db e.transactionId+1 ≤ _
        omega
      · obtain ⟨u,hu,rfl⟩ := List.mem_map.mp ht'
        rw [updateRow_id,htx] at hid
        obtain ⟨hle,-,hmem⟩ := hrow u hu hid
        rw [htx,updateRow,if_pos (List.contains_iff_mem.mpr hmem)]
        exact hle
    exact hcopy.rows rfl hcopy.counted

/-- What a call commits keeps the attempts within the limit. -/
theorem Attempts.lands (h : Attempts maxRetry db) (hb : Register db reported pairs)
    (hn : (db.transactions.map (·.id)).Nodup) {c : TransactionCall} {ws : List Write}
    (hn' : ((server.applyAll db ws).transactions.map (·.id)).Nodup) (hl : c.Lands db ws)
    (hfresh : ∀ e ∈ db.outboxEvents, e.id ∉ eventUuids c)
    (hretry : ∀ r ids, c = .recreate r ids →
      Retried db r ids ws ∧ r.maxRetry = maxRetry ∧ Echoes db r) :
    Attempts maxRetry (server.applyAll db ws) := by
  have hstatus : ∀ (db : TxDb) ids status, Attempts maxRetry db →
      Attempts maxRetry ((Write.setStatus ids status).apply db) := fun db ids status h =>
    h.update ids (fun _ => status) id fun _ => le_rfl
  have hnew : ∀ ts : List Transaction, (server.applyAll db ws).transactions = db.transactions++ts →
      ∀ t ∈ ts, attempts db t.id = 0 := by
    intro ts hts t ht
    refine hb.attempts_eq_zero fun u hu hid => ?_
    rw [hts,List.map_append] at hn'
    exact List.disjoint_of_nodup_append hn' (List.mem_map_of_mem hu)
      (hid ▸ List.mem_map_of_mem ht)
  cases hl with
  | nothing => exact h
  | @created n => exact h.insertRows rfl rfl (hnew [n.data] rfl)
  | @createdTransfer n =>
    have hrows : (server.applyAll db [.insertTransaction n.txOut,
        .insertTransaction n.txIn]).transactions = db.transactions++[n.txOut,n.txIn] := by
      simp [Write.apply]
    have hzero := hnew [n.txOut,n.txIn] hrows
    have h₁ : Attempts maxRetry (server.applyAll db [.insertTransaction n.txOut,
        .insertTransaction n.txIn]) := h.insertRows rfl hrows hzero
    refine h₁.insertFirst (e := n.event) (fun e he hid => ?_) ?_ (hzero n.txOut (by simp))
    · exact hfresh e he (by simp [eventUuids,hid,NewTransfer.event])
    · simp [isOriginal,NewTransfer.event,payloadEventId,NewTransfer.payload]
  | @completed providerPaymentId eventId t ht hp hs =>
    have hzero : attempts db t.id = 0 :=
      hb.attempts_unreleased hn ht (hb.deposit_of_paid ht hp).1 (by rw [released,hs])
    refine (hstatus db [t.id] .completed h).insertFirst (e := t.paidEvent eventId)
      (fun e he hid => ?_) ?_ hzero
    · exact hfresh e he (by simp [eventUuids,hid,Transaction.paidEvent])
    · simp [isOriginal,Transaction.paidEvent,payloadEventId,Transaction.depositPaid]
  | timedOut => exact hstatus _ _ _ h
  | updated => exact (hstatus _ _ _ h).rows rfl (hstatus _ _ _ h).counted
  | @updatedByIds _ outId inId =>
    have hboth := hstatus _ [inId] .balanceUpdated (hstatus _ [outId] .balanceUpdated h)
    exact hboth.rows rfl hboth.counted
  | @copied c ids event hevent =>
    obtain ⟨hretried,hmax,hecho⟩ := hretry c ids rfl
    exact h.retried hb hn hretried hmax hecho (by simpa [eventUuids] using hfresh)
  | @failed c ids =>
    obtain ⟨hretried,hmax,hecho⟩ := hretry c ids rfl
    exact h.retried hb hn hretried hmax hecho (by simpa [eventUuids] using hfresh)

end Attempts

/-- A failure message as the user service sends it. -/
theorem echoes_of_answers {db : TxDb} {maxRetry : ℕ} {m : KafkaMessage} {i ids : RetryIds}
    {c : RetryCall} (ha : db.outboxEvents.any (answersEvent m.value))
    (hc : resultCall maxRetry m i = some (.recreate c ids)) :
    c.maxRetry = maxRetry ∧ Echoes db c := by
  obtain ⟨e,he,hans⟩ := List.any_eq_true.mp ha
  obtain ⟨p,hp,htarget,heventId⟩ := payload_of_answersEvent hans
  unfold resultCall at hc
  split at hc
  · cases hc
  · rename_i hvalue
    cases hc
    rw [hvalue] at htarget heventId
    exact ⟨rfl,e,he,p,hp,htarget,heventId⟩
  · cases hc
  · rename_i hvalue
    cases hc
    rw [hvalue] at htarget heventId
    exact ⟨rfl,e,he,p,hp,htarget,heventId⟩
  · contradiction

theorem Echoes.mono {db db' : TxDb} {c : RetryCall} (h : Echoes db c)
    (he : ∀ e ∈ db.outboxEvents, ∃ e' ∈ db'.outboxEvents, e'.payload = e.payload) :
    Echoes db' c := by
  obtain ⟨e,hmem,p,hp,hecho⟩ := h
  obtain ⟨e',hmem',hpayload⟩ := he e hmem
  exact ⟨e',hmem',p,hpayload.trans hp,hecho⟩

namespace Sessions
variable {s s' : Sessions} {maxRetry : ℕ} {a : SessionsAction}

/-- What holds of the retries at any moment. -/
structure Bounded (maxRetry : ℕ) (s : Sessions) : Prop where
  counts : Knows footprint Counted s.server
  calls : ∀ c ids, .recreate c ids ∈ s.calls → c.maxRetry = maxRetry ∧ Echoes s.server.db c
  attempts : Attempts maxRetry s.server.db

theorem bounded_initial : Bounded maxRetry .initial where
  counts := fun t a ha => by cases ha
  calls := nofun
  attempts := .empty

/-- Facts of answers that do not depend on what the worker marks are kept by every step. -/
theorem Sound.knows_next (h : s.Sound)
    {Fact : TxDb → (Uuid → Prop) → List Write → (st : Stmt) → Res st → Prop}
    (hf : footprint.Stable Fact) (hmark : ∀ ids db own ws st r, Fact db own ws st r →
      Fact (txTable.markEventsAsProcessed ids db) own ws st r)
    (hk : Knows footprint Fact s.server) (hs : s.next maxRetry a = some s') :
    Knows footprint Fact s'.server := by
  cases moves_of_next hs with
  | starts start =>
    rw [(launch_server start).1]
    exact hk.launch _ _
  | pays payments => exact hk
  | reports answer =>
    rw [report_server]
    exact hk
  | notifies call start =>
    rw [(launch_server start).1,report_server]
    exact hk.launch _ _
  | ignores => exact hk
  | marks ids => exact hk.of_db (hmark ids s.server.db)
  | serves step => exact hk.next h.isolated hf step

/-- A call that retries has the limit of the service and repeats a stored payload. -/
theorem recreate_mem_of_next (hs : s.next maxRetry a = some s') {c : RetryCall} {ids : RetryIds}
    (hc : .recreate c ids ∈ s'.calls) :
    .recreate c ids ∈ s.calls ∨ c.maxRetry = maxRetry ∧ Echoes s.server.db c := by
  have hlaunch : ∀ {u : Sessions} {d : TransactionCall}, u.calls = s.calls → u.launch d = some s' →
      .recreate c ids ∈ s.calls ∨ d = .recreate c ids := by
    intro u d hu hl
    rw [(launch_server hl).2,hu] at hc
    exact (List.mem_append.mp hc).imp_right fun hd => (List.mem_singleton.mp hd).symm
  cases a with
  | depositRub n =>
    refine .inl ((hlaunch rfl hs).resolve_right ?_)
    simp
  | transferRub n =>
    refine .inl ((hlaunch rfl hs).resolve_right ?_)
    simp
  | payment p =>
    cases hs
    exact .inl hc
  | webhook data answer eventId =>
    simp only [Sessions.next] at hs
    split at hs
    · split at hs
      · rename_i d hcall
        refine .inl ((hlaunch (report_calls answer) hs).resolve_right ?_)
        obtain ⟨payment,-,⟨-,rfl⟩ | ⟨-,rfl⟩⟩ := processing_call hcall <;> simp
      · cases hs
        rw [report_calls] at hc
        exact .inl hc
    · contradiction
  | kafka m i =>
    simp only [Sessions.next] at hs
    split at hs
    · rename_i hans
      cases hcall : resultCall maxRetry m i with
      | none =>
        rw [hcall] at hs
        cases hs
        exact .inl hc
      | some d =>
        rw [hcall] at hs
        refine (hlaunch rfl hs).imp_right fun hd => ?_
        exact echoes_of_answers hans (hd ▸ hcall)
    · contradiction
  | mark ids =>
    cases hs
    exact .inl hc
  | sql act =>
    obtain ⟨v,-,rfl⟩ := Option.map_eq_some_iff.mp hs
    exact .inl hc

theorem payloads_stay (hs : s.next maxRetry a = some s') :
    ∀ e ∈ s.server.db.outboxEvents, ∃ e' ∈ s'.server.db.outboxEvents, e'.payload = e.payload := by
  intro e he
  rcases db_cases hs with hdb | ⟨ids,hdb⟩ | ⟨t,a,-,-,hdb⟩
  · exact ⟨e,hdb ▸ he,rfl⟩
  · rw [hdb]
    refine ⟨_,List.mem_map_of_mem he,?_⟩
    split <;> rfl
  · rw [hdb,outboxEvents_applyAll]
    exact ⟨e,List.mem_append_left _ he,rfl⟩

theorem Bounded.next (h : s.Bounded maxRetry) (hsound : s.Sound)
    (hs : s.next maxRetry a = some s') : s'.Bounded maxRetry := by
  refine ⟨hsound.knows_next counted_stable (fun ids db own ws st r hk => ?_) h.counts hs,
    fun c ids hc => ?_,?_⟩
  · exact hk.mono fun t ht hown => ⟨ht,hown⟩
  · rcases recreate_mem_of_next hs hc with hold | ⟨hmax,hecho⟩
    · exact ⟨(h.calls c ids hold).1,(h.calls c ids hold).2.mono (payloads_stay hs)⟩
    · exact ⟨hmax,hecho.mono (payloads_stay hs)⟩
  · rcases db_cases hs with hdb | ⟨ids,hdb⟩ | ⟨t,a,ha,hx,hdb⟩
    · rw [hdb]
      exact h.attempts
    · rw [hdb]
      exact h.attempts.mark ids
    · obtain ⟨c,hc,-,hl,hfresh⟩ := hsound.lands ha hx
      obtain ⟨pairs,hb⟩ := hsound.register
      have hn := (nodup_of_index hsound.isolated.unique).1
      have hn' := (nodup_of_index (hsound.next hs).isolated.unique).1
      rw [hdb] at hn' ⊢
      refine h.attempts.lands hb hn hn' hl hfresh fun r ids hr => ?_
      subst hr
      refine ⟨?_,h.calls r ids (List.mem_of_getElem? hc)⟩
      obtain ⟨c,hc',-,hpath⟩ := hsound.call ha
      cases hc.symm.trans hc'
      rw [hx] at hpath
      rw [hsound.isolated.pending t a ha]
      exact retried_of_path hpath (hsound.knows t a ha) (h.counts t a ha)

theorem retryCount_le_applyAll {db : TxDb} (ws : List Write) {t : Transaction}
    (ht : t ∈ db.transactions) :
    ∃ t' ∈ (TransactionService.server.applyAll db ws).transactions,
      t'.id = t.id ∧ t.retryCount ≤ t'.retryCount := by
  induction ws generalizing db t with
  | nil => exact ⟨t,ht,rfl,le_rfl⟩
  | cons w ws ih =>
    have hone : ∃ t' ∈ (w.apply db).transactions, t'.id = t.id ∧ t.retryCount ≤ t'.retryCount := by
      cases w with
      | insertTransaction data => exact ⟨t,List.mem_append_left _ ht,rfl,le_rfl⟩
      | setStatus ids status =>
        refine ⟨_,List.mem_map_of_mem ht,?_⟩
        split <;> exact ⟨rfl,le_rfl⟩
      | addRetryCount ids =>
        refine ⟨_,List.mem_map_of_mem ht,?_⟩
        split
        · exact ⟨rfl,Nat.le_succ _⟩
        · exact ⟨rfl,le_rfl⟩
      | insertOutboxEvent data => exact ⟨t,ht,rfl,le_rfl⟩
      | insertProcessedEvent data => exact ⟨t,ht,rfl,le_rfl⟩
    obtain ⟨u,hu,huid,hle⟩ := hone
    obtain ⟨v,hv,hvid,hle'⟩ := ih hu
    exact ⟨v,hv,hvid.trans huid,hle.trans hle'⟩

theorem Sound.retryCount_le (h : s.Sound) (hs : s.next maxRetry a = some s') {t : Transaction}
    (ht : t ∈ s.server.db.transactions) :
    ∃ t' ∈ s'.server.db.transactions, t'.id = t.id ∧ t.retryCount ≤ t'.retryCount := by
  rcases h.transactions_cases hs with hsame | ⟨c,-,ws,-,hdb⟩
  · exact ⟨t,hsame ▸ ht,rfl,le_rfl⟩
  · rw [hdb]
    exact retryCount_le_applyAll ws ht

/-- Every event that is stored was committed. -/
theorem Sound.committed (h : s.Sound) {e : OutboxEvent} (he : e ∈ s.server.db.outboxEvents) :
    ∃ e' ∈ s.inserted, e'.created = e.created := by
  have hmem : e.created ∈ s.inserted.map (·.created) := h.logged ▸ List.mem_map_of_mem he
  exact List.mem_map.mp hmem

end Sessions

/-- The event was created for the deposit or for the pair. -/
def createdFor : Target → OutboxEvent → Bool
  | .deposit transactionId, e => e.topic = .depositPaidSuccess && e.transactionId = transactionId
  | .transfer outId _, e => e.topic = .transferInited && e.transactionId = outId

theorem transactionId_of_createdFor (g : Target) :
    ∃ id, ∀ e, createdFor g e → e.transactionId = id := by
  cases g with
  | deposit transactionId => exact ⟨transactionId,fun e he => by simp_all [createdFor]⟩
  | transfer outId inId => exact ⟨outId,fun e he => by simp_all [createdFor]⟩

theorem createdFor_congr {g : Target} {e e' : OutboxEvent} (htopic : e'.topic = e.topic)
    (htx : e'.transactionId = e.transactionId) : createdFor g e' = createdFor g e := by
  cases g <;> rw [createdFor,createdFor,htopic,htx]

/-- Whatever failure messages come, under whatever keys, and however the statements of their handlers
interleave with each other and with all else that the service does, or are cut off: the events ever
created for a deposit or a pair are at most `MAX_RETRY`, or one, all with the topic and the payload
of the original, and no count goes down. -/
theorem retries_are_bounded (maxRetry : ℕ) (as bs : List SessionsAction) (s u : Sessions)
    (hs : Transition.runs (Sessions.next maxRetry) .initial as = some s)
    (hu : Transition.runs (Sessions.next maxRetry) s bs = some u) :
    (∀ g, u.inserted.countP (createdFor g) ≤ max 1 maxRetry) ∧
    (∀ g, ∀ e ∈ u.inserted, createdFor g e → ∃ o ∈ u.inserted, createdFor g o ∧ isOriginal o ∧
      ∀ e' ∈ u.inserted, createdFor g e' → e'.topic = o.topic ∧ e'.payload = o.payload) ∧
    ∀ t ∈ s.server.db.transactions, ∃ t' ∈ u.server.db.transactions,
      t'.id = t.id ∧ t.retryCount ≤ t'.retryCount := by
  have hsound := Sessions.Sound.initial.runs hs
  have hrun := Transition.runs_append.mpr ⟨s,hs,hu⟩
  obtain ⟨husound,hbounded⟩ : u.Sound ∧ u.Bounded maxRetry := Transition.runs_invariant'
    (I := fun v => v.Sound ∧ v.Bounded maxRetry) (fun _ _ _ hi hn => ⟨hi.1.next hn,hi.2.next hi.1 hn⟩)
    ⟨.initial,Sessions.bounded_initial⟩ hrun
  have hattempts := hbounded.attempts
  refine ⟨fun g => ?_,fun g e he hg => ?_,fun t ht => ?_⟩
  · obtain ⟨id,hid⟩ := transactionId_of_createdFor g
    rw [husound.countP_inserted fun _ => by cases g <;> rfl]
    refine (List.countP_mono_left fun e _ he => ?_).trans (hattempts.few id)
    exact decide_eq_true (hid e he)
  · obtain ⟨x,hx,hxe⟩ := husound.stores he
    obtain ⟨-,hxtx,hxtopic,-⟩ := OutboxEvent.fields_of_created hxe
    obtain ⟨y,hy,hyx,horig⟩ := hattempts.original x hx
    obtain ⟨hytopic,-⟩ := hattempts.same x hx y hy hyx
    obtain ⟨o,ho,hoy⟩ := husound.committed hy
    obtain ⟨hoid,hotx,hotopic,hopayload⟩ := OutboxEvent.fields_of_created hoy
    refine ⟨o,ho,?_,?_,fun e' he' hg' => ?_⟩
    · rw [createdFor_congr (hotopic.trans (hytopic.trans hxtopic))
        (hotx.trans (hyx.trans hxtx))]
      exact hg
    · rw [isOriginal,hopayload,hoid]
      exact horig
    · obtain ⟨z,hz,hze⟩ := husound.stores he'
      obtain ⟨-,hztx,hztopic,hzpayload⟩ := OutboxEvent.fields_of_created hze
      obtain ⟨id,hid⟩ := transactionId_of_createdFor g
      have hzy : z.transactionId = y.transactionId := by
        rw [hztx,hid e' hg',hyx,hxtx,hid e hg]
      obtain ⟨htopic,hpayload⟩ := hattempts.same y hy z hz hzy
      exact ⟨hztopic.symm.trans (htopic.trans hotopic.symm),
        hzpayload.symm.trans (hpayload.trans hopayload.symm)⟩
  · exact (Transition.runs_invariant' (I := fun v => v.Sound ∧ ∃ t' ∈ v.server.db.transactions,
      t'.id = t.id ∧ t.retryCount ≤ t'.retryCount) (fun v a w hv hn => by
        obtain ⟨hv,x,hx,hid,hle⟩ := hv
        obtain ⟨y,hy,hid',hle'⟩ := hv.retryCount_le hn hx
        exact ⟨hv.next hn,y,hy,hid'.trans hid,hle.trans hle'⟩)
      ⟨hsound,t,ht,rfl,le_rfl⟩ hu).2

/-- With two attempts allowed, a deposit fails under three keys. Two of the messages race for the
row, and one is cut off after it has raised the count. -/
theorem retries_are_bounded_raced :
    let create : List (SessionAction Uuid ℕ) := [.begin 0,.start 0 [],.exec 0,.start 0 [],.exec 0,
      .commit 0]
    let complete : List (SessionAction Uuid ℕ) := [.begin 1,.start 1 [(1,.update)],.lock 1,.exec 1,
      .start 1 [(1,.noKeyUpdate)],.lock 1,.exec 1,.start 1 [(1,.keyShare)],.lock 1,.exec 1,.commit 1]
    let race : List (SessionAction Uuid ℕ) := [.begin 2,.begin 3,.start 2 [],.exec 2,.start 3 [],
      .exec 3,.start 2 [],.exec 2,.start 3 [],.exec 3,.start 2 [(1,.noKeyUpdate)],.lock 2,.exec 2,
      .abort 2,.start 3 [(1,.noKeyUpdate)],.lock 3,.exec 3,.start 3 [],.exec 3,
      .start 3 [(1,.keyShare)],.lock 3,.exec 3,.start 3 [],.exec 3,.commit 3]
    let last : List (SessionAction Uuid ℕ) := [.begin 4,.start 4 [],.exec 4,.start 4 [],.exec 4,
      .start 4 [(1,.noKeyUpdate)],.lock 4,.exec 4,.start 4 [(1,.noKeyUpdate)],.lock 4,.exec 4,
      .commit 4]
    let failed : Uuid → RetryIds → SessionsAction := fun key ids =>
      .kafka ⟨50,.depositCreditingFailed,.depositCrediting ⟨5,1⟩,some key⟩ ids
    let as : List SessionsAction := [.depositRub ⟨1,10,100,"k","p"⟩]++create.map .sql++
      [.payment ⟨"p",.succeeded⟩,.webhook ⟨"payment.succeeded","p"⟩ (.ok ⟨"p",.succeeded⟩) 5]++
      complete.map .sql
    let bs : List SessionsAction := [failed 60 ⟨61,62⟩,failed 63 ⟨64,65⟩]++race.map .sql++
      [failed 66 ⟨67,68⟩]++last.map .sql
    ∃ s u, Transition.runs (Sessions.next 2) .initial as = some s ∧
      Transition.runs (Sessions.next 2) s bs = some u ∧ u.inserted.map (·.id) = [5,64] ∧
      u.server.db.transactions.map (fun t => (t.status,t.retryCount)) = [(.failed,2)] ∧
      u.inserted.countP (createdFor (.deposit 1)) ≤ 2 := by
  intro create complete race last failed as bs
  have hrun : (Transition.runs (Sessions.next 2) .initial as).bind (fun s =>
      (Transition.runs (Sessions.next 2) s bs).map (fun u => (u.inserted.map (·.id),
        u.server.db.transactions.map (fun t => (t.status,t.retryCount))))) =
      some ([5,64],[(.failed,2)]) := by decide +kernel
  obtain ⟨s,hs,hrest⟩ := Option.bind_eq_some_iff.mp hrun
  obtain ⟨u,hu,heq⟩ := Option.map_eq_some_iff.mp hrest
  obtain ⟨hids,hrows⟩ := Prod.mk.injEq .. ▸ heq
  exact ⟨s,u,hs,hu,hids,hrows,(retries_are_bounded 2 as bs s u hs hu).1 (.deposit 1)⟩

end NestHomework.Services
