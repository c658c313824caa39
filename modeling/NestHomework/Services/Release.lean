import NestHomework.Services.Sessions

/-! When the money of a deposit is released. -/
namespace NestHomework.Services
open Contracts Postgres TransactionService

namespace Sessions
variable {s s' : Sessions}

theorem Sound.stores (h : s.Sound) {e : OutboxEvent} (he : e ∈ s.inserted) :
    s.server.db.Stores e := by
  have hmem : e.created ∈ s.server.db.outboxEvents.map (·.created) :=
    h.logged ▸ List.mem_map_of_mem he
  exact List.mem_map.mp hmem

theorem Sound.countP_inserted (h : s.Sound) {P : OutboxEvent → Bool}
    (hp : ∀ e : OutboxEvent, P e.created = P e) :
    s.inserted.countP P = s.server.db.outboxEvents.countP P := by
  have hcreated : P ∘ OutboxEvent.created = P := funext hp
  have hlogged := congrArg (List.countP P) h.logged
  rw [List.countP_map,List.countP_map,hcreated] at hlogged
  exact hlogged.symm

theorem Sound.timeout_stays (h : s.Sound) {maxRetry : ℕ} {a : SessionsAction}
    (hs : s.next maxRetry a = some s') {t : Transaction} (ht : t ∈ s.server.db.transactions)
    (htype : t.type = .deposit) (hst : t.status = .timeout) :
    t ∈ s'.server.db.transactions := by
  rcases h.transactions_cases hs with hsame | ⟨c,hc,ws,hl,hdb⟩
  · rwa [hsame]
  · obtain ⟨pairs,hb⟩ := h.register
    rw [hdb]
    exact hb.timeout_stays (nodup_of_index h.isolated.unique).1 hl (h.informed c hc) ht htype hst

end Sessions

/-- Whatever notifications come, and however their statements interleave with each other and with all
else that the service does: a deposit has at most one event of its own, which tells its own data and
only comes once the provider has reported its payment, and none once it is in `TIMEOUT`. -/
theorem deposit_is_released_once (maxRetry : ℕ) (as bs : List SessionsAction) (s u : Sessions)
    (hs : Transition.runs (Sessions.next maxRetry) .initial as = some s)
    (hu : Transition.runs (Sessions.next maxRetry) s bs = some u) :
    (∀ id, u.inserted.countP (releases id) ≤ 1) ∧
    (∀ e ∈ u.inserted, e.topic = .depositPaidSuccess → ∃ t ∈ u.server.db.transactions,
      e.transactionId = t.id ∧ t.type = .deposit ∧
      (∃ eventId, e.payload = some (.depositPaid
        ⟨eventId,t.id,t.accountId,t.currency,toString t.amount⟩)) ∧
      ∃ providerPaymentId, t.providerPaymentId = some providerPaymentId ∧
        u.Succeeded providerPaymentId) ∧
    ∀ t ∈ s.server.db.transactions, t.type = .deposit → t.status = .timeout →
      ∀ e ∈ u.inserted, e.topic = .depositPaidSuccess → e.transactionId ≠ t.id := by
  have hsound := Sessions.Sound.initial.runs hs
  have husound := hsound.runs hu
  obtain ⟨pairs,h⟩ := husound.register
  refine ⟨fun id => ?_,fun e he htopic => ?_,fun t ht htype hst e he htopic hid => ?_⟩
  · rw [husound.countP_inserted fun _ => rfl]
    exact h.once id
  · obtain ⟨e',he',heq⟩ := husound.stores he
    obtain ⟨-,htx,htopic',hpay⟩ := OutboxEvent.fields_of_created heq
    cases h.tells e' he' with
    | transfer _ topic =>
      rw [htopic',htopic] at topic
      contradiction
    | deposit ht type paid _ isReported _ transactionId payload =>
      exact ⟨_,ht,htx.symm.trans transactionId,type,⟨_,hpay.symm.trans payload⟩,_,paid,isReported⟩
  · obtain ⟨-,htu⟩ := Transition.runs_invariant'
      (I := fun v => v.Sound ∧ t ∈ v.server.db.transactions)
      (fun v a w hv hn => ⟨hv.1.next hn,hv.1.timeout_stays hn hv.2 htype hst⟩) ⟨hsound,ht⟩ hu
    obtain ⟨e',he',heq⟩ := husound.stores he
    obtain ⟨-,htx,htopic',-⟩ := OutboxEvent.fields_of_created heq
    exact h.not_told (nodup_of_index husound.isolated.unique).1 htu (by rw [released,hst]) e' he'
      (htopic'.trans htopic) (htx.trans hid)

/-- Two notifications of one payment race, two more are forged, and another payment is canceled. -/
theorem deposit_is_released_once_raced :
    let create : ℕ → List (SessionAction Uuid ℕ) := fun t =>
      [.begin t,.start t [],.exec t,.start t [],.exec t,.commit t]
    let race : List (SessionAction Uuid ℕ) := [.begin 2,.begin 3,.start 2 [(1,.update)],.lock 2,
      .exec 2,.start 3 [(1,.update)],.start 2 [(1,.noKeyUpdate)],.lock 2,.exec 2,
      .start 2 [(1,.keyShare)],.lock 2,.exec 2,.commit 2,.lock 3,.exec 3,.rollback 3,.begin 4,
      .start 4 [(2,.update)],.lock 4,.exec 4,.start 4 [(2,.noKeyUpdate)],.lock 4,.exec 4,.commit 4]
    let as : List SessionsAction := [.depositRub ⟨1,10,100,"k","p"⟩,.depositRub ⟨2,10,200,"l","q"⟩]++
      (create 0++create 1).map .sql++[.payment ⟨"p",.succeeded⟩,.payment ⟨"q",.canceled⟩,
        .webhook ⟨"payment.succeeded","p"⟩ (.ok ⟨"p",.succeeded⟩) 5,
        .webhook ⟨"payment.succeeded","p"⟩ (.ok ⟨"p",.succeeded⟩) 6,
        .webhook ⟨"payment.canceled","p"⟩ (.ok ⟨"p",.succeeded⟩) 7,
        .webhook ⟨"payment.canceled","q"⟩ (.ok ⟨"q",.canceled⟩) 8]++race.map .sql
    let bs : List SessionsAction := [.webhook ⟨"payment.succeeded","q"⟩ (.ok ⟨"q",.canceled⟩) 9]
    ∃ s u, Transition.runs (Sessions.next 3) .initial as = some s ∧
      Transition.runs (Sessions.next 3) s bs = some u ∧
      s.server.db.statuses = [(1,.completed),(2,.timeout)] ∧ u.inserted.map (·.id) = [5] ∧
      u.inserted.countP (releases 1) ≤ 1 := by
  intro create race as bs
  have hrun : (Transition.runs (Sessions.next 3) .initial as).bind (fun s =>
      (Transition.runs (Sessions.next 3) s bs).map (fun u =>
        (s.server.db.statuses,u.inserted.map (·.id)))) =
      some ([(1,.completed),(2,.timeout)],[5]) := by decide +kernel
  obtain ⟨s,hs,hrest⟩ := Option.bind_eq_some_iff.mp hrun
  obtain ⟨u,hu,heq⟩ := Option.map_eq_some_iff.mp hrest
  obtain ⟨hstatuses,hids⟩ := Prod.mk.injEq .. ▸ heq
  exact ⟨s,u,hs,hu,hstatuses,hids,(deposit_is_released_once 3 as bs s u hs hu).1 1⟩

end NestHomework.Services
