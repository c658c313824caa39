import NestHomework.TransactionService.Interleaved

/-! The limit of the retries, while others run. The count that a retry compares with the limit comes
back from the update of rows that it locks until its `COMMIT`, so nobody else raises it meanwhile. -/
namespace NestHomework.TransactionService
open Contracts Postgres

/-- The number is the count of a row of `ids` that the session owns, after its increment. -/
def CountOf (db : TxDb) (own : Uuid → Prop) (ids : List Uuid) (retryCount : ℕ) : Prop :=
  ∃ t ∈ db.transactions, t.id ∈ ids ∧ own t.id ∧ retryCount = t.retryCount+1

/-- What a session knows of the counts that its updates answered, while it has written nothing
else. -/
def Counted (db : TxDb) (own : Uuid → Prop) (before : List Write) : (s : Stmt) → Res s → Prop
  | .updateRetryCount id, (retryCount : ℕ) => before = [] → CountOf db own [id] retryCount
  | .updateManyRetryCount ids, (counts : List ℕ) => before = [] →
    ∀ retryCount ∈ counts, CountOf db own ids retryCount
  | _, _ => True

section Counted
variable {db db' : TxDb} {own own' : Uuid → Prop} {before : List Write}

theorem Counted.mono {s : Stmt} {r : Res s} (h : Counted db own before s r)
    (hrows : ∀ t ∈ db.transactions, own t.id → t ∈ db'.transactions ∧ own' t.id) :
    Counted db' own' before s r := by
  have hcount : ∀ {ids retryCount}, CountOf db own ids retryCount →
      CountOf db' own' ids retryCount := by
    rintro ids retryCount ⟨t,ht,hid,hown,hcount⟩
    exact ⟨t,(hrows t ht hown).1,hid,(hrows t ht hown).2,hcount⟩
  cases s with
  | updateRetryCount id => exact fun hb => hcount (h hb)
  | updateManyRetryCount ids => exact fun hb retryCount hr => hcount (h hb retryCount hr)
  | _ => trivial

theorem counted_stable : footprint.Stable Counted where
  owner ho h := h.mono fun t ht hown => ⟨ht,ho _ hown⟩
  frame hvs h := h.mono fun t ht hown =>
    ⟨mem_applyAll_of_not_rows ht (fun hm => hvs _ hm hown),hown⟩
  answer := by
    intro db own ws s r vs he hrows
    cases s with
    | updateRetryCount id =>
      intro hb
      subst hb
      rw [Engine.applyAll_nil] at he hrows
      simp only [server_exec,Stmt.exec] at he
      split at he
      · contradiction
      · rename_i t ht
        cases he
        have hmem := List.mem_of_find?_eq_some ht
        have hid : t.id = id := by simpa using List.find?_some ht
        refine ⟨t,hmem,by simp [hid],hrows t.id ?_,rfl⟩
        exact List.mem_map_of_mem (List.mem_filter.mpr ⟨hmem,by simp [hid]⟩)
    | updateManyRetryCount ids =>
      intro hb retryCount hr
      subst hb
      rw [Engine.applyAll_nil] at he hrows
      cases he
      obtain ⟨t,ht,rfl⟩ := List.mem_map.mp hr
      obtain ⟨hmem,hid⟩ := List.mem_filter.mp ht
      exact ⟨t,hmem,by simpa using hid,hrows t.id (List.mem_map_of_mem ht),rfl⟩
    | _ => trivial

end Counted

/-- What a retry can commit. It copies the event of its message, and only below the limit. -/
inductive Retried (db : TxDb) (c : RetryCall) (ids : RetryIds) : List Write → Prop
  | skipped : Retried db c ids []
  | copied {event t} (hevent : db.Stores event) (hid : event.id = c.eventId)
      (ht : t ∈ db.transactions) (htarget : t.id ∈ c.target.ids)
      (hlimit : t.retryCount+1 < c.maxRetry) : Retried db c ids (c.copyWrites ids event)
  | failed : Retried db c ids c.failWrites

theorem retried_of_path {db : TxDb} {own : Uuid → Prop} {answered : List ((s : Stmt) × Res s)}
    {c : RetryCall} {ids : RetryIds}
    (hp : (TransactionCall.recreate c ids).body.Path answered (.pure ()))
    (hk : Answered Stmt.writes (Known db own) [] answered)
    (hc : Answered Stmt.writes (Counted db own) [] answered) :
    Retried db c ids (TransactionCall.written answered) := by
  obtain ⟨q,hq,hpath⟩ := hp.of_ignore
  obtain ⟨x,rfl⟩ := Tx.pure_of_ignore hq.symm
  rcases TransactionCall.recreate_written hpath (hk.and hc) with
    hnone | ⟨retryCount,hraised,⟨hlimit,event,hfound,hcopy⟩ | hfail⟩
  · rw [hnone]
    exact .skipped
  · obtain ⟨hstored,hid⟩ := hfound.1 (by simp) event rfl
    have hcount : CountOf db own c.target.ids retryCount := by
      cases htarget : c.target with
      | deposit transactionId =>
        rw [htarget] at hraised
        exact hraised.2 rfl
      | transfer outId inId =>
        rw [htarget] at hraised
        obtain ⟨counts,-,hcounts⟩ := hraised
        exact hcounts rfl retryCount List.mem_cons_self
    obtain ⟨t,ht,htarget,-,rfl⟩ := hcount
    rw [hcopy]
    exact .copied hstored hid ht htarget hlimit
  · rw [hfail]
    exact .failed

end NestHomework.TransactionService
