import NestHomework.Postgres.WaitFor
import NestHomework.TransactionService.Retry

/-! Runs of one failure message beside each other. The duplicate check comes before the row lock, so
a run may raise the retry count after another one has recorded the message. It then fails on the
unique key, unless the count has reached the limit: the exhausted branch inserts no key. -/
namespace NestHomework.TransactionService
open Contracts Postgres

/-- A run that starts now commits nothing. -/
def RetryCall.Vain (c : RetryCall) (db : TxDb) : Prop := ∀ i, (c.commit i db).getD [] = []

/-- Where a run stands: what it has written and what is left of its body. From the update of the
count on it holds the rows, so that what it found there stays. `settled` holds of runs that end
without a write. -/
inductive Stage (c : RetryCall) (i : RetryIds) (db₀ db : TxDb) (settled : Prop) :
    List Write → Tx Stmt Res Bool → Prop
  | check : Stage c i db₀ db settled [] (c.body i)
  | find (new : db₀.processed c.idempotencyKey = none) : Stage c i db₀ db settled [] (c.retryFind i)
  | update (new : db₀.processed c.idempotencyKey = none) (present : c.target.present db) :
      Stage c i db₀ db settled [] (c.retryUpdate i)
  | updated (new : db₀.processed c.idempotencyKey = none) (present : c.target.present db) :
      Stage c i db₀ db settled [.addRetryCount c.target.ids]
        (c.retryUpdated i (c.target.retryCount db+1))
  | found {event} (present : c.target.present db)
      (limit : c.target.retryCount db+1 < c.maxRetry) (found : db.outboxEvent c.eventId = some event)
      (payload : event.payload.isSome) :
      Stage c i db₀ db settled [.addRetryCount c.target.ids] (c.retryCopy i event)
  | copied {event} (present : c.target.present db)
      (limit : c.target.retryCount db+1 < c.maxRetry) (found : db.outboxEvent c.eventId = some event)
      (payload : event.payload.isSome) (foreign : (db.transaction event.transactionId).isSome) :
      Stage c i db₀ db settled
        [.addRetryCount c.target.ids,.insertOutboxEvent (RetryCall.copy i event)] (c.retryRecord i)
  | recorded {event} (commit : c.commit i db = some (c.copyWrites i event)) :
      Stage c i db₀ db settled (c.copyWrites i event) (.pure false)
  | exhausted (new : db₀.processed c.idempotencyKey = none) (present : c.target.present db)
      (limit : c.maxRetry ≤ c.target.retryCount db+1) :
      Stage c i db₀ db settled c.failWrites (.pure true)
  | skipped (vain : settled) : Stage c i db₀ db settled [] (.pure false)
  | thrown {e ws} (vain : settled) : Stage c i db₀ db settled ws (.throw e)

section Stage
variable {c : RetryCall} {i : RetryIds} {db₀ db db' : TxDb} {settled settled' : Prop}
  {pending : List Write} {cur : Tx Stmt Res Bool}

theorem vain_of_processed (h : (db.processed c.idempotencyKey).isSome) : c.Vain db := by
  intro i
  simp [RetryCall.commit,h]

theorem vain_of_missing (h : ¬c.target.present db) : c.Vain db := by
  intro i
  simp only [Bool.not_eq_true] at h
  simp only [RetryCall.commit,h]
  split <;> rfl

theorem vain_of_event (limit : c.target.retryCount db+1 < c.maxRetry)
    (h : ∀ event, db.outboxEvent c.eventId = some event →
      ¬(event.payload.isSome && (db.transaction event.transactionId).isSome)) : c.Vain db := by
  intro i
  rw [RetryCall.commit]
  split
  · rfl
  split
  · rfl
  cases he : db.outboxEvent c.eventId with
  | none => rfl
  | some event => simp [h event he]

theorem commit_copy {event : OutboxEvent} (new : db.processed c.idempotencyKey = none)
    (present : c.target.present db) (limit : c.target.retryCount db+1 < c.maxRetry)
    (found : db.outboxEvent c.eventId = some event) (payload : event.payload.isSome)
    (foreign : (db.transaction event.transactionId).isSome) :
    c.commit i db = some (c.copyWrites i event) := by
  simp [RetryCall.commit,new,present,limit,found,payload,foreign]

theorem Stage.mono (h : Stage c i db₀ db settled pending cur) (hs : settled → settled') :
    Stage c i db₀ db settled' pending cur := by
  cases h with
  | check => exact .check
  | find new => exact .find new
  | update new present => exact .update new present
  | updated new present => exact .updated new present
  | found present limit found payload => exact .found present limit found payload
  | copied present limit found payload foreign =>
    exact .copied present limit found payload foreign
  | recorded commit => exact .recorded commit
  | exhausted new present limit => exact .exhausted new present limit
  | skipped vain => exact .skipped (hs vain)
  | thrown vain => exact .thrown (hs vain)

/-- A run that has written nothing does not depend on counts and statuses. -/
theorem Stage.congr (h : Stage c i db₀ db settled [] cur)
    (hids : db'.transactions.map (·.id) = db.transactions.map (·.id)) :
    Stage c i db₀ db' settled [] cur := by
  cases h with
  | check => exact .check
  | find new => exact .find new
  | update new present => exact .update new (by rwa [RetryCall.present_congr hids])
  | skipped vain => exact .skipped vain
  | thrown vain => exact .thrown vain

/-- The next stage, after an answer. -/
theorem Stage.answer (h : Stage c i db₀ db settled pending cur) {st : Stmt}
    {k : Res st → Tx Stmt Res Bool} (hc : cur = .exec st k) {r : Res st} {ws : List Write}
    (he : st.exec (server.applyAll db pending) = .ok (r,ws)) (hv : c.Vain db → settled)
    (hnew : db.processed c.idempotencyKey = none → db₀.processed c.idempotencyKey = none) :
    Stage c i db₀ db settled (pending++ws) (k r) := by
  cases h with
  | check =>
    rw [RetryCall.body_eq] at hc
    cases hc
    simp only [Stmt.exec,Engine.applyAll_nil,Except.ok.injEq,Prod.mk.injEq] at he
    obtain ⟨rfl,rfl⟩ := he
    cases hp : db.processed c.idempotencyKey with
    | some e => exact .skipped (hv (vain_of_processed (by simp [hp])))
    | none => exact .find (hnew hp)
  | find new =>
    obtain ⟨st',k',hc',hfind⟩ := c.retryFind_exec i
    rw [hc'] at hc
    cases hc
    obtain ⟨r',hr,hk⟩ := hfind db
    rw [Engine.applyAll_nil,hr] at he
    cases he
    rw [hk,RetryCall.retryExists]
    cases hpres : c.target.present db with
    | true => exact .update new hpres
    | false => exact .thrown (hv (vain_of_missing (by simp [hpres])))
  | update new present =>
    obtain ⟨st',k',hc',hupdate⟩ := c.retryUpdate_exec i
    rw [hc'] at hc
    cases hc
    obtain ⟨r',hr,hk⟩ := (hupdate db).2 present
    rw [Engine.applyAll_nil,hr] at he
    cases he
    rw [hk]
    exact .updated new present
  | updated new present =>
    by_cases limit : c.target.retryCount db+1 < c.maxRetry
    · rw [RetryCall.retryUpdated,if_pos limit] at hc
      cases hc
      simp only [Stmt.exec,Except.ok.injEq,Prod.mk.injEq] at he
      obtain ⟨hr,rfl⟩ := he
      have hr' : db.outboxEvent c.eventId = r := hr
      cases hev : r with
      | none => exact .thrown (hv (vain_of_event limit (by simp [hr',hev])))
      | some event =>
        rw [hev] at hr'
        rw [RetryCall.retryFound]
        cases hpay : event.payload with
        | none =>
          refine .thrown (hv (vain_of_event limit (fun event' he' => ?_)))
          rw [hr'] at he'
          cases he'
          simp [hpay]
        | some payload => exact .found present limit hr' (by simp [hpay])
    · rw [RetryCall.retryUpdated,if_neg limit] at hc
      obtain ⟨st',k',hc',hex⟩ := c.retryExhausted_exec
      rw [hc'] at hc
      cases hc
      have hids : (server.applyAll db [.addRetryCount c.target.ids]).transactions.map (·.id) =
          db.transactions.map (·.id) :=
        RetryCall.map_id_apply (w := .addRetryCount c.target.ids) (by simp)
      obtain ⟨r',hr,hk⟩ := hex _ (by rwa [RetryCall.present_congr hids])
      rw [hr] at he
      cases he
      rw [hk]
      exact .exhausted new present (by omega)
  | @found event present limit found payload =>
    cases hc
    have hids : (server.applyAll db [.addRetryCount c.target.ids]).transactions.map (·.id) =
        db.transactions.map (·.id) :=
      RetryCall.map_id_apply (w := .addRetryCount c.target.ids) (by simp)
    simp only [Stmt.exec,RetryCall.transaction_isSome_congr hids] at he
    by_cases foreign : (db.transaction event.transactionId).isSome
    · simp only [RetryCall.copy,foreign,if_true,Except.ok.injEq,Prod.mk.injEq] at he
      obtain ⟨-,rfl⟩ := he
      exact .copied present limit found payload foreign
    · simp [RetryCall.copy,foreign] at he
  | @copied event present limit found payload foreign =>
    cases hc
    simp only [Stmt.exec] at he
    cases new : db.processed c.idempotencyKey with
    | some e => simp [RetryCall.record,new] at he
    | none =>
      simp only [RetryCall.record,Engine.applyAll_cons,Engine.applyAll_nil,server_apply,
        processed_insertOutboxEvent,processed_addRetryCount,new,Option.isSome_none,
        Bool.false_eq_true,if_false,Except.ok.injEq,Prod.mk.injEq] at he
      obtain ⟨-,rfl⟩ := he
      exact .recorded (commit_copy new present limit found payload foreign)
  | recorded commit => contradiction
  | exhausted new present limit => contradiction
  | skipped vain => contradiction
  | thrown vain => contradiction

/-- A statement only fails when the run is in vain. -/
theorem Stage.error (h : Stage c i db₀ db settled pending cur) {st : Stmt}
    {k : Res st → Tx Stmt Res Bool} (hc : cur = .exec st k) {e : String}
    (he : st.exec (server.applyAll db pending) = .error e) : c.Vain db := by
  cases h with
  | check =>
    rw [RetryCall.body_eq] at hc
    cases hc
    contradiction
  | find new =>
    obtain ⟨st',k',hc',hfind⟩ := c.retryFind_exec i
    rw [hc'] at hc
    cases hc
    obtain ⟨r',hr,-⟩ := hfind db
    rw [Engine.applyAll_nil,hr] at he
    contradiction
  | update new present =>
    obtain ⟨st',k',hc',hupdate⟩ := c.retryUpdate_exec i
    rw [hc'] at hc
    cases hc
    obtain ⟨r',hr,-⟩ := (hupdate db).2 present
    rw [Engine.applyAll_nil,hr] at he
    contradiction
  | updated new present =>
    by_cases limit : c.target.retryCount db+1 < c.maxRetry
    · rw [RetryCall.retryUpdated,if_pos limit] at hc
      cases hc
      contradiction
    · rw [RetryCall.retryUpdated,if_neg limit] at hc
      obtain ⟨st',k',hc',hex⟩ := c.retryExhausted_exec
      rw [hc'] at hc
      cases hc
      have hids : (server.applyAll db [.addRetryCount c.target.ids]).transactions.map (·.id) =
          db.transactions.map (·.id) :=
        RetryCall.map_id_apply (w := .addRetryCount c.target.ids) (by simp)
      obtain ⟨r',hr,-⟩ := hex _ (by rwa [RetryCall.present_congr hids])
      rw [hr] at he
      contradiction
  | @found event present limit found payload =>
    cases hc
    have hids : (server.applyAll db [.addRetryCount c.target.ids]).transactions.map (·.id) =
        db.transactions.map (·.id) :=
      RetryCall.map_id_apply (w := .addRetryCount c.target.ids) (by simp)
    simp only [Stmt.exec,RetryCall.transaction_isSome_congr hids] at he
    refine vain_of_event limit (fun event' hfound => ?_)
    rw [found] at hfound
    cases hfound
    by_cases foreign : (db.transaction event.transactionId).isSome
    · simp [RetryCall.copy,foreign] at he
    · simp [foreign]
  | @copied event present limit found payload foreign =>
    cases hc
    refine vain_of_processed ?_
    by_contra hnew
    simp [Stmt.exec,RetryCall.record,hnew] at he
  | recorded commit => contradiction
  | exhausted new present limit => contradiction
  | skipped vain => contradiction
  | thrown vain => contradiction

/-- How a run ends that has no statement left. -/
theorem Stage.ends (h : Stage c i db₀ db settled pending cur) : (∃ st k, cur = .exec st k) ∨
    (∃ x, cur = .pure x ∧ ((pending = [] ∧ settled) ∨
      (∃ event, pending = c.copyWrites i event ∧ c.commit i db = some (c.copyWrites i event)) ∨
      (pending = c.failWrites ∧ db₀.processed c.idempotencyKey = none ∧ c.target.present db ∧
        c.maxRetry ≤ c.target.retryCount db+1))) ∨
    (∃ e, cur = .throw e ∧ settled) := by
  cases h with
  | check => exact .inl ⟨_,_,c.body_eq i⟩
  | find new =>
    obtain ⟨st,k,hc,-⟩ := c.retryFind_exec i
    exact .inl ⟨st,k,hc⟩
  | update new present =>
    obtain ⟨st,k,hc,-⟩ := c.retryUpdate_exec i
    exact .inl ⟨st,k,hc⟩
  | updated new present =>
    obtain ⟨st,k,hc,-⟩ := c.retryExhausted_exec
    rw [RetryCall.retryUpdated,hc]
    split
    · exact .inl ⟨_,_,rfl⟩
    · exact .inl ⟨st,k,rfl⟩
  | found present limit found payload => exact .inl ⟨_,_,rfl⟩
  | copied present limit found payload foreign => exact .inl ⟨_,_,rfl⟩
  | recorded commit => exact .inr (.inl ⟨false,rfl,.inr (.inl ⟨_,rfl,commit⟩)⟩)
  | exhausted new present limit =>
    exact .inr (.inl ⟨true,rfl,.inr (.inr ⟨rfl,new,present,limit⟩)⟩)
  | skipped vain => exact .inr (.inl ⟨false,rfl,.inl ⟨rfl,vain⟩⟩)
  | thrown vain => exact .inr (.inr ⟨_,rfl,vain⟩)

theorem Stage.of_pure (h : Stage c i db₀ db settled pending cur) {x : Bool} (hc : cur = .pure x) :
    (pending = [] ∧ settled) ∨
    (∃ event, pending = c.copyWrites i event ∧ c.commit i db = some (c.copyWrites i event)) ∨
    (pending = c.failWrites ∧ db₀.processed c.idempotencyKey = none ∧ c.target.present db ∧
      c.maxRetry ≤ c.target.retryCount db+1) := by
  subst hc
  rcases h.ends with ⟨st,k,hc⟩ | ⟨y,-,hend⟩ | ⟨e,hc,-⟩
  · contradiction
  · exact hend
  · contradiction

theorem Stage.of_throw (h : Stage c i db₀ db settled pending cur) {e : String}
    (hc : cur = .throw e) : settled := by
  subst hc
  rcases h.ends with ⟨st,k,hc⟩ | ⟨y,hc,-⟩ | ⟨e',-,hend⟩
  · contradiction
  · contradiction
  · exact hend

/-- The first write of a run is the update of the count. -/
theorem Stage.update_of_writes (h : Stage c i db₀ db settled [] cur) {st : Stmt}
    {k : Res st → Tx Stmt Res Bool} (hc : cur = .exec st k) {r : Res st} {ws : List Write}
    (he : st.exec db = .ok (r,ws)) (hws : ws ≠ []) : cur = c.retryUpdate i := by
  cases h with
  | check =>
    rw [RetryCall.body_eq] at hc
    cases hc
    simp only [Stmt.exec,Except.ok.injEq,Prod.mk.injEq] at he
    exact absurd he.2.symm hws
  | find new =>
    obtain ⟨st',k',hc',hfind⟩ := c.retryFind_exec i
    rw [hc'] at hc
    cases hc
    obtain ⟨r',hr,-⟩ := hfind db
    rw [hr] at he
    cases he
    exact absurd rfl hws
  | update new present => rfl
  | skipped vain => contradiction
  | thrown vain => contradiction

theorem Stage.of_update (h : Stage c i db₀ db settled pending cur) (hc : cur = c.retryUpdate i) :
    pending = [] ∧ c.target.present db := by
  cases h with
  | update new present => exact ⟨rfl,present⟩
  | check =>
    rw [RetryCall.body_eq,RetryCall.retryUpdate] at hc
    split at hc <;> simp at hc
  | find new =>
    rw [RetryCall.retryFind,RetryCall.retryUpdate] at hc
    split at hc <;> simp at hc
  | updated new present =>
    rw [RetryCall.retryUpdated,RetryCall.retryExhausted,RetryCall.retryUpdate] at hc
    split at hc <;> split at hc <;> simp at hc
  | found present limit found payload =>
    rw [RetryCall.retryCopy,RetryCall.retryUpdate] at hc
    split at hc <;> simp at hc
  | copied present limit found payload foreign =>
    rw [RetryCall.retryRecord,RetryCall.retryUpdate] at hc
    split at hc <;> simp at hc
  | recorded commit =>
    rw [RetryCall.retryUpdate] at hc
    split at hc <;> simp at hc
  | exhausted new present limit =>
    rw [RetryCall.retryUpdate] at hc
    split at hc <;> simp at hc
  | skipped vain =>
    rw [RetryCall.retryUpdate] at hc
    split at hc <;> simp at hc
  | thrown vain =>
    rw [RetryCall.retryUpdate] at hc
    split at hc <;> simp at hc

/-- It locks the rows. -/
theorem rows_of_update (hu : cur = c.retryUpdate i) {st : Stmt} {k : Res st → Tx Stmt Res Bool}
    (hc : cur = .exec st k) : st.rows db = (db.ofIds c.target.ids).map (·.id) := by
  obtain ⟨st',k',hc',hupdate⟩ := c.retryUpdate_exec i
  rw [hu,hc'] at hc
  cases hc
  exact (hupdate db).1

end Stage

/-- The statuses once the rows have failed. -/
def failStatuses (ids : List Uuid) (statuses : List (Uuid × TransactionStatus)) :
    List (Uuid × TransactionStatus) :=
  statuses.map (fun p => if ids.contains p.1 then (p.1,.failed) else p)

/-- The committed database after the effective runs so far: who has copied the event, and whether a
run has failed the rows. -/
inductive History {T : Type} (c : RetryCall) (ids : T → RetryIds) (db₀ : TxDb) :
    TxDb → Option T → Bool → Prop
  | start : History c ids db₀ db₀ none false
  | copied {db b t event} (before : History c ids db₀ db none b)
      (commit : c.commit (ids t) db = some (c.copyWrites (ids t) event)) :
      History c ids db₀ (server.applyAll db (c.copyWrites (ids t) event)) (some t) b
  | failed {db x b} (before : History c ids db₀ db x b)
      (new : db₀.processed c.idempotencyKey = none) (present : c.target.present db)
      (limit : c.maxRetry ≤ c.target.retryCount db+1) :
      History c ids db₀ (server.applyAll db c.failWrites) x true

section History
variable {T : Type} {c : RetryCall} {ids : T → RetryIds} {i : RetryIds} {db₀ db : TxDb} {x : Option T}
  {b : Bool}

theorem statuses_failWrites : (server.applyAll db c.failWrites).statuses =
    failStatuses c.target.ids db.statuses := by
  simp only [RetryCall.failWrites,Engine.applyAll_cons,Engine.applyAll_nil,server_apply,Write.apply,
    TxDb.statuses,failStatuses,List.map_map]
  refine List.map_congr_left (fun t _ => ?_)
  simp only [Function.comp_apply]
  by_cases h : c.target.ids.contains t.id
  · simp only [h,if_true]
  · simp only [h,Bool.false_eq_true,if_false]

theorem statuses_copyWrites (event : OutboxEvent) :
    (server.applyAll db (c.copyWrites i event)).statuses = db.statuses := by
  simp only [RetryCall.copyWrites,Engine.applyAll_cons,Engine.applyAll_nil,server_apply,Write.apply,
    TxDb.statuses,List.map_map]
  refine List.map_congr_left (fun t _ => ?_)
  simp only [Function.comp_apply]
  split <;> rfl

theorem failStatuses_idem (ids : List Uuid) (l : List (Uuid × TransactionStatus)) :
    failStatuses ids (failStatuses ids l) = failStatuses ids l := by
  simp only [failStatuses,List.map_map]
  refine List.map_congr_left (fun p _ => ?_)
  simp only [Function.comp_apply]
  by_cases h : ids.contains p.1
  · simp only [h,if_true]
  · simp only [h,Bool.false_eq_true,if_false]

theorem map_id_statuses : db.statuses.map (·.1) = db.transactions.map (·.id) := by
  simp [TxDb.statuses,Function.comp_def]

theorem map_id_failWrites : (server.applyAll db c.failWrites).transactions.map (·.id) =
    db.transactions.map (·.id) := by
  rw [← map_id_statuses,← map_id_statuses,statuses_failWrites,failStatuses,List.map_map]
  refine List.map_congr_left (fun p _ => ?_)
  simp only [Function.comp_apply]
  split <;> rfl

/-- The count only grows. -/
theorem retryCount_failWrites : c.target.retryCount db ≤
    c.target.retryCount (server.applyAll db c.failWrites) := by
  have h : (server.applyAll db c.failWrites).ofIds c.target.ids =
      (db.ofIds c.target.ids).map
        (fun t => {t with retryCount := t.retryCount+1, status := .failed}) := by
    simp only [RetryCall.failWrites,Engine.applyAll_cons,Engine.applyAll_nil,server_apply]
    rw [ofIds_setStatus,ofIds_addRetryCount,List.map_map]
    rfl
  rw [RetryTarget.retryCount,RetryTarget.retryCount,h,List.head?_map]
  cases (db.ofIds c.target.ids).head? with
  | none => simp
  | some t => simp

/-- A run that would copy the event finds the message unrecorded and the rows below the limit. -/
theorem of_commit_copy {event : OutboxEvent}
    (h : c.commit i db = some (c.copyWrites i event)) :
    db.processed c.idempotencyKey = none ∧ c.target.present db ∧
      c.target.retryCount db+1 < c.maxRetry ∧ ∀ j, c.commit j db = some (c.copyWrites j event) := by
  simp only [RetryCall.commit] at h
  split at h
  · simp [RetryCall.copyWrites] at h
  rename_i new
  split at h
  · contradiction
  rename_i present
  split at h
  · rename_i limit
    split at h
    · contradiction
    · rename_i event' found
      split at h
      · rename_i hcopy
        have hsame : ∀ j, RetryCall.copy j event' = RetryCall.copy j event := by
          simp only [RetryCall.copyWrites,RetryCall.copy,Option.some.injEq,List.cons.injEq,
            Write.insertOutboxEvent.injEq,OutboxEvent.mk.injEq] at h
          obtain ⟨-,⟨-,hid,htopic,hpay,-⟩,-⟩ := h
          intro j
          simp [RetryCall.copy,hid,htopic,hpay]
        have new : db.processed c.idempotencyKey = none := by simpa using new
        have present : c.target.present db := by simpa using present
        refine ⟨new,present,limit,fun j => ?_⟩
        simp only [Bool.and_eq_true] at hcopy
        simp [RetryCall.commit,new,present,limit,found,hcopy,RetryCall.copyWrites,hsame]
      · contradiction
  · simp [RetryCall.copyWrites,RetryCall.failWrites] at h

theorem History.map_id (h : History c ids db₀ db x b) :
    db.transactions.map (·.id) = db₀.transactions.map (·.id) := by
  induction h with
  | start => rfl
  | copied _ _ ih => rw [← map_id_statuses,statuses_copyWrites,map_id_statuses,ih]
  | failed _ _ _ _ ih => rw [map_id_failWrites,ih]

theorem History.statuses (h : History c ids db₀ db x b) :
    db.statuses = if b then failStatuses c.target.ids db₀.statuses else db₀.statuses := by
  induction h with
  | start => rfl
  | copied _ _ ih => rw [statuses_copyWrites,ih]
  | @failed db x b _ _ _ _ ih =>
    rw [statuses_failWrites,ih]
    cases b with
    | true => exact failStatuses_idem _ _
    | false => rfl

/-- Before the event is copied the message is not recorded, and the rows only fail when they are at
the limit from the start. -/
theorem History.of_none (h : History c ids db₀ db x b) (hx : x = none) :
    db.outboxEvents = db₀.outboxEvents ∧ db.processedEvents = db₀.processedEvents ∧
    (b = false → db = db₀) ∧ (b = true → c.maxRetry ≤ c.target.retryCount db+1 ∧
      ∀ i, c.commit i db₀ = some c.failWrites) := by
  induction h with
  | start => exact ⟨rfl,rfl,fun _ => rfl,by simp⟩
  | copied _ _ _ => contradiction
  | @failed db x b _ new present limit ih =>
    obtain ⟨hout,hproc,hsame,hfail⟩ := ih hx
    refine ⟨hout,hproc,by simp,fun _ => ⟨?_,?_⟩⟩
    · have hcount : c.target.retryCount db ≤ c.target.retryCount (server.applyAll db c.failWrites) :=
        retryCount_failWrites
      omega
    · cases b with
      | true => exact (hfail rfl).2
      | false =>
        have hdb := hsame rfl
        subst hdb
        intro i
        have hlim : ¬c.target.retryCount db+1 < c.maxRetry := by omega
        simp [RetryCall.commit,new,present,hlim]

/-- The event is copied once, by a run that met the database as it was. -/
theorem History.of_some (h : History c ids db₀ db x b) {t : T} (hx : x = some t) :
    (db.processed c.idempotencyKey).isSome ∧ ∃ event,
      (∀ i, c.commit i db₀ = some (c.copyWrites i event)) ∧
      db.outboxEvents = db₀.outboxEvents++[RetryCall.copy (ids t) event] := by
  induction h with
  | start => contradiction
  | @copied db b t' event before commit _ =>
    cases hx
    obtain ⟨hout,hproc,hsame,hfail⟩ := before.of_none rfl
    obtain ⟨-,-,limit,hall⟩ := of_commit_copy commit
    have hb : b = false := by
      cases b with
      | true => have := (hfail rfl).1; omega
      | false => rfl
    have hdb := hsame hb
    subst hdb
    refine ⟨?_,event,hall,rfl⟩
    simp [RetryCall.copyWrites,Write.apply,TxDb.processed,RetryCall.record]
  | failed _ _ _ _ ih => exact ih hx

end History
abbrev TxState (T : Type) := State Res TxDb Write Uuid UniqueKey Bool (Except String Unit) T

section Runs
variable {T : Type} [DecidableEq T] {c : RetryCall} {ids : T → RetryIds} {db₀ : TxDb}
  {aborted : T → Prop} {s s' : TxState T} {t : T}
  {a : Active Res Write Uuid Bool (Except String Unit)}

/-- A run that ends without a write has met an effective one, or would be in vain from the start. -/
def Settled (c : RetryCall) (db₀ : TxDb) (s : TxState T) : Prop :=
  c.Vain db₀ ∨ ∃ e ∈ s.log, e.writes ≠ []

/-- What holds in every reachable state of the runs. -/
structure Retrying (c : RetryCall) (ids : T → RetryIds) (db₀ : TxDb) (aborted : T → Prop)
    (s : TxState T) : Prop where
  exclusive : s.Exclusive
  history : ∃ x b, History c ids db₀ s.db x b ∧
    (x = none → b = false → ∀ e ∈ s.log, e.writes = [])
  untouched : (∀ e ∈ s.log, e.writes = []) → s.db = db₀
  logged : ∀ e ∈ s.log, ∃ o, s.session e.session = .idle (.done o)
  idle : ∀ t p, s.session t = .idle p →
    p = c.recreate (ids t) ∨ ∃ o, p = .done o ∧ (aborted t ∨ Settled c db₀ s)
  active : ∀ t a, s.session t = .active a → a.next = c.afterRecreate ∧
    Stage c (ids t) db₀ s.db (Settled c db₀ s) a.pending a.cur
  owns : ∀ t a, s.session t = .active a → a.pending ≠ [] →
    ∀ r ∈ (db₀.ofIds c.target.ids).map (·.id), s.owns t r

theorem Retrying.map_id (h : Retrying c ids db₀ aborted s) :
    s.db.transactions.map (·.id) = db₀.transactions.map (·.id) := by
  obtain ⟨x,b,hh,-⟩ := h.history
  exact hh.map_id

theorem Retrying.settled_of_vain (h : Retrying c ids db₀ aborted s) (hv : c.Vain s.db) :
    Settled c db₀ s := by
  by_cases hw : ∀ e ∈ s.log, e.writes = []
  · rw [h.untouched hw] at hv
    exact .inl hv
  · simp only [not_forall,exists_prop] at hw
    exact .inr hw

theorem Settled.mono {act : SessionAction Uuid T} (hmoves : Server.Moves server s s' act)
    (h : Settled c db₀ s) : Settled c db₀ s' :=
  h.imp_right (fun ⟨e,he,hw⟩ => ⟨e,hmoves.mem_log he,hw⟩)

/-- Two runs that have written do not exist side by side. -/
theorem Retrying.one_writes (h : Retrying c ids db₀ aborted s) {u : T}
    {b : Active Res Write Uuid Bool (Except String Unit)} (ha : s.session t = .active a)
    (hb : s.session u = .active b) (hne : t ≠ u) (hpa : a.pending ≠ []) (hpb : b.pending ≠ [])
    (hpres : c.target.present db₀) : False := by
  obtain ⟨r,hr⟩ : ∃ r, r ∈ (db₀.ofIds c.target.ids).map (·.id) := by
    refine List.exists_mem_of_ne_nil _ (fun hnil => ?_)
    have hlen := congrArg List.length hnil
    rw [RetryTarget.present,decide_eq_true_eq] at hpres
    rw [List.length_map,List.length_nil] at hlen
    rw [hlen] at hpres
    cases hg : c.target <;> simp [hg,RetryTarget.ids] at hpres
  obtain ⟨m,hm,hx⟩ := State.owns_iff.mp (h.owns t a ha hpa r hr)
  obtain ⟨n,hn,hy⟩ := State.owns_iff.mp (h.owns u b hb hpb r hr)
  have hcf := h.exclusive t u r m n hm hn hne
  rw [RowLock.conflicts_of_exclusive hx hy] at hcf
  contradiction

/-- A step keeps the rows, and all of the database for another run that has written. -/
theorem Retrying.db_frame (h : Retrying c ids db₀ aborted s) {act : SessionAction Uuid T}
    (hmoves : Server.Moves server s s' act) (ht : t ≠ act.session) (ha : s.session t = .active a) :
    s'.db.transactions.map (·.id) = s.db.transactions.map (·.id) ∧
      (a.pending ≠ [] → s'.db = s.db) := by
  cases hmoves with
  | begins _ _ db => rw [db]; simp
  | waits _ _ db => rw [db]; simp
  | answers _ _ _ _ _ _ db => rw [db]; simp
  | fails _ _ _ db => rw [db]; simp
  | @commits b x hb hc _ db =>
    have hfree : b.pending ≠ [] → c.target.present s.db → a.pending ≠ [] → s'.db = s.db := by
      intro hpb hpres hpa
      rw [RetryCall.present_congr h.map_id] at hpres
      exact absurd (h.one_writes ha hb ht hpa hpb hpres) not_false
    rcases (h.active _ b hb).2.of_pure hc with ⟨hp,-⟩ | ⟨event,hp,hcommit⟩ | ⟨hp,-,hpres,-⟩
    · rw [db,Server.view,hp,Engine.applyAll_nil]
      simp
    · refine ⟨?_,hfree (by rw [hp]; simp [RetryCall.copyWrites]) (of_commit_copy hcommit).2.1⟩
      rw [db,Server.view,hp,← map_id_statuses,statuses_copyWrites,map_id_statuses]
    · refine ⟨?_,hfree (by rw [hp]; simp [RetryCall.failWrites]) hpres⟩
      rw [db,Server.view,hp,map_id_failWrites]

/-- A step of another session leaves a run at its stage. -/
theorem Retrying.stage_frame (h : Retrying c ids db₀ aborted s) {act : SessionAction Uuid T}
    (hmoves : Server.Moves server s s' act) (ht : t ≠ act.session) (ha : s.session t = .active a) :
    Stage c (ids t) db₀ s'.db (Settled c db₀ s') a.pending a.cur := by
  have hst := ((h.active t a ha).2).mono (Settled.mono hmoves)
  obtain ⟨hids,hdb⟩ := h.db_frame hmoves ht ha
  by_cases hpa : a.pending = []
  · rw [hpa] at hst ⊢
    exact hst.congr hids
  · rwa [hdb hpa]

/-- What a step adds to the history: nothing, a copy of the event, or a failure of the rows. -/
theorem Retrying.history_cases (h : Retrying c ids db₀ aborted s) {act : SessionAction Uuid T}
    (hmoves : Server.Moves server s s' act) {x : Option T} {b : Bool}
    (hh : History c ids db₀ s.db x b) :
    (s'.db = s.db ∧ ∀ e ∈ s'.log, e ∈ s.log ∨ e.writes = []) ∨
    (x = none ∧ c.target.retryCount s.db+1 < c.maxRetry ∧
      History c ids db₀ s'.db (some act.session) b) ∨
    (∃ a, act = .commit act.session ∧ s.session act.session = .active a ∧ a.pending = c.failWrites ∧
      c.maxRetry ≤ c.target.retryCount s.db+1 ∧ History c ids db₀ s'.db x true) := by
  cases hmoves with
  | begins _ _ db log => rw [log]; exact .inl ⟨db,fun _ => .inl⟩
  | waits _ _ db log => rw [log]; exact .inl ⟨db,fun _ => .inl⟩
  | answers _ _ _ _ _ _ db log => rw [log]; exact .inl ⟨db,fun _ => .inl⟩
  | fails _ _ _ db log => rw [log]; exact .inl ⟨db,fun _ => .inl⟩
  | @commits a y ha hc _ db log commit =>
    rw [db,log,Server.view]
    rcases (h.active _ a ha).2.of_pure hc with ⟨hp,-⟩ | ⟨event,hp,hcommit⟩ | ⟨hp,new,hpres,limit⟩
    · refine .inl ⟨by rw [hp,Engine.applyAll_nil],fun e he => ?_⟩
      rcases List.mem_append.mp he with he | he
      · exact .inl he
      · simp only [List.mem_singleton] at he
        exact .inr (by rw [he,hp])
    · obtain ⟨hnone,-,hlt,-⟩ := of_commit_copy hcommit
      cases x with
      | some t =>
        have hkey := (hh.of_some rfl).1
        simp [hnone] at hkey
      | none => exact .inr (.inl ⟨rfl,hlt,by rw [hp]; exact .copied hh hcommit⟩)
    · exact .inr (.inr ⟨a,commit,ha,hp,limit,by rw [hp]; exact .failed hh new hpres limit⟩)

theorem Retrying.history_next (h : Retrying c ids db₀ aborted s) {act : SessionAction Uuid T}
    (hmoves : Server.Moves server s s' act) : ∃ x b, History c ids db₀ s'.db x b ∧
      (x = none → b = false → ∀ e ∈ s'.log, e.writes = []) := by
  obtain ⟨x,b,hh,hlog⟩ := h.history
  rcases h.history_cases hmoves hh with ⟨hdb,hold⟩ | ⟨-,-,hh'⟩ | ⟨a,-,-,-,-,hh'⟩
  · refine ⟨x,b,by rwa [hdb],fun hx hb e he => ?_⟩
    exact (hold e he).elim (hlog hx hb e) id
  · exact ⟨_,b,hh',by simp⟩
  · exact ⟨x,true,hh',by simp⟩

theorem Retrying.new_of_new (h : Retrying c ids db₀ aborted s)
    (hnew : s.db.processed c.idempotencyKey = none) : db₀.processed c.idempotencyKey = none := by
  obtain ⟨x,b,hh,-⟩ := h.history
  cases x with
  | some t =>
    have hkey := (hh.of_some rfl).1
    simp [hnew] at hkey
  | none =>
    rw [TxDb.processed,← (hh.of_none rfl).2.1]
    exact hnew

theorem Retrying.settled_of_fails (h : Retrying c ids db₀ aborted s) (ha : s.session t = .active a)
    {act : SessionAction Uuid T} {e : String} (hf : Server.Fails server s.db a act e) :
    act.aborts ∨ Settled c db₀ s := by
  have hst := (h.active t a ha).2
  cases hf with
  | statement hc he => exact .inr (h.settled_of_vain (hst.error hc he))
  | thrown hc => exact .inr (hst.of_throw hc)
  | aborted hab => exact .inl hab

theorem Retrying.settled_of_commits (h : Retrying c ids db₀ aborted s) (ha : s.session t = .active a)
    {x : Bool} (hc : a.cur = .pure x) : a.pending ≠ [] ∨ Settled c db₀ s := by
  rcases (h.active t a ha).2.of_pure hc with ⟨-,hset⟩ | ⟨event,hp,-⟩ | ⟨hp,-⟩
  · exact .inr hset
  · exact .inl (by rw [hp]; simp [RetryCall.copyWrites])
  · exact .inl (by rw [hp]; simp [RetryCall.failWrites])

theorem Retrying.next (h : Retrying c ids db₀ aborted s) {act : SessionAction Uuid T}
    (hab : act.aborts → aborted act.session) (hs : server.next s act = some s') :
    Retrying c ids db₀ aborted s' := by
  obtain ⟨hmoves,hframe⟩ := Server.moves_of_next hs
  refine ⟨h.exclusive.next hs,h.history_next hmoves,fun hnil => ?_,fun e he => ?_,fun u p hp => ?_,
    fun u b hb => ?_,fun u b hb hpb r hr => ?_⟩
  · have hold := h.untouched (fun e he => hnil e (hmoves.mem_log he))
    cases hmoves with
    | begins _ _ db => rwa [db]
    | waits _ _ db => rwa [db]
    | answers _ _ _ _ _ _ db => rwa [db]
    | fails _ _ _ db => rwa [db]
    | @commits a x _ _ _ db log =>
      have hp : a.pending = [] := hnil ⟨act.session,a.body,x,a.pending⟩ (by simp [log])
      rw [db,Server.view,hp,Engine.applyAll_nil,hold]
  · have hdone : e ∈ s.log → ∃ o, s'.session e.session = .idle (.done o) := by
      intro he
      obtain ⟨o,ho⟩ := h.logged e he
      by_cases hu : e.session = act.session
      · rw [hu] at ho
        cases hmoves with
        | begins before => simp [before] at ho
        | waits before => simp [before] at ho
        | answers _ before => simp [before] at ho
        | fails before => simp [before] at ho
        | commits before => simp [before] at ho
      · exact ⟨o,by rw [hframe _ hu,ho]⟩
    cases hmoves with
    | begins _ _ _ log => exact hdone (log ▸ he)
    | waits _ _ _ log => exact hdone (log ▸ he)
    | answers _ _ _ _ _ _ _ log => exact hdone (log ▸ he)
    | fails _ _ _ _ log => exact hdone (log ▸ he)
    | commits before _ after _ log =>
      rw [log,List.mem_append,List.mem_singleton] at he
      rcases he with he | rfl
      · exact hdone he
      · rw [(h.active _ _ before).1] at after
        exact ⟨_,after⟩
  · by_cases hu : u = act.session
    · subst hu
      cases hmoves with
      | begins _ after => simp [after] at hp
      | waits _ after => simp [after] at hp
      | answers _ _ _ _ _ after => simp [after] at hp
      | @commits a x before cur after db log commit =>
        rw [after,(h.active _ a before).1] at hp
        cases hp
        refine .inr ⟨_,rfl,.inr ?_⟩
        rcases h.settled_of_commits before cur with hw | hset
        · exact .inr ⟨⟨act.session,a.body,x,a.pending⟩,by simp [log],hw⟩
        · exact Settled.mono (.commits before cur after db log commit) hset
      | @fails a e before why after db log =>
        rw [after,(h.active _ a before).1] at hp
        cases hp
        refine .inr ⟨_,rfl,(h.settled_of_fails before why).imp hab (fun hset => ?_)⟩
        exact Settled.mono (.fails before why after db log) hset
    · rw [hframe u hu] at hp
      rcases h.idle u p hp with hp | ⟨o,hp,hend⟩
      · exact .inl hp
      · exact .inr ⟨o,hp,hend.imp_right (Settled.mono hmoves)⟩
  · by_cases hu : u = act.session
    · subst hu
      cases hmoves with
      | begins before after db log =>
        rw [after] at hb
        cases hb
        rcases h.idle _ _ before with hp | ⟨o,hp,-⟩
        · cases hp
          exact ⟨rfl,.check⟩
        · contradiction
      | @waits a plan before after db log =>
        rw [after] at hb
        cases hb
        rw [db]
        exact ⟨(h.active _ a before).1,
          ((h.active _ a before).2).mono (Settled.mono (.waits before after db log))⟩
      | @answers a st k r ws exec before cur answer rows after db log =>
        rw [after] at hb
        cases hb
        rw [db]
        refine ⟨(h.active _ a before).1,?_⟩
        have hst := (h.active _ a before).2.answer cur answer h.settled_of_vain h.new_of_new
        exact hst.mono (Settled.mono (.answers exec before cur answer rows after db log))
      | commits _ _ after => simp [after] at hb
      | fails _ _ after => simp [after] at hb
    · rw [hframe u hu] at hb
      exact ⟨(h.active u b hb).1,h.stage_frame hmoves hu hb⟩
  · by_cases hu : u = act.session
    · subst hu
      have hb' := hb
      cases hmoves with
      | begins before after db log =>
        rw [after] at hb
        cases hb
        exact absurd rfl hpb
      | @waits a plan before after =>
        rw [after] at hb
        cases hb
        exact State.owns_of_next hs (h.owns _ a before hpb r hr) (.inr ⟨_,hb'⟩)
      | @answers a st k x ws exec before cur answer rows after =>
        rw [after] at hb
        cases hb
        by_cases hp : a.pending = []
        · have hst := (h.active _ a before).2
          have hws : ws ≠ [] := by simpa [hp] using hpb
          rw [Server.view,hp,Engine.applyAll_nil] at answer rows
          rw [hp] at hst
          refine rows r ?_
          rw [server_reads,rows_of_update (hst.update_of_writes cur answer hws) cur,
            RetryCall.map_id_ofIds_congr h.map_id]
          exact hr
        · exact State.owns_of_next hs (h.owns _ a before hp r hr) (.inr ⟨_,hb'⟩)
      | commits _ _ after => simp [after] at hb
      | fails _ _ after => simp [after] at hb
    · rw [hframe u hu] at hb
      exact State.owns_of_next hs (h.owns u b hb hpb r hr) (.inl hu)

theorem Retrying.initial : Retrying c ids db₀ aborted
    (Server.initial db₀ (fun t => c.recreate (ids t))) where
  exclusive _ _ _ _ _ h := by simp [Server.initial] at h
  history := ⟨none,false,.start,fun _ _ e he => by simp [Server.initial] at he⟩
  untouched _ := rfl
  logged e he := by simp [Server.initial] at he
  idle t p hp := by
    cases hp
    exact .inl rfl
  active t a h := by contradiction
  owns t a h := by contradiction

/-- The run raises the retry count to the limit although another one has recorded the message. -/
def Late (c : RetryCall) (ids : T → RetryIds) (s : TxState T) : SessionAction Uuid T → Prop
  | .exec t => (∃ a, s.session t = .active a ∧ a.cur = c.retryUpdate (ids t)) ∧
      (s.db.processed c.idempotencyKey).isSome ∧ c.maxRetry ≤ c.target.retryCount s.db+1
  | _ => False

/-- No run has failed the rows after the event was copied, nor will one that is not aborted. -/
structure InTime (c : RetryCall) (ids : T → RetryIds) (db₀ : TxDb) (aborted : T → Prop)
    (s : TxState T) : Prop where
  retrying : Retrying c ids db₀ aborted s
  history : ∃ x b, History c ids db₀ s.db x b ∧
    (x = none → b = false → ∀ e ∈ s.log, e.writes = []) ∧ (x = none ∨ b = false)
  active : ∀ t a, s.session t = .active a → ¬aborted t → a.pending ≠ [] →
    (s.db.processed c.idempotencyKey).isSome → c.target.retryCount s.db+1 < c.maxRetry

theorem InTime.next (h : InTime c ids db₀ aborted s) {act : SessionAction Uuid T}
    (hab : act.aborts → aborted act.session) (hcommit : ∀ t, act = .commit t → ¬aborted t)
    (hlate : ¬aborted act.session → ¬Late c ids s act) (hs : server.next s act = some s') :
    InTime c ids db₀ aborted s' := by
  obtain ⟨hmoves,hframe⟩ := Server.moves_of_next hs
  obtain ⟨x,b,hh,hlog,hxb⟩ := h.history
  refine ⟨h.retrying.next hab hs,?_,fun u d hd hu hpd hkey => ?_⟩
  · rcases h.retrying.history_cases hmoves hh with ⟨hdb,hold⟩ | ⟨rfl,hlt,hh'⟩ |
      ⟨a,hact,ha,hp,hlim,hh'⟩
    · refine ⟨x,b,by rwa [hdb],fun hx hb e he => ?_,hxb⟩
      exact (hold e he).elim (hlog hx hb e) id
    · refine ⟨_,b,hh',by simp,.inr ?_⟩
      cases b with
      | false => rfl
      | true =>
        have := ((hh.of_none rfl).2.2.2 rfl).1
        omega
    · refine ⟨x,true,hh',by simp,.inl ?_⟩
      cases x with
      | none => rfl
      | some t =>
        have hlt := h.active _ a ha (hcommit _ hact) (by rw [hp]; simp [RetryCall.failWrites])
          (hh.of_some rfl).1
        omega
  · by_cases hne : u = act.session
    · subst hne
      cases hmoves with
      | begins before after =>
        rw [after] at hd
        cases hd
        exact absurd rfl hpd
      | @waits a plan before after db =>
        rw [after] at hd
        cases hd
        rw [db] at hkey ⊢
        exact h.active _ a before hu hpd hkey
      | @answers a st k r ws exec before cur answer rows after db =>
        rw [after] at hd
        cases hd
        rw [db] at hkey ⊢
        by_cases hp : a.pending = []
        · have hst := (h.retrying.active _ a before).2
          have hws : ws ≠ [] := by simpa [hp] using hpd
          rw [Server.view,hp,Engine.applyAll_nil] at answer
          rw [hp] at hst
          by_contra hlim
          refine hlate hu ?_
          rw [exec]
          exact ⟨⟨a,before,hst.update_of_writes cur answer hws⟩,hkey,by omega⟩
        · exact h.active _ a before hu hp hkey
      | commits _ _ after => simp [after] at hd
      | fails _ _ after => simp [after] at hd
    · rw [hframe u hne] at hd
      have hdb := (h.retrying.db_frame hmoves hne hd).2 hpd
      rw [hdb] at hkey ⊢
      exact h.active u d hd hu hpd hkey

/-- Rows have failed after the event was copied, or a run that is not aborted will fail them. -/
def Overdue (c : RetryCall) (ids : T → RetryIds) (db₀ : TxDb) (aborted : T → Prop)
    (s : TxState T) : Prop :=
  (∃ y, History c ids db₀ s.db (some y) true) ∨
  ∃ t a, ¬aborted t ∧ s.session t = .active a ∧ (s.db.processed c.idempotencyKey).isSome ∧
    c.target.present s.db ∧ ((a.pending = [.addRetryCount c.target.ids] ∧ a.cur = c.retryExhausted) ∨
      (a.pending = c.failWrites ∧ a.cur = .pure true))

theorem Overdue.enter (h : Retrying c ids db₀ aborted s) {act : SessionAction Uuid T}
    (hs : server.next s act = some s') (hspared : ¬aborted act.session) (hlate : Late c ids s act) :
    Overdue c ids db₀ aborted s' := by
  cases act with
  | exec t =>
    obtain ⟨⟨a,ha,hc⟩,hkey,hlim⟩ := hlate
    obtain ⟨a',st,k,ha',hc',-,-,-,hend⟩ := Server.next_exec hs
    rw [ha] at ha'
    cases ha'
    obtain ⟨hp,hpres⟩ := (h.active t a ha).2.of_update hc
    rw [Server.view,hp,Engine.applyAll_nil] at hend
    obtain ⟨st',k',hup,hupdate⟩ := c.retryUpdate_exec (ids t)
    rw [hc,hup] at hc'
    cases hc'
    obtain ⟨r,hr,hk⟩ := (hupdate s.db).2 hpres
    rcases hend with ⟨r',ws,he,rfl⟩ | ⟨e,he,-⟩
    · rw [server_exec,hr] at he
      cases he
      refine .inr ⟨t,_,hspared,State.setActive_self ..,hkey,hpres,.inl ⟨by simp,?_⟩⟩
      rw [hk,RetryCall.retryUpdated,if_neg (by omega)]
    · rw [server_exec,hr] at he
      contradiction
  | _ => exact absurd hlate not_false

theorem Overdue.next (h : Retrying c ids db₀ aborted s) (ho : Overdue c ids db₀ aborted s)
    {act : SessionAction Uuid T} (hab : act.aborts → aborted act.session)
    (hs : server.next s act = some s') : Overdue c ids db₀ aborted s' := by
  obtain ⟨hmoves,hframe⟩ := Server.moves_of_next hs
  rcases ho with ⟨y,hh⟩ | ⟨t,a,hspared,ha,hkey,hpres,hstage⟩
  · left
    rcases h.history_cases hmoves hh with ⟨hdb,-⟩ | ⟨hx,-⟩ | ⟨a,-,-,-,-,hh'⟩
    · exact ⟨y,by rwa [hdb]⟩
    · contradiction
    · exact ⟨y,hh'⟩
  · by_cases hu : t = act.session
    · subst hu
      obtain ⟨st',k',hc',hex⟩ := c.retryExhausted_exec
      have hids : (server.applyAll s.db [.addRetryCount c.target.ids]).transactions.map (·.id) =
          s.db.transactions.map (·.id) :=
        RetryCall.map_id_apply (w := .addRetryCount c.target.ids) (by simp)
      obtain ⟨r',hr,hk⟩ := hex _ (by rwa [RetryCall.present_congr hids])
      cases hmoves with
      | begins before => simp [before] at ha
      | waits before after db =>
        rw [before] at ha
        cases ha
        exact .inr ⟨_,_,hspared,after,by rwa [db],by rwa [db],hstage⟩
      | answers _ before cur answer _ after db =>
        rw [before] at ha
        cases ha
        refine .inr ⟨_,_,hspared,after,by rwa [db],by rwa [db],.inr ?_⟩
        rcases hstage with ⟨hp,hcur⟩ | ⟨-,hcur⟩
        · rw [hcur,hc'] at cur
          cases cur
          rw [Server.view,hp,server_exec,hr] at answer
          cases answer
          exact ⟨by simp [hp,RetryCall.failWrites],hk⟩
        · rw [hcur] at cur
          contradiction
      | commits before cur _ db =>
        rw [before] at ha
        cases ha
        rcases hstage with ⟨-,hcur⟩ | ⟨hp,-⟩
        · rw [hcur,hc'] at cur
          contradiction
        · rw [Overdue,db,Server.view,hp]
          obtain ⟨x,b,hh,-⟩ := h.history
          rcases (h.active _ a before).2.of_pure cur with ⟨hp',-⟩ | ⟨event,hp',-⟩ |
            ⟨-,new,hpres,limit⟩
          · simp [hp',RetryCall.failWrites] at hp
          · simp [hp',RetryCall.copyWrites,RetryCall.failWrites] at hp
          · cases x with
            | some y => exact .inl ⟨y,.failed hh new hpres limit⟩
            | none =>
              have hsame : s.db.processed c.idempotencyKey = db₀.processed c.idempotencyKey := by
                rw [TxDb.processed,(hh.of_none rfl).2.1]
                rfl
              simp [hsame,new] at hkey
      | fails before why =>
        rw [before] at ha
        cases ha
        cases why with
        | statement cur error =>
          rcases hstage with ⟨hp,hcur⟩ | ⟨-,hcur⟩
          · rw [hcur,hc'] at cur
            cases cur
            rw [Server.view,hp,server_exec,hr] at error
            contradiction
          · rw [hcur] at cur
            contradiction
        | thrown cur =>
          rcases hstage with ⟨-,hcur⟩ | ⟨-,hcur⟩
          · rw [hcur,hc'] at cur
            contradiction
          · rw [hcur] at cur
            contradiction
        | aborted abort => exact absurd (hab abort) hspared
    · have hpa : a.pending ≠ [] := by
        rcases hstage with ⟨hp,-⟩ | ⟨hp,-⟩ <;> simp [hp,RetryCall.failWrites]
      have hdb := (h.db_frame hmoves hu ha).2 hpa
      exact .inr ⟨t,a,hspared,by rw [hframe t hu,ha],by rwa [hdb],by rwa [hdb],hstage⟩

/-- After its transaction has ended a session makes no step. -/
theorem session_ne_of_ended {act : SessionAction Uuid T} {as bs : List (SessionAction Uuid T)}
    (hs : Transition.runs server.next (Server.initial db₀ (fun t => c.recreate (ids t)))
      (as++act::bs) = some s) (hend : act = .abort t ∨ act = .commit t) :
    ∀ b ∈ bs, b.session ≠ t := by
  obtain ⟨s₁,h₁,h₂⟩ := Transition.runs_append.mp hs
  obtain ⟨s₂,hn,hbs⟩ := Transition.runs_cons.mp h₂
  have hr : Retrying c ids db₀ (fun _ => True) s₁ := Transition.runs_invariant'
    (I := Retrying c ids db₀ (fun _ => True)) (fun _ _ _ hi hn => hi.next (fun _ => trivial) hn)
    .initial h₁
  have hdone : ∃ o, s₂.session t = .idle (.done o) := by
    rcases hend with rfl | rfl
    · obtain ⟨a,ha,rfl⟩ := Server.next_abort hn
      rw [State.finish_self,(hr.active t a ha).1]
      exact ⟨_,rfl⟩
    · obtain ⟨a,x,ha,-,rfl⟩ := Server.next_commit hn
      rw [State.finish_self,(hr.active t a ha).1]
      exact ⟨_,rfl⟩
  obtain ⟨o,ho⟩ := hdone
  exact Server.session_ne_of_done ho hbs

/-- A run that commits is not aborted. -/
theorem abort_not_mem_of_commit_mem {schedule : List (SessionAction Uuid T)}
    (hs : Transition.runs server.next (Server.initial db₀ (fun t => c.recreate (ids t))) schedule =
      some s) (hc : .commit t ∈ schedule) : .abort t ∉ schedule := by
  intro ha
  obtain ⟨as,bs,rfl⟩ := List.append_of_mem hc
  rcases List.mem_append.mp ha with ha | ha
  · obtain ⟨ps,qs,rfl⟩ := List.append_of_mem ha
    rw [List.append_assoc,List.cons_append] at hs
    exact session_ne_of_ended hs (.inl rfl) (.commit t) (by simp) rfl
  · rcases List.mem_cons.mp ha with ha | ha
    · contradiction
    · exact session_ne_of_ended hs (.inr rfl) _ ha rfl

/-- The statuses and the outbox are those after a run that meets no other. -/
def SameAsOnce (c : RetryCall) (ids : T → RetryIds) (db₀ db : TxDb) : Prop :=
  ∃ t, db.statuses = (server.after none (c.body (ids t)) db₀).statuses ∧
    db.outboxEvents = (server.after none (c.body (ids t)) db₀).outboxEvents

omit [DecidableEq T] in
theorem History.sameAsOnce_iff {db : TxDb} {x : Option T} {b : Bool} (h : History c ids db₀ db x b)
    (t : T) (hv : x = none → b = false → c.Vain db₀) : SameAsOnce c ids db₀ db ↔
      x = none ∨ b = false ∨ failStatuses c.target.ids db₀.statuses = db₀.statuses := by
  cases x with
  | none =>
    obtain ⟨hout,-,hsame,hfail⟩ := h.of_none rfl
    refine ⟨fun _ => .inl rfl,fun _ => ⟨t,?_⟩⟩
    cases b with
    | false => rw [hsame rfl,RetryCall.after_body,hv rfl rfl (ids t)]; exact ⟨rfl,rfl⟩
    | true =>
      rw [RetryCall.after_body,(hfail rfl).2,Option.getD_some,statuses_failWrites,h.statuses]
      exact ⟨rfl,hout⟩
  | some y =>
    obtain ⟨-,event,hcommit,hout⟩ := h.of_some rfl
    have hafter : ∀ u, (server.after none (c.body (ids u)) db₀).statuses = db₀.statuses := by
      intro u
      rw [RetryCall.after_body,hcommit,Option.getD_some,statuses_copyWrites]
    constructor
    · rintro ⟨u,hst,-⟩
      rw [hafter,h.statuses] at hst
      cases b with
      | false => exact .inr (.inl rfl)
      | true => exact .inr (.inr hst)
    · intro hb
      refine ⟨y,?_,?_⟩
      · rw [hafter,h.statuses]
        rcases hb with hb | hb | hb
        · contradiction
        · simp [hb]
        · rw [hb,ite_self]
      · rw [hout,RetryCall.after_body,hcommit]
        rfl

end Runs

theorem failStatuses_eq_iff {ids : List Uuid} {db : TxDb} :
    failStatuses ids db.statuses = db.statuses ↔ ∀ t ∈ db.ofIds ids, t.status = .failed := by
  have hmem : ∀ t, t ∈ db.ofIds ids ↔ t ∈ db.transactions ∧ ids.contains t.id := by
    simp [TxDb.ofIds]
  rw [failStatuses,TxDb.statuses,List.map_map]
  constructor
  · intro h t ht
    obtain ⟨ht,hid⟩ := (hmem t).mp ht
    have heq := (List.map_inj_left.mp h) t ht
    simp only [Function.comp_apply,hid,if_true,Prod.mk.injEq] at heq
    exact heq.2.symm
  · intro h
    refine List.map_congr_left (fun t ht => ?_)
    simp only [Function.comp_apply]
    split
    · rename_i hid
      rw [h t ((hmem t).mpr ⟨ht,hid⟩)]
    · rfl

/-- However the runs for one failure message interleave, the statuses and the outbox rows are those
of a single run if and only if the rows had failed before, or no run that is not aborted raises the
retry count to the limit after the message has been recorded. -/
theorem retry_duplicates_idempotent_iff {T : Type} [DecidableEq T] (c : RetryCall)
    (ids : T → RetryIds) (db₀ : TxDb) (schedule : List (SessionAction Uuid T)) (s : TxState T)
    (hs : Transition.runs server.next (Server.initial db₀ (fun t => c.recreate (ids t))) schedule =
      some s) (hdone : ∀ t, ∃ o, s.session t = .idle (.done o)) (hn : ∃ t, .abort t ∉ schedule) :
    SameAsOnce c ids db₀ s.db ↔
      (∀ t ∈ db₀.ofIds c.target.ids, t.status = .failed) ∨
      Transition.Along server.next (fun s act => .abort act.session ∉ schedule → ¬Late c ids s act)
        (Server.initial db₀ (fun t => c.recreate (ids t))) schedule := by
  let aborted : T → Prop := fun t => .abort t ∈ schedule
  have habort : ∀ act ∈ schedule, act.aborts → aborted act.session := by
    intro act hact hab
    cases act with
    | abort t => exact hact
    | _ => contradiction
  have hcommit : ∀ act ∈ schedule, ∀ t, act = .commit t → ¬aborted t := by
    rintro _ hact t rfl
    exact abort_not_mem_of_commit_mem hs hact
  have henv : Transition.Along server.next (fun _ act => act.aborts → aborted act.session)
      (Server.initial db₀ (fun t => c.recreate (ids t)) : TxState T) schedule :=
    .of_forall (fun act hact _ => habort act hact) _
  have hr : Retrying c ids db₀ aborted s := Transition.runs_invariant
    (I := Retrying c ids db₀ aborted) (fun _ _ _ hi hab hn => hi.next hab hn) .initial henv hs
  obtain ⟨t,ht⟩ := hn
  have hsettled : Settled c db₀ s := by
    obtain ⟨o,ho⟩ := hdone t
    rcases hr.idle t _ ho with hp | ⟨_,-,hab | hset⟩
    · cases hp
    · exact absurd hab ht
    · exact hset
  have hvain : ∀ (x : Option T) b, (x = none → b = false → ∀ e ∈ s.log, e.writes = []) →
      x = none → b = false → c.Vain db₀ := by
    intro x b hlog hx hb
    exact hsettled.resolve_right (fun ⟨e,he,hw⟩ => hw (hlog hx hb e he))
  rw [← failStatuses_eq_iff]
  constructor
  · intro hsame
    refine or_iff_not_imp_left.mpr (fun hfail => ?_)
    have henter : ∀ s act s', Retrying c ids db₀ aborted s → (act.aborts → aborted act.session) →
        server.next s act = some s' → ¬(.abort act.session ∉ schedule → ¬Late c ids s act) →
        Overdue c ids db₀ aborted s' := by
      intro s act s' hi _ hn hbad
      obtain ⟨hspared,hlate⟩ := Classical.not_imp.mp hbad
      exact .enter hi hn hspared (not_not.mp hlate)
    refine Transition.Along.of_not_trap (I := Retrying c ids db₀ aborted)
      (fun _ _ _ hi hab hn => hi.next hab hn) henter
      (fun _ _ _ hi hab hn ho => ho.next hi hab hn) .initial henv hs ?_
    rintro (⟨y,hh⟩ | ⟨u,a,-,ha,-⟩)
    · rcases (hh.sameAsOnce_iff t (by simp)).mp hsame with hx | hb | heq
      · contradiction
      · contradiction
      · exact hfail heq
    · obtain ⟨o,ho⟩ := hdone u
      simp [ho] at ha
  · rintro (hfail | halong)
    · obtain ⟨x,b,hh,hlog⟩ := hr.history
      exact (hh.sameAsOnce_iff t (hvain x b hlog)).mpr (.inr (.inr hfail))
    · have hcommits : Transition.Along server.next (fun _ act => ∀ t, act = .commit t → ¬aborted t)
          (Server.initial db₀ (fun t => c.recreate (ids t)) : TxState T) schedule :=
        .of_forall (fun act hact _ => hcommit act hact) _
      have h0 : InTime c ids db₀ aborted (Server.initial db₀ (fun t => c.recreate (ids t))) :=
        ⟨.initial,⟨none,false,.start,fun _ _ e he => by simp [Server.initial] at he,.inl rfl⟩,
          fun _ _ h => by contradiction⟩
      have hend : InTime c ids db₀ aborted s := Transition.runs_invariant
        (I := InTime c ids db₀ aborted) (fun _ _ _ hi hg hn => hi.next hg.1.1 hg.1.2 hg.2 hn) h0
        ((henv.and hcommits).and halong) hs
      obtain ⟨x,b,hh,hlog,hxb⟩ := hend.history
      exact (hh.sameAsOnce_iff t (hvain x b hlog)).mpr (hxb.imp_right .inl)

/-- Two runs pass the duplicate check. The second one fails on the unique key, as the limit is far. -/
theorem retry_duplicates_idempotent_iff_below_limit :
    let c : RetryCall := ⟨.deposit 1,7,5,9,.depositCreditingFailed⟩
    let ids : Bool → RetryIds := fun t => bif t then ⟨61,62⟩ else ⟨71,72⟩
    let db₀ : TxDb := ⟨[⟨1,10,100,"RUB",.deposit,.completed,"k",0,none,none,some "p",none⟩],
      [⟨5,1,.depositPaidSuccess,some (.depositPaid ⟨5,1,10,"RUB","100"⟩),true⟩],[]⟩
    let schedule : List (SessionAction Uuid Bool) :=
      [.begin true,.begin false,.start true [],.exec true,.start false [],.exec false,
        .start true [],.exec true,.start false [],.exec false,
        .start true [(1,.noKeyUpdate)],.lock true,.exec true,.start true [],.exec true,
        .start true [(1,.keyShare)],.lock true,.exec true,.start true [],.exec true,.commit true,
        .start false [(1,.noKeyUpdate)],.lock false,.exec false,.start false [],.exec false,
        .start false [(1,.keyShare)],.lock false,.exec false,.start false [],.exec false]
    (∀ t ∈ db₀.ofIds c.target.ids, t.status = .failed) ∨
      Transition.Along server.next (fun s act => .abort act.session ∉ schedule → ¬Late c ids s act)
        (Server.initial db₀ (fun t => c.recreate (ids t))) schedule := by
  intro c ids db₀ schedule
  refine (retry_duplicates_idempotent_iff c ids db₀ schedule _ rfl ?_ ⟨true,by decide⟩).mp
    ⟨true,by decide,by decide⟩
  rintro (_ | _)
  · exact Session.finished_iff.mp rfl
  · exact Session.finished_iff.mp rfl

/-- Two runs for one failure message, with one retry left. The first copies the event, the second
finds the count at the limit and fails the transaction, while the copy is still to be published. -/
theorem duplicate_fails_retried_transaction :
    ∃ (schedule : List (SessionAction Uuid Bool)) (s : TxState Bool),
      (∀ a ∈ schedule, a.aborts = false) ∧
      Transition.runs server.next (Server.initial
        ⟨[⟨1,10,100,"RUB",.deposit,.completed,"k",0,none,none,some "p",none⟩],
          [⟨5,1,.depositPaidSuccess,some (.depositPaid ⟨5,1,10,"RUB","100"⟩),true⟩],[]⟩
        (fun t => RetryCall.recreate ⟨.deposit 1,7,5,2,.depositCreditingFailed⟩
          (bif t then ⟨61,62⟩ else ⟨71,72⟩))) schedule = some s ∧
      (∀ t, ∃ o, s.session t = .idle (.done o)) ∧
      s.db.statuses = [(1,.failed)] ∧
      s.db.outboxEvents.map (fun e => (e.id,e.processed)) = [(5,true),(61,false)] ∧
      ∀ ids : RetryIds, (server.after none
        (RetryCall.body ⟨.deposit 1,7,5,2,.depositCreditingFailed⟩ ids)
        ⟨[⟨1,10,100,"RUB",.deposit,.completed,"k",0,none,none,some "p",none⟩],
          [⟨5,1,.depositPaidSuccess,some (.depositPaid ⟨5,1,10,"RUB","100"⟩),true⟩],[]⟩).statuses =
        [(1,.completed)] := by
  let schedule : List (SessionAction Uuid Bool) :=
    [.begin true,.begin false,.start true [],.exec true,.start false [],.exec false,
      .start true [],.exec true,.start false [],.exec false,
      .start true [(1,.noKeyUpdate)],.lock true,.exec true,.start true [],.exec true,
      .start true [(1,.keyShare)],.lock true,.exec true,.start true [],.exec true,.commit true,
      .start false [(1,.noKeyUpdate)],.lock false,.exec false,
      .start false [(1,.noKeyUpdate)],.lock false,.exec false,.commit false]
  refine ⟨schedule,_,by decide,rfl,?_,by decide,by decide,fun ids => rfl⟩
  rintro (_ | _)
  · exact Session.finished_iff.mp rfl
  · exact Session.finished_iff.mp rfl

end NestHomework.TransactionService
