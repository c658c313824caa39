import NestHomework.UserService.Redelivery
import NestHomework.UserService.Delivery

/-! Runs of one transfer message beside each other. The duplicate check comes before the locks, so
two runs may both find the message unrecorded; the second of them then fails on the unique key, and
its `catch` block reports a failure. -/
namespace NestHomework.UserService
open Contracts Postgres Shared

/-- No run makes its duplicate check while another run that found the message unrecorded has not
ended. -/
def ChecksApart {T : Type} (key : Uuid) (s : UserState T) : SessionAction Uuid T → Prop
  | .exec t => (∃ a k, s.session t = .active a ∧ a.cur = .exec (.findUniqueProcessedEvent key) k) →
      ∀ u, u ≠ t → ¬InFlight key s u
  | _ => True

def oneMessage (T : Type) (m : BalanceMessage) (key : Uuid) : T → BalanceMessage × Option Uuid :=
  fun _ => (m,some key)

section Handling
variable {T : Type} [DecidableEq T] {ids : T → RunIds} {db₀ : UserDb} {s s' : UserState T} {t : T}
  {a : Active Res Write Uuid Unit Outcome} {m : BalanceMessage} {key : Uuid} {amount : ℤ}

def InTransaction (ids : T → RunIds) (m : BalanceMessage) (key : Uuid) (amount : ℤ) (t : T)
    (a : Active Res Write Uuid Unit Outcome) : Prop :=
  (a.body = (m.call key amount (ids t)).body ∧ a.next = m.afterCall amount (ids t)) ∨
  (a.body = (m.failure (ids t)).body ∧ a.next = BalanceMessage.afterFailure)

/-- Where the runs of the message are in their handlers, and what they have reported. -/
structure Handling (ids : T → RunIds) (db₀ : UserDb) (m : BalanceMessage) (key : Uuid)
    (amount : ℤ) (s : UserState T) : Prop where
  sound : Sound db₀ (oneMessage T m key) ids s
  idle : ∀ t p, s.session t = .idle p →
    p = .transaction (m.call key amount (ids t)).body (m.afterCall amount (ids t)) ∨
    p = .done (.notified (m.notification amount)) ∨ p = m.catchBlock (ids t) ∨
    (p = .done .failed ∧ ∃ c ∈ s.log, Emits m.failedTopic c.writes)
  active : ∀ t a, s.session t = .active a → InTransaction ids m key amount t a

/-- The transaction of the failure event asks for no key. -/
theorem Handling.seen_failure (h : Handling ids db₀ m key amount s) (ha : s.session t = .active a)
    (hb : a.body = (m.failure (ids t)).body) :
    a.answered.flatMap (fun x => x.1.absent x.2) = [] := by
  have hpath := (h.sound.follows.active t a ha).2
  rw [hb] at hpath
  have hall := (hpath.every (m.failure_within (ids t))).2
  refine List.eq_nil_iff_forall_not_mem.mpr (fun k hk => ?_)
  obtain ⟨x,hx,hkx⟩ := List.mem_flatMap.mp hk
  simpa using (hall x hx).2 k (Stmt.absent_keys hkx)

theorem Handling.call_of_inFlight (h : Handling ids db₀ m key amount s)
    (ha : s.session t = .active a) (hk : key ∈ a.answered.flatMap (fun x => x.1.absent x.2)) :
    a.body = (m.call key amount (ids t)).body ∧ a.next = m.afterCall amount (ids t) := by
  refine (h.active t a ha).resolve_right (fun hb => ?_)
  rw [h.seen_failure ha hb.1] at hk
  contradiction

theorem Handling.payer (h : Handling ids db₀ m key amount s)
    (hs : (db₀.balanceOf m.payer m.currency).isSome) :
    (s.db.balanceOf m.payer m.currency).isSome := by
  have hlater := h.sound.discipline.later.balanceOf_id m.payer m.currency
  rw [← Option.isSome_map (f := (·.id)),hlater,Option.isSome_map]
  exact hs

theorem Handling.failure_runs (h : Handling ids db₀ m key amount s) (hw : db₀.WellFormed)
    (hs : (db₀.balanceOf m.payer m.currency).isSome) (ha : s.session t = .active a)
    (hb : a.body = (m.failure (ids t)).body) :
    (∀ k ∈ (lawful true).seen a, ¬(lawful true).hasKey s.db k) ∧
      ∃ ws, Emits m.failedTopic ws ∧ (server true).run none a.body s.db = .ok ((),ws) := by
  have hseen : (lawful true).seen a = [] := h.seen_failure ha hb
  have hpayer := h.payer hs
  refine ⟨by simp [hseen],m.resultEvent (ids t).failedId m.failedTopic s.db,?_,?_⟩
  · rw [emits_resultEvent]
    exact ⟨rfl,hpayer⟩
  · rw [hb]
    exact m.failure_run (h.sound.wellFormed hw) (ids t) hpayer

theorem Handling.initial (ha : m.amount = some amount) :
    Handling ids db₀ m key amount (Server.initial db₀ (handlers (oneMessage T m key) ids)) where
  sound := .initial
  idle t p hp := by
    cases hp
    exact .inl (handlers_eq (fun _ _ => rfl) ha rfl)
  active t a h := by contradiction

theorem hasKey_mono {act : SessionAction Uuid T} (hmoves : Server.Moves (server true) s s' act)
    (hk : s.db.hasKey key) : s'.db.hasKey key := by
  obtain ⟨ws,hdb⟩ := hmoves.exists_writes
  rw [hdb]
  exact ((lawful true).hasKey_applyAll s.db ws key).mpr (.inl hk)

/-- A run that will report a failure, or has done so. -/
def Failing (ids : T → RunIds) (m : BalanceMessage) (key : Uuid) (s : UserState T) (t : T) : Prop :=
  (InFlight key s t ∧ s.db.hasKey key) ∨
  (∃ a, s.session t = .active a ∧ a.next = BalanceMessage.afterFailure) ∨
  s.session t = .idle (m.catchBlock (ids t)) ∨ s.session t = .idle (.done .failed)

/-- Two runs have passed the duplicate check, or one has to report a failure. -/
def Spoiled (ids : T → RunIds) (m : BalanceMessage) (key : Uuid) (s : UserState T) : Prop :=
  (∃ t u, t ≠ u ∧ InFlight key s t ∧ InFlight key s u) ∨ ∃ t, Failing ids m key s t

/-- The commit of a run that was told that the message is unrecorded records it. -/
theorem Handling.records (h : Handling ids db₀ m key amount s) (hw : db₀.WellFormed)
    (ha : s.session t = .active a) (hk : key ∈ a.answered.flatMap (fun x => x.1.absent x.2))
    {x : Unit} (hc : a.cur = .pure x) : ((server true).view s.db a).hasKey key := by
  have hp := h.sound.twoPhase.active t a ha
  have hrun := hp.run_pure h.sound.twoPhase hc
  have hnew : ¬s.db.hasKey key := (hp.seen_missing h.sound.twoPhase hc key hk).2
  have hnone : s.db.processed key = none := Option.not_isSome_iff_eq_none.mp hnew
  have hwdb := h.sound.wellFormed hw
  rw [(h.call_of_inFlight ha hk).1] at hrun
  by_cases hpay : m.payable amount s.db
  · rw [m.call_run_payable hwdb key amount (ids t) hnone hpay] at hrun
    simp only [Except.ok.injEq,Prod.mk.injEq] at hrun
    rw [hasKey_iff_recordsOf,Server.view,← hrun.2,recordsOf_writes]
    simp
  · obtain ⟨e,he⟩ := m.call_run_refused hwdb key amount (ids t) hnone hpay
    rw [he] at hrun
    contradiction

variable (hw : db₀.WellFormed) (hpayer : (db₀.balanceOf m.payer m.currency).isSome)
include hw hpayer

/-- When a transaction ends without a commit it was the money transaction. -/
theorem Handling.next_of_fails (h : Handling ids db₀ m key amount s) (ha : s.session t = .active a)
    {act : SessionAction Uuid T} (hq : Quiet (fun _ => True) s act) {e : String}
    (hf : Server.Fails (server true) s.db a act e) : a.next (.error e) = m.catchBlock (ids t) := by
  rcases h.active t a ha with ⟨-,hn⟩ | ⟨hb,-⟩
  · rw [hn]
    rfl
  · obtain ⟨hseen,ws,-,hrun⟩ := h.failure_runs hw hpayer ha hb
    have hp := h.sound.twoPhase.active t a ha
    cases hf with
    | statement hc he => exact absurd he (hp.not_error hseen hrun hc)
    | thrown hc => exact absurd hc (hp.not_throw hseen hrun)
    | aborted hab =>
      cases act with
      | abort u => exact absurd (hq trivial) (h.sound.discipline.not_deadlocked u)
      | _ => contradiction

theorem Handling.next (h : Handling ids db₀ m key amount s) {act : SessionAction Uuid T}
    (hq : Quiet (fun _ => True) s act) (hs : (server true).next s act = some s') :
    Handling ids db₀ m key amount s' := by
  obtain ⟨hmoves,hframe⟩ := Server.moves_of_next hs
  refine ⟨h.sound.next hw hs,fun u p hp => ?_,fun u b hb => ?_⟩
  · by_cases hu : u = act.session
    · subst hu
      cases hmoves with
      | begins _ after => simp [after] at hp
      | waits _ after => simp [after] at hp
      | answers _ _ _ _ _ after => simp [after] at hp
      | @commits a x ha hc after _ log =>
        rw [after] at hp
        cases hp
        rcases h.active _ a ha with ⟨-,hn⟩ | ⟨hb,hn⟩
        · rw [hn]
          exact .inr (.inl rfl)
        · obtain ⟨-,ws,hem,hrun⟩ := h.failure_runs hw hpayer ha hb
          have hpend := (h.sound.twoPhase.active _ a ha).run_pure h.sound.twoPhase hc
          rw [hrun] at hpend
          cases hpend
          rw [hn]
          exact .inr (.inr (.inr ⟨rfl,⟨act.session,a.body,(),a.pending⟩,by simp [log],hem⟩))
      | fails ha why after =>
        rw [after,h.next_of_fails hw hpayer ha hq why] at hp
        cases hp
        exact .inr (.inr (.inl rfl))
    · rw [hframe u hu] at hp
      refine (h.idle u p hp).imp_right (Or.imp_right (Or.imp_right (fun ⟨hd,c,hc,he⟩ => ?_)))
      exact ⟨hd,c,hmoves.mem_log hc,he⟩
  · by_cases hu : u = act.session
    · subst hu
      cases hmoves with
      | @begins body next hi after =>
        rw [after] at hb
        cases hb
        rcases h.idle _ _ hi with hp | hp | hp | ⟨hp,-⟩
        · cases hp
          exact .inl ⟨rfl,rfl⟩
        · contradiction
        · rw [m.catchBlock_eq] at hp
          cases hp
          exact .inr ⟨rfl,rfl⟩
        · contradiction
      | @waits a _ ha after =>
        rw [after] at hb
        cases hb
        exact h.active _ a ha
      | @answers a _ _ _ _ _ ha _ _ _ after =>
        rw [after] at hb
        cases hb
        exact h.active _ a ha
      | commits _ _ after => simp [after] at hb
      | fails _ _ after => simp [after] at hb
    · rw [hframe u hu] at hb
      exact h.active u b hb

/-- A run that was told that the message is unrecorded records it, or comes to its `catch` block. -/
theorem Handling.inFlight_next (h : Handling ids db₀ m key amount s) (hfl : InFlight key s t)
    {act : SessionAction Uuid T} (hq : Quiet (fun _ => True) s act)
    (hs : (server true).next s act = some s') :
    InFlight key s' t ∨ s'.session t = .idle (m.catchBlock (ids t)) ∨
      (act.session = t ∧ ¬s.db.hasKey key ∧ s'.db.hasKey key) := by
  obtain ⟨hmoves,hframe⟩ := Server.moves_of_next hs
  obtain ⟨a,ha,hk⟩ := hfl
  by_cases hu : t = act.session
  · subst hu
    cases hmoves with
    | begins before => simp [before] at ha
    | waits before after =>
      rw [before] at ha
      cases ha
      exact .inl ⟨_,after,hk⟩
    | answers _ before _ _ _ after =>
      rw [before] at ha
      cases ha
      exact .inl ⟨_,after,by rw [List.flatMap_append]; exact List.mem_append_left _ hk⟩
    | commits before cur _ db =>
      rw [before] at ha
      cases ha
      have hp := h.sound.twoPhase.active _ a before
      refine .inr (.inr ⟨rfl,(hp.seen_missing h.sound.twoPhase cur key hk).2,?_⟩)
      rw [db]
      exact h.records hw before hk cur
    | fails before why after =>
      rw [before] at ha
      cases ha
      rw [h.next_of_fails hw hpayer before hq why] at after
      exact .inr (.inl after)
  · exact .inl ⟨a,by rw [hframe t hu,ha],hk⟩

/-- Nothing but its failure event ends a failing run. -/
theorem Failing.next (h : Handling ids db₀ m key amount s) (hf : Failing ids m key s t)
    {act : SessionAction Uuid T} (hq : Quiet (fun _ => True) s act)
    (hs : (server true).next s act = some s') : Failing ids m key s' t := by
  have h' := h.next hw hpayer hq hs
  obtain ⟨hmoves,hframe⟩ := Server.moves_of_next hs
  rcases hf with ⟨hfl,hkey⟩ | ⟨a,ha,hn⟩ | hidle | hidle
  · rcases h.inFlight_next hw hpayer hfl hq hs with hfl' | hc | ⟨-,hno,-⟩
    · exact .inl ⟨hfl',hasKey_mono hmoves hkey⟩
    · exact .inr (.inr (.inl hc))
    · exact absurd hkey hno
  · by_cases hu : t = act.session
    · subst hu
      have hend : ∀ r, s'.session act.session = .idle (a.next r) →
          Failing ids m key s' act.session := by
        intro r hr
        rw [hn] at hr
        cases r with
        | ok x => exact .inr (.inr (.inr hr))
        | error e =>
          -- the transaction of the failure event does not fail
          rcases h'.idle _ _ hr with hp | hp | hp | ⟨hp,-⟩
          · cases hp
          · cases hp
          · rw [m.catchBlock_eq] at hp
            cases hp
          · cases hp
      cases hmoves with
      | begins before => simp [before] at ha
      | waits before after =>
        rw [before] at ha
        cases ha
        exact .inr (.inl ⟨_,after,hn⟩)
      | answers _ before _ _ _ after =>
        rw [before] at ha
        cases ha
        exact .inr (.inl ⟨_,after,hn⟩)
      | commits before _ after =>
        rw [before] at ha
        cases ha
        exact hend _ after
      | fails before _ after =>
        rw [before] at ha
        cases ha
        exact hend _ after
    · exact .inr (.inl ⟨a,by rw [hframe t hu,ha],hn⟩)
  · by_cases hu : t = act.session
    · subst hu
      cases hmoves with
      | begins before after =>
        rw [before,m.catchBlock_eq] at hidle
        cases hidle
        exact .inr (.inl ⟨_,after,rfl⟩)
      | waits before => simp [before] at hidle
      | answers _ before => simp [before] at hidle
      | commits before => simp [before] at hidle
      | fails before => simp [before] at hidle
    · exact .inr (.inr (.inl (by rw [hframe t hu,hidle])))
  · by_cases hu : t = act.session
    · subst hu
      cases hmoves with
      | begins before =>
        rw [before] at hidle
        cases hidle
      | waits before => simp [before] at hidle
      | answers _ before => simp [before] at hidle
      | commits before => simp [before] at hidle
      | fails before => simp [before] at hidle
    · exact .inr (.inr (.inr (by rw [hframe t hu,hidle])))

theorem Spoiled.next (h : Handling ids db₀ m key amount s) (hsp : Spoiled ids m key s)
    {act : SessionAction Uuid T} (hq : Quiet (fun _ => True) s act)
    (hs : (server true).next s act = some s') : Spoiled ids m key s' := by
  rcases hsp with ⟨t,u,hne,hft,hfu⟩ | ⟨t,hf⟩
  · rcases h.inFlight_next hw hpayer hft hq hs with hft' | hc | ⟨rfl,-,hkey⟩
    · rcases h.inFlight_next hw hpayer hfu hq hs with hfu' | hc | ⟨-,-,hkey⟩
      · exact .inl ⟨t,u,hne,hft',hfu'⟩
      · exact .inr ⟨u,.inr (.inr (.inl hc))⟩
      · exact .inr ⟨t,.inl ⟨hft',hkey⟩⟩
    · exact .inr ⟨t,.inr (.inr (.inl hc))⟩
    · rcases h.inFlight_next hw hpayer hfu hq hs with hfu' | hc | ⟨heq,-,-⟩
      · exact .inr ⟨u,.inl ⟨hfu',hkey⟩⟩
      · exact .inr ⟨u,.inr (.inr (.inl hc))⟩
      · exact absurd heq hne
  · exact .inr ⟨t,hf.next hw hpayer h hq hs⟩

omit hw hpayer in
/-- A duplicate check beside another run in flight spoils the message. -/
theorem Spoiled.enter (h : Handling ids db₀ m key amount s) {act : SessionAction Uuid T}
    (hs : (server true).next s act = some s') (hbad : ¬ChecksApart key s act) :
    Spoiled ids m key s' := by
  obtain ⟨hmoves,hframe⟩ := Server.moves_of_next hs
  cases act with
  | exec t =>
    simp only [ChecksApart,not_forall,not_not] at hbad
    obtain ⟨⟨a,k,ha,hc⟩,u,hne,b,hb,hk⟩ := hbad
    have hfu : InFlight key s' u := ⟨b,by rw [hframe u hne,hb],hk⟩
    by_cases hkey : s.db.hasKey key
    · exact .inr ⟨u,.inl ⟨hfu,hasKey_mono hmoves hkey⟩⟩
    · refine .inl ⟨u,t,hne,hfu,?_⟩
      obtain ⟨a',st,k',ha',hc',-,-,-,⟨r,ws,he,rfl⟩ | ⟨e,he,-⟩⟩ := Server.next_exec hs
      · rw [ha] at ha'
        cases ha'
        rw [hc] at hc'
        cases hc'
        refine ⟨_,State.setActive_self ..,?_⟩
        simp only [server_exec,Stmt.exec,Except.ok.injEq,Prod.mk.injEq] at he
        rw [List.flatMap_append,List.mem_append]
        cases hr : r with
        | none => exact .inr (by simp [Stmt.absent])
        | some e =>
          -- the run sees its own record, so it had found none
          have hview : ((server true).view s.db a).hasKey key := by simp [UserDb.hasKey,he.1,hr]
          have hp := h.sound.twoPhase.active t a ha
          have hseen : ∀ k ∈ (lawful true).seen a, ¬(lawful true).hasKey s.db k := by
            intro q hq
            have hqk := h.sound.seen ha q hq
            simp only [oneMessage,Option.some.injEq] at hqk
            exact hqk ▸ hkey
          rw [Server.view] at hview
          have hnew := (((lawful true).hasKey_applyAll s.db a.pending key).mp hview).resolve_left hkey
          exact .inl ((hp.reaches hseen).newKeys key hnew)
      · rw [ha] at ha'
        cases ha'
        rw [hc] at hc'
        cases hc'
        contradiction
  | _ => exact absurd trivial hbad

end Handling

section Clean
variable {T : Type} [DecidableEq T] {ids : T → RunIds} {db₀ : UserDb} {s s' : UserState T}
  {payload : TransferInitedPayload} {key : Uuid} {amount : ℤ}

/-- No run has failed, and at most one is between its duplicate check and its end. -/
structure Clean (ids : T → RunIds) (db₀ : UserDb) (payload : TransferInitedPayload) (key : Uuid)
    (amount : ℤ) (s : UserState T) : Prop where
  sound : Sound db₀ (oneMessage T (.transferInited payload) key) ids s
  unfailed : Unfailed (oneMessage T (.transferInited payload) key) ids (.transferInited payload) key
    amount s
  unrecorded : Unrecorded (oneMessage T (.transferInited payload) key) key s
  one : ∀ t u, InFlight key s t → InFlight key s u → t = u

/-- The duplicate check is the first statement of a transfer, and all others come after a check that
found nothing. -/
theorem transfer_path {idempotencyKey fromAccountId toAccountId : Uuid} {currency : String}
    {amount : ℤ} {eventId outId inId processedId outboxId : Uuid}
    {answered : List ((s : Stmt) × Res s)} {st : Stmt} {k : Res st → Tx Stmt Res Unit}
    (h : (transferAndCreateOutboxEvent idempotencyKey fromAccountId toAccountId currency amount
      eventId outId inId processedId outboxId).Path answered (.exec st k)) :
    st = .findUniqueProcessedEvent idempotencyKey ∨
      idempotencyKey ∈ answered.flatMap (fun x => x.1.absent x.2) := by
  rw [transferAndCreateOutboxEvent_eq] at h
  rcases h.cases_exec with ⟨-,hc⟩ | ⟨r,rest,rfl,hrest⟩
  · cases hc
    exact .inl rfl
  · cases r with
    | none => exact .inr (by simp [Stmt.absent])
    | some e => cases hrest.cases_pure.2

theorem oneMessage_serial (hw : db₀.WellFormed) (hnew : db₀.processed key = none)
    (h : Clean ids db₀ payload key amount s) :
    s.log = [] ∧ s.db = db₀ ∨ s.db.hasKey key ∧ ∃ t, s.db = (server true).applyAll db₀
      ((BalanceMessage.transferInited payload).writes key amount (ids t) db₀) := by
  have hkey0 : recordsOf key db₀ = [] := by
    by_contra hne
    have := hasKey_iff_recordsOf.mpr hne
    simp [UserDb.hasKey,hnew] at this
  have hother : ∀ c ∈ s.log,
      c.body.Every (Stmt.Within (oneMessage T (.transferInited payload) key c.session).2.toList) := by
    intro c hc
    obtain ⟨next,hsuf⟩ := h.sound.follows.log c hc
    exact (hsuf.every (BalanceMessage.handle_within _ _ _)).1
  have hser := h.sound.twoPhase.serial
  rcases (ownWrites_of_serial hw hkey0 hser h.unfailed.log hother).2 with
    ⟨hno,-⟩ | ⟨c,hc,-,hwr,hrec⟩
  · have hlog : s.log = [] := List.eq_nil_iff_forall_not_mem.mpr (fun c hc => hno c hc rfl)
    refine .inl ⟨hlog,?_⟩
    rw [hser.db_eq,hlog]
    rfl
  · have hall : ownWrites (oneMessage T (.transferInited payload) key) key s.log =
        s.log.flatMap (·.writes) := by simp [ownWrites,oneMessage]
    refine .inr ⟨hasKey_iff_recordsOf.mpr (by rw [hrec]; simp),c.session,?_⟩
    rw [hser.db_eq,← hall,hwr]

theorem Clean.next (hw : db₀.WellFormed) (hnew : db₀.processed key = none)
    (hpay : (BalanceMessage.transferInited payload).payable amount db₀)
    (h : Clean ids db₀ payload key amount s) {act : SessionAction Uuid T}
    (hq : Quiet (fun _ => True) s act) (hapart : ChecksApart key s act)
    (hs : (server true).next s act = some s') : Clean ids db₀ payload key amount s' := by
  have hpayer := payer_of_payable _ hpay
  have hpayer' : (s.db.balanceOf (BalanceMessage.transferInited payload).payer
      (BalanceMessage.transferInited payload).currency).isSome := by
    rw [← Option.isSome_map (f := (·.id)),h.sound.discipline.later.balanceOf_id,Option.isSome_map]
    exact hpayer
  refine ⟨h.sound.next hw hs,?_,?_,fun t u ht hu => ?_⟩
  · refine h.unfailed.next hw h.sound h.unrecorded (fun hnone => ?_) hpayer'
      (hq.mono (fun _ _ => trivial)) hs
    rcases oneMessage_serial hw hnew h with ⟨-,hdb⟩ | ⟨hkey,-⟩
    · rwa [hdb]
    · simp [UserDb.hasKey,hnone] at hkey
  · exact h.unrecorded.next h.sound (fun t u _ _ ht hu => h.one t u ht hu) hs
  · have hcheck : ∀ v, InFlight key s' v → InFlight key s v ∨
        (act = .exec v ∧ ∀ w, w ≠ v → ¬InFlight key s w) := by
      intro v hv
      refine or_iff_not_imp_left.mpr (fun hno => ?_)
      obtain ⟨a,st,k,r,ws,rfl,ha,hc,-,hk⟩ := (inFlight_of_next hs hv).resolve_left hno
      have hpath := (h.sound.follows.active v a ha).2
      rw [(h.unfailed.active v a rfl ha).1,hc] at hpath
      rcases transfer_path hpath with rfl | hsome
      · exact ⟨rfl,hapart ⟨a,k,ha,hc⟩⟩
      · exact absurd ⟨a,ha,hsome⟩ hno
    rcases hcheck t ht with ht' | ⟨rfl,hfree⟩
    · rcases hcheck u hu with hu' | ⟨rfl,hfree⟩
      · exact h.one t u ht' hu'
      · by_contra hne
        exact hfree t hne ht'
    · rcases hcheck u hu with hu' | ⟨hact,-⟩
      · by_contra hne
        exact hfree u (Ne.symm hne) hu'
      · cases hact
        rfl

end Clean

/-- The transfer has moved the amount once and is reported once, as a success. -/
structure TransferredOnce (payload : TransferInitedPayload) (amount : ℤ) (sender receiver : Uuid)
    (db₀ db : UserDb) : Prop where
  balances : db.balances = ((server true).applyAll db₀
    [.addAmount sender (-amount),.addAmount receiver amount]).balances
  outboxEvents : ∃ id, db.outboxEvents = db₀.outboxEvents++[⟨id,sender,.tranferSuccess,
    .transferResult ⟨payload.eventId,payload.outId,payload.inId⟩,false⟩]

theorem transferredOnce_writes {payload : TransferInitedPayload} {amount : ℤ} {db₀ : UserDb}
    {sender receiver : Balance}
    (hs : db₀.balanceOf payload.fromAccountId payload.currency = some sender)
    (hr : db₀.balanceOf payload.toAccountId payload.currency = some receiver) (key : Uuid)
    (ids : RunIds) : TransferredOnce payload amount sender.id receiver.id db₀
      ((server true).applyAll db₀
        ((BalanceMessage.transferInited payload).writes key amount ids db₀)) := by
  have hw : (BalanceMessage.transferInited payload).writes key amount ids db₀ =
      transferWrites key amount payload.eventId payload.outId payload.inId ids.processedId
        ids.outboxId sender.id receiver.id := by
    simp [BalanceMessage.writes,BalanceMessage.moves,BalanceMessage.resultEvent,
      BalanceMessage.payer,BalanceMessage.currency,hs,hr,transferWrites,BalanceMessage.topic,
      BalanceMessage.successTopic,BalanceMessage.resultPayload]
  rw [hw]
  exact ⟨rfl,ids.outboxId,by rw [outboxEvents_applyAll]; rfl⟩

/-- Concurrent runs of one transfer message move the amount once and report one success and no
failure if and only if no run makes its duplicate check while another one is between its own check
and its end. -/
theorem transfer_redelivery_idempotent_iff {T : Type} [DecidableEq T] [Nonempty T] (ids : T → RunIds)
    (payload : TransferInitedPayload) (key : Uuid) (amount : ℤ)
    (ha : stringToBigInt payload.amount = some amount)
    (hne : payload.fromAccountId ≠ payload.toAccountId)
    (db₀ : UserDb) (hw : db₀.WellFormed) (sender receiver : Balance)
    (hs : db₀.balanceOf payload.fromAccountId payload.currency = some sender)
    (hr : db₀.balanceOf payload.toAccountId payload.currency = some receiver)
    (hbs : sender.blockedAt = none) (hbr : receiver.blockedAt = none)
    (hfunds : amount ≤ sender.amount) (hcredit : 0 ≤ receiver.amount+amount)
    (hnew : db₀.processed key = none)
    (schedule : List (SessionAction Uuid T)) (s : UserState T)
    (hquiet : Transition.Along (server true).next (Quiet (fun _ => True))
      (Server.initial db₀ (handlers (oneMessage T (.transferInited payload) key) ids)) schedule)
    (hrun : Transition.runs (server true).next
      (Server.initial db₀ (handlers (oneMessage T (.transferInited payload) key) ids)) schedule = some s)
    (hdone : ∀ t, ∃ o, s.session t = .idle (.done o)) :
    TransferredOnce payload amount sender.id receiver.id db₀ s.db ↔
      Transition.Along (server true).next (ChecksApart key)
        (Server.initial db₀ (handlers (oneMessage T (.transferInited payload) key) ids)) schedule := by
  have hpay : (BalanceMessage.transferInited payload).payable amount db₀ := by
    simp only [BalanceMessage.payable,hs,hr,hbs,hbr,Bool.and_eq_true,decide_eq_true_eq]
    refine ⟨⟨⟨hne,rfl⟩,hfunds⟩,by omega⟩
  have hpayer := payer_of_payable _ hpay
  constructor
  · intro honce
    have h0 : Handling ids db₀ (.transferInited payload) key amount
        (Server.initial db₀ (handlers (oneMessage T (.transferInited payload) key) ids)) :=
      .initial ha
    have hend := Transition.runs_invariant (I := Handling ids db₀ (.transferInited payload) key amount)
      (fun _ _ _ hi hq hn => hi.next hw hpayer hq hn) h0 hquiet hrun
    have henter : ∀ s act s', Handling ids db₀ (.transferInited payload) key amount s →
        Quiet (fun _ => True) s act → (server true).next s act = some s' →
        ¬ChecksApart key s act → Spoiled ids (.transferInited payload) key s' :=
      fun _ _ _ hi _ hn hbad => .enter hi hn hbad
    refine Transition.Along.of_not_trap
      (I := Handling ids db₀ (.transferInited payload) key amount)
      (fun _ _ _ hi hq hn => hi.next hw hpayer hq hn) henter
      (fun _ _ _ hi hq hn hsp => hsp.next hw hpayer hi hq hn) h0 hquiet hrun ?_
    have hnot : ∀ t, ¬InFlight key s t := by
      rintro t ⟨a,hact,-⟩
      obtain ⟨o,ho⟩ := hdone t
      simp [ho] at hact
    rintro (⟨t,-,-,hf,-⟩ | ⟨t,hf⟩)
    · exact hnot t hf
    · -- the failure event of this run is in the outbox
      obtain ⟨o,ho⟩ := hdone t
      have hfailed : s.session t = .idle (.done .failed) := by
        rcases hf with ⟨hf,-⟩ | ⟨a,hact,-⟩ | hc | hd
        · exact absurd hf (hnot t)
        · simp [ho] at hact
        · simp [ho,BalanceMessage.catchBlock_eq] at hc
        · exact hd
      rcases hend.idle t _ hfailed with hp | hp | hp | ⟨-,c,hc,e,htopic,he⟩
      · cases hp
      · cases hp
      · rw [BalanceMessage.catchBlock_eq] at hp
        cases hp
      · obtain ⟨id,hout⟩ := honce.outboxEvents
        rw [hend.sound.twoPhase.serial.db_eq,outboxEvents_applyAll,List.append_cancel_left_eq] at hout
        have hmem : e ∈ (s.log.flatMap (·.writes)).filterMap Write.outboxEvent? :=
          List.mem_filterMap.mpr ⟨_,List.mem_flatMap.mpr ⟨c,hc,he⟩,rfl⟩
        rw [hout,List.mem_singleton] at hmem
        rw [hmem] at htopic
        contradiction
  · intro hapart
    have h0 : Clean ids db₀ payload key amount
        (Server.initial db₀ (handlers (oneMessage T (.transferInited payload) key) ids)) := by
      refine ⟨.initial,.initial (fun _ _ => rfl) ha,?_,?_⟩
      · rintro t - ⟨a,hact,-⟩
        contradiction
      · rintro t u ⟨a,hact,-⟩
        contradiction
    have hend := Transition.runs_invariant (I := Clean ids db₀ payload key amount)
      (fun _ _ _ hi hg hn => hi.next hw hnew hpay hg.1 hg.2 hn) h0 (hquiet.and hapart) hrun
    rcases oneMessage_serial hw hnew hend with ⟨hlog,-⟩ | ⟨-,t,hdb⟩
    · obtain ⟨t⟩ := ‹Nonempty T›
      obtain ⟨o,ho⟩ := hdone t
      rcases hend.unfailed.idle t _ rfl ho with hp | ⟨-,hmem⟩
      · cases hp
      · simp [hlog] at hmem
    · rw [hdb]
      exact transferredOnce_writes hs hr key (ids t)

/-- A second run of the message makes its check after the first has committed. -/
theorem transfer_redelivery_idempotent_iff_behind :
    Transition.Along (server true).next (ChecksApart 7)
      (Server.initial ⟨[⟨1,100,"RUB",10,none⟩,⟨2,0,"RUB",20,none⟩],[],[]⟩
        (handlers (oneMessage Bool (.transferInited ⟨40,30,31,10,20,"RUB","30"⟩) 7)
          (fun t => bif t then ⟨61,62,63⟩ else ⟨71,72,73⟩)))
      [.begin true,.begin false,.start true [],.exec true,.start true [(1,.update),(2,.update)],
        .lock true,.lock true,.exec true,.start true [(1,.noKeyUpdate)],.lock true,.exec true,
        .start true [(2,.noKeyUpdate)],.lock true,.exec true,.start true [],.exec true,
        .start true [(1,.keyShare)],.lock true,.exec true,.commit true,.start false [],.exec false,
        .commit false] := by
  let db₀ : UserDb := ⟨[⟨1,100,"RUB",10,none⟩,⟨2,0,"RUB",20,none⟩],[],[]⟩
  refine (transfer_redelivery_idempotent_iff (T := Bool) _ ⟨40,30,31,10,20,"RUB","30"⟩ 7 30
    (by decide) (by decide) db₀ ⟨by decide,by decide⟩ ⟨1,100,"RUB",10,none⟩ ⟨2,0,"RUB",20,none⟩
    (by decide) (by decide) rfl rfl (by decide) (by decide) (by decide) _ _
    (quiet_of_no_abort (by decide) _) rfl ?_).mp ⟨by decide,62,by decide⟩
  rintro (_ | _)
  · exact Session.finished_iff.mp rfl
  · exact Session.finished_iff.mp rfl

/-- Both runs find the message unrecorded. The second one fails on the unique key after the first
has committed, and reports that the transfer failed. -/
theorem transfer_reported_as_failed :
    ∃ (schedule : List (SessionAction Uuid Bool)) (s : UserState Bool),
      (∀ a ∈ schedule, a.aborts = false) ∧
      Transition.runs (server true).next (Server.initial
        ⟨[⟨1,100,"RUB",10,none⟩,⟨2,0,"RUB",20,none⟩],[],[]⟩
        (handlers (oneMessage Bool (.transferInited ⟨40,30,31,10,20,"RUB","30"⟩) 7)
          (fun t => bif t then ⟨61,62,63⟩ else ⟨71,72,73⟩))) schedule = some s ∧
      (∀ t, ∃ o, s.session t = .idle (.done o)) ∧
      s.db.balances.map (·.amount) = [70,30] ∧
      s.db.outboxEvents.map (·.topic) = [.tranferSuccess,.tranferFailed] := by
  let schedule : List (SessionAction Uuid Bool) :=
    [.begin true,.begin false,.start true [],.exec true,.start false [],.exec false,
      .start true [(1,.update),(2,.update)],.lock true,.lock true,.exec true,
      .start true [(1,.noKeyUpdate)],.lock true,.exec true,.start true [(2,.noKeyUpdate)],
      .lock true,.exec true,.start true [],.exec true,.start true [(1,.keyShare)],.lock true,
      .exec true,.commit true,
      .start false [(1,.update),(2,.update)],.lock false,.lock false,.exec false,
      .start false [(1,.noKeyUpdate)],.lock false,.exec false,.start false [(2,.noKeyUpdate)],
      .lock false,.exec false,.start false [],.exec false,
      .begin false,.start false [],.exec false,.start false [(1,.keyShare)],.lock false,
      .exec false,.commit false]
  let start : UserState Bool := Server.initial ⟨[⟨1,100,"RUB",10,none⟩,⟨2,0,"RUB",20,none⟩],[],[]⟩
    (handlers (oneMessage Bool (.transferInited ⟨40,30,31,10,20,"RUB","30"⟩) 7)
      (fun t => bif t then ⟨61,62,63⟩ else ⟨71,72,73⟩))
  have hrun : (Transition.runs (server true).next start schedule).map (fun s =>
      (s.db.balances.map (·.amount),s.db.outboxEvents.map (·.topic),(s.session true).finished,
        (s.session false).finished)) =
      some ([70,30],[.tranferSuccess,.tranferFailed],true,true) := by decide
  obtain ⟨s,hs,hfacts⟩ := Option.map_eq_some_iff.mp hrun
  simp only [Prod.mk.injEq] at hfacts
  obtain ⟨hamounts,htopics,h1,h2⟩ := hfacts
  refine ⟨schedule,s,by decide,hs,?_,hamounts,htopics⟩
  rintro (_ | _)
  · exact Session.finished_iff.mp h2
  · exact Session.finished_iff.mp h1

end NestHomework.UserService
