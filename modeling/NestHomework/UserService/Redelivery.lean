import NestHomework.UserService.BalanceKafka
import NestHomework.UserService.Conservation
import NestHomework.UserService.LockOrder

/-! Runs of one message beside each other. A message may be delivered again while it is still being
handled, and other messages are handled beside it. -/
namespace NestHomework.UserService
open Contracts Postgres

/-- The idempotency keys that a statement looks up or inserts. -/
def Stmt.keys : Stmt → List Uuid
  | .findUniqueProcessedEvent key => [key]
  | .createProcessedEvent data => [data.idempotencyKey]
  | _ => []

theorem Stmt.absent_keys {s : Stmt} {r : Res s} {k : Uuid} (h : k ∈ s.absent r) : k ∈ s.keys := by
  cases s with
  | findUniqueProcessedEvent key =>
    cases r with
    | none => exact h
    | some e => simp [Stmt.absent] at h
  | createProcessedEvent data => exact h
  | _ => simp [Stmt.absent] at h

theorem Stmt.inserts_keys {s : Stmt} {k : Uuid} (h : k ∈ s.inserts) : k ∈ s.keys := by
  cases s <;> simp_all [Stmt.inserts,Stmt.keys]

/-- What a handler's statements have to do with: they reset no balance, and know no idempotency key
but the one of the message. -/
def Stmt.Within (keys : List Uuid) (s : Stmt) : Prop :=
  s ≠ .updateAllBalances ∧ ∀ k ∈ s.keys, k ∈ keys

section Static
variable (m : BalanceMessage) (ids : RunIds)

theorem deposit_within (idempotencyKey : Uuid) (currency : String) (amount : ℤ)
    (accountId transactionId eventId processedId outboxId : Uuid) :
    (depositAndCreateOutboxEvent idempotencyKey currency amount accountId transactionId eventId
      processedId outboxId).Every (Stmt.Within [idempotencyKey]) := by
  rw [depositAndCreateOutboxEvent_eq]
  refine ⟨⟨by simp,by simp [Stmt.keys]⟩,?_⟩
  rintro (_ | ⟨balance,_⟩)
  · trivial
  · refine ⟨⟨by simp,by simp [Stmt.keys]⟩,?_⟩
    rintro (_ | e)
    · exact ⟨⟨by simp,by simp [Stmt.keys]⟩,fun _ => ⟨⟨by simp,by simp [Stmt.keys]⟩,fun _ =>
        ⟨⟨by simp,by simp [Stmt.keys]⟩,fun _ => trivial⟩⟩⟩
    · trivial

theorem transfer_within (idempotencyKey fromAccountId toAccountId : Uuid) (currency : String)
    (amount : ℤ) (eventId outId inId processedId outboxId : Uuid) :
    (transferAndCreateOutboxEvent idempotencyKey fromAccountId toAccountId currency amount eventId
      outId inId processedId outboxId).Every (Stmt.Within [idempotencyKey]) := by
  rw [transferAndCreateOutboxEvent_eq]
  refine ⟨⟨by simp,by simp [Stmt.keys]⟩,?_⟩
  rintro (_ | e)
  · refine ⟨⟨by simp,by simp [Stmt.keys]⟩,fun (balances : List Balance) => ?_⟩
    rcases transferSelected_cases idempotencyKey fromAccountId toAccountId amount eventId outId
      inId processedId outboxId balances with ⟨e,h⟩ | ⟨sender,receiver,-,-,-,-,-,-,h⟩
    · rw [h]
      trivial
    · rw [h]
      exact ⟨⟨by simp,by simp [Stmt.keys]⟩,fun _ => ⟨⟨by simp,by simp [Stmt.keys]⟩,fun _ =>
        ⟨⟨by simp,by simp [Stmt.keys]⟩,fun _ => ⟨⟨by simp,by simp [Stmt.keys]⟩,fun _ =>
          trivial⟩⟩⟩⟩
  · trivial

theorem createOutboxEvent_within (accountId : Uuid) (currency : String) (topic : KafkaTopic)
    (payload : Payload) (outboxId : Uuid) :
    (createOutboxEvent accountId currency topic payload outboxId).Every (Stmt.Within []) := by
  rw [createOutboxEvent_eq]
  refine ⟨⟨by simp,by simp [Stmt.keys]⟩,?_⟩
  rintro (_ | balance)
  · trivial
  · exact ⟨⟨by simp,by simp [Stmt.keys]⟩,fun _ => trivial⟩

namespace BalanceMessage

theorem call_within (idempotencyKey : Uuid) (amount : ℤ) :
    (m.call idempotencyKey amount ids).body.Every (Stmt.Within [idempotencyKey]) := by
  cases m with
  | depositPaidSuccess payload => exact deposit_within _ _ _ _ _ _ _ _
  | transferInited payload => exact transfer_within _ _ _ _ _ _ _ _ _ _

theorem failure_within : (m.failure ids).body.Every (Stmt.Within []) :=
  createOutboxEvent_within _ _ _ _ _

/-- What holds of the bodies of all calls holds of the handlers. -/
theorem handle_induction {P : Proc Stmt Res Unit Outcome → Prop} (idempotencyKey : Option Uuid)
    (hdone : ∀ o, P (.done o))
    (hfail : (∀ r, P (afterFailure r)) → P (.transaction (m.failure ids).body afterFailure))
    (hcall : ∀ key amount, idempotencyKey = some key → (∀ r, P (m.afterCall amount ids r)) →
      P (.transaction (m.call key amount ids).body (m.afterCall amount ids))) :
    P (m.handle idempotencyKey ids) := by
  have hcatch : P (m.catchBlock ids) := by
    rw [catchBlock_eq]
    exact hfail (fun r => by cases r <;> exact hdone _)
  cases idempotencyKey with
  | none =>
    rw [handle_none]
    exact hcatch
  | some key =>
    cases ha : m.amount with
    | none =>
      rw [m.handle_of_not_numeric key ids ha]
      exact hcatch
    | some amount =>
      rw [m.handle_some key ids ha]
      refine hcall key amount rfl (fun r => ?_)
      cases r with
      | ok x => exact hdone _
      | error e => exact hcatch

theorem handle_guarded (check : Bool) (idempotencyKey : Option Uuid) :
    (lawful check).GuardedProc (m.handle idempotencyKey ids) :=
  m.handle_induction ids idempotencyKey (fun _ => trivial)
    (fun h => ⟨(m.failure ids).guarded check,h⟩)
    (fun key amount _ h => ⟨(m.call key amount ids).guarded check,h⟩)

theorem handle_oneLock (idempotencyKey : Option Uuid) :
    OneLockProc (m.handle idempotencyKey ids) :=
  m.handle_induction ids idempotencyKey (fun _ => trivial)
    (fun h => ⟨(m.failure ids).oneLock,h⟩) (fun key amount _ h => ⟨(m.call key amount ids).oneLock,h⟩)

theorem handle_within (idempotencyKey : Option Uuid) :
    (m.handle idempotencyKey ids).Every (Stmt.Within idempotencyKey.toList) := by
  refine m.handle_induction ids idempotencyKey (fun _ => trivial) (fun h => ⟨?_,h⟩)
    (fun key amount hkey h => ⟨?_,h⟩)
  · exact (m.failure_within ids).mono (fun s hs => ⟨hs.1,fun k hk => by simpa using hs.2 k hk⟩)
  · rw [hkey]
    exact m.call_within ids key amount

end BalanceMessage
end Static

/-- The states of the server while handlers run. -/
abbrev UserState (T : Type) := State Res UserDb Write Uuid Uuid Unit Outcome T

/-- Session `t` handles the message `(job t).1` with the header `(job t).2`. -/
def handlers {T : Type} (job : T → BalanceMessage × Option Uuid) (ids : T → RunIds) (t : T) :
    Proc Stmt Res Unit Outcome :=
  (job t).1.handle (job t).2 (ids t)

/-- The order of `ORDER BY account_id` on rows. -/
def accountRank (db : UserDb) (id : Uuid) : Uuid := ((db.balance id).map (·.accountId)).getD 0

theorem rankedByAccount_accountRank {db : UserDb} (hw : db.WellFormed) :
    RankedByAccount (accountRank db) db := by
  intro b hb c hc _ hlt
  simpa [accountRank,hw.balance_eq hb,hw.balance_eq hc] using hlt

/-- No infrastructure failure hits these sessions: the server aborts one only to break a deadlock. -/
def Quiet {T : Type} (p : T → Prop) (s : UserState T) : SessionAction Uuid T → Prop
  | .abort t => p t → State.Deadlocked (server true) s t
  | _ => True

theorem Quiet.mono {T : Type} {p q : T → Prop} (h : ∀ t, q t → p t) {s : UserState T}
    {act : SessionAction Uuid T} (hq : Quiet p s act) : Quiet q s act := by
  cases act with
  | abort t => exact fun ht => hq (h t ht)
  | _ => trivial

theorem quiet_of_no_abort {T : Type} [DecidableEq T] {p : T → Prop}
    {schedule : List (SessionAction Uuid T)} (h : ∀ a ∈ schedule, a.aborts = false)
    (s : UserState T) : Transition.Along (server true).next (Quiet p) s schedule := by
  refine .of_forall (fun a ha s => ?_) s
  cases a with
  | abort t => exact absurd (h _ ha) (by simp [SessionAction.aborts])
  | _ => trivial

/-- The run was told that the key is not recorded, and has not ended. -/
def InFlight {T : Type} (key : Uuid) (s : UserState T) (t : T) : Prop :=
  ∃ a, s.session t = .active a ∧ key ∈ a.answered.flatMap (fun x => x.1.absent x.2)

section Runs
variable {T : Type} [DecidableEq T] {job : T → BalanceMessage × Option Uuid} {ids : T → RunIds}
  {db₀ : UserDb} {s s' : UserState T} {t : T} {a : Active Res Write Uuid Unit Outcome}

/-- What holds in every reachable state of the handlers. -/
structure Sound (db₀ : UserDb) (job : T → BalanceMessage × Option Uuid) (ids : T → RunIds)
    (s : UserState T) : Prop where
  twoPhase : Server.TwoPhase (lawful true) db₀ s
  discipline : Discipline (accountRank db₀) db₀ s
  follows : Follows (handlers job ids) s

theorem Sound.within (h : Sound db₀ job ids s) (ha : s.session t = .active a) :
    a.body.Every (Stmt.Within (job t).2.toList) :=
  ((h.follows.active t a ha).1.every ((job t).1.handle_within (ids t) (job t).2)).1

/-- A session only asks for the key of its own message. -/
theorem Sound.seen (h : Sound db₀ job ids s) (ha : s.session t = .active a) :
    ∀ k ∈ (lawful true).seen a, (job t).2 = some k := by
  intro k hk
  obtain ⟨x,hx,hkx⟩ := List.mem_flatMap.mp hk
  have hw := ((h.follows.active t a ha).2.every (h.within ha)).2 x hx
  simpa using hw.2 k (Stmt.absent_keys hkx)

theorem Sound.next (hw : db₀.WellFormed) (h : Sound db₀ job ids s) {act : SessionAction Uuid T}
    (hs : (server true).next s act = some s') : Sound db₀ job ids s' := by
  refine ⟨h.twoPhase.next hs,?_,h.follows.next hs⟩
  refine h.discipline.next hw (rankedByAccount_accountRank hw) ?_ hs
  cases act with
  | start t plan =>
    intro a k ha hc
    have hcur := ((h.follows.active t a ha).2.every (h.within ha)).1
    rw [hc] at hcur
    exact absurd rfl hcur.1.1
  | _ => trivial

theorem Sound.initial : Sound db₀ job ids (Server.initial db₀ (handlers job ids)) where
  twoPhase := .initial (fun t => (job t).1.handle_guarded (ids t) true (job t).2)
  discipline := .initial (fun t => (job t).1.handle_oneLock (ids t) (job t).2)
  follows := .initial db₀ (handlers job ids)

theorem Sound.wellFormed (h : Sound db₀ job ids s) (hw : db₀.WellFormed) : s.db.WellFormed :=
  h.discipline.later.wellFormed hw

omit [DecidableEq T] in
theorem nonNegative_of_commits (hw : db₀.WellFormed) (hnn : db₀.NonNegative) {db : UserDb}
    {log : List (Commit Res Write Unit T)} (h : Server.Serial (server true) db₀ log db) :
    db.WellFormed ∧ db.NonNegative := by
  induction h with
  | nil => exact ⟨hw,hnn⟩
  | @snoc log db c _ alone ih =>
    exact ⟨Later.wellFormed (Later.applyAll (Similar.refl _ _ db) c.writes) ih.1,
      NonNegative.run ih.2 ih.1 alone⟩

theorem Sound.nonNegative (h : Sound db₀ job ids s) (hw : db₀.WellFormed)
    (hnn : db₀.NonNegative) : s.db.NonNegative :=
  (nonNegative_of_commits hw hnn h.twoPhase.serial).2

end Runs

section Message
variable {T : Type} [DecidableEq T] {job : T → BalanceMessage × Option Uuid} {ids : T → RunIds}
  {db₀ : UserDb} {s s' : UserState T} {t : T} {a : Active Res Write Uuid Unit Outcome}
  {m : BalanceMessage} {key : Uuid} {amount : ℤ}
  (hm : ∀ t, (job t).2 = some key → (job t).1 = m) (ha : m.amount = some amount)

/-- No run of the message has failed so far. -/
structure Unfailed (job : T → BalanceMessage × Option Uuid) (ids : T → RunIds) (m : BalanceMessage)
    (key : Uuid) (amount : ℤ) (s : UserState T) : Prop where
  idle : ∀ t p, (job t).2 = some key → s.session t = .idle p →
    p = .transaction (m.call key amount (ids t)).body (m.afterCall amount (ids t)) ∨
    (p = .done (.notified (m.notification amount)) ∧ t ∈ s.log.map (·.session))
  active : ∀ t a, (job t).2 = some key → s.session t = .active a →
    a.body = (m.call key amount (ids t)).body ∧ a.next = m.afterCall amount (ids t)
  log : ∀ c ∈ s.log, (job c.session).2 = some key →
    c.body = (m.call key amount (ids c.session)).body

/-- While a run of the message is in flight nobody has recorded it. -/
def Unrecorded (job : T → BalanceMessage × Option Uuid) (key : Uuid) (s : UserState T) : Prop :=
  ∀ t, (job t).2 = some key → InFlight key s t → ¬s.db.hasKey key

omit [DecidableEq T] in
include hm ha in
theorem handlers_eq (ht : (job t).2 = some key) : handlers job ids t =
    .transaction (m.call key amount (ids t)).body (m.afterCall amount (ids t)) := by
  rw [handlers,hm t ht,ht,m.handle_some key (ids t) ha]

omit [DecidableEq T] in
include hm ha in
theorem Unfailed.initial :
    Unfailed job ids m key amount (Server.initial db₀ (handlers job ids)) where
  idle t p ht hp := by
    cases hp
    exact .inl (handlers_eq hm ha ht)
  active t a _ h := by contradiction
  log c hc := by simp [Server.initial] at hc

/-- A run of the message that nobody overtakes does not fail. -/
theorem Unfailed.next (hw : db₀.WellFormed) (h : Unfailed job ids m key amount s)
    (hsound : Sound db₀ job ids s) (hun : Unrecorded job key s)
    (hpay : s.db.processed key = none → m.payable amount s.db)
    (hpayer : (s.db.balanceOf m.payer m.currency).isSome) {act : SessionAction Uuid T}
    (hq : Quiet (fun t => (job t).2 = some key) s act)
    (hs : (server true).next s act = some s') : Unfailed job ids m key amount s' := by
  have hok : ∀ t, ∃ x, (server true).run none (m.call key amount (ids t)).body s.db = .ok x := by
    intro t
    cases hp : s.db.processed key with
    | none => exact ⟨_,m.call_run_payable (hsound.wellFormed hw) key amount (ids t) hp (hpay hp)⟩
    | some e =>
      exact ⟨_,m.call_run_recorded (hsound.wellFormed hw) key amount (ids t) (by simp [hp]) hpayer⟩
  have hseen : ∀ t a, (job t).2 = some key → s.session t = .active a →
      ∀ k ∈ (lawful true).seen a, ¬(lawful true).hasKey s.db k := by
    intro t a ht hact k hk
    have hkey := hsound.seen hact k hk
    rw [ht] at hkey
    cases hkey
    exact hun t ht ⟨a,hact,hk⟩
  have hnofail : ∀ a e, (job act.session).2 = some key → s.session act.session = .active a →
      ¬Server.Fails (server true) s.db a act e := by
    intro a e ht hact hf
    obtain ⟨x,hx⟩ := hok act.session
    rw [← (h.active _ a ht hact).1] at hx
    have hp := hsound.twoPhase.active _ a hact
    cases hf with
    | statement hc he => exact hp.not_error (hseen _ a ht hact) hx hc he
    | thrown hc => exact hp.not_throw (hseen _ a ht hact) hx hc
    | aborted hab =>
      cases act with
      | abort t => exact hsound.discipline.not_deadlocked t (hq ht)
      | _ => contradiction
  obtain ⟨hmoves,hframe⟩ := Server.moves_of_next hs
  refine ⟨fun u p hu hp => ?_,fun u b hu hb => ?_,fun c hc hk => ?_⟩
  · by_cases hne : u = act.session
    · subst hne
      cases hmoves with
      | begins _ after => simp [after] at hp
      | waits _ after => simp [after] at hp
      | answers _ _ _ _ _ after => simp [after] at hp
      | commits before _ after _ log =>
        rw [after,(h.active _ _ hu before).2] at hp
        cases hp
        exact .inr ⟨rfl,by simp [log]⟩
      | fails before why => exact absurd why (hnofail _ _ hu before)
    · rw [hframe u hne] at hp
      refine (h.idle u p hu hp).imp_right (fun ⟨hd,ht⟩ => ⟨hd,?_⟩)
      obtain ⟨c,hc,hcu⟩ := List.mem_map.mp ht
      exact List.mem_map.mpr ⟨c,hmoves.mem_log hc,hcu⟩
  · by_cases hne : u = act.session
    · subst hne
      cases hmoves with
      | begins before after =>
        rw [after] at hb
        cases hb
        rcases h.idle _ _ hu before with hp | ⟨hp,-⟩
        · cases hp
          exact ⟨rfl,rfl⟩
        · contradiction
      | @waits a _ before after =>
        rw [after] at hb
        cases hb
        exact h.active _ a hu before
      | @answers a _ _ _ _ _ before _ _ _ after =>
        rw [after] at hb
        cases hb
        exact h.active _ a hu before
      | commits _ _ after => simp [after] at hb
      | fails _ _ after => simp [after] at hb
    · rw [hframe u hne] at hb
      exact h.active u b hu hb
  · have hold : c ∈ s.log → c.body = (m.call key amount (ids c.session)).body :=
      fun hc => h.log c hc hk
    cases hmoves with
    | begins _ _ _ log => exact hold (log ▸ hc)
    | waits _ _ _ log => exact hold (log ▸ hc)
    | answers _ _ _ _ _ _ _ log => exact hold (log ▸ hc)
    | fails _ _ _ _ log => exact hold (log ▸ hc)
    | commits before _ _ _ log =>
      rw [log,List.mem_append,List.mem_singleton] at hc
      rcases hc with hc | rfl
      · exact hold hc
      · exact (h.active _ _ hk before).1

/-- Only an answer puts a run in flight. -/
theorem inFlight_of_next {act : SessionAction Uuid T} (hs : (server true).next s act = some s')
    (hfl : InFlight key s' t) : InFlight key s t ∨
      ∃ a st k r ws, act = .exec t ∧ s.session t = .active a ∧ a.cur = .exec st k ∧
        (server true).exec st ((server true).view s.db a) = .ok (r,ws) ∧ key ∈ st.absent r := by
  obtain ⟨hmoves,hframe⟩ := Server.moves_of_next hs
  obtain ⟨b,hb,hk⟩ := hfl
  by_cases hu : t = act.session
  · subst hu
    cases hmoves with
    | begins _ after =>
      rw [after] at hb
      cases hb
      simp at hk
    | waits before after =>
      rw [after] at hb
      cases hb
      exact .inl ⟨_,before,hk⟩
    | answers exec before cur answer _ after =>
      rw [after] at hb
      cases hb
      rw [List.flatMap_append,List.mem_append] at hk
      rcases hk with hk | hk
      · exact .inl ⟨_,before,hk⟩
      · exact .inr ⟨_,_,_,_,_,exec,before,cur,answer,by simpa using hk⟩
    | commits _ _ after => simp [after] at hb
    | fails _ _ after => simp [after] at hb
  · rw [hframe t hu] at hb
    exact .inl ⟨b,hb,hk⟩

/-- Only a run that was told that the key is not recorded records it. -/
theorem Sound.inFlight_of_newKeys (h : Sound db₀ job ids s) (hact : s.session t = .active a)
    {x : Unit} (hc : a.cur = .pure x) (hk : key ∈ a.pending.flatMap Write.newKeys) :
    InFlight key s t ∧ (job t).2 = some key := by
  have hp := h.twoPhase.active t a hact
  have hseen := (hp.reaches (fun k hk => (hp.seen_missing h.twoPhase hc k hk).2)).newKeys key hk
  exact ⟨⟨a,hact,hseen⟩,h.seen hact key hseen⟩

/-- When at most one run of the message is in flight, nobody records it meanwhile. -/
theorem Unrecorded.next (hun : Unrecorded job key s) (hsound : Sound db₀ job ids s)
    (hone : ∀ t u, (job t).2 = some key → (job u).2 = some key → InFlight key s t →
      InFlight key s u → t = u) {act : SessionAction Uuid T}
    (hs : (server true).next s act = some s') : Unrecorded job key s' := by
  intro u hu hfl hkey
  obtain ⟨hmoves,-⟩ := Server.moves_of_next hs
  rcases inFlight_of_next hs hfl with hfl' | ⟨a,st,k,r,ws,rfl,ha,hc,he,hk⟩
  · have hold := hun u hu hfl'
    cases hmoves with
    | begins _ _ db => exact hold (db ▸ hkey)
    | waits _ _ db => exact hold (db ▸ hkey)
    | answers _ _ _ _ _ _ db => exact hold (db ▸ hkey)
    | fails _ _ _ db => exact hold (db ▸ hkey)
    | @commits a x before cur after db =>
      rw [db,Server.view] at hkey
      have hnew := (((lawful true).hasKey_applyAll s.db a.pending key).mp hkey).resolve_left hold
      obtain ⟨hflt,ht⟩ := hsound.inFlight_of_newKeys before cur hnew
      obtain ⟨b,hb,-⟩ := hfl
      rw [hone u _ hu ht hfl' hflt,after] at hb
      contradiction
  · refine (lawful true).exec_absent he key (by simpa using hk) ?_
    rw [Server.view,(lawful true).hasKey_applyAll]
    obtain ⟨a',st',k',ha',hc',-,-,-,⟨_,_,-,rfl⟩ | ⟨_,-,rfl⟩⟩ := Server.next_exec hs
    · exact .inl hkey
    · exact .inl hkey

end Message

/-- What the committed runs of the message have written. -/
def ownWrites {T : Type} (job : T → BalanceMessage × Option Uuid) (key : Uuid)
    (log : List (Commit Res Write Unit T)) : List Write :=
  (log.filter (fun c => (job c.session).2 = some key)).flatMap (·.writes)

def recordsOf (key : Uuid) (db : UserDb) : List ProcessedEvent :=
  db.processedEvents.filter (fun e => e.idempotencyKey = key)

section Count
variable {T : Type} {job : T → BalanceMessage × Option Uuid} {ids : T → RunIds}
  {db₀ db : UserDb} {log : List (Commit Res Write Unit T)} {m : BalanceMessage} {key : Uuid}
  {amount : ℤ}

theorem hasKey_iff_recordsOf : db.hasKey key ↔ recordsOf key db ≠ [] := by
  unfold UserDb.hasKey UserDb.processed recordsOf
  rw [List.find?_isSome,ne_eq,List.filter_eq_nil_iff]
  simp

theorem recordsOf_applyAll (ws : List Write) (h : key ∉ ws.flatMap Write.newKeys) :
    recordsOf key ((server true).applyAll db ws) = recordsOf key db := by
  induction ws generalizing db with
  | nil => rfl
  | cons w ws ih =>
    simp only [List.flatMap_cons,List.mem_append,not_or] at h
    rw [Engine.applyAll_cons,ih h.2]
    cases w with
    | insertProcessedEvent data =>
      have hne : data.idempotencyKey ≠ key := fun he => h.1 (by simp [Write.newKeys,he])
      simp [recordsOf,Write.apply,hne]
    | _ => rfl

/-- A payable message adds one record of its key. -/
theorem recordsOf_writes (ids : RunIds) :
    recordsOf key ((server true).applyAll db (m.writes key amount ids db)) =
      recordsOf key db++[⟨ids.processedId,key,m.topic⟩] := by
  have hmoves : key ∉ (m.moves amount db).flatMap Write.newKeys := by
    intro hk
    cases m <;> simp [BalanceMessage.moves,Write.newKeys] at hk
  have hevent : key ∉ (m.resultEvent ids.outboxId m.successTopic db).flatMap Write.newKeys := by
    intro hk
    simp [BalanceMessage.resultEvent,Write.newKeys] at hk
  rw [BalanceMessage.writes,Engine.applyAll_append,Engine.applyAll_cons,recordsOf_applyAll _ hevent]
  have hinsert : ∀ db : UserDb, recordsOf key ((Write.insertProcessedEvent
      ⟨ids.processedId,key,m.topic⟩).apply db) =
      recordsOf key db++[⟨ids.processedId,key,m.topic⟩] := by
    intro db
    simp [recordsOf,Write.apply]
  rw [server_apply,hinsert,recordsOf_applyAll _ hmoves]

/-- The rows that a message writes to are fixed. -/
theorem Later.writes_eq {db' : UserDb} (h : Later db db') (ids : RunIds) :
    m.writes key amount ids db' = m.writes key amount ids db := by
  have hmap : ∀ (o o' : Option Balance) (f : Uuid → Write), o'.map (·.id) = o.map (·.id) →
      o'.toList.map (fun b => f b.id) = o.toList.map (fun b => f b.id) := by
    rintro (_ | b) (_ | b') f h
    · rfl
    · simp at h
    · simp at h
    · simp only [Option.map_some,Option.some.injEq] at h
      simp [h]
  unfold BalanceMessage.writes BalanceMessage.moves BalanceMessage.resultEvent
  rw [hmap _ _ (fun id => .insertOutboxEvent ⟨ids.outboxId,id,m.successTopic,m.resultPayload,false⟩)
    (h.balanceOf_id m.payer m.currency)]
  cases m with
  | depositPaidSuccess payload =>
    simp only
    rw [hmap _ _ (fun id => .addAmount id amount) (h.balanceOf_id payload.accountId payload.currency)]
  | transferInited payload =>
    simp only
    rw [hmap _ _ (fun id => .addAmount id (-amount))
        (h.balanceOf_id payload.fromAccountId payload.currency),
      hmap _ _ (fun id => .addAmount id amount)
        (h.balanceOf_id payload.toAccountId payload.currency)]

/-- The commits of a message change nothing up to the first that finds it unrecorded, and nothing
after. -/
theorem ownWrites_of_serial (hw : db₀.WellFormed) (hkey : recordsOf key db₀ = [])
    (h : Server.Serial (server true) db₀ log db)
    (hown : ∀ c ∈ log, (job c.session).2 = some key →
      c.body = (m.call key amount (ids c.session)).body)
    (hother : ∀ c ∈ log, c.body.Every (Stmt.Within (job c.session).2.toList)) :
    Later db₀ db ∧
    (((∀ c ∈ log, (job c.session).2 ≠ some key) ∧ recordsOf key db = []) ∨
      ∃ c ∈ log, (job c.session).2 = some key ∧
        ownWrites job key log = m.writes key amount (ids c.session) db₀ ∧
        recordsOf key db = [⟨(ids c.session).processedId,key,m.topic⟩]) := by
  induction h with
  | nil => exact ⟨Similar.refl _ _ _,.inl ⟨by simp,hkey⟩⟩
  | @snoc log db c _ alone ih =>
    obtain ⟨hlater,hcount⟩ :=
      ih (fun d hd => hown d (by simp [hd])) (fun d hd => hother d (by simp [hd]))
    refine ⟨hlater.applyAll c.writes,?_⟩
    have hwdb := hlater.wellFormed hw
    by_cases hc : (job c.session).2 = some key
    · rw [hown c (by simp) hc] at alone
      have hsplit : ownWrites job key (log++[c]) = ownWrites job key log++c.writes := by
        simp [ownWrites,hc]
      rcases hcount with ⟨hno,hnil⟩ | ⟨d,hd,hdk,hwr,hrec⟩
      · right
        refine ⟨c,by simp,hc,?_⟩
        have hnone : db.processed key = none := by
          rw [← Option.not_isSome_iff_eq_none]
          exact fun hs => hasKey_iff_recordsOf.mp hs hnil
        have hnil' : ownWrites job key log = [] := by
          have : log.filter (fun c => (job c.session).2 = some key) = [] := by
            rw [List.filter_eq_nil_iff]
            simpa using hno
          simp [ownWrites,this]
        have hwrites : c.writes = m.writes key amount (ids c.session) db := by
          by_cases hpay : m.payable amount db
          · rw [m.call_run_payable hwdb key amount (ids c.session) hnone hpay] at alone
            simp only [Except.ok.injEq,Prod.mk.injEq] at alone
            exact alone.2.symm
          · obtain ⟨e,he⟩ := m.call_run_refused hwdb key amount (ids c.session) hnone hpay
            rw [he] at alone
            contradiction
        refine ⟨by rw [hsplit,hnil',List.nil_append,hwrites,hlater.writes_eq],?_⟩
        rw [hwrites,recordsOf_writes,hnil]
        rfl
      · refine .inr ⟨d,by simp [hd],hdk,?_⟩
        have hsome : (db.processed key).isSome :=
          hasKey_iff_recordsOf.mpr (by rw [hrec]; simp)
        have hnil := m.call_run_writes hwdb key amount (ids c.session) hsome alone
        rw [hsplit,hnil,hwr]
        exact ⟨by simp,hrec⟩
    · have hkeep : recordsOf key ((server true).applyAll db c.writes) = recordsOf key db := by
        refine recordsOf_applyAll c.writes (fun hk => hc ?_)
        have hev := (hother c (by simp)).mono (Q := fun s => ∀ k ∈ (server true).inserts s,
          (job c.session).2 = some k) (fun s hs k hk => by simpa using hs.2 k (Stmt.inserts_keys hk))
        exact (lawful true).run_newKeys hev alone key hk
      have hsplit : ownWrites job key (log++[c]) = ownWrites job key log := by
        simp [ownWrites,hc]
      rw [hkeep,hsplit]
      refine hcount.imp (fun ⟨hno,hnil⟩ => ⟨fun d hd => ?_,hnil⟩)
        (fun ⟨d,hd,hrest⟩ => ⟨d,by simp [hd],hrest⟩)
      rcases List.mem_append.mp hd with hd | hd
      · exact hno d hd
      · simp only [List.mem_singleton] at hd
        exact hd ▸ hc

end Count
end NestHomework.UserService
