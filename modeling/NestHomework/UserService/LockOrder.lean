import Mathlib.Data.List.Sort
import NestHomework.Postgres.Handlers
import NestHomework.UserService.Accounts

/-! Deadlock freedom on the balances table. A body takes all its row locks with one statement and
later locks only rows that it holds, so only the order inside that statement matters. -/
namespace NestHomework.UserService
open Contracts Postgres

/-- Rows of one currency are ranked by their accounts. -/
def RankedByAccount {β : Type} [Preorder β] (rank : Uuid → β) (db : UserDb) : Prop :=
  ∀ b ∈ db.balances, ∀ c ∈ db.balances, b.currency = c.currency → b.accountId < c.accountId →
    rank b.id < rank c.id

theorem RankedByAccount.later {β : Type} [Preorder β] {rank : Uuid → β} {db db' : UserDb}
    (hr : RankedByAccount rank db) (hlater : Later db db') : RankedByAccount rank db' := by
  intro b hb c hcm hcur hacc
  obtain ⟨b',hb',hbe⟩ := hlater.mem hb
  obtain ⟨c',hc',hce⟩ := hlater.mem hcm
  have := hr b' hb' c' hc'
  simp only [Balance.frozen,Balance.mk.injEq] at hbe hce
  rw [hbe.1,hbe.2.2.1,hbe.2.2.2.1,hce.1,hce.2.2.1,hce.2.2.2.1] at this
  exact this hcur hacc

/-- A reset takes its locks in the order of the ranks. -/
def ResetInOrder {β : Type} [Preorder β] {ω T : Type} (rank : Uuid → β)
    (s : State Res UserDb Write Uuid Uuid Unit ω T) : SessionAction Uuid T → Prop
  | .start t plan => ∀ a k, s.session t = .active a → a.cur = .exec .updateAllBalances k →
      plan.Pairwise (fun x y => rank x.1 < rank y.1)
  | _ => True

def Stmt.locking : Stmt → Bool
  | .findFirstBalance _ _ => false
  | .findUniqueProcessedEvent _ => false
  | .createProcessedEvent _ => false
  | _ => true

/-- Every row that the body locks from here on is one of `H`, and it inserts at most one key. -/
def LocksIn (H : List Uuid) : Tx Stmt Res Unit → Prop
  | .pure _ => True
  | .throw _ => True
  | .exec s k =>
    (match s with
      | .updateBalance id _ => id ∈ H
      | .createOutboxEvent data => data.balanceId ∈ H
      | s => s.locking = false) ∧
    (s.inserts ≠ [] → ∀ r, (k r).Every (fun s => s.inserts = [])) ∧ ∀ r, LocksIn H (k r)

/-- The body locks rows with one statement, and from then on only the rows it then holds. It inserts
no key before. -/
def OneLock : Tx Stmt Res Unit → Prop
  | .pure _ => True
  | .throw _ => True
  | .exec (.selectBalanceForUpdate _ _) k => ∀ ids : List Uuid, LocksIn ids (k ids)
  | .exec (.selectBalancesForUpdate _ _) k => ∀ bs : List Balance, LocksIn (bs.map (·.id)) (k bs)
  | .exec .updateAllBalances k => ∀ r, LocksIn [] (k r)
  | .exec (.createOutboxEvent _) k => ∀ r, LocksIn [] (k r)
  | .exec (.updateBalance _ _) _ => False
  | .exec (.findFirstBalance _ _) k => ∀ r, OneLock (k r)
  | .exec (.findUniqueProcessedEvent _) k => ∀ r, OneLock (k r)
  | .exec (.createProcessedEvent _) _ => False

def OneLockProc {ω : Type} : Proc Stmt Res Unit ω → Prop
  | .done _ => True
  | .transaction body next => OneLock body ∧ ∀ r, OneLockProc (next r)

theorem deposit_oneLock (idempotencyKey : Uuid) (currency : String) (amount : ℤ)
    (accountId transactionId eventId processedId outboxId : Uuid) :
    OneLock (depositAndCreateOutboxEvent idempotencyKey currency amount accountId transactionId
      eventId processedId outboxId) := by
  rw [depositAndCreateOutboxEvent_eq]
  rintro (_ | ⟨balance,ids⟩)
  · trivial
  · refine ⟨rfl,fun h => absurd rfl h,?_⟩
    rintro (_ | e)
    · refine ⟨by simp,fun h => absurd rfl h,fun _ => ⟨rfl,fun _ _ => ⟨rfl,fun _ => trivial⟩,
        fun _ => ⟨by simp,fun h => absurd rfl h,fun _ => trivial⟩⟩⟩
    · trivial

theorem transfer_oneLock (idempotencyKey fromAccountId toAccountId : Uuid) (currency : String)
    (amount : ℤ) (eventId outId inId processedId outboxId : Uuid) :
    OneLock (transferAndCreateOutboxEvent idempotencyKey fromAccountId toAccountId currency amount
      eventId outId inId processedId outboxId) := by
  rw [transferAndCreateOutboxEvent_eq]
  rintro (_ | e)
  · intro (balances : List Balance)
    rcases transferSelected_cases idempotencyKey fromAccountId toAccountId amount eventId outId
      inId processedId outboxId balances with ⟨e,h⟩ | ⟨sender,receiver,hs,hr,-,-,-,-,h⟩
    · rw [h]
      trivial
    · rw [h]
      have hs' := List.mem_map_of_mem (f := (·.id)) (List.mem_of_find?_eq_some hs)
      have hr' := List.mem_map_of_mem (f := (·.id)) (List.mem_of_find?_eq_some hr)
      refine ⟨hs',fun h => absurd rfl h,fun _ => ⟨hr',fun h => absurd rfl h,fun _ =>
        ⟨rfl,fun _ _ => ⟨rfl,fun _ => trivial⟩,fun _ => ⟨hs',fun h => absurd rfl h,
          fun _ => trivial⟩⟩⟩⟩
  · trivial

theorem createOutboxEvent_oneLock (accountId : Uuid) (currency : String) (topic : KafkaTopic)
    (payload : Payload) (outboxId : Uuid) :
    OneLock (createOutboxEvent accountId currency topic payload outboxId) := by
  rw [createOutboxEvent_eq]
  rintro (_ | balance)
  · trivial
  · exact fun _ => trivial

theorem BalanceCall.oneLock (c : BalanceCall) : OneLock c.body := by
  cases c with
  | deposit => exact deposit_oneLock _ _ _ _ _ _ _ _
  | transfer => exact transfer_oneLock _ _ _ _ _ _ _ _ _ _
  | createOutboxEvent => exact createOutboxEvent_oneLock _ _ _ _ _
  | reset => exact fun _ => trivial

section Plans
variable {db : UserDb} {β : Type} [Preorder β] {rank : Uuid → β}

/-- `ORDER BY account_id` is a strict order on the rows of one currency. -/
theorem orderByAccount_pairwise (hw : db.WellFormed) (hr : RankedByAccount rank db)
    (accountIds : List Uuid) (currency : String) :
    (orderByAccount (db.ofAccounts accountIds currency)).Pairwise
      (fun b c => rank b.id < rank c.id) := by
  have hsub : (db.ofAccounts accountIds currency).Sublist db.balances := List.filter_sublist
  have hperm : (orderByAccount (db.ofAccounts accountIds currency)).Perm
      (db.ofAccounts accountIds currency) := List.perm_insertionSort _ _
  have hmem : ∀ b ∈ orderByAccount (db.ofAccounts accountIds currency),
      b ∈ db.balances ∧ b.currency = currency := by
    intro b hb
    have := List.mem_filter.mp (hperm.mem_iff.mp hb)
    simp only [Bool.and_eq_true,decide_eq_true_eq] at this
    exact ⟨this.1,this.2.2⟩
  have hne : (orderByAccount (db.ofAccounts accountIds currency)).Pairwise
      (fun b c => (b.accountId,b.currency) ≠ (c.accountId,c.currency)) := by
    have := (hperm.map (fun b => (b.accountId,b.currency))).nodup_iff.mpr
      (hw.accounts.sublist (hsub.map _))
    exact List.pairwise_map.mp this
  have hle : (orderByAccount (db.ofAccounts accountIds currency)).Pairwise
      (fun b c => b.accountId ≤ c.accountId) := List.pairwise_insertionSort _ _
  refine (hle.and hne).imp_of_mem (fun {b c} hb hc h => ?_)
  obtain ⟨hbm,hbc⟩ := hmem b hb
  obtain ⟨hcm,hcc⟩ := hmem c hc
  refine hr b hbm c hcm (hbc.trans hcc.symm) (lt_of_le_of_ne h.1 (fun he => h.2 ?_))
  rw [he,hbc,hcc]

/-- The first locking statement of a body takes its locks in the order of the ranks. -/
theorem plan_pairwise (hw : db.WellFormed) (hr : RankedByAccount rank db) {st : Stmt}
    {k : Res st → Tx Stmt Res Unit} (hone : OneLock (.exec st k))
    {plan : List (Uuid × RowLock)} (hp : st.plans db plan)
    (hreset : st = .updateAllBalances → plan.Pairwise (fun x y => rank x.1 < rank y.1)) :
    plan.Pairwise (fun x y => rank x.1 < rank y.1) ∧ (plan ≠ [] → st.locking) := by
  cases st with
  | selectBalanceForUpdate a c =>
    have hlen := (List.isPerm_iff.mp hp).length_eq
    rw [List.length_map,Stmt.rows,List.length_map] at hlen
    have hle := ofAccounts_length_le_one hw a c
    refine ⟨?_,fun _ => rfl⟩
    rcases plan with _ | ⟨x,_ | ⟨y,plan⟩⟩
    · exact .nil
    · exact List.pairwise_singleton _ _
    · simp only [List.length_cons] at hlen
      omega
  | selectBalancesForUpdate as c =>
    have hp := of_decide_eq_true hp
    simp only [Stmt.rows] at hp
    subst hp
    refine ⟨?_,fun _ => rfl⟩
    rw [List.pairwise_map,List.pairwise_map]
    exact orderByAccount_pairwise hw hr as c
  | updateAllBalances => exact ⟨hreset rfl,fun _ => rfl⟩
  | createOutboxEvent data =>
    simp only [Stmt.plans,decide_eq_true_eq] at hp
    subst hp
    refine ⟨?_,fun _ => rfl⟩
    split
    · exact List.pairwise_singleton _ _
    · exact .nil
  | updateBalance id x => exact hone.elim
  | createProcessedEvent data => exact hone.elim
  | _ =>
    simp only [Stmt.plans,decide_eq_true_eq] at hp
    subst hp
    exact ⟨.nil,fun h => absurd rfl h⟩

/-- After its locking statement a body plans no lock outside the rows it holds. -/
theorem plan_locksIn {H : List Uuid} {st : Stmt} {k : Res st → Tx Stmt Res Unit}
    (hin : LocksIn H (.exec st k)) {plan : List (Uuid × RowLock)} (hp : st.plans db plan) :
    ∀ x ∈ plan, x.1 ∈ H ∧ x.2 ≠ .update ∧ x.2 ≠ .share := by
  obtain ⟨hst,-⟩ := hin
  cases st with
  | updateBalance id x =>
    have hp := of_decide_eq_true hp
    simp only [Stmt.rows] at hp
    subst hp
    split
    · simpa using hst
    · simp
  | createOutboxEvent data =>
    simp only [Stmt.plans,decide_eq_true_eq] at hp
    subst hp
    split
    · simpa using hst
    · simp
  | selectBalanceForUpdate => simp [Stmt.locking] at hst
  | selectBalancesForUpdate => simp [Stmt.locking] at hst
  | updateAllBalances => simp [Stmt.locking] at hst
  | _ =>
    simp only [Stmt.plans,decide_eq_true_eq] at hp
    subst hp
    simp

end Plans

section Discipline
variable {ω T : Type} [DecidableEq T] {β : Type} [Preorder β]
  {rank : Uuid → β} {check : Bool} {db₀ : UserDb} {s s' : State Res UserDb Write Uuid Uuid Unit ω T}
  {t : T} {a : Active Res Write Uuid Unit ω}

/-- A session that still has its locking statement ahead, or is taking its locks in order. -/
structure Climbing (rank : Uuid → β) (held : List (T × Uuid × RowLock)) (entries : List (T × Uuid))
    (t : T) (a : Active Res Write Uuid Unit ω) : Prop where
  oneLock : OneLock a.cur
  keys : ∀ q, (t,q) ∉ entries
  locking : ∀ q n, (t,q,n) ∈ held → a.plan ≠ none ∧ ∃ st k, a.cur = .exec st k ∧ st.locking
  plan : ∀ plan, a.plan = some plan → plan.Pairwise (fun x y => rank x.1 < rank y.1) ∧
    (plan ≠ [] → ∃ st k, a.cur = .exec st k ∧ st.locking) ∧
    ∀ q n, (t,q,n) ∈ held → ∀ x ∈ plan, rank q < rank x.1

/-- A session that holds every row it will still ask for. -/
structure Settled (held : List (T × Uuid × RowLock)) (entries : List (T × Uuid)) (t : T)
    (a : Active Res Write Uuid Unit ω) (H : List Uuid) : Prop where
  locksIn : LocksIn H a.cur
  keys : ∀ q, (t,q) ∈ entries → a.cur.Every (fun s => s.inserts = [])
  owns : ∀ r ∈ H, ∃ m, (t,r,m) ∈ held ∧ m.exclusive
  plan : ∀ plan, a.plan = some plan → ∀ x ∈ plan, x.1 ∈ H ∧ x.2 ≠ .update ∧ x.2 ≠ .share

/-- Where a transaction in progress stands with its locks. -/
def Disciplined (rank : Uuid → β) (held : List (T × Uuid × RowLock)) (entries : List (T × Uuid))
    (t : T) (a : Active Res Write Uuid Unit ω) : Prop :=
  Climbing rank held entries t a ∨ ∃ H, Settled held entries t a H

omit [DecidableEq T] in
theorem Disciplined.congr {held held' : List (T × Uuid × RowLock)} {entries entries' : List (T × Uuid)}
    (h : Disciplined rank held entries t a) (hh : ∀ q n, (t,q,n) ∈ held' ↔ (t,q,n) ∈ held)
    (he : ∀ q, (t,q) ∈ entries' ↔ (t,q) ∈ entries) : Disciplined rank held' entries' t a := by
  refine h.imp (fun hc => ?_) (fun ⟨H,hs⟩ => ⟨H,hs.locksIn,fun q hq => hs.keys q ((he q).mp hq),
    fun r hr => ?_,hs.plan⟩)
  · exact ⟨hc.oneLock,fun q hq => hc.keys q ((he q).mp hq),
      fun q n hq => hc.locking q n ((hh q n).mp hq),fun p hp => ⟨(hc.plan p hp).1,
      (hc.plan p hp).2.1,fun q n hq => (hc.plan p hp).2.2 q n ((hh q n).mp hq)⟩⟩
  · obtain ⟨m,hm,he⟩ := hs.owns r hr
    exact ⟨m,(hh r m).mpr hm,he⟩

structure Discipline (rank : Uuid → β) (db₀ : UserDb)
    (s : State Res UserDb Write Uuid Uuid Unit ω T) : Prop where
  later : Later db₀ s.db
  exclusive : s.Exclusive
  idle : ∀ t p, s.session t = .idle p → OneLockProc p ∧ (∀ q n, (t,q,n) ∉ s.held) ∧
    ∀ q, (t,q) ∉ s.entries
  active : ∀ t a, s.session t = .active a →
    (∀ r, OneLockProc (a.next r)) ∧ Disciplined rank s.held s.entries t a

theorem Discipline.ordered (h : Discipline rank db₀ s) : s.Ordered rank := by
  intro t a r m plan ha hp
  rcases (h.active t a ha).2 with hc | ⟨H,hs⟩
  · exact .inl (fun q n hq => (hc.plan _ hp).2.2 q n hq (r,m) (by simp))
  · obtain ⟨hr,hm⟩ := hs.plan _ hp (r,m) (by simp)
    exact .inr ⟨State.owns_iff.mpr (hs.owns r hr),hm⟩

/-- Who holds an index entry waits for nobody: it owns its rows and inserts no other entry. -/
theorem Discipline.not_waits (h : Discipline rank db₀ s) {t u v : T}
    (hk : State.WaitsForKey (server check) s t u) :
    ¬s.WaitsForRow u v ∧ ¬State.WaitsForKey (server check) s u v := by
  obtain ⟨-,-,-,q,-,-,-,-,hq,-⟩ := hk
  cases hu : s.session u with
  | idle p => exact absurd hq ((h.idle u p hu).2.2 q)
  | active b =>
    rcases (h.active u b hu).2 with hc | ⟨H,hs⟩
    · exact absurd hq (hc.keys q)
    · constructor
      · refine State.not_waitsForRow_of_owns h.exclusive (fun a r m plan ha hp => ?_)
        rw [hu] at ha
        cases ha
        obtain ⟨hr,hm⟩ := hs.plan _ hp (r,m) (by simp)
        exact ⟨State.owns_iff.mpr (hs.owns r hr),hm⟩
      · rintro ⟨a,st,k,q',ha,hc,-,hq',-,-⟩
        rw [hu] at ha
        cases ha
        have hnone := hs.keys q hq
        rw [hc] at hnone
        rw [server_inserts,hnone.1] at hq'
        contradiction

theorem Discipline.not_deadlocked (h : Discipline rank db₀ s) (t : T) :
    ¬State.Deadlocked (server check) s t :=
  State.not_deadlocked rank h.exclusive h.ordered (fun _ _ _ hk => h.not_waits hk) t

/-- A step of `t` inside its transaction, which may extend the lock table for `t`. -/
theorem Discipline.setActive (h : Discipline rank db₀ s) (hdb : s'.db = s.db)
    (hx : s'.Exclusive) (hses : s'.session = s.session)
    (hheld : ∀ v, v ≠ t → ∀ q n, (v,q,n) ∈ s'.held ↔ (v,q,n) ∈ s.held)
    (hentries : ∀ v, v ≠ t → ∀ q, (v,q) ∈ s'.entries ↔ (v,q) ∈ s.entries)
    (hn : ∀ r, OneLockProc (a.next r)) (ha : Disciplined rank s'.held s'.entries t a) :
    Discipline rank db₀ (s'.setActive t a) := by
  refine ⟨hdb ▸ h.later,hx,fun v p hp => ?_,fun v b hb => ?_⟩
  · rw [State.setActive_session,hses] at hp
    split at hp
    · contradiction
    · rename_i hne
      obtain ⟨h1,h2,h3⟩ := h.idle v p hp
      exact ⟨h1,fun q n hq => h2 q n ((hheld v hne q n).mp hq),
        fun q hq => h3 q ((hentries v hne q).mp hq)⟩
  · rw [State.setActive_session,hses] at hb
    split at hb
    · rename_i heq
      subst heq
      cases hb
      exact ⟨hn,ha⟩
    · rename_i hne
      obtain ⟨h1,h2⟩ := h.active v b hb
      exact ⟨h1,h2.congr (hheld v hne) (hentries v hne)⟩

/-- The end of a transaction of `t`. -/
theorem Discipline.finish (h : Discipline rank db₀ s) {rest : Proc Stmt Res Unit ω}
    (hr : OneLockProc rest) : Discipline rank db₀ (s.finish t rest) := by
  refine ⟨h.later,h.exclusive.finish t rest,fun v p hp => ?_,fun v b hb => ?_⟩
  · rw [State.finish_session] at hp
    simp only [State.finish_held,State.finish_entries,List.mem_filter,decide_eq_true_eq]
    split at hp
    · rename_i heq
      cases hp
      exact ⟨hr,fun q n hq => hq.2 heq,fun q hq => hq.2 heq⟩
    · obtain ⟨h1,h2,h3⟩ := h.idle v p hp
      exact ⟨h1,fun q n hq => h2 q n hq.1,fun q hq => h3 q hq.1⟩
  · rw [State.finish_session] at hb
    split at hb
    · contradiction
    · rename_i hne
      obtain ⟨h1,h2⟩ := h.active v b hb
      exact ⟨h1,h2.congr (fun q n => by simp [hne]) (fun q => by simp [hne])⟩

omit [DecidableEq T] in
theorem OneLock.inserts_eq {st : Stmt} {k : Res st → Tx Stmt Res Unit} (h : OneLock (.exec st k)) :
    st.inserts = [] := by
  cases st with
  | createProcessedEvent data => exact h.elim
  | _ => rfl

omit [DecidableEq T] in
theorem OneLock.afterExec {st : Stmt} {k : Res st → Tx Stmt Res Unit}
    (h : OneLock (.exec st k)) {db : UserDb} {r : Res st} {ws : List Write}
    (he : st.exec check db = .ok (r,ws)) :
    (st.locking = false ∧ OneLock (k r)) ∨ ∃ H, LocksIn H (k r) ∧ ∀ i ∈ H, i ∈ st.rows db := by
  cases st with
  | selectBalanceForUpdate a c =>
    simp only [Stmt.exec,Except.ok.injEq,Prod.mk.injEq] at he
    exact .inr ⟨r,h r,fun i hi => by rw [← he.1] at hi; exact hi⟩
  | selectBalancesForUpdate as c =>
    simp only [Stmt.exec,Except.ok.injEq,Prod.mk.injEq] at he
    exact .inr ⟨_,h r,fun i hi => by rw [← he.1] at hi; exact hi⟩
  | updateAllBalances => exact .inr ⟨[],h r,by simp⟩
  | createOutboxEvent data => exact .inr ⟨[],h r,by simp⟩
  | updateBalance id x => exact h.elim
  | findFirstBalance a c => exact .inl ⟨rfl,h r⟩
  | findUniqueProcessedEvent key => exact .inl ⟨rfl,h r⟩
  | createProcessedEvent data => exact h.elim

theorem Discipline.next (hw : db₀.WellFormed) (hr : RankedByAccount rank db₀)
    (h : Discipline rank db₀ s) {act : SessionAction Uuid T} (hgood : ResetInOrder rank s act)
    (hs : (server check).next s act = some s') : Discipline rank db₀ s' := by
  cases act with
  | «begin» t =>
    obtain ⟨body,next,hi,rfl⟩ := Server.next_begin hs
    obtain ⟨⟨hb,hn⟩,hh,he⟩ := h.idle t _ hi
    refine h.setActive rfl h.exclusive rfl (fun _ _ _ _ => Iff.rfl) (fun _ _ _ => Iff.rfl) hn
      (.inl ⟨hb,he,?_,?_⟩)
    · exact fun q n hq => absurd hq (hh q n)
    · intro plan hp
      contradiction
  | start t plan =>
    obtain ⟨a,st,k,ha,hc,hp,hplan,rfl⟩ := Server.next_start hs
    obtain ⟨hn,hd⟩ := h.active t a ha
    have hlater : Later db₀ ((server check).view s.db a) := h.later.applyAll a.pending
    have hrank : RankedByAccount rank ((server check).view s.db a) := hr.later hlater
    refine h.setActive rfl h.exclusive rfl (fun _ _ _ _ => Iff.rfl) (fun _ _ _ => Iff.rfl) hn ?_
    rcases hd with hcl | ⟨H,hse⟩
    · have hempty : ∀ q n, (t,q,n) ∉ s.held := fun q n hq => (hcl.locking q n hq).1 hp
      have hone := hcl.oneLock
      rw [hc] at hone
      obtain ⟨hpw,hlk⟩ := plan_pairwise (hlater.wellFormed hw) hrank hone hplan
        (fun hst => by subst hst; exact hgood a k ha hc)
      refine .inl ⟨hcl.oneLock,hcl.keys,fun q n hq => absurd hq (hempty q n),fun p hp' => ?_⟩
      cases hp'
      exact ⟨hpw,fun hne => ⟨st,k,hc,hlk hne⟩,fun q n hq => absurd hq (hempty q n)⟩
    · have hin := hse.locksIn
      rw [hc] at hin
      refine .inr ⟨H,hse.locksIn,hse.keys,hse.owns,fun p hp' => ?_⟩
      cases hp'
      exact plan_locksIn hin hplan
  | lock t =>
    obtain ⟨a,r,m,plan,ha,hp,hf,rfl⟩ := Server.next_lock hs
    obtain ⟨hn,hd⟩ := h.active t a ha
    refine h.setActive rfl (h.exclusive.takeLock hf) rfl (fun v hv q n => by simp [hv])
      (fun _ _ _ => Iff.rfl) hn ?_
    rcases hd with hcl | ⟨H,hse⟩
    · obtain ⟨hpw,hlk,hlt⟩ := hcl.plan _ hp
      rw [List.pairwise_cons] at hpw
      refine .inl ⟨hcl.oneLock,hcl.keys,fun q n _ => ⟨by simp,hlk (by simp)⟩,fun p hp' => ?_⟩
      cases hp'
      refine ⟨hpw.2,fun _ => hlk (by simp),fun q n hq x hx => ?_⟩
      simp only [State.takeLock_held,List.mem_append,List.mem_singleton,Prod.mk.injEq] at hq
      rcases hq with hq | ⟨-,rfl,rfl⟩
      · exact hlt q n hq x (by simp [hx])
      · exact hpw.1 x hx
    · refine .inr ⟨H,hse.locksIn,hse.keys,fun q hq => ?_,fun p hp' x hx => ?_⟩
      · obtain ⟨n,hn,he⟩ := hse.owns q hq
        exact ⟨n,by simp [hn],he⟩
      · cases hp'
        exact hse.plan _ hp x (by simp [hx])
  | exec t =>
    obtain ⟨a,st,k,ha,hc,hp,hrows,-,⟨r,ws,he,rfl⟩ | ⟨e,-,rfl⟩⟩ := Server.next_exec hs
    · obtain ⟨hn,hd⟩ := h.active t a ha
      refine h.setActive rfl h.exclusive rfl (fun _ _ _ _ => Iff.rfl)
        (fun v hv q => by simp [Ne.symm hv]) hn ?_
      rcases hd with hcl | ⟨H,hse⟩
      · have hone := hcl.oneLock
        rw [hc] at hone
        have hnew : ∀ q, (t,q) ∉ s.entries++(st.inserts).map (fun k => (t,k)) := by
          intro q hq
          rcases List.mem_append.mp hq with hq | hq
          · exact hcl.keys q hq
          · rw [hone.inserts_eq] at hq
            contradiction
        rcases hone.afterExec he with ⟨hnl,hk⟩ | ⟨H,hk,hH⟩
        · refine .inl ⟨hk,hnew,fun q n hq => ?_,fun p hp' => by contradiction⟩
          obtain ⟨-,st',k',hc',hl'⟩ := hcl.locking q n hq
          rw [hc] at hc'
          cases hc'
          rw [hnl] at hl'
          contradiction
        · exact .inr ⟨H,hk,fun q hq => absurd hq (hnew q),
            fun i hi => State.owns_iff.mp (hrows i (hH i hi)),fun p hp' => by contradiction⟩
      · have hin := hse.locksIn
        rw [hc] at hin
        refine .inr ⟨H,hin.2.2 r,fun q hq => ?_,hse.owns,fun p hp' => by contradiction⟩
        rcases List.mem_append.mp hq with hq | hq
        · have hev := hse.keys q hq
          rw [hc] at hev
          exact hev.2 r
        · refine hin.2.1 (fun hnil => ?_) r
          rw [server_inserts,hnil] at hq
          contradiction
    · exact h.finish ((h.active t a ha).1 _)
  | commit t =>
    obtain ⟨a,x,ha,-,rfl⟩ := Server.next_commit hs
    have h' : Discipline rank db₀ (s.record ((server check).view s.db a) ⟨t,a.body,x,a.pending⟩) :=
      ⟨h.later.applyAll a.pending,h.exclusive,h.idle,h.active⟩
    exact h'.finish ((h.active t a ha).1 _)
  | rollback t =>
    obtain ⟨a,e,ha,-,rfl⟩ := Server.next_rollback hs
    exact h.finish ((h.active t a ha).1 _)
  | abort t =>
    obtain ⟨a,ha,rfl⟩ := Server.next_abort hs
    exact h.finish ((h.active t a ha).1 _)

omit [DecidableEq T] in
theorem Discipline.initial {handler : T → Proc Stmt Res Unit ω}
    (ho : ∀ t, OneLockProc (handler t)) :
    Discipline rank db₀ (Server.initial db₀ handler : State Res UserDb Write Uuid Uuid Unit ω T) where
  later := Similar.refl _ _ _
  exclusive _ _ _ _ _ h := by simp [Server.initial] at h
  idle t p hp := by
    cases hp
    exact ⟨ho t,by simp [Server.initial],by simp [Server.initial]⟩
  active t a ha := by contradiction

/-- Handlers whose bodies lock once never wait for each other in a cycle, as long as resets lock
in one order of the rows that goes by account within a currency. -/
theorem no_row_deadlock (hw : db₀.WellFormed) (hr : RankedByAccount rank db₀)
    {handler : T → Proc Stmt Res Unit ω} (ho : ∀ t, OneLockProc (handler t))
    {schedule : List (SessionAction Uuid T)}
    (hgood : Transition.Along (server check).next (ResetInOrder rank)
      (Server.initial db₀ handler) schedule)
    (hs : Transition.runs (server check).next (Server.initial db₀ handler) schedule = some s)
    (t : T) : ¬Relation.TransGen s.WaitsForRow t t := by
  have h : Discipline rank db₀ s := Transition.runs_invariant (I := Discipline rank db₀)
    (fun _ _ _ hi hg hn => hi.next hw hr hg hn) (Discipline.initial ho) hgood hs
  exact State.not_transGen_waitsForRow rank h.exclusive h.ordered t

end Discipline

/-- Balance transactions never wait for row locks in a cycle when the resets among them take their
locks in one order of the rows that goes by account within a currency. -/
theorem balance_transactions_deadlock_free (check : Bool) {T : Type} [DecidableEq T] {β : Type}
    [Preorder β] (rank : Uuid → β) (call : T → BalanceCall) (db : UserDb) (hw : db.WellFormed)
    (hr : RankedByAccount rank db) (schedule : List (SessionAction Uuid T))
    (hgood : Transition.Along (server check).next (ResetInOrder rank)
      (Server.initial db (fun t => .transaction (call t).body (.done (ω := Except String Unit))))
      schedule)
    (s : State Res UserDb Write Uuid Uuid Unit (Except String Unit) T)
    (hs : Transition.runs (server check).next
      (Server.initial db (fun t => .transaction (call t).body .done)) schedule = some s) (t : T) :
    ¬Relation.TransGen s.WaitsForRow t t :=
  have hone : ∀ t, OneLockProc (.transaction (call t).body .done : Proc Stmt Res Unit
      (Except String Unit)) := fun t => ⟨(call t).oneLock,fun _ => trivial⟩
  no_row_deadlock hw hr hone hgood hs t

/-- A reset that waits behind a transfer, and locks in its order. -/
theorem balance_transactions_deadlock_free_behind :
    ∃ s : State Res UserDb Write Uuid Uuid Unit (Except String Unit) Bool,
      (server true).Reachable ⟨[⟨1,50,"RUB",10,none⟩,⟨2,0,"RUB",20,none⟩],[],[]⟩
        (fun t => .transaction (bif t then BalanceCall.transfer 5 10 20 "RUB" 40 60 61 62 63 64
          else .reset).body .done) s ∧
      s.WaitsForRow false true ∧ ∀ t, ¬Relation.TransGen s.WaitsForRow t t := by
  let call : Bool → BalanceCall := fun t => bif t then .transfer 5 10 20 "RUB" 40 60 61 62 63 64
    else .reset
  let db : UserDb := ⟨[⟨1,50,"RUB",10,none⟩,⟨2,0,"RUB",20,none⟩],[],[]⟩
  let start : State Res UserDb Write Uuid Uuid Unit (Except String Unit) Bool :=
    Server.initial db (fun t => .transaction (call t).body .done)
  let schedule : List (SessionAction Uuid Bool) :=
    [.begin true,.begin false,.start true [],.exec true,.start true [(1,.update),(2,.update)],
      .lock true,.start false [(1,.noKeyUpdate),(2,.noKeyUpdate)]]
  have hwait : (Transition.runs (server true).next start schedule).map
      (fun s => s.waitsForRow false true) = some true := by decide
  have hplans : ∀ a ∈ schedule, ∀ s : State Res UserDb Write Uuid Uuid Unit (Except String Unit) Bool,
      ResetInOrder id s a := by
    intro a ha s
    simp only [schedule,List.mem_cons,List.not_mem_nil,or_false] at ha
    rcases ha with rfl | rfl | rfl | rfl | rfl | rfl | rfl
    all_goals first | trivial | exact fun _ _ _ _ => by decide
  obtain ⟨s,hs,hw⟩ := Option.map_eq_some_iff.mp hwait
  refine ⟨s,⟨schedule,hs⟩,State.waitsForRow_iff.mp hw,?_⟩
  exact balance_transactions_deadlock_free true id call db ⟨by decide,by decide⟩
    (by unfold RankedByAccount; decide) schedule (.of_forall hplans start) s hs

/-- A reset that locks against the order of the accounts and a transfer wait for each other. -/
theorem reset_deadlocks_transfer :
    ∃ s : State Res UserDb Write Uuid Uuid Unit (Except String Unit) Bool,
      (server true).Reachable ⟨[⟨1,50,"RUB",10,none⟩,⟨2,0,"RUB",20,none⟩],[],[]⟩
        (fun t => .transaction (bif t then BalanceCall.transfer 5 10 20 "RUB" 40 60 61 62 63 64
          else .reset).body .done) s ∧
      Relation.TransGen s.WaitsForRow true true := by
  let call : Bool → BalanceCall := fun t => bif t then .transfer 5 10 20 "RUB" 40 60 61 62 63 64
    else .reset
  let start : State Res UserDb Write Uuid Uuid Unit (Except String Unit) Bool :=
    Server.initial ⟨[⟨1,50,"RUB",10,none⟩,⟨2,0,"RUB",20,none⟩],[],[]⟩
      (fun t => .transaction (call t).body .done)
  let schedule : List (SessionAction Uuid Bool) :=
    [.begin true,.begin false,.start true [],.exec true,.start true [(1,.update),(2,.update)],
      .lock true,.start false [(2,.noKeyUpdate),(1,.noKeyUpdate)],.lock false]
  have hwait : (Transition.runs (server true).next start schedule).map
      (fun s => (s.waitsForRow true false,s.waitsForRow false true)) = some (true,true) := by decide
  obtain ⟨s,hs,hw⟩ := Option.map_eq_some_iff.mp hwait
  obtain ⟨h1,h2⟩ := Prod.mk.inj hw
  exact ⟨s,⟨schedule,hs⟩,.tail (.single (State.waitsForRow_iff.mp h1))
    (State.waitsForRow_iff.mp h2)⟩

end NestHomework.UserService
