import Mathlib.Data.List.Perm.Basic
import NestHomework.Postgres.Handlers

/-! What a session may rely on while others run. A row that it holds for writing is not written by
anybody else, and an index entry that it has uncommitted is not committed by anybody else. What it
has learned from its answers stays true until its transaction ends. -/
namespace NestHomework.Postgres
variable {Stmt : Type} {Res : Stmt → Type} {DB Write Row Key ρ ω T : Type}

/-- What the statements of a server write, whatever they answer. `rows` are the rows that a write
changes, `entries` those that it adds to the unique index. -/
structure Footprint (S : Server Stmt Res DB Write Row Key) where
  writes : Stmt → List Write
  rows : Write → List Row
  entries : Write → List Key
  index : DB → List Key
  exec_writes : ∀ {st db r ws}, S.exec st db = .ok (r,ws) → ws = writes st
  exec_unique : ∀ {st db r ws}, S.exec st db = .ok (r,ws) → (index db).Nodup →
    (index (S.applyAll db ws)).Nodup
  inserts_eq : ∀ st, S.inserts st = (writes st).flatMap entries
  index_apply : ∀ db w, (index (S.apply db w)).Perm (index db++entries w)

section Footprint
variable {S : Server Stmt Res DB Write Row Key} (F : Footprint S)

theorem Footprint.index_applyAll (db : DB) (ws : List Write) :
    (F.index (S.applyAll db ws)).Perm (F.index db++ws.flatMap F.entries) := by
  induction ws generalizing db with
  | nil => simp
  | cons w ws ih =>
    rw [Engine.applyAll_cons,List.flatMap_cons,← List.append_assoc]
    exact (ih _).trans ((F.index_apply db w).append_right _)

theorem Footprint.nodup_applyAll {db : DB} {ws : List Write} :
    (F.index (S.applyAll db ws)).Nodup ↔ (F.index db).Nodup ∧ (ws.flatMap F.entries).Nodup ∧
      ∀ k ∈ ws.flatMap F.entries, k ∉ F.index db := by
  rw [(F.index_applyAll db ws).nodup_iff,List.nodup_append]
  refine and_congr_right fun _ => and_congr_right fun _ => ⟨fun h k hk hi => ?_,?_⟩
  · exact h k hi k hk rfl
  · rintro h k hi _ hk rfl
    exact h k hk hi

/-- What holds of the tables of a server and of the transactions in progress. -/
structure Isolated [DecidableEq T] [DecidableEq Row] (s : State Res DB Write Row Key ρ ω T) :
    Prop where
  exclusive : s.Exclusive
  sole : ∀ t u k, (t,k) ∈ s.entries → (u,k) ∈ s.entries → t = u
  fresh : ∀ t k, (t,k) ∈ s.entries → k ∉ F.index s.db
  unique : (F.index s.db).Nodup
  pending : ∀ t a, s.session t = .active a → a.pending = a.answered.flatMap (fun x => F.writes x.1)
  view : ∀ t a, s.session t = .active a → (F.index (S.view s.db a)).Nodup
  claimed : ∀ t a, s.session t = .active a → ∀ k ∈ a.pending.flatMap F.entries, (t,k) ∈ s.entries
  owned : ∀ t a, s.session t = .active a → ∀ r ∈ a.pending.flatMap F.rows, s.owns t r

/-- A statement changes only rows that it locks. -/
def Footprint.Covers (s : State Res DB Write Row Key ρ ω T) : Prop :=
  ∀ t a st k r ws, s.session t = .active a → a.cur = .exec st k →
    S.exec st (S.view s.db a) = .ok (r,ws) →
    ∀ q ∈ (F.writes st).flatMap F.rows, q ∈ S.reads st (S.view s.db a)

end Footprint

namespace Isolated
variable {S : Server Stmt Res DB Write Row Key} {F : Footprint S} [DecidableEq T] [DecidableEq Row]
  {s s' : State Res DB Write Row Key ρ ω T} {t u : T} {a : Active Res Write Row ρ ω}

/-- Nobody else owns a row that a transaction in progress has written. -/
theorem not_owns (h : Isolated F s) (ha : s.session t = .active a) (hne : u ≠ t) {r : Row}
    (hr : r ∈ a.pending.flatMap F.rows) : ¬s.owns u r := by
  intro hu
  obtain ⟨m,hm,hx⟩ := State.owns_iff.mp (h.owned t a ha r hr)
  obtain ⟨n,hn,hy⟩ := State.owns_iff.mp hu
  have hcf := h.exclusive u t r n m hn hm hne
  rw [RowLock.conflicts_of_exclusive hy hx] at hcf
  contradiction

theorem setActive (h : Isolated F s)
    (hp : a.pending = a.answered.flatMap (fun x => F.writes x.1))
    (hv : (F.index (S.view s.db a)).Nodup)
    (hc : ∀ k ∈ a.pending.flatMap F.entries, (t,k) ∈ s.entries)
    (ho : ∀ r ∈ a.pending.flatMap F.rows, s.owns t r) : Isolated F (s.setActive t a) := by
  refine ⟨h.exclusive,h.sole,h.fresh,h.unique,?_,?_,?_,?_⟩
  all_goals
    intro u b hb
    rw [State.setActive_session] at hb
    split at hb
    · rename_i heq
      subst heq
      cases hb
      first | exact hp | exact hv | exact hc | exact ho
  · exact h.pending u b hb
  · exact h.view u b hb
  · exact h.claimed u b hb
  · exact h.owned u b hb

theorem takeLock (h : Isolated F s) {r : Row} {m : RowLock} (hf : s.free t r m) :
    Isolated F (s.takeLock t r m) := by
  refine ⟨h.exclusive.takeLock hf,h.sole,h.fresh,h.unique,h.pending,h.view,h.claimed,?_⟩
  intro u b hb q hq
  obtain ⟨n,hn,hx⟩ := State.owns_iff.mp (h.owned u b hb q hq)
  exact State.owns_iff.mpr ⟨n,List.mem_append_left _ hn,hx⟩

theorem claim [DecidableEq Key] (h : Isolated F s) {ks : List Key}
    (hu : ∀ k ∈ ks, s.unclaimed t k) (hf : ∀ k ∈ ks, k ∉ F.index s.db) :
    Isolated F (s.claim t ks) := by
  have hmem : ∀ u k, (u,k) ∈ (s.claim t ks).entries → (u,k) ∈ s.entries ∨ u = t ∧ k ∈ ks := by
    intro u k hk
    rw [State.claim_entries,List.mem_append,List.mem_map] at hk
    refine hk.imp_right ?_
    rintro ⟨q,hq,heq⟩
    cases heq
    exact ⟨rfl,hq⟩
  refine ⟨h.exclusive,fun u v k hk hk' => ?_,fun u k hk => ?_,h.unique,h.pending,h.view,?_,h.owned⟩
  · rcases hmem u k hk with hold | ⟨rfl,hnew⟩ <;> rcases hmem v k hk' with hold' | ⟨rfl,hnew'⟩
    · exact h.sole u v k hold hold'
    · exact State.unclaimed_iff.mp (hu k hnew') u hold
    · exact (State.unclaimed_iff.mp (hu k hnew) v hold').symm
    · rfl
  · rcases hmem u k hk with hk | ⟨-,hk⟩
    · exact h.fresh u k hk
    · exact hf k hk
  · intro u b hb k hk
    exact List.mem_append_left _ (h.claimed u b hb k hk)

theorem finish (h : Isolated F s) (t : T) (rest : Proc Stmt Res ρ ω) :
    Isolated F (s.finish t rest) := by
  have hactive : ∀ u b, (s.finish t rest).session u = .active b →
      u ≠ t ∧ s.session u = .active b := by
    intro u b hb
    rw [State.finish_session] at hb
    split at hb
    · contradiction
    · rename_i hne
      exact ⟨hne,hb⟩
  refine ⟨h.exclusive.finish t rest,fun u v k hk hk' => ?_,fun u k hk => ?_,h.unique,
    fun u b hb => ?_,fun u b hb => ?_,fun u b hb k hk => ?_,fun u b hb r hr => ?_⟩
  · exact h.sole u v k (List.mem_of_mem_filter hk) (List.mem_of_mem_filter hk')
  · exact h.fresh u k (List.mem_of_mem_filter hk)
  · exact h.pending u b (hactive u b hb).2
  · exact h.view u b (hactive u b hb).2
  · obtain ⟨hne,hb⟩ := hactive u b hb
    exact List.mem_filter.mpr ⟨h.claimed u b hb k hk,by simpa using hne⟩
  · obtain ⟨hne,hb⟩ := hactive u b hb
    rw [State.owns_finish hne]
    exact h.owned u b hb r hr

/-- The entries of the others survive a commit. -/
theorem commit (h : Isolated F s) (ha : s.session t = .active a) {x : ρ} :
    Isolated F ((s.record (S.view s.db a) ⟨t,a.body,x,a.pending⟩).finish t (a.next (.ok x))) := by
  have hself := F.nodup_applyAll.mp (h.view t a ha)
  have hindex : ∀ k, k ∈ F.index (S.view s.db a) ↔
      k ∈ F.index s.db ∨ k ∈ a.pending.flatMap F.entries := by
    intro k
    exact (F.index_applyAll s.db a.pending).mem_iff.trans List.mem_append
  have hactive : ∀ u b, u ≠ t → s.session u = .active b →
      ∀ k ∈ b.pending.flatMap F.entries, k ∉ F.index (S.view s.db a) := by
    intro u b hne hb k hk hi
    rcases (hindex k).mp hi with hi | hi
    · exact (F.nodup_applyAll.mp (h.view u b hb)).2.2 k hk hi
    · exact hne (h.sole u t k (h.claimed u b hb k hk) (h.claimed t a ha k hi))
  have hfinish := h.finish t (a.next (.ok x))
  refine ⟨hfinish.exclusive,hfinish.sole,fun u k hk hi => ?_,h.view t a ha,hfinish.pending,
    fun u b hb => ?_,hfinish.claimed,hfinish.owned⟩
  · obtain ⟨hk,hne⟩ := List.mem_filter.mp hk
    rcases (hindex k).mp hi with hi | hi
    · exact h.fresh u k hk hi
    · exact absurd (h.sole u t k hk (h.claimed t a ha k hi)) (by simpa using hne)
  · rw [State.finish_session] at hb
    split at hb
    · contradiction
    · rename_i hne
      have hb : s.session u = .active b := hb
      exact F.nodup_applyAll.mpr ⟨h.view t a ha,(F.nodup_applyAll.mp (h.view u b hb)).2.1,
        hactive u b hne hb⟩

/-- A step keeps the tables in order. -/
theorem next [DecidableEq Key] (h : Isolated F s) (hcover : F.Covers s) {act : SessionAction Row T}
    (hs : S.next s act = some s') : Isolated F s' := by
  cases act with
  | «begin» t =>
    obtain ⟨body,next,-,rfl⟩ := Server.next_begin hs
    exact h.setActive rfl h.unique (by simp) (by simp)
  | start t plan =>
    obtain ⟨a,st,k,ha,-,-,-,rfl⟩ := Server.next_start hs
    exact h.setActive (h.pending t a ha) (h.view t a ha) (h.claimed t a ha) (h.owned t a ha)
  | lock t =>
    obtain ⟨a,r,m,plan,ha,-,hf,rfl⟩ := Server.next_lock hs
    have h' := h.takeLock hf
    exact h'.setActive (h.pending t a ha) (h.view t a ha) (h.claimed t a ha) (h'.owned t a ha)
  | exec t =>
    obtain ⟨a,st,k,ha,hc,-,hrows,hkeys,⟨r,ws,he,rfl⟩ | ⟨e,-,rfl⟩⟩ := Server.next_exec hs
    · have hws := F.exec_writes he
      have hview : (F.index (S.applyAll s.db (a.pending++ws))).Nodup := by
        rw [Engine.applyAll_append]
        exact F.exec_unique he (h.view t a ha)
      have hfresh := (F.nodup_applyAll.mp hview).2.2
      have h' := h.claim hkeys (fun k hk => hfresh k (by
        rw [List.flatMap_append,hws,← F.inserts_eq]
        exact List.mem_append_right _ hk))
      refine h'.setActive ?_ hview (fun k hk => ?_) (fun q hq => ?_)
      · simp [h.pending t a ha,hws]
      · rw [List.flatMap_append,List.mem_append,hws,← F.inserts_eq] at hk
        rcases hk with hk | hk
        · exact h'.claimed t a ha k hk
        · exact List.mem_append_right _ (List.mem_map_of_mem hk)
      · rw [List.flatMap_append,List.mem_append,hws] at hq
        rcases hq with hq | hq
        · exact h.owned t a ha q hq
        · exact hrows q (hcover t a st k r ws ha hc he q hq)
    · exact h.finish t _
  | commit t =>
    obtain ⟨a,x,ha,-,rfl⟩ := Server.next_commit hs
    exact h.commit ha
  | rollback t =>
    obtain ⟨a,e,-,-,rfl⟩ := Server.next_rollback hs
    exact h.finish t _
  | abort t =>
    obtain ⟨a,-,rfl⟩ := Server.next_abort hs
    exact h.finish t _

theorem initial {db : DB} (hu : (F.index db).Nodup) (handler : T → Proc Stmt Res ρ ω) :
    Isolated F (Server.initial db handler : State Res DB Write Row Key ρ ω T) where
  exclusive t u r m n ht := by simp [Server.initial] at ht
  sole t u k ht := by simp [Server.initial] at ht
  fresh t k ht := by simp [Server.initial] at ht
  unique := hu
  pending t a ha := by cases ha
  view t a ha := by cases ha
  claimed t a ha := by cases ha
  owned t a ha := by cases ha

theorem launch (h : Isolated F s) (t : T) (p : Proc Stmt Res ρ ω) : Isolated F (s.launch t p) := by
  refine ⟨h.exclusive,h.sole,h.fresh,h.unique,fun u b hb => ?_,fun u b hb => ?_,fun u b hb => ?_,
    fun u b hb => ?_⟩
  · exact h.pending u b (State.launch_active hb).2
  · exact h.view u b (State.launch_active hb).2
  · exact h.claimed u b (State.launch_active hb).2
  · exact h.owned u b (State.launch_active hb).2

/-- A change that leaves the unique index alone. -/
theorem of_index (h : Isolated F s) {db : DB} (hi : F.index db = F.index s.db) :
    Isolated F {s with db := db} := by
  refine ⟨h.exclusive,h.sole,fun t k hk => ?_,?_,h.pending,fun t a ha => ?_,h.claimed,h.owned⟩
  · rw [hi]
    exact h.fresh t k hk
  · rw [hi]
    exact h.unique
  · have hview := F.nodup_applyAll.mp (h.view t a ha)
    rw [← hi] at hview
    exact F.nodup_applyAll.mpr hview

end Isolated

/-- Each answer came with its fact. `before` is what the body had written until then. -/
def Answered (writes : Stmt → List Write) (Fact : List Write → (s : Stmt) → Res s → Prop) :
    List Write → List ((s : Stmt) × Res s) → Prop
  | _, [] => True
  | before, x::rest => Fact before x.1 x.2 ∧ Answered writes Fact (before++writes x.1) rest

section Answered
variable {writes : Stmt → List Write} {Fact Fact' : List Write → (s : Stmt) → Res s → Prop}
  {before : List Write} {answered : List ((s : Stmt) × Res s)}

theorem Answered.mono (h : Answered writes Fact before answered)
    (hf : ∀ ws s r, Fact ws s r → Fact' ws s r) : Answered writes Fact' before answered := by
  induction answered generalizing before with
  | nil => trivial
  | cons x rest ih => exact ⟨hf _ _ _ h.1,ih h.2⟩

theorem Answered.and (h : Answered writes Fact before answered)
    (h' : Answered writes Fact' before answered) :
    Answered writes (fun ws s r => Fact ws s r ∧ Fact' ws s r) before answered := by
  induction answered generalizing before with
  | nil => trivial
  | cons x rest ih => exact ⟨⟨h.1,h'.1⟩,ih h.2 h'.2⟩

theorem Answered.snoc (h : Answered writes Fact before answered) {s : Stmt} {r : Res s}
    (hr : Fact (before++answered.flatMap (fun x => writes x.1)) s r) :
    Answered writes Fact before (answered++[⟨s,r⟩]) := by
  induction answered generalizing before with
  | nil => exact ⟨by simpa using hr,trivial⟩
  | cons x rest ih => exact ⟨h.1,ih h.2 (by simpa using hr)⟩

end Answered

/-- A fact about an answer that stays true: it may rely on the rows that the session owns. -/
structure Footprint.Stable {S : Server Stmt Res DB Write Row Key} (F : Footprint S)
    (Fact : DB → (Row → Prop) → List Write → (s : Stmt) → Res s → Prop) : Prop where
  owner : ∀ {db own own' ws s r}, (∀ q, own q → own' q) → Fact db own ws s r → Fact db own' ws s r
  frame : ∀ {db own ws s r vs}, (∀ q ∈ vs.flatMap F.rows, ¬own q) → Fact db own ws s r →
    Fact (S.applyAll db vs) own ws s r
  answer : ∀ {db} {own : Row → Prop} {ws s r vs}, S.exec s (S.applyAll db ws) = .ok (r,vs) →
    (∀ q ∈ S.reads s (S.applyAll db ws), own q) → Fact db own ws s r

/-- The transactions in progress know the facts of their answers. -/
def Knows [DecidableEq T] [DecidableEq Row] {S : Server Stmt Res DB Write Row Key}
    (F : Footprint S) (Fact : DB → (Row → Prop) → List Write → (s : Stmt) → Res s → Prop)
    (s : State Res DB Write Row Key ρ ω T) : Prop :=
  ∀ t a, s.session t = .active a →
    Answered F.writes (Fact s.db (fun r => s.owns t r)) [] a.answered

namespace Knows
variable {S : Server Stmt Res DB Write Row Key} {F : Footprint S} [DecidableEq T] [DecidableEq Row]
  {Fact : DB → (Row → Prop) → List Write → (s : Stmt) → Res s → Prop}
  {s s' : State Res DB Write Row Key ρ ω T}

theorem launch (h : Knows F Fact s) (t : T) (p : Proc Stmt Res ρ ω) :
    Knows F Fact (s.launch t p) := fun u a ha => h u a (State.launch_active ha).2

theorem of_db (h : Knows F Fact s) {db : DB}
    (hf : ∀ own ws st r, Fact s.db own ws st r → Fact db own ws st r) :
    Knows F Fact {s with db := db} := fun t a ha => (h t a ha).mono (hf _)

theorem next [DecidableEq Key] (h : Knows F Fact s) (hi : Isolated F s) (hf : F.Stable Fact)
    {act : SessionAction Row T} (hs : S.next s act = some s') : Knows F Fact s' := by
  intro t a ha
  obtain ⟨hmoves,hother⟩ := Server.moves_of_next hs
  have howns : ∀ r, s.owns t r → s'.owns t r := fun r ho =>
    State.owns_of_next hs ho (.inr ⟨a,ha⟩)
  by_cases ht : t = act.session
  · subst ht
    cases hmoves with
    | begins _ after =>
      rw [after] at ha
      cases ha
      trivial
    | waits before after db =>
      rw [after] at ha
      cases ha
      rw [db]
      exact (h _ _ before).mono fun _ _ _ => hf.owner howns
    | @answers b st k r ws _ before _ answer rows after db =>
      rw [after] at ha
      cases ha
      rw [db]
      refine ((h _ _ before).mono fun _ _ _ => hf.owner howns).snoc ?_
      rw [List.nil_append,← hi.pending _ _ before]
      exact hf.answer answer rows
    | commits _ _ after => rw [after] at ha; cases ha
    | fails _ _ after => rw [after] at ha; cases ha
  · rw [hother t ht] at ha
    have hkeep := (h t a ha).mono fun _ _ _ => hf.owner howns
    cases hmoves with
    | begins _ _ db => rwa [db]
    | waits _ _ db => rwa [db]
    | answers _ _ _ _ _ _ db => rwa [db]
    | @commits b x before _ _ db =>
      rw [db]
      refine ((h t a ha).mono fun _ _ _ hx => hf.frame (fun q hq => ?_) hx).mono
        fun _ _ _ => hf.owner howns
      exact hi.not_owns before ht hq
    | fails _ _ _ db => rwa [db]

end Knows
end NestHomework.Postgres
