import Mathlib.Order.WithBot
import NestHomework.Postgres.ReadCommitted

/-! The wait-for graph. Sessions that take their locks in one common order never wait for each
other in a cycle. -/
namespace NestHomework.Postgres

/-- A relation whose consecutive edges climb has no cycle. -/
theorem not_transGen_self_of_climb {α β : Type*} [Preorder β] {r : α → α → Prop} (f : α → β)
    (h : ∀ a b c, r a b → r b c → f a < f b) (a : α) : ¬Relation.TransGen r a a := by
  have hclimb : ∀ b c, Relation.TransGen r a b → r b c → f a < f b := by
    intro b c hab
    induction hab generalizing c with
    | single hab => exact h a _ c hab
    | tail hab hbc ih => exact fun hcd => (ih _ hbc).trans (h _ _ c hbc hcd)
  intro hcycle
  obtain ⟨c,hac,-⟩ := Relation.TransGen.head'_iff.mp hcycle
  exact lt_irrefl _ (hclimb a c hcycle hac)

theorem RowLock.conflicts_of_weaker {m m' n : RowLock} (hm : m.exclusive) (hm' : m' ≠ .update)
    (h : m'.conflicts n) (hs : m' ≠ .share) : m.conflicts n := by
  cases m <;> cases m' <;> cases n <;> simp_all [exclusive,conflicts]

variable {Stmt : Type} {Res : Stmt → Type} {DB Write Row Key ρ ω T : Type}

namespace State

/-- The next lock of `t` is on a row that `u` holds in a conflicting mode. -/
def WaitsForRow (s : State Res DB Write Row Key ρ ω T) (t u : T) : Prop :=
  ∃ a r m plan n, s.session t = .active a ∧ a.plan = some ((r,m)::plan) ∧
    (u,r,n) ∈ s.held ∧ u ≠ t ∧ m.conflicts n

def waitsForRow [DecidableEq T] [DecidableEq Row] (s : State Res DB Write Row Key ρ ω T)
    (t u : T) : Bool :=
  match s.session t with
  | .active ⟨_,_,_,some ((r,m)::_),_,_⟩ =>
    u ≠ t && s.held.any (fun h => h.1 = u && h.2.1 = r && m.conflicts h.2.2)
  | _ => false

/-- The statement of `t` inserts an index entry that `u` has uncommitted. -/
def WaitsForKey (S : Server Stmt Res DB Write Row Key) (s : State Res DB Write Row Key ρ ω T)
    (t u : T) : Prop :=
  ∃ a st k q, s.session t = .active a ∧ a.cur = .exec st k ∧ a.plan = some [] ∧
    q ∈ S.inserts st ∧ (u,q) ∈ s.entries ∧ u ≠ t

/-- The server may pick `t` as the victim of a deadlock. -/
def Deadlocked (S : Server Stmt Res DB Write Row Key) (s : State Res DB Write Row Key ρ ω T)
    (t : T) : Prop :=
  Relation.TransGen (fun t u => s.WaitsForRow t u ∨ WaitsForKey S s t u) t t

variable {s : State Res DB Write Row Key ρ ω T}

theorem waitsForRow_iff [DecidableEq T] [DecidableEq Row] {t u : T} :
    s.waitsForRow t u ↔ s.WaitsForRow t u := by
  unfold waitsForRow
  constructor
  · intro h
    split at h
    · rename_i r m plan _ _ ha
      simp only [Bool.and_eq_true,decide_eq_true_eq,List.any_eq_true] at h
      obtain ⟨hne,⟨v,q,n⟩,hm,⟨rfl,rfl⟩,hc⟩ := h
      exact ⟨_,q,m,plan,n,ha,rfl,hm,hne,hc⟩
    · contradiction
  · rintro ⟨⟨body,cur,pending,plan,answered,next⟩,r,m,rest,n,ha,hp,hm,hne,hc⟩
    simp only at hp
    subst hp
    simp only [ha,Bool.and_eq_true,decide_eq_true_eq,List.any_eq_true]
    exact ⟨hne,(u,r,n),hm,⟨rfl,rfl⟩,hc⟩

def awaited (s : State Res DB Write Row Key ρ ω T) (t : T) : Option Row :=
  match s.session t with
  | .active a => a.plan.bind (fun p => p.head?.map (·.1))
  | .idle _ => none

section Ordered
variable [DecidableEq T] [DecidableEq Row] {β : Type*} [Preorder β] (rank : Row → β)

/-- Whatever a session takes next comes after all it holds, or it holds that row for writing. -/
def Ordered (s : State Res DB Write Row Key ρ ω T) : Prop :=
  ∀ t a r m plan, s.session t = .active a → a.plan = some ((r,m)::plan) →
    (∀ q n, (t,q,n) ∈ s.held → rank q < rank r) ∨ (s.owns t r ∧ m ≠ .update ∧ m ≠ .share)

/-- Conflicting locks are held by one session only. -/
def Exclusive (s : State Res DB Write Row Key ρ ω T) : Prop :=
  ∀ t u r m n, (t,r,m) ∈ s.held → (u,r,n) ∈ s.held → t ≠ u → m.conflicts n = false

/-- A session that owns the row it asks for, in no stronger mode, waits for nobody. -/
theorem not_waitsForRow_of_owns (hx : s.Exclusive) {t u : T}
    (h : ∀ a r m plan, s.session t = .active a → a.plan = some ((r,m)::plan) →
      s.owns t r ∧ m ≠ .update ∧ m ≠ .share) : ¬s.WaitsForRow t u := by
  rintro ⟨a,r,m,plan,n,ha,hp,hu,hne,hc⟩
  obtain ⟨hown,hup,hsh⟩ := h a r m plan ha hp
  obtain ⟨m₀,hm₀,he⟩ := owns_iff.mp hown
  have hcf := hx t u r m₀ n hm₀ hu hne.symm
  rw [RowLock.conflicts_of_weaker he hup hc hsh] at hcf
  contradiction

theorem Ordered.climb (hx : s.Exclusive) (ho : s.Ordered rank) {t u v : T}
    (h₁ : s.WaitsForRow t u) (h₂ : s.WaitsForRow u v) :
    ∃ r q, s.awaited t = some r ∧ s.awaited u = some q ∧ rank r < rank q := by
  obtain ⟨a,r,m,plan,n,ha,hp,hh,-,-⟩ := h₁
  obtain ⟨b,q,m',plan',n',hb,hq,hh',hne,hc⟩ := h₂
  refine ⟨r,q,by simp [awaited,ha,hp],by simp [awaited,hb,hq],?_⟩
  rcases ho u b q m' plan' hb hq with h | ⟨hown,hu,hs⟩
  · exact h r n hh
  · obtain ⟨m₀,hm₀,he⟩ := owns_iff.mp hown
    have hcf := hx u v q m₀ n' hm₀ hh' hne.symm
    rw [RowLock.conflicts_of_weaker he hu hc hs] at hcf
    contradiction

/-- Lock ordering: no cycle among sessions that wait for row locks. -/
theorem not_transGen_waitsForRow (hx : s.Exclusive) (ho : s.Ordered rank) (t : T) :
    ¬Relation.TransGen s.WaitsForRow t t := by
  refine not_transGen_self_of_climb (β := WithBot β) (fun t => (s.awaited t).map rank) ?_ t
  intro t u v h₁ h₂
  obtain ⟨r,q,hr,hq,hlt⟩ := ho.climb rank hx h₁ h₂
  simp only [hr,hq,Option.map_some]
  exact WithBot.coe_lt_coe.mpr hlt

omit [DecidableEq T] [DecidableEq Row] in
theorem WaitsForKey.awaited {S : Server Stmt Res DB Write Row Key} {t u : T}
    (h : WaitsForKey S s t u) : s.awaited t = none := by
  obtain ⟨a,st,k,q,ha,-,hp,-⟩ := h
  simp [State.awaited,ha,hp]

/-- Nor among sessions that also wait for index entries, when those who hold an entry wait for
nobody. -/
theorem not_deadlocked {S : Server Stmt Res DB Write Row Key} (hx : s.Exclusive)
    (ho : s.Ordered rank)
    (hk : ∀ t u v, WaitsForKey S s t u → ¬s.WaitsForRow u v ∧ ¬WaitsForKey S s u v) (t : T) :
    ¬Deadlocked S s t := by
  refine not_transGen_self_of_climb (β := WithTop β)
    (fun t => ((s.awaited t).map rank).elim ⊤ (fun b => (b : WithTop β))) ?_ t
  rintro t u v (h₁ | h₁) h₂
  · rcases h₂ with h₂ | h₂
    · obtain ⟨r,q,hr,hq,hlt⟩ := ho.climb rank hx h₁ h₂
      simp only [hr,hq,Option.map_some,Option.elim_some]
      exact WithTop.coe_lt_coe.mpr hlt
    · obtain ⟨a,r,m,plan,n,ha,hp,-,-,-⟩ := h₁
      have hr : s.awaited t = some r := by simp [awaited,ha,hp]
      simp only [hr,h₂.awaited,Option.map_some,Option.map_none,Option.elim_some,Option.elim_none]
      exact WithTop.coe_lt_top _
  · rcases h₂ with h₂ | h₂
    · exact absurd h₂ (hk t u v h₁).1
    · exact absurd h₂ (hk t u v h₁).2

theorem Exclusive.takeLock (hx : s.Exclusive) {t : T} {r : Row} {m : RowLock}
    (hf : s.free t r m) : (s.takeLock t r m).Exclusive := by
  intro u v q n n' hu hv hne
  rw [free_iff] at hf
  simp only [takeLock_held,List.mem_append,List.mem_singleton,Prod.mk.injEq] at hu hv
  rcases hu with hu | ⟨hut,hur,hum⟩ <;> rcases hv with hv | ⟨hvt,hvr,hvm⟩
  · exact hx u v q n n' hu hv hne
  · subst hvt hvr hvm
    rw [RowLock.conflicts_comm]
    exact hf u n hu hne
  · subst hut hur hum
    exact hf v n' hv hne.symm
  · exact absurd (hut.trans hvt.symm) hne

omit [DecidableEq Row] in
theorem Exclusive.finish (hx : s.Exclusive) (t : T) (rest : Proc Stmt Res ρ ω) :
    (s.finish t rest).Exclusive :=
  fun u v q m n hu hv hne =>
    hx u v q m n (List.mem_of_mem_filter hu) (List.mem_of_mem_filter hv) hne

variable [DecidableEq Key] {S : Server Stmt Res DB Write Row Key}
  {s' : State Res DB Write Row Key ρ ω T}

theorem Exclusive.next (hx : s.Exclusive) {act : SessionAction Row T}
    (hs : S.next s act = some s') : s'.Exclusive := by
  cases act with
  | «begin» t =>
    obtain ⟨body,next,-,rfl⟩ := Server.next_begin hs
    exact hx
  | start t plan =>
    obtain ⟨a,st,k,-,-,-,-,rfl⟩ := Server.next_start hs
    exact hx
  | lock t =>
    obtain ⟨a,r,m,plan,-,-,hf,rfl⟩ := Server.next_lock hs
    exact hx.takeLock hf
  | exec t =>
    obtain ⟨a,st,k,-,-,-,-,-,⟨r,ws,-,rfl⟩ | ⟨e,-,rfl⟩⟩ := Server.next_exec hs
    · exact hx
    · exact hx.finish t _
  | commit t =>
    obtain ⟨a,x,-,-,rfl⟩ := Server.next_commit hs
    exact Exclusive.finish (s := s.record (S.view s.db a) ⟨t,a.body,x,a.pending⟩) hx t _
  | rollback t =>
    obtain ⟨a,e,-,-,rfl⟩ := Server.next_rollback hs
    exact hx.finish t _
  | abort t =>
    obtain ⟨a,-,rfl⟩ := Server.next_abort hs
    exact hx.finish t _

/-- A session keeps its rows until its transaction ends. -/
theorem owns_of_next {act : SessionAction Row T} (hs : S.next s act = some s') {u : T} {r : Row}
    (ho : s.owns u r) (hu : u ≠ act.session ∨ ∃ a, s'.session u = .active a) : s'.owns u r := by
  obtain ⟨m,hm,hx⟩ := owns_iff.mp ho
  refine owns_iff.mpr ⟨m,?_,hx⟩
  have hend : ∀ (t : T) (s₁ : State Res DB Write Row Key ρ ω T) (rest : Proc Stmt Res ρ ω),
      s₁.held = s.held → t = act.session → s' = s₁.finish t rest → (u,r,m) ∈ s'.held := by
    rintro t s₁ rest hheld ht rfl
    rcases hu with hu | ⟨a,ha⟩
    · rw [← ht] at hu
      simp [hheld,hm,hu]
    · have hne : u ≠ t := by
        rintro rfl
        simp at ha
      simp [hheld,hm,hne]
  cases act with
  | «begin» t =>
    obtain ⟨body,next,-,rfl⟩ := Server.next_begin hs
    exact hm
  | start t plan =>
    obtain ⟨a,st,k,-,-,-,-,rfl⟩ := Server.next_start hs
    exact hm
  | lock t =>
    obtain ⟨a,q,n,plan,-,-,-,rfl⟩ := Server.next_lock hs
    exact List.mem_append_left _ hm
  | exec t =>
    obtain ⟨a,st,k,-,-,-,-,-,⟨q,ws,-,rfl⟩ | ⟨e,-,rfl⟩⟩ := Server.next_exec hs
    · exact hm
    · exact hend t s _ rfl rfl rfl
  | commit t =>
    obtain ⟨a,x,-,-,rfl⟩ := Server.next_commit hs
    exact hend t (s.record (S.view s.db a) ⟨t,a.body,x,a.pending⟩) _ rfl rfl rfl
  | rollback t =>
    obtain ⟨a,e,-,-,rfl⟩ := Server.next_rollback hs
    exact hend t s _ rfl rfl rfl
  | abort t =>
    obtain ⟨a,-,rfl⟩ := Server.next_abort hs
    exact hend t s _ rfl rfl rfl

end Ordered
end State
end NestHomework.Postgres
