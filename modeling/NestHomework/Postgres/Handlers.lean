import NestHomework.Postgres.WaitFor

/-! Where the sessions of a server stand in the code of their handlers. -/
namespace NestHomework.Postgres
variable {Stmt : Type} {Res : Stmt → Type} {DB Write Row Key ρ ω T : Type}

/-- Every statement on every path of the body satisfies `P`. -/
def Tx.Every (P : Stmt → Prop) : Tx Stmt Res ρ → Prop
  | .pure _ => True
  | .throw _ => True
  | .exec s k => P s ∧ ∀ r, Tx.Every P (k r)

/-- Every statement of every transaction of the handler satisfies `P`. -/
def Proc.Every (P : Stmt → Prop) : Proc Stmt Res ρ ω → Prop
  | .done _ => True
  | .transaction body next => body.Every P ∧ ∀ r, Proc.Every P (next r)

theorem Tx.Every.mono {P Q : Stmt → Prop} (h : ∀ s, P s → Q s) {p : Tx Stmt Res ρ}
    (hp : p.Every P) : p.Every Q := by
  induction p with
  | pure a => trivial
  | throw e => trivial
  | exec s k ih => exact ⟨h s hp.1,fun r => ih r (hp.2 r)⟩

/-- Answering the statements in turn leads from the body to this point. -/
inductive Tx.Path (body : Tx Stmt Res ρ) : List ((s : Stmt) × Res s) → Tx Stmt Res ρ → Prop
  | nil : Path body [] body
  | snoc {answered s k} (before : Path body answered (.exec s k)) (r : Res s) :
      Path body (answered++[⟨s,r⟩]) (k r)

section Path
variable {body cur : Tx Stmt Res ρ} {answered : List ((s : Stmt) × Res s)} {P : Stmt → Prop}

theorem Tx.Path.every (h : Tx.Path body answered cur) (hb : body.Every P) :
    cur.Every P ∧ ∀ x ∈ answered, P x.1 := by
  induction h with
  | nil => exact ⟨hb,by simp⟩
  | snoc _ r ih =>
    refine ⟨ih.1.2 r,fun x hx => ?_⟩
    rcases List.mem_append.mp hx with hx | hx
    · exact ih.2 x hx
    · simp only [List.mem_singleton] at hx
      exact hx ▸ ih.1.1

/-- The first statement of a body is answered first. -/
theorem Tx.Path.cases_exec {s : Stmt} {k : Res s → Tx Stmt Res ρ}
    (h : Tx.Path (.exec s k) answered cur) :
    (answered = [] ∧ cur = .exec s k) ∨
      ∃ r rest, answered = ⟨s,r⟩::rest ∧ Tx.Path (k r) rest cur := by
  induction h with
  | nil => exact .inl ⟨rfl,rfl⟩
  | snoc before r ih =>
    rcases ih with ⟨rfl,hc⟩ | ⟨q,rest,rfl,hp⟩
    · cases hc
      exact .inr ⟨r,[],rfl,.nil⟩
    · exact .inr ⟨q,_,rfl,.snoc hp r⟩

theorem Tx.Path.cases_pure {a : ρ} (h : Tx.Path (.pure a : Tx Stmt Res ρ) answered cur) :
    answered = [] ∧ cur = .pure a := by
  induction h with
  | nil => exact ⟨rfl,rfl⟩
  | snoc _ _ ih => cases ih.2

theorem Tx.Path.cases_throw {e : String} (h : Tx.Path (.throw e : Tx Stmt Res ρ) answered cur) :
    answered = [] ∧ cur = .throw e := by
  induction h with
  | nil => exact ⟨rfl,rfl⟩
  | snoc _ _ ih => cases ih.2

/-- A body that has come to its end has answered its first statement. -/
theorem Tx.Path.exec_pure {s : Stmt} {k : Res s → Tx Stmt Res ρ} {a : ρ}
    (h : Tx.Path (.exec s k) answered (.pure a)) :
    ∃ r rest, answered = ⟨s,r⟩::rest ∧ Tx.Path (k r) rest (.pure a) := by
  rcases h.cases_exec with ⟨-,hc⟩ | h
  · contradiction
  · exact h

theorem Tx.Path.not_throw {e : String} {a : ρ} :
    ¬Tx.Path (.throw e : Tx Stmt Res ρ) answered (.pure a) := by
  intro h
  cases h.cases_throw.2

end Path

/-- The body without its result. -/
def Tx.ignore (p : Tx Stmt Res ρ) : Tx Stmt Res Unit := p.bind fun _ => .pure ()

theorem Tx.Path.of_ignore {p : Tx Stmt Res ρ} {answered : List ((s : Stmt) × Res s)}
    {cur : Tx Stmt Res Unit} (h : Tx.Path p.ignore answered cur) :
    ∃ q, cur = q.ignore ∧ Tx.Path p answered q := by
  induction h with
  | nil => exact ⟨p,rfl,.nil⟩
  | snoc _ r ih =>
    obtain ⟨q,hq,hp⟩ := ih
    cases q with
    | pure a => cases hq
    | throw e => cases hq
    | exec s k =>
      cases hq
      exact ⟨k r,rfl,.snoc hp r⟩

theorem Tx.pure_of_ignore {p : Tx Stmt Res ρ} (h : p.ignore = .pure ()) : ∃ a, p = .pure a := by
  cases p with
  | pure a => exact ⟨a,rfl⟩
  | throw e => cases h
  | exec s k => cases h

theorem Tx.Every.ignore {P : Stmt → Prop} {p : Tx Stmt Res ρ} (h : p.Every P) :
    p.ignore.Every P := by
  induction p with
  | pure a => trivial
  | throw e => trivial
  | exec s k ih => exact ⟨h.1,fun r => ih r (h.2 r)⟩

/-- What is left of a handler after some of its transactions. -/
inductive Proc.Suffix (p : Proc Stmt Res ρ ω) : Proc Stmt Res ρ ω → Prop
  | refl : Suffix p p
  | next {body next} (before : Suffix p (.transaction body next)) (r : Except String ρ) :
      Suffix p (next r)

theorem Proc.Suffix.every {P : Stmt → Prop} {p q : Proc Stmt Res ρ ω} (h : p.Suffix q)
    (hp : p.Every P) : q.Every P := by
  induction h with
  | refl => exact hp
  | next _ r ih => exact ih.2 r

theorem Proc.Suffix.cases_done {o : ω} {q : Proc Stmt Res ρ ω}
    (h : (Proc.done o : Proc Stmt Res ρ ω).Suffix q) : q = .done o := by
  induction h with
  | refl => rfl
  | next _ _ ih => cases ih

theorem Proc.Suffix.cases_transaction {body : Tx Stmt Res ρ}
    {next : Except String ρ → Proc Stmt Res ρ ω} {q : Proc Stmt Res ρ ω}
    (h : (Proc.transaction body next).Suffix q) :
    q = .transaction body next ∨ ∃ r, (next r).Suffix q := by
  induction h with
  | refl => exact .inl rfl
  | next _ r ih =>
    rcases ih with hq | ⟨r',hs⟩
    · cases hq
      exact .inr ⟨r,.refl⟩
    · exact .inr ⟨r',.next hs r⟩

/-- Every session is somewhere in its handler, and every commit came from one. -/
structure Follows (handler : T → Proc Stmt Res ρ ω) (s : State Res DB Write Row Key ρ ω T) :
    Prop where
  idle : ∀ t p, s.session t = .idle p → (handler t).Suffix p
  active : ∀ t a, s.session t = .active a →
    (handler t).Suffix (.transaction a.body a.next) ∧ a.body.Path a.answered a.cur
  log : ∀ c ∈ s.log, ∃ next, (handler c.session).Suffix (.transaction c.body next)

namespace Follows
variable [DecidableEq T] {handler : T → Proc Stmt Res ρ ω}
  {s s' : State Res DB Write Row Key ρ ω T} {t : T} {a : Active Res Write Row ρ ω}

theorem setActive (h : Follows handler s)
    (ha : (handler t).Suffix (.transaction a.body a.next) ∧ a.body.Path a.answered a.cur) :
    Follows handler (s.setActive t a) := by
  refine ⟨fun u p hu => ?_,fun u b hu => ?_,h.log⟩
  · rw [State.setActive_session] at hu
    split at hu
    · contradiction
    · exact h.idle u p hu
  · rw [State.setActive_session] at hu
    split at hu
    · rename_i heq
      subst heq
      cases hu
      exact ha
    · exact h.active u b hu

theorem finish (h : Follows handler s) (ha : s.session t = .active a) (r : Except String ρ) :
    Follows handler (s.finish t (a.next r)) := by
  refine ⟨fun u p hu => ?_,fun u b hu => ?_,h.log⟩
  · rw [State.finish_session] at hu
    split at hu
    · rename_i heq
      subst heq
      cases hu
      exact .next (h.active _ a ha).1 r
    · exact h.idle u p hu
  · rw [State.finish_session] at hu
    split at hu
    · contradiction
    · exact h.active u b hu

variable [DecidableEq Row] [DecidableEq Key] {S : Server Stmt Res DB Write Row Key}

theorem next (h : Follows handler s) {act : SessionAction Row T} (hs : S.next s act = some s') :
    Follows handler s' := by
  cases act with
  | «begin» t =>
    obtain ⟨body,next,hi,rfl⟩ := Server.next_begin hs
    exact h.setActive ⟨h.idle t _ hi,.nil⟩
  | start t plan =>
    obtain ⟨a,st,k,ha,-,-,-,rfl⟩ := Server.next_start hs
    exact h.setActive (h.active t a ha)
  | lock t =>
    obtain ⟨a,r,m,plan,ha,-,-,rfl⟩ := Server.next_lock hs
    have h' : Follows handler (s.takeLock t r m) := ⟨h.idle,h.active,h.log⟩
    exact h'.setActive (h.active t a ha)
  | exec t =>
    obtain ⟨a,st,k,ha,hc,-,-,-,⟨r,ws,-,rfl⟩ | ⟨e,-,rfl⟩⟩ := Server.next_exec hs
    · have h' : Follows handler (s.claim t (S.inserts st)) := ⟨h.idle,h.active,h.log⟩
      obtain ⟨hsuf,hpath⟩ := h.active t a ha
      rw [hc] at hpath
      exact h'.setActive ⟨hsuf,.snoc hpath r⟩
    · exact h.finish ha _
  | commit t =>
    obtain ⟨a,x,ha,-,rfl⟩ := Server.next_commit hs
    have h' : Follows handler (s.record (S.view s.db a) ⟨t,a.body,x,a.pending⟩) := by
      refine ⟨h.idle,h.active,fun c hc => ?_⟩
      rw [State.record_log,List.mem_append,List.mem_singleton] at hc
      rcases hc with hc | rfl
      · exact h.log c hc
      · exact ⟨a.next,(h.active t a ha).1⟩
    exact h'.finish ha _
  | rollback t =>
    obtain ⟨a,e,ha,-,rfl⟩ := Server.next_rollback hs
    exact h.finish ha _
  | abort t =>
    obtain ⟨a,ha,rfl⟩ := Server.next_abort hs
    exact h.finish ha _

omit [DecidableEq T] [DecidableEq Row] [DecidableEq Key] in
theorem initial (db : DB) (handler : T → Proc Stmt Res ρ ω) :
    Follows handler (Server.initial db handler : State Res DB Write Row Key ρ ω T) where
  idle t p hp := by
    cases hp
    exact .refl
  active t a ha := by contradiction
  log c hc := by simp [Server.initial] at hc

end Follows

/-- A session starts a handler. -/
def State.launch [DecidableEq T] (s : State Res DB Write Row Key ρ ω T) (t : T)
    (p : Proc Stmt Res ρ ω) : State Res DB Write Row Key ρ ω T :=
  {s with session := Function.update s.session t (.idle p)}

section Launch
variable [DecidableEq T] {s : State Res DB Write Row Key ρ ω T} {t u : T}
  {p : Proc Stmt Res ρ ω}

@[simp] theorem State.launch_db : (s.launch t p).db = s.db := rfl

theorem State.launch_session : (s.launch t p).session u = if u = t then .idle p else s.session u := by
  simp [launch,Function.update_apply]

theorem State.launch_active {a : Active Res Write Row ρ ω}
    (h : (s.launch t p).session u = .active a) : u ≠ t ∧ s.session u = .active a := by
  rw [launch_session] at h
  split at h
  · contradiction
  · rename_i hne
    exact ⟨hne,h⟩

/-- A session that had nothing to do starts a handler. -/
theorem Follows.launch {handler : T → Proc Stmt Res ρ ω} {o : ω} (h : Follows handler s)
    (ht : handler t = .done o) : Follows (Function.update handler t p) (s.launch t p) := by
  have hne : ∀ u body next, (handler u).Suffix (.transaction body next) → u ≠ t := by
    rintro u body next hs rfl
    rw [ht] at hs
    cases hs.cases_done
  refine ⟨fun u q hq => ?_,fun u a ha => ?_,fun c hc => ?_⟩
  · rw [State.launch_session] at hq
    split at hq
    · rename_i heq
      cases hq
      rw [heq,Function.update_self]
      exact .refl
    · rename_i hu
      rw [Function.update_of_ne hu]
      exact h.idle u q hq
  · obtain ⟨hu,ha⟩ := State.launch_active ha
    rw [Function.update_of_ne hu]
    exact h.active u a ha
  · obtain ⟨next,hs⟩ := h.log c hc
    rw [Function.update_of_ne (hne _ _ _ hs)]
    exact ⟨next,hs⟩

end Launch
end NestHomework.Postgres
