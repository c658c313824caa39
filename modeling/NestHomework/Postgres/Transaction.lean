import Mathlib.Data.List.Basic

/-! Interactive SQL transactions. A body is the code between `BEGIN` and `COMMIT`: it issues one
statement at a time and chooses the next one from the answers so far. An engine says what one
statement answers and writes. Run alone, a body either commits all its writes or none. -/
namespace NestHomework.Postgres

/-- A transaction body over statements `Stmt` with answers `Res`. -/
inductive Tx (Stmt : Type) (Res : Stmt → Type) (ρ : Type) where
  | pure (a : ρ)
  | throw (error : String)
  | exec (s : Stmt) (k : Res s → Tx Stmt Res ρ)

variable {Stmt : Type} {Res : Stmt → Type} {ρ σ : Type}

namespace Tx

def bind : Tx Stmt Res ρ → (ρ → Tx Stmt Res σ) → Tx Stmt Res σ
  | pure a, f => f a
  | throw e, _ => throw e
  | exec s k, f => exec s (fun r => (k r).bind f)

instance : Monad (Tx Stmt Res) where
  pure := Tx.pure
  bind := Tx.bind

/-- Issue one statement and return its answer. -/
def stmt (s : Stmt) : Tx Stmt Res (Res s) := exec s pure

@[simp] theorem pure_bind' (a : ρ) (f : ρ → Tx Stmt Res σ) :
    (Tx.pure a >>= f) = f a := rfl
@[simp] theorem pure_eq (a : ρ) : (Pure.pure a : Tx Stmt Res ρ) = Tx.pure a := rfl
@[simp] theorem throw_bind (e : String) (f : ρ → Tx Stmt Res σ) :
    (Tx.throw e >>= f) = Tx.throw e := rfl
@[simp] theorem exec_bind (s : Stmt) (k : Res s → Tx Stmt Res ρ) (f : ρ → Tx Stmt Res σ) :
    (exec s k >>= f) = exec s (fun r => k r >>= f) := rfl
@[simp] theorem stmt_bind (s : Stmt) (f : Res s → Tx Stmt Res σ) :
    (stmt s >>= f) = exec s f := rfl

end Tx

/-- What the server does with one statement: the answer and the writes, or an error. The error of
a statement aborts the transaction it is in. -/
structure Engine (Stmt : Type) (Res : Stmt → Type) (DB Write : Type) where
  exec : (s : Stmt) → DB → Except String (Res s × List Write)
  apply : DB → Write → DB

variable {DB Write : Type}

namespace Engine

def applyAll (E : Engine Stmt Res DB Write) (db : DB) (ws : List Write) : DB :=
  ws.foldl E.apply db

@[simp] theorem applyAll_nil (E : Engine Stmt Res DB Write) (db : DB) :
    E.applyAll db [] = db := rfl
@[simp] theorem applyAll_cons (E : Engine Stmt Res DB Write) (db : DB) (w : Write)
    (ws : List Write) : E.applyAll db (w::ws) = E.applyAll (E.apply db w) ws := rfl
@[simp] theorem applyAll_append (E : Engine Stmt Res DB Write) (db : DB) (ws vs : List Write) :
    E.applyAll db (ws++vs) = E.applyAll (E.applyAll db ws) vs := by
  simp [applyAll,List.foldl_append]

/-- Run a body alone. `fault = some n` breaks the connection at statement `n`, where the `COMMIT`
counts as the last statement; the writes come back only when the transaction commits. -/
def run (E : Engine Stmt Res DB Write) :
    Option ℕ → Tx Stmt Res ρ → DB → Except String (ρ × List Write)
  | some 0, .pure _, _ => .error "COMMIT failed"
  | _, .pure a, _ => .ok (a,[])
  | _, .throw e, _ => .error e
  | some 0, .exec _ _, _ => .error "statement failed"
  | fault, .exec s k, db =>
    match E.exec s db with
    | .error e => .error e
    | .ok (r,ws) =>
      match E.run (fault.map Nat.pred) (k r) (E.applyAll db ws) with
      | .error e => .error e
      | .ok (a,vs) => .ok (a,ws++vs)

/-- How many statements a body issues when nothing interrupts it, the `COMMIT` not counted. -/
def length (E : Engine Stmt Res DB Write) : Tx Stmt Res ρ → DB → ℕ
  | .pure _, _ => 0
  | .throw _, _ => 0
  | .exec s k, db =>
    match E.exec s db with
    | .error _ => 0
    | .ok (r,ws) => E.length (k r) (E.applyAll db ws)+1

variable (E : Engine Stmt Res DB Write)

@[simp] theorem run_pure (a : ρ) (db : DB) : E.run none (.pure a) db = .ok (a,[]) := by
  simp [run]

@[simp] theorem run_throw (f : Option ℕ) (e : String) (db : DB) :
    E.run f (.throw e : Tx Stmt Res ρ) db = .error e := by
  rcases f with _ | _ | n <;> simp [run]

theorem run_exec (s : Stmt) (k : Res s → Tx Stmt Res ρ) (db : DB) :
    E.run none (.exec s k) db = (E.exec s db).bind (fun x =>
      (E.run none (k x.1) (E.applyAll db x.2)).map (fun y => (y.1,x.2++y.2))) := by
  rw [run]
  rcases E.exec s db with e | ⟨r,ws⟩
  · rfl
  · simp only [Except.bind,Option.map_none]
    rcases E.run none (k r) (E.applyAll db ws) with e | ⟨a,vs⟩ <;> rfl
  · simp

variable {E} in
theorem run_exec_ok {s : Stmt} {db : DB} {r : Res s} {ws : List Write}
    (h : E.exec s db = .ok (r,ws)) (k : Res s → Tx Stmt Res ρ) :
    E.run none (.exec s k) db =
      (E.run none (k r) (E.applyAll db ws)).map (fun y => (y.1,ws++y.2)) := by
  rw [run_exec,h]
  rfl

variable {E} in
/-- A statement that only reads. -/
theorem run_exec_read {s : Stmt} {db : DB} {r : Res s} (h : E.exec s db = .ok (r,[]))
    (k : Res s → Tx Stmt Res ρ) : E.run none (.exec s k) db = E.run none (k r) db := by
  rw [run_exec_ok h,applyAll_nil]
  rcases E.run none (k r) db with e | ⟨a,vs⟩ <;> rfl

variable {E} in
theorem run_exec_error {s : Stmt} {db : DB} {e : String} (h : E.exec s db = .error e)
    (k : Res s → Tx Stmt Res ρ) : E.run none (.exec s k) db = .error e := by
  rw [run_exec,h]
  rfl

variable {E} in
/-- What a body commits is what its first statement writes and what the rest commits after it. -/
theorem run_exec_eq_ok {s : Stmt} {k : Res s → Tx Stmt Res ρ} {db : DB} {a : ρ} {ws : List Write}
    (h : E.run none (.exec s k) db = .ok (a,ws)) : ∃ r vs us, E.exec s db = .ok (r,vs) ∧
      E.run none (k r) (E.applyAll db vs) = .ok (a,us) ∧ ws = vs++us := by
  rw [run_exec] at h
  cases hexec : E.exec s db with
  | error e =>
    rw [hexec] at h
    contradiction
  | ok x =>
    obtain ⟨r,vs⟩ := x
    rw [hexec] at h
    simp only [Except.bind] at h
    cases hrest : E.run none (k r) (E.applyAll db vs) with
    | error e =>
      rw [hrest] at h
      contradiction
    | ok y =>
      obtain ⟨b,us⟩ := y
      rw [hrest] at h
      cases h
      exact ⟨r,vs,us,rfl,hrest,rfl⟩

/-- An interrupted run commits nothing, and an uninterrupted one does not see the fault. -/
theorem run_fault (p : Tx Stmt Res ρ) (db : DB) (n : ℕ) :
    (n ≤ E.length p db → ∃ e, E.run (some n) p db = .error e) ∧
    (E.length p db < n → E.run (some n) p db = E.run none p db) := by
  induction p generalizing db n with
  | pure a => cases n <;> simp [run,length]
  | throw e => simp
  | exec s k ih =>
    cases n with
    | zero => simp [run]
    | succ n =>
      simp only [run,length]
      rcases E.exec s db with e | ⟨r,ws⟩
      · simp
      · obtain ⟨hle,hlt⟩ := ih r (E.applyAll db ws) n
        simp only [Option.map_some,Nat.pred_succ,Option.map_none,Nat.add_le_add_iff_right,
          Nat.add_lt_add_iff_right]
        constructor
        · intro h
          obtain ⟨e,he⟩ := hle h
          exact ⟨e,by rw [he]⟩
        · intro h
          rw [hlt h]

/-- The fault hits one of the statements that the body issues, or its `COMMIT`. -/
def interrupts (fault : Option ℕ) (p : Tx Stmt Res ρ) (db : DB) : Bool :=
  match fault with
  | none => false
  | some n => n ≤ E.length p db

/-- Whatever commits under a fault also commits without it, with the same writes. -/
theorem run_ok_of_fault {p : Tx Stmt Res ρ} {db : DB} {f : Option ℕ} {x : ρ × List Write}
    (h : E.run f p db = .ok x) : E.run none p db = .ok x := by
  cases f with
  | none => exact h
  | some n =>
    obtain ⟨hle,hlt⟩ := E.run_fault p db n
    by_cases hn : n ≤ E.length p db
    · obtain ⟨e,he⟩ := hle hn
      rw [he] at h
      contradiction
    · rw [hlt (by omega)] at h
      exact h

theorem run_of_interrupts {p : Tx Stmt Res ρ} {db : DB} {fault : Option ℕ}
    (h : E.interrupts fault p db) : ∃ e, E.run fault p db = .error e := by
  cases fault with
  | none => contradiction
  | some n => exact (E.run_fault p db n).1 (of_decide_eq_true h)

theorem run_of_not_interrupts {p : Tx Stmt Res ρ} {db : DB} {fault : Option ℕ}
    (h : ¬E.interrupts fault p db) : E.run fault p db = E.run none p db := by
  cases fault with
  | none => rfl
  | some n =>
    simp only [interrupts,decide_eq_true_eq] at h
    exact (E.run_fault p db n).2 (by omega)

/-- A run fails because the fault hits it or because it fails alone too, or it commits what it
commits alone. -/
theorem run_cases (fault : Option ℕ) (p : Tx Stmt Res ρ) (db : DB) :
    (∃ e, E.run fault p db = .error e ∧
      (E.interrupts fault p db ∨ (E.run none p db).toOption.map (·.2) = none)) ∨
    ∃ a ws, E.run fault p db = .ok (a,ws) ∧ ¬E.interrupts fault p db ∧
      (E.run none p db).toOption.map (·.2) = some ws := by
  by_cases h : E.interrupts fault p db
  · obtain ⟨e,he⟩ := E.run_of_interrupts h
    exact .inl ⟨e,he,.inl h⟩
  · rw [E.run_of_not_interrupts h]
    rcases E.run none p db with e | ⟨a,ws⟩
    · exact .inl ⟨e,rfl,.inr rfl⟩
    · exact .inr ⟨a,ws,rfl,h,rfl⟩

/-- The database after a body that runs alone: what it commits, or nothing. -/
def after (E : Engine Stmt Res DB Write) (fault : Option ℕ) (p : Tx Stmt Res ρ) (db : DB) : DB :=
  match E.run fault p db with
  | .error _ => db
  | .ok (_,ws) => E.applyAll db ws

theorem after_eq (fault : Option ℕ) (p : Tx Stmt Res ρ) (db : DB) : E.after fault p db =
    if E.interrupts fault p db then db
    else E.applyAll db (((E.run none p db).toOption.map (·.2)).getD []) := by
  unfold after
  split_ifs with h
  · obtain ⟨e,he⟩ := E.run_of_interrupts h
    rw [he]
  · rw [E.run_of_not_interrupts h]
    rcases E.run none p db with e | ⟨a,ws⟩ <;> rfl

/-- Bodies run one after another, when all of them commit. -/
def serial (E : Engine Stmt Res DB Write) : DB → List (Tx Stmt Res ρ) → Except String DB
  | db, [] => .ok db
  | db, p::ps =>
    match E.run none p db with
    | .error e => .error e
    | .ok (_,ws) => E.serial (E.applyAll db ws) ps

theorem serial_append {db db' : DB} {ps : List (Tx Stmt Res ρ)} (h : E.serial db ps = .ok db')
    (qs : List (Tx Stmt Res ρ)) : E.serial db (ps++qs) = E.serial db' qs := by
  induction ps generalizing db with
  | nil => simp_all [serial]
  | cons p ps ih =>
    simp only [List.cons_append,serial] at h ⊢
    split at h
    · contradiction
    · exact ih h

end Engine

/-- A handler: transactions one after another, each chosen from the outcomes before it. -/
inductive Proc (Stmt : Type) (Res : Stmt → Type) (ρ ω : Type) where
  | done (outcome : ω)
  | transaction (body : Tx Stmt Res ρ) (next : Except String ρ → Proc Stmt Res ρ ω)

variable {ω : Type}

namespace Proc

/-- Run a handler alone. Each transaction takes its fault from the list; the result also holds the
writes of the transactions that committed, in order. -/
def run (E : Engine Stmt Res DB Write) :
    Proc Stmt Res ρ ω → List (Option ℕ) → DB → ω × List (List Write)
  | done o, _, _ => (o,[])
  | transaction body next, faults, db =>
    match E.run (faults.headD none) body db with
    | .error e => (next (.error e)).run E faults.tail db
    | .ok (a,ws) =>
      let rest := (next (.ok a)).run E faults.tail (E.applyAll db ws)
      (rest.1,ws::rest.2)

@[simp] theorem run_done (E : Engine Stmt Res DB Write) (o : ω) (faults : List (Option ℕ))
    (db : DB) : (done o : Proc Stmt Res ρ ω).run E faults db = (o,[]) := rfl

theorem run_transaction (E : Engine Stmt Res DB Write) (body : Tx Stmt Res ρ)
    (next : Except String ρ → Proc Stmt Res ρ ω) (fault : Option ℕ) (faults : List (Option ℕ))
    (db : DB) : (transaction body next).run E (fault::faults) db =
      match E.run fault body db with
      | .error e => (next (.error e)).run E faults db
      | .ok (a,ws) =>
        let rest := (next (.ok a)).run E faults (E.applyAll db ws)
        (rest.1,ws::rest.2) := by
  rw [run]
  rfl

end Proc
end NestHomework.Postgres
