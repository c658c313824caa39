import Mathlib.Data.Nat.Notation
import Mathlib.Logic.Function.Basic

/-! Keys that live for a while. A key whose time has come answers as if it were not there. -/
namespace NestHomework.Redis

structure Entry (V : Type) where
  value : V
  expiresAt : Option ℕ
  deriving DecidableEq, Repr

def Entry.alive {V : Type} (now : ℕ) (e : Entry V) : Bool := e.expiresAt.all (fun t => now < t)

abbrev Store (K V : Type) : Type := K → Option (Entry V)

namespace Store
variable {K V : Type}

def empty : Store K V := fun _ => none

/-- The entry at a key, if it is alive. -/
def live (r : Store K V) (now : ℕ) (key : K) : Option (Entry V) :=
  (r key).filter (fun e => e.alive now)

def lookup (r : Store K V) (now : ℕ) (key : K) : Option V := (r.live now key).map (·.value)

variable [DecidableEq K]

def set (r : Store K V) (key : K) (value : V) (expiresAt : Option ℕ) : Store K V :=
  Function.update r key (some ⟨value,expiresAt⟩)

/-- Write a value and leave the lifetime of the key as it is. -/
def put (r : Store K V) (now : ℕ) (key : K) (value : V) : Store K V :=
  r.set key value ((r.live now key).bind (·.expiresAt))

/-- `EXPIRE`, up to the moment `t`. -/
def expire (r : Store K V) (now : ℕ) (key : K) (t : ℕ) : Store K V :=
  match r.live now key with
  | none => r
  | some e => r.set key e.value (some t)

def del (r : Store K V) (keys : List K) : Store K V := fun k => if k ∈ keys then none else r k

section Lemmas
variable (r : Store K V) (now : ℕ) {key k : K} (value : V)

@[simp] theorem set_self (t : Option ℕ) : r.set key value t key = some ⟨value,t⟩ :=
  Function.update_self ..

theorem set_of_ne (h : k ≠ key) (t : Option ℕ) : r.set key value t k = r k :=
  Function.update_of_ne h ..

/-- An entry after a write is the new one, or an old one at another key. -/
theorem set_eq_some {t : Option ℕ} {e : Entry V} :
    r.set key value t k = some e ↔ (k = key ∧ e = ⟨value,t⟩) ∨ (k ≠ key ∧ r k = some e) := by
  by_cases h : k = key
  · subst h
    simp [eq_comm]
  · simp [h,set_of_ne]

theorem put_self : r.put now key value key =
    some ⟨value,(r.live now key).bind (·.expiresAt)⟩ := r.set_self value _

theorem put_of_ne (h : k ≠ key) : r.put now key value k = r k := r.set_of_ne value h _

theorem expire_of_ne (h : k ≠ key) (t : ℕ) : r.expire now key t k = r k := by
  rw [expire]
  cases r.live now key with
  | none => rfl
  | some e => exact r.set_of_ne _ h _

/-- A key that was just written lives. -/
theorem live_put : (r.put now key value).live now key =
    some ⟨value,(r.live now key).bind (·.expiresAt)⟩ := by
  rw [put,live,set_self,Option.filter_some,if_pos]
  cases h : r.live now key with
  | none => rfl
  | some e =>
    rw [live,Option.filter_eq_some_iff] at h
    exact h.2

theorem expire_put (t : ℕ) : (r.put now key value).expire now key t key = some ⟨value,some t⟩ := by
  rw [expire,live_put]
  exact set_self ..

theorem del_of_mem {keys : List K} (h : k ∈ keys) : r.del keys k = none := if_pos h

theorem del_of_not_mem {keys : List K} (h : k ∉ keys) : r.del keys k = r k := if_neg h

omit [DecidableEq K] in
/-- What a key answers is a matter of its own entry. -/
theorem live_congr {r' : Store K V} (h : r' k = r k) : r'.live now k = r.live now k := by
  rw [live,live,h]

theorem put_congr {r' : Store K V} (h : r' key = r key) :
    r'.put now key value key = r.put now key value key := by
  rw [put_self,put_self,live_congr r now h]

theorem expire_congr {r' : Store K V} (h : r' key = r key) (t : ℕ) :
    r'.expire now key t key = r.expire now key t key := by
  rw [expire,expire,live_congr r now h]
  cases r.live now key with
  | none => exact h
  | some e => simp

omit [DecidableEq K] in
theorem live_eq_some {e : Entry V} : r.live now k = some e ↔ r k = some e ∧ e.alive now :=
  Option.filter_eq_some_iff

omit [DecidableEq K] in
theorem live_of_none (h : r k = none) : r.live now k = none := by
  rw [live,h]
  rfl

omit [DecidableEq K] in
theorem live_of_some {t : ℕ} (h : r k = some ⟨value,some t⟩) :
    r.live now k = if now < t then some ⟨value,some t⟩ else none := by
  rw [live,h,Option.filter_some]
  simp [Entry.alive]

end Lemmas
end Store
end NestHomework.Redis
