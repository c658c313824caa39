import Mathlib.Data.List.Nodup
import Mathlib.Data.List.Basic

/-! Looking up the rows of a table by a unique key. -/
namespace NestHomework.Postgres
variable {α κ : Type*} [DecidableEq κ] {key : α → κ} {l : List α} {k : κ} {a : α}

theorem find?_eq_some_iff_of_unique {p : α → Bool} (hu : ∀ x ∈ l, ∀ y ∈ l, p x → p y → x = y) :
    l.find? p = some a ↔ a ∈ l ∧ p a := by
  constructor
  · intro h
    exact ⟨List.mem_of_find?_eq_some h,List.find?_some h⟩
  · rintro ⟨hm,hp⟩
    cases hf : l.find? p with
    | none => exact absurd hp (by simpa using List.find?_eq_none.mp hf a hm)
    | some b => rw [hu b (List.mem_of_find?_eq_some hf) a hm (List.find?_some hf) hp]

theorem find?_key_iff (hn : (l.map key).Nodup) :
    l.find? (fun x => key x = k) = some a ↔ a ∈ l ∧ key a = k := by
  rw [find?_eq_some_iff_of_unique]
  · simp
  · intro x hx y hy h1 h2
    simp only [decide_eq_true_eq] at h1 h2
    exact List.inj_on_of_nodup_map hn hx hy (h1.trans h2.symm)

theorem filter_key_eq_toList (hn : (l.map key).Nodup) (k : κ) :
    l.filter (fun x => key x = k) = (l.find? (fun x => key x = k)).toList := by
  induction l with
  | nil => rfl
  | cons a l ih =>
    obtain ⟨ha,hl⟩ := List.nodup_cons.mp hn
    by_cases hkey : key a = k
    · have hnone : l.filter (fun x => key x = k) = [] :=
        List.filter_eq_nil_iff.mpr fun x hx h =>
          ha (hkey ▸ of_decide_eq_true h ▸ List.mem_map_of_mem hx)
      simp [hkey,hnone]
    · simp [hkey,ih hl]

/-- An update that keeps the keys. -/
theorem find?_map_key {f : α → α} (hf : ∀ x, key (f x) = key x) :
    (l.map f).find? (fun x => key x = k) = (l.find? (fun x => key x = k)).map f := by
  rw [List.find?_map]
  simp only [Function.comp_def,hf]

theorem find?_append_key (b : α) : (l++[b]).find? (fun x => key x = k) =
    (l.find? (fun x => key x = k)).or (if key b = k then some b else none) := by
  rw [List.find?_append,List.find?_singleton]
  simp

end NestHomework.Postgres
