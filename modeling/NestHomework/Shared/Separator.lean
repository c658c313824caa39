import Mathlib.Data.List.Basic

/-! Two texts that are joined by a separator, and when the join can be taken apart again. -/
namespace NestHomework.Shared
variable {α : Type*} {xs ys us vs ds es t : List α} {a : α}

theorem append_cons_inj_of_not_mem (hd : a ∉ ds) (he : a ∉ es) :
    xs++a::ds = ys++a::es ↔ xs = ys ∧ ds = es := by
  constructor
  · intro h
    obtain ⟨z,hz,hz'⟩ | ⟨z,hz,hz'⟩ := List.append_eq_append_iff.mp h
    · cases z with
      | nil => exact ⟨by simpa using hz.symm,by simpa using hz'⟩
      | cons b z =>
        obtain ⟨-,rfl⟩ := List.cons.inj hz'
        exact (hd (by simp)).elim
    · cases z with
      | nil => exact ⟨by simpa using hz,by simpa using hz'.symm⟩
      | cons b z =>
        obtain ⟨-,rfl⟩ := List.cons.inj hz'
        exact (he (by simp)).elim
  · rintro ⟨rfl,rfl⟩
    rfl

theorem eq_or_exists_of_append_separator (ha : a ∉ t) {z : List α}
    (h : a::t++ys = z++(a::t++vs)) : (z = [] ∧ ys = vs) ∨ ∃ x, z = a::t++x ∧ ys = x++(a::t++vs) := by
  cases z with
  | nil => exact .inl ⟨rfl,by simpa using h⟩
  | cons b z =>
    right
    rw [List.cons_append,List.cons_append,List.cons.injEq] at h
    obtain ⟨rfl,h⟩ := h
    obtain ⟨x,hx,hx'⟩ | ⟨x,hx,hx'⟩ := List.append_eq_append_iff.mp h
    · exact ⟨x,by rw [hx,List.cons_append],hx'⟩
    · cases x with
      | nil =>
        rw [List.append_nil] at hx
        exact ⟨[],by simp [hx],by simpa using hx'.symm⟩
      | cons c x =>
        obtain ⟨rfl,-⟩ := List.cons.inj hx'
        exact (ha (by rw [hx]; simp)).elim

/-- Two joins are equal when their parts are, or when a part of one runs over the separator. -/
theorem append_separator_inj (ha : a ∉ t) : xs++(a::t++ys) = us++(a::t++vs) ↔
    (xs = us ∧ ys = vs) ∨ (∃ x, us = xs++(a::t++x) ∧ ys = x++(a::t++vs)) ∨
      ∃ x, xs = us++(a::t++x) ∧ vs = x++(a::t++ys) := by
  constructor
  · intro h
    obtain ⟨z,hz,hz'⟩ | ⟨z,hz,hz'⟩ := List.append_eq_append_iff.mp h
    · obtain ⟨rfl,hys⟩ | ⟨x,rfl,hys⟩ := eq_or_exists_of_append_separator ha hz'
      · exact .inl ⟨by simpa using hz.symm,hys⟩
      · exact .inr (.inl ⟨x,hz,hys⟩)
    · obtain ⟨rfl,hvs⟩ | ⟨x,rfl,hvs⟩ := eq_or_exists_of_append_separator ha hz'
      · exact .inl ⟨by simpa using hz,hvs.symm⟩
      · exact .inr (.inr ⟨x,hz,hvs⟩)
  · rintro (⟨rfl,rfl⟩ | ⟨x,rfl,rfl⟩ | ⟨x,rfl,rfl⟩) <;> simp

end NestHomework.Shared
