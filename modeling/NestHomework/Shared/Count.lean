import Mathlib.Tactic

/-! How a count over a list changes with its predicate. -/
namespace NestHomework.Shared
variable {α κ : Type*} {p q : α → Bool} {l : List α} {a : α}

/-- One element that no longer counts. -/
theorem countP_add_one_le (h : ∀ x ∈ l, p x → q x) (ha : a ∈ l) (hq : q a) (hp : ¬p a) :
    l.countP p+1 ≤ l.countP q := by
  induction l with
  | nil => simp at ha
  | cons x l ih =>
    have hrest : l.countP p ≤ l.countP q :=
      List.countP_mono_left (fun y hy => h y (List.mem_cons_of_mem x hy))
    rw [List.countP_cons,List.countP_cons]
    rcases List.mem_cons.mp ha with rfl | ha
    · rw [if_neg hp,if_pos hq]
      omega
    · have := ih (fun y hy => h y (List.mem_cons_of_mem x hy)) ha
      have hx := h x List.mem_cons_self
      split_ifs with h1 h2
      · omega
      · exact absurd (hx h1) h2
      · omega
      · omega

/-- The elements that count anew have one key. -/
theorem countP_le_add_one {key : α → κ} (hn : (l.map key).Nodup) {k : κ}
    (h : ∀ x ∈ l, p x → q x ∨ key x = k) : l.countP p ≤ l.countP q+1 := by
  induction l with
  | nil => simp
  | cons x l ih =>
    rw [List.map_cons,List.nodup_cons] at hn
    have htail : ∀ y ∈ l, p y → q y ∨ key y = k := fun y hy => h y (List.mem_cons_of_mem x hy)
    rw [List.countP_cons,List.countP_cons]
    by_cases hk : key x = k
    · have hle : l.countP p ≤ l.countP q := by
        refine List.countP_mono_left (fun y hy hp => (htail y hy hp).resolve_right (fun hy' => ?_))
        exact hn.1 (List.mem_map.mpr ⟨y,hy,hy'.trans hk.symm⟩)
      split_ifs <;> omega
    · have hx := h x List.mem_cons_self
      have := ih hn.2 htail
      split_ifs with h1 h2
      · omega
      · exact absurd ((hx h1).resolve_right hk) h2
      · omega
      · omega

theorem sum_filter_le (p : α → Bool) (w : α → ℕ) (l : List α) :
    ((l.filter p).map w).sum ≤ (l.map w).sum := by
  induction l with
  | nil => simp
  | cons x l ih =>
    rw [List.filter_cons]
    split <;> simp only [List.map_cons,List.sum_cons] <;> omega

/-- A filter that drops an element drops its weight. -/
theorem sum_filter_add_le (w : α → ℕ) (ha : a ∈ l) (hp : ¬p a) :
    ((l.filter p).map w).sum+w a ≤ (l.map w).sum := by
  induction l with
  | nil => simp at ha
  | cons x l ih =>
    have hrest := sum_filter_le p w l
    rcases List.mem_cons.mp ha with rfl | ha
    · rw [List.filter_cons_of_neg hp,List.map_cons,List.sum_cons]
      omega
    · have := ih ha
      by_cases hx : p x
      · rw [List.filter_cons_of_pos hx,List.map_cons,List.map_cons,List.sum_cons,List.sum_cons]
        omega
      · rw [List.filter_cons_of_neg hx,List.map_cons,List.sum_cons]
        omega

theorem sum_eraseIdx_add (w : α → ℕ) {i : ℕ} (hi : l[i]? = some a) :
    ((l.eraseIdx i).map w).sum+w a = (l.map w).sum := by
  obtain ⟨hlt,rfl⟩ := List.getElem?_eq_some_iff.mp hi
  have hperm := ((List.getElem_cons_eraseIdx_perm hlt).map w).sum_eq
  rw [List.map_cons,List.sum_cons] at hperm
  omega

theorem sum_set_add (w : α → ℕ) {i : ℕ} {b : α} (hi : l[i]? = some a) :
    ((l.set i b).map w).sum+w a = (l.map w).sum+w b := by
  induction l generalizing i with
  | nil => simp at hi
  | cons x l ih =>
    cases i with
    | zero =>
      obtain rfl := Option.some.inj hi
      simp only [List.set_cons_zero,List.map_cons,List.sum_cons]
      omega
    | succ i =>
      have := ih hi
      simp only [List.set_cons_succ,List.map_cons,List.sum_cons]
      omega

/-- A sum of terms with a common bound, of which some are zero. -/
theorem sum_le_countP_mul {w : α → ℕ} {n : ℕ} (h : ∀ x ∈ l, w x ≤ if p x then n else 0) :
    (l.map w).sum ≤ l.countP p*n := by
  induction l with
  | nil => simp
  | cons x l ih =>
    have hx := h x List.mem_cons_self
    have hl := ih fun y hy => h y (List.mem_cons_of_mem x hy)
    rw [List.map_cons,List.sum_cons,List.countP_cons,Nat.add_mul]
    cases hp : p x with
    | true =>
      rw [hp,if_pos rfl] at hx
      rw [if_pos rfl]
      omega
    | false =>
      rw [hp,if_neg Bool.false_ne_true] at hx
      rw [if_neg Bool.false_ne_true]
      omega

theorem sum_le_length_mul {w : α → ℕ} {n : ℕ} (h : ∀ x ∈ l, w x ≤ n) :
    (l.map w).sum ≤ l.length*n := by
  have hcount := @sum_le_countP_mul α (fun _ => true) l w n (by simpa using h)
  rwa [List.countP_true] at hcount

theorem exists_of_countP_ne_zero (h : l.countP p ≠ 0) : ∃ x ∈ l, p x :=
  List.countP_pos_iff.mp (Nat.pos_of_ne_zero h)

end NestHomework.Shared
