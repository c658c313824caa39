import Mathlib.Tactic

/-! Amounts that are posted under keys, and what they add up to for one key. -/
namespace NestHomework.Shared
variable {α K M : Type*}

structure Entry (K M : Type*) where
  key : K
  amount : M

/-- What the entries of a key add up to. -/
def total [DecidableEq K] [AddCommMonoid M] (entries : List (Entry K M)) (key : K) : M :=
  ((entries.filter (fun e => e.key = key)).map (·.amount)).sum

section Total
variable [DecidableEq K] [AddCommMonoid M] {entries new : List (Entry K M)} {key : K}

@[simp] theorem total_nil : total ([] : List (Entry K M)) key = 0 := rfl

@[simp] theorem total_cons (e : Entry K M) :
    total (e::entries) key = (if e.key = key then e.amount else 0)+total entries key := by
  by_cases h : e.key = key <;> simp [total,h]

theorem total_append : total (entries++new) key = total entries key+total new key := by
  simp [total]

theorem total_perm (h : entries.Perm new) : total entries key = total new key :=
  ((h.filter _).map _).sum_eq

theorem total_eq_zero (h : ∀ e ∈ entries, e.key ≠ key) : total entries key = 0 := by
  have hnone : entries.filter (fun e => e.key = key) = [] :=
    List.filter_eq_nil_iff.mpr (fun e he => by simpa using h e he)
  rw [total,hnone]
  rfl

end Total

/-- Where everything that takes has a cause of its key, the causes pay for all that is taken. -/
theorem exists_causes {β κ : Type*} {cause : β → Prop} {amount : α → ℤ} {cost : β → ℕ}
    {key : α → κ} {key' : β → κ} {l : List α} (h : ∀ x ∈ l, 0 ≤ amount x ∨
      ∃ y, cause y ∧ key' y = key x ∧ amount x = -(cost y : ℤ)) : ∃ causes : List β,
      (∀ y ∈ causes, cause y) ∧ (causes.map key').Sublist (l.map key) ∧
      -((causes.map cost).sum : ℤ) ≤ (l.map amount).sum := by
  induction l with
  | nil => exact ⟨[],by simp,by simp,by simp⟩
  | cons x l ih =>
    obtain ⟨causes,hcauses,hkeys,hsum⟩ := ih fun x hx => h x (List.mem_cons_of_mem _ hx)
    rcases h x List.mem_cons_self with hgives | ⟨y,hy,hkey,htakes⟩
    · refine ⟨causes,hcauses,hkeys.cons _,?_⟩
      rw [List.map_cons,List.sum_cons]
      omega
    · refine ⟨y::causes,?_,?_,?_⟩
      · intro z hz
        rcases List.mem_cons.mp hz with rfl | hz
        · exact hy
        · exact hcauses z hz
      · rw [List.map_cons,List.map_cons,hkey]
        exact hkeys.cons_cons _
      · rw [List.map_cons,List.map_cons,List.sum_cons,List.sum_cons,htakes,Nat.cast_add]
        omega

/-- Elements that are selected anew come on top. -/
theorem filter_perm_append {p q r : α → Bool} {l : List α} (h : ∀ x ∈ l, q x = (p x || r x))
    (hd : ∀ x ∈ l, p x → ¬r x) : (l.filter q).Perm (l.filter p++l.filter r) := by
  have hperm := (List.filter_append_perm p (l.filter q)).symm
  rw [List.filter_filter,List.filter_filter] at hperm
  have hp : l.filter (fun x => p x && q x) = l.filter p := by
    refine List.filter_congr (fun x hx => ?_)
    rw [h x hx]
    cases p x <;> simp
  have hr : l.filter (fun x => !p x && q x) = l.filter r := by
    refine List.filter_congr (fun x hx => ?_)
    have := hd x hx
    rw [h x hx]
    cases hpx : p x <;> simp_all
  rwa [hp,hr] at hperm

end NestHomework.Shared
