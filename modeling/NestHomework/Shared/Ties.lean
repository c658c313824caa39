import Mathlib.Data.Bool.Basic
import Mathlib.Data.List.Sort
import Mathlib.Data.Prod.Lex

/-! Lists in the order of a key that several members may share. Members of one key come in any order. -/
namespace NestHomework.Shared
variable {ι τ : Type*} [LinearOrder τ] (key : ι → τ)

/-- `order` lists the members of `l` by their keys. -/
def Sorts (l order : List ι) : Prop :=
  order.Perm l ∧ order.Pairwise (key · ≤ key ·)

instance [DecidableEq ι] (l order : List ι) : Decidable (Sorts key l order) :=
  inferInstanceAs (Decidable (_ ∧ _))

variable {key} {l order : List ι} {n : ℕ}

theorem exists_sorts (key : ι → τ) (l : List ι) : ∃ order, Sorts key l order :=
  ⟨l.insertionSort (fun a b => key a ≤ key b),List.perm_insertionSort ..,
    List.pairwise_insertionSort ..⟩

theorem Sorts.take_le (h : Sorts key l order) {p q : ι} (hp : p ∈ order.take n)
    (hq : q ∈ order.drop n) : key p ≤ key q := by
  have hsorted := h.2
  rw [← List.take_append_drop n order,List.pairwise_append] at hsorted
  exact hsorted.2.2 p hp q hq

def keys (key : ι → τ) (l : List ι) : List τ := (l.map key).insertionSort (· ≤ ·)

/-- However the members of one key come, the keys come in one order. -/
theorem Sorts.map_key (h : Sorts key l order) : order.map key = keys key l := by
  refine ((h.1.map key).trans (List.perm_insertionSort _ _).symm).eq_of_pairwise' ?_
    (List.pairwise_insertionSort _ _)
  exact List.pairwise_map.mpr h.2

section First

/-- Bad members fill the first `n` places only when there are `n` of them before each good one. -/
theorem Sorts.exists_good (bad : ι → Bool) (h : Sorts key l order) {p : ι} (hp : p ∈ l)
    (hgood : bad p = false) (hcount : l.countP (fun f => bad f && key f ≤ key p) < n) :
    ∃ g ∈ order.take n, bad g = false := by
  by_contra hnone
  have hbad : ∀ g ∈ order.take n, bad g = true := fun g hg => by
    cases hb : bad g with
    | true => rfl
    | false => exact absurd ⟨g,hg,hb⟩ hnone
  have hlate : p ∈ order.drop n := by
    have hmem := h.1.mem_iff.mpr hp
    rw [← List.take_append_drop n order,List.mem_append] at hmem
    refine hmem.resolve_left fun hearly => ?_
    rw [hbad p hearly] at hgood
    contradiction
  have hlen : (order.take n).length = n := by
    have hpos := List.length_pos_of_mem hlate
    rw [List.length_drop] at hpos
    rw [List.length_take]
    omega
  have hfull : (order.take n).countP (fun f => bad f && key f ≤ key p) = n := by
    refine (List.countP_eq_length.mpr fun f hf => ?_).trans hlen
    simp [hbad f hf,h.take_le hf hlate]
  have hle : n ≤ order.countP (fun f => bad f && key f ≤ key p) :=
    hfull.symm.le.trans ((List.take_sublist n order).countP_le)
  rw [h.1.countP_eq] at hle
  omega

theorem exists_sorts_first (key : ι → τ) (chosen : ι → Bool) (l : List ι) : ∃ order,
    Sorts key l order ∧ order.Pairwise (fun a b => key a = key b → chosen b → chosen a) := by
  let rank (p : ι) : τ ×ₗ Bool := toLex (key p,!chosen p)
  let order := l.insertionSort (fun a b => rank a ≤ rank b)
  have hsorted : order.Pairwise (fun a b => rank a ≤ rank b) := List.pairwise_insertionSort ..
  refine ⟨order,⟨List.perm_insertionSort ..,hsorted.imp fun hab => Prod.Lex.monotone_fst_ofLex hab⟩,
    hsorted.imp fun {a b} hab hsame hb => ?_⟩
  simp only [rank,Prod.Lex.toLex_le_toLex,hsame,hb,lt_irrefl,false_or,true_and] at hab
  cases hchosen : chosen a with
  | true => rfl
  | false =>
    rw [hchosen] at hab
    exact absurd hab (by decide)

/-- Where bad members go first among those of one key, a good one gets to the first `n` places only
past all the bad ones that may come before it. -/
theorem exists_sorts_bad_first (key : ι → τ) (bad : ι → Bool) (l : List ι) :
    ∃ order, Sorts key l order ∧ ∀ n, ∀ p ∈ order.take n, bad p = false →
      l.countP (fun f => bad f && key f ≤ key p) < n := by
  obtain ⟨order,horder,hfirst⟩ := exists_sorts_first key bad l
  refine ⟨order,horder,fun n p hp hgood => ?_⟩
  have hlate : (order.drop n).countP (fun f => bad f && key f ≤ key p) = 0 := by
    refine List.countP_eq_zero.mpr fun f hf hbefore => ?_
    simp only [Bool.and_eq_true,decide_eq_true_eq] at hbefore
    have hsame : key p = key f := le_antisymm (horder.take_le hp hf) hbefore.2
    rw [← List.take_append_drop n order,List.pairwise_append] at hfirst
    rw [hfirst.2.2 p hp f hf hsame hbefore.1] at hgood
    contradiction
  have hearly : (order.take n).countP (fun f => bad f && key f ≤ key p) < (order.take n).length := by
    refine lt_of_le_of_ne List.countP_le_length fun hall => ?_
    have hbad := List.countP_eq_length.mp hall p hp
    simp [hgood] at hbad
  rw [← horder.1.countP_eq,← List.take_append_drop n order,List.countP_append,hlate,Nat.add_zero]
  exact hearly.trans_le (List.length_take_le n order)

end First

section Unique
variable {shown rest : List ι} {c : ι}

theorem ne_of_unique (hl : l.Perm (shown++c::rest)) (hunique : (l.map key).count (key c) = 1) :
    (∀ a ∈ shown, key a ≠ key c) ∧ ∀ a ∈ rest, key a ≠ key c := by
  rw [(hl.map key).count_eq] at hunique
  simp only [List.map_append,List.map_cons,List.count_append,List.count_cons,beq_self_eq_true,
    if_true] at hunique
  constructor
  · intro a ha heq
    have hpos := List.count_pos_iff.mpr (heq ▸ List.mem_map_of_mem (f := key) ha)
    omega
  · intro a ha heq
    have hpos := List.count_pos_iff.mpr (heq ▸ List.mem_map_of_mem (f := key) ha)
    omega

theorem Sorts.from_unique (h : Sorts key l (shown++c::rest))
    (hunique : (l.map key).count (key c) = 1) :
    (l.filter (key c ≤ key ·)).Perm (c::rest) := by
  obtain ⟨hshown,-⟩ := ne_of_unique h.1.symm hunique
  obtain ⟨-,htail,hcross⟩ := List.pairwise_append.mp h.2
  have hbefore : shown.filter (key c ≤ key ·) = [] :=
    List.filter_eq_nil_iff.mpr fun a ha hle =>
      hshown a ha (le_antisymm (hcross a ha c (List.mem_cons_self ..)) (of_decide_eq_true hle))
  have hbehind : (c::rest).filter (key c ≤ key ·) = c::rest :=
    List.filter_eq_self.mpr fun a ha => decide_eq_true <| by
      obtain rfl | ha := List.mem_cons.mp ha
      · exact le_rfl
      · exact List.rel_of_pairwise_cons htail ha
  refine (h.1.symm.filter _).trans ?_
  rw [List.filter_append,hbefore,List.nil_append,hbehind]

/-- A member that has its key for itself comes first in every order of those from its key on. -/
theorem Sorts.resume (h : Sorts key l (shown++c::rest)) (hunique : (l.map key).count (key c) = 1)
    (horder : Sorts key (l.filter (key c ≤ key ·)) order) : Sorts key l (shown++c::order.drop 1) := by
  have hperm : order.Perm (c::rest) := horder.1.trans (h.from_unique hunique)
  obtain ⟨hshown_sorted,htail,hcross⟩ := List.pairwise_append.mp h.2
  cases order with
  | nil => exact absurd hperm.length_eq (by simp)
  | cons x tail =>
    have hle : key x ≤ key c := by
      obtain rfl | hmem := List.mem_cons.mp (hperm.mem_iff.mpr (List.mem_cons_self ..))
      · exact le_rfl
      · exact List.rel_of_pairwise_cons horder.2 hmem
    have hx : x = c := by
      obtain hx | hmem := List.mem_cons.mp (hperm.mem_iff.mp (List.mem_cons_self ..))
      · exact hx
      · have hne := (ne_of_unique h.1.symm hunique).2 x hmem
        exact absurd (le_antisymm hle (List.rel_of_pairwise_cons htail hmem)) hne
    subst hx
    refine ⟨((List.Perm.refl shown).append hperm).trans h.1,List.pairwise_append.mpr ?_⟩
    exact ⟨hshown_sorted,horder.2,fun a ha b hb => hcross a ha b (hperm.mem_iff.mp hb)⟩

end Unique

section Shared
variable {a b c : ι}

theorem exists_same_key (hl : l.Nodup) (hc : c ∈ l) (hshared : (l.map key).count (key c) ≠ 1) :
    ∃ d ∈ l, d ≠ c ∧ key d = key c := by
  obtain ⟨before,behind,rfl⟩ := List.append_of_mem hc
  have hothers : ∃ d ∈ before++behind, key d = key c := by
    by_contra hnone
    have hzero : ∀ part : List ι, (∀ d ∈ part, d ∈ before++behind) → (part.map key).count (key c) = 0 := by
      intro part hpart
      refine List.count_eq_zero.mpr fun hmem => ?_
      obtain ⟨d,hd,hsame⟩ := List.mem_map.mp hmem
      exact hnone ⟨d,hpart d hd,hsame⟩
    refine hshared ?_
    rw [List.map_append,List.map_cons,List.count_append,List.count_cons_self,
      hzero before fun d => List.mem_append_left _,hzero behind fun d => List.mem_append_right _]
  obtain ⟨d,hd,hsame⟩ := hothers
  refine ⟨d,by simpa [or_left_comm] using .inr (List.mem_append.mp hd),fun heq => ?_,hsame⟩
  exact (List.nodup_middle.mp hl).notMem (heq ▸ hd)

theorem exists_sorts_two [DecidableEq ι] (ha : a ∈ l) (hb : b ∈ l) (hne : a ≠ b)
    (hleast : ∀ x ∈ l, key a ≤ key x) (hsame : key b = key a) :
    ∃ tail, Sorts key l (a::b::tail) := by
  obtain ⟨tail,hperm,hsorted⟩ := exists_sorts key ((l.erase a).erase b)
  have hb' : b ∈ l.erase a := (List.mem_erase_of_ne hne.symm).mpr hb
  have htail : (b::tail).Perm (l.erase a) := (hperm.cons b).trans (List.perm_cons_erase hb').symm
  have hall : (a::b::tail).Perm l := (htail.cons a).trans (List.perm_cons_erase ha).symm
  have hfrom : ∀ x ∈ tail, key a ≤ key x := fun x hx => hleast x (hall.mem_iff.mp (by simp [hx]))
  refine ⟨tail,hall,List.pairwise_cons.mpr ⟨fun x hx => ?_,List.pairwise_cons.mpr ⟨?_,hsorted⟩⟩⟩
  · obtain rfl | hx := List.mem_cons.mp hx
    · exact hsame.ge
    · exact hfrom x hx
  · rw [hsame]
    exact hfrom

end Shared
end NestHomework.Shared
