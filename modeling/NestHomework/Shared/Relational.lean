import Mathlib.Data.List.Dedup

/-! Joins, groups and row numbers of tables that are lists of rows. -/
namespace NestHomework.Shared
variable {α β ι κ : Type*}

def join (on : α → β → Bool) (l : List α) (r : List β) : List (α × β) :=
  l.flatMap fun a => (r.filter (on a)).map (a,·)

/-- `LEFT JOIN .. ON`. A row without a partner stays, with nulls for one. -/
def leftJoin (on : α → β → Bool) (l : List α) (r : List β) : List (α × Option β) :=
  l.flatMap fun a =>
    match r.filter (on a) with
    | [] => [(a,none)]
    | partners => partners.map (a,some ·)

variable [DecidableEq κ]

/-- `GROUP BY`: a group for each value of the key, of all the rows that have it. -/
def groupBy (key : α → κ) (l : List α) : List (List α) :=
  (l.map key).dedup.map fun k => l.filter (key · = k)

/-- `ROW_NUMBER() OVER (PARTITION BY part ORDER BY ..)`, for rows in their order. The parts of the rows
before them are `seen`. -/
def rowNumbers (part : α → κ) : List α → List κ → List (α × ℕ)
  | [], _ => []
  | a::l, seen => (a,seen.count (part a)+1)::rowNumbers part l (part a::seen)

omit [DecidableEq κ] in
/-- Where each row has at most one partner, nothing is multiplied. -/
theorem leftJoin_of_unique {on : α → β → Bool} {l : List α} {r : List β} (partner : α → Option β)
    (h : ∀ a ∈ l, r.filter (on a) = (partner a).toList) :
    leftJoin on l r = l.map fun a => (a,partner a) := by
  unfold leftJoin
  induction l with
  | nil => rfl
  | cons a l ih =>
    rw [List.flatMap_cons,List.map_cons,ih fun b hb => h b (List.mem_cons_of_mem _ hb),
      h a (List.mem_cons_self ..)]
    cases partner a <;> rfl

theorem filter_rowNumbers (part : α → κ) (k : κ) (l : List α) (seen : List κ) :
    (rowNumbers part l seen).filter (fun r => part r.1 = k && r.2 = 1) =
      if k ∈ seen then [] else ((l.find? (part · = k)).map (·,1)).toList := by
  induction l generalizing seen with
  | nil => simp [rowNumbers]
  | cons a l ih =>
    rw [rowNumbers,List.filter_cons,ih]
    by_cases hpart : part a = k
    · subst hpart
      by_cases hseen : part a ∈ seen
      · have hpos := List.count_pos_iff.mpr hseen
        simp [hseen,Nat.pos_iff_ne_zero.mp hpos]
      · simp [hseen,List.count_eq_zero.mpr hseen]
    · simp [hpart,Ne.symm hpart]

theorem dedup_block {key : α → κ} {k : κ} {block : List α} {ks : List κ} (hne : block ≠ [])
    (hblock : ∀ a ∈ block, key a = k) (hks : k ∉ ks) :
    (block.map key++ks).dedup = k::ks.dedup := by
  induction block with
  | nil => contradiction
  | cons a block ih =>
    rw [List.map_cons,List.cons_append,hblock a (List.mem_cons_self ..)]
    cases block with
    | nil => exact List.dedup_cons_of_notMem hks
    | cons b block =>
      have hrest := ih (List.cons_ne_nil b block) fun a ha => hblock a (List.mem_cons_of_mem _ ha)
      rw [List.dedup_cons_of_mem (by simp [hblock b]),hrest]

/-- Rows that come in blocks, one for each value of the key, are grouped by their blocks. -/
theorem groupBy_flatMap {key : α → κ} {l : List ι} {f : ι → List α} {k : ι → κ}
    (hk : (l.map k).Nodup) (hf : ∀ x ∈ l, ∀ a ∈ f x, key a = k x) :
    groupBy key (l.flatMap f) = (l.map f).filter (fun g => !g.isEmpty) := by
  unfold groupBy
  induction l with
  | nil => rfl
  | cons x l ih =>
    obtain ⟨hx,hl⟩ := List.nodup_cons.mp hk
    have hrest := ih hl fun y hy => hf y (List.mem_cons_of_mem _ hy)
    have hblock : ∀ a ∈ f x, key a = k x := hf x (List.mem_cons_self ..)
    have hothers : ∀ a ∈ l.flatMap f, key a ≠ k x := fun a ha heq => by
      obtain ⟨y,hy,hay⟩ := List.mem_flatMap.mp ha
      exact hx (heq ▸ hf y (List.mem_cons_of_mem _ hy) a hay ▸ List.mem_map_of_mem hy)
    have hkeys : ∀ k' ∈ (l.flatMap f).map key, k' ≠ k x := fun k' hk' => by
      obtain ⟨a,ha,rfl⟩ := List.mem_map.mp hk'
      exact hothers a ha
    have hgroup : ∀ k' ∈ ((l.flatMap f).map key).dedup,
        (f x++l.flatMap f).filter (key · = k') = (l.flatMap f).filter (key · = k') := by
      intro k' hk'
      have hne := hkeys k' (List.mem_dedup.mp hk')
      have hnone : (f x).filter (key · = k') = [] :=
        List.filter_eq_nil_iff.mpr fun a ha heq => hne ((of_decide_eq_true heq).symm.trans (hblock a ha))
      rw [List.filter_append,hnone,List.nil_append]
    rw [List.flatMap_cons,List.map_append]
    by_cases hempty : f x = []
    · simpa [hempty] using hrest
    · have hfirst : (f x++l.flatMap f).filter (key · = k x) = f x := by
        rw [List.filter_append,List.filter_eq_self.mpr fun a ha => decide_eq_true (hblock a ha),
          List.filter_eq_nil_iff.mpr fun a ha heq => hothers a ha (of_decide_eq_true heq),
          List.append_nil]
      rw [dedup_block hempty hblock fun hmem => hkeys _ hmem rfl,List.map_cons,hfirst,
        List.map_congr_left hgroup,hrest,List.map_cons,List.filter_cons_of_pos (by simpa using hempty)]

end NestHomework.Shared
