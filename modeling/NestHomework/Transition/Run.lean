import Mathlib.Logic.Relation
import Mathlib.Data.List.Basic

/-! Runs of a labelled transition function. An action carries every choice its step makes, so a
list of actions determines the state it ends in. -/
namespace NestHomework.Transition
variable {S A : Type*} {next : S → A → Option S}

/-- The state after a list of actions, when each of them is enabled in its turn. -/
def runs (next : S → A → Option S) : S → List A → Option S
  | s, [] => some s
  | s, a::as => (next s a).bind (fun t => runs next t as)

/-- Each action that is taken meets `good` in the state it is taken in. -/
def Along (next : S → A → Option S) (good : S → A → Prop) : S → List A → Prop
  | _, [] => True
  | s, a::as => good s a ∧ ∀ t, next s a = some t → Along next good t as

instance Along.decidable {good : S → A → Prop} [∀ s a, Decidable (good s a)] :
    ∀ (s : S) (as : List A), Decidable (Along next good s as)
  | _, [] => .isTrue trivial
  | s, a::as =>
    match h : next s a with
    | none => decidable_of_iff (good s a) ⟨fun hg => ⟨hg,fun _ ht => nomatch h.symm.trans ht⟩,And.left⟩
    | some t =>
      have : Decidable (Along next good t as) := Along.decidable t as
      decidable_of_iff (good s a ∧ Along next good t as)
        ⟨fun hg => ⟨hg.1,fun _ hu => Option.some.inj (h.symm.trans hu) ▸ hg.2⟩,
          fun hg => ⟨hg.1,hg.2 t h⟩⟩

@[simp] theorem runs_nil (s : S) : runs next s [] = some s := rfl

theorem runs_cons {s u : S} {a : A} {as : List A} :
    runs next s (a::as) = some u ↔ ∃ t, next s a = some t ∧ runs next t as = some u := by
  simp [runs,Option.bind_eq_some_iff]

/-- Where every action is enabled a run is a fold. -/
theorem runs_total (f : S → A → S) (s : S) (as : List A) :
    runs (fun s a => some (f s a)) s as = some (as.foldl f s) := by
  induction as generalizing s with
  | nil => rfl
  | cons a as ih => exact ih (f s a)

theorem runs_append {s u : S} {as bs : List A} :
    runs next s (as++bs) = some u ↔ ∃ t, runs next s as = some t ∧ runs next t bs = some u := by
  induction as generalizing s with
  | nil => simp
  | cons a as ih =>
    simp only [List.cons_append,runs_cons,ih]
    constructor
    · rintro ⟨t,ht,v,hv,hu⟩; exact ⟨v,⟨t,ht,hv⟩,hu⟩
    · rintro ⟨v,⟨t,ht,hv⟩,hu⟩; exact ⟨t,ht,v,hv,hu⟩

/-- The run rule: what every good step keeps holds at the end of every good run. -/
theorem runs_invariant {good : S → A → Prop} {I : S → Prop}
    (hstep : ∀ s a t, I s → good s a → next s a = some t → I t)
    {s u : S} {as : List A} (h0 : I s) (hgood : Along next good s as)
    (hr : runs next s as = some u) : I u := by
  induction as generalizing s with
  | nil => simp only [runs_nil,Option.some.injEq] at hr; exact hr ▸ h0
  | cons a as ih =>
    obtain ⟨t,ht,hu⟩ := runs_cons.mp hr
    exact ih (hstep s a t h0 hgood.1 ht) (hgood.2 t ht) hu

theorem Along.cons {good : S → A → Prop} {s t : S} {a : A} {as : List A} (hg : good s a)
    (hn : next s a = some t) (h : Along next good t as) : Along next good s (a::as) :=
  ⟨hg,fun u hu => by rw [hn,Option.some.injEq] at hu; exact hu ▸ h⟩

/-- A condition along a run holds along its two parts. -/
theorem Along.append {good : S → A → Prop} {s u : S} {as bs : List A}
    (h : Along next good s (as++bs)) (hr : runs next s as = some u) :
    Along next good s as ∧ Along next good u bs := by
  induction as generalizing s with
  | nil =>
    simp only [runs_nil,Option.some.injEq] at hr
    exact ⟨trivial,hr ▸ h⟩
  | cons a as ih =>
    obtain ⟨t,ht,hrest⟩ := runs_cons.mp hr
    obtain ⟨h1,h2⟩ := ih (h.2 t ht) hrest
    exact ⟨.cons h.1 ht h1,h2⟩

theorem Along.of_forall {good : S → A → Prop} {as : List A} (h : ∀ a ∈ as, ∀ s, good s a)
    (s : S) : Along next good s as := by
  induction as generalizing s with
  | nil => trivial
  | cons a as ih => exact ⟨h a (by simp) s,fun t _ => ih (fun b hb => h b (by simp [hb])) t⟩

/-- The run rule without a condition on the steps. -/
theorem runs_invariant' {I : S → Prop} (hstep : ∀ s a t, I s → next s a = some t → I t)
    {s u : S} {as : List A} (h0 : I s) (hr : runs next s as = some u) : I u :=
  runs_invariant (fun s a t hs (_ : True) => hstep s a t hs) h0 (.of_forall (fun _ _ _ => trivial) s)
    hr

/-- Where every good step lowers a measure, a good run has no more steps than the measure has. -/
theorem runs_length_le {good : S → A → Prop} {I : S → Prop} (μ : S → ℕ)
    (hI : ∀ s a t, I s → good s a → next s a = some t → I t)
    (hstep : ∀ s a t, I s → good s a → next s a = some t → μ t+1 ≤ μ s)
    {s u : S} {as : List A} (h0 : I s) (hgood : Along next good s as)
    (hr : runs next s as = some u) : as.length+μ u ≤ μ s := by
  induction as generalizing s with
  | nil =>
    simp only [runs_nil,Option.some.injEq] at hr
    simp [hr]
  | cons a as ih =>
    obtain ⟨t,ht,hu⟩ := runs_cons.mp hr
    have hrest := ih (hI s a t h0 hgood.1 ht) (hgood.2 t ht) hu
    have hlower := hstep s a t h0 hgood.1 ht
    rw [List.length_cons]
    omega

/-- Where every good step lowers a measure, a good run leads to a state without good steps. -/
theorem exists_maximal {good : S → A → Prop} {I : S → Prop} (μ : S → ℕ)
    (hI : ∀ s a t, I s → good s a → next s a = some t → I t)
    (hstep : ∀ s a t, I s → good s a → next s a = some t → μ t+1 ≤ μ s) {s : S} (h0 : I s) :
    ∃ as u, Along next good s as ∧ runs next s as = some u ∧ ∀ a, good u a → next u a = none := by
  by_cases hmax : ∀ a, good s a → next s a = none
  · exact ⟨[],s,trivial,rfl,hmax⟩
  · push Not at hmax
    obtain ⟨a,ha,hne⟩ := hmax
    obtain ⟨t,ht⟩ := Option.ne_none_iff_exists'.mp hne
    have hlower := hstep s a t h0 ha ht
    obtain ⟨as,u,hgood,hr,hu⟩ := exists_maximal μ hI hstep (hI s a t h0 ha ht)
    exact ⟨a::as,u,.cons ha ht hgood,runs_cons.mpr ⟨t,ht,hr⟩,hu⟩
termination_by μ s

/-- The run rule for a system that does what another does, step by step. -/
theorem runs_map {S' : Type*} {next' : S' → A → Option S'} (f : S → S') {I : S → Prop}
    (hI : ∀ s a t, I s → next s a = some t → I t)
    (hstep : ∀ s a, I s → next' (f s) a = (next s a).map f) {s : S} (h0 : I s) (as : List A) :
    runs next' (f s) as = (runs next s as).map f := by
  induction as generalizing s with
  | nil => rfl
  | cons a as ih =>
    simp only [runs,hstep s a h0]
    cases hn : next s a with
    | none => rfl
    | some t => exact ih (hI s a t h0 hn)

/-- A condition that the reached states guarantee holds along the whole run. -/
theorem Along.of_invariant {good more : S → A → Prop} {I : S → Prop}
    (hstep : ∀ s a t, I s → good s a → next s a = some t → I t)
    (hmore : ∀ s a, I s → good s a → more s a)
    {s : S} {as : List A} (h0 : I s) (hgood : Along next good s as) : Along next more s as := by
  induction as generalizing s with
  | nil => trivial
  | cons a as ih =>
    exact ⟨hmore s a h0 hgood.1,fun t ht => ih (hstep s a t h0 hgood.1 ht) (hgood.2 t ht)⟩

theorem Along.and {good more : S → A → Prop} {s : S} {as : List A} (h₁ : Along next good s as)
    (h₂ : Along next more s as) : Along next (fun s a => good s a ∧ more s a) s as := by
  induction as generalizing s with
  | nil => trivial
  | cons a as ih => exact ⟨⟨h₁.1,h₂.1⟩,fun t ht => ih (h₁.2 t ht) (h₂.2 t ht)⟩

/-- A run that does not end in a trap took no step that leads into it. -/
theorem Along.of_not_trap {env good : S → A → Prop} {I trap : S → Prop}
    (hI : ∀ s a t, I s → env s a → next s a = some t → I t)
    (henter : ∀ s a t, I s → env s a → next s a = some t → ¬good s a → trap t)
    (hstay : ∀ s a t, I s → env s a → next s a = some t → trap s → trap t)
    {s u : S} {as : List A} (h0 : I s) (henv : Along next env s as)
    (hr : runs next s as = some u) (hu : ¬trap u) : Along next good s as := by
  have hkeep : ∀ (as : List A) (s : S), I s → Along next env s as → runs next s as = some u →
      ¬trap s := by
    intro as
    induction as with
    | nil =>
      intro s _ _ hr
      simp only [runs_nil,Option.some.injEq] at hr
      exact hr ▸ hu
    | cons a as ih =>
      intro s hs henv hr htrap
      obtain ⟨t,ht,hrest⟩ := runs_cons.mp hr
      exact ih t (hI s a t hs henv.1 ht) (henv.2 t ht) hrest (hstay s a t hs henv.1 ht htrap)
  induction as generalizing s with
  | nil => trivial
  | cons a as ih =>
    obtain ⟨t,ht,hrest⟩ := runs_cons.mp hr
    have ht' := hI s a t h0 henv.1 ht
    refine ⟨?_,fun v hv => ?_⟩
    · by_contra hbad
      exact hkeep as t ht' (henv.2 t ht) hrest (henter s a t h0 henv.1 ht hbad)
    · rw [ht] at hv
      cases hv
      exact ih ht' (henv.2 t ht) hrest

/-- Where each step from a safe state is good exactly when it ends in a safe state, a run is good
exactly when all its states are safe. -/
theorem along_iff_safe {I safe : S → Prop} {good : S → A → Prop}
    (hI : ∀ s a t, I s → next s a = some t → I t)
    (hstep : ∀ s a t, I s → safe s → next s a = some t → (safe t ↔ good s a))
    {s u : S} {as : List A} (h0 : I s) (hsafe : safe s) (hr : runs next s as = some u) :
    Along next good s as ↔ ∀ bs, bs <+: as → ∀ t, runs next s bs = some t → safe t := by
  induction as generalizing s with
  | nil =>
    refine iff_of_true trivial fun bs hbs t ht => ?_
    rw [List.prefix_nil.mp hbs,runs_nil,Option.some.injEq] at ht
    exact ht ▸ hsafe
  | cons a as ih =>
    obtain ⟨v,hv,hu⟩ := runs_cons.mp hr
    have hgood := hstep s a v h0 hsafe hv
    constructor
    · intro h bs hbs t ht
      cases bs with
      | nil =>
        rw [runs_nil,Option.some.injEq] at ht
        exact ht ▸ hsafe
      | cons b bs =>
        obtain ⟨rfl,hrest⟩ := List.cons_prefix_cons.mp hbs
        obtain ⟨v',hv',hrun⟩ := runs_cons.mp ht
        obtain rfl := Option.some.inj (hv.symm.trans hv')
        exact (ih (hI s b v h0 hv) (hgood.mpr h.1) hu).mp (h.2 v hv) bs hrest t hrun
    · intro h
      have hsv : safe v := h [a] (by simp) v (runs_cons.mpr ⟨v,hv,rfl⟩)
      refine .cons (hgood.mp hsv) hv ((ih (hI s a v h0 hv) hsv hu).mpr fun bs hbs t ht => ?_)
      exact h (a::bs) (List.cons_prefix_cons.mpr ⟨rfl,hbs⟩) t (runs_cons.mpr ⟨v,hv,ht⟩)

/-- A flag that only the steps with `P` raise, and that stays up, is up at the end of a run when it
was up before or when some step had `P`. -/
theorem flag_iff {I flag : S → Prop} {P : S → A → Prop}
    (hI : ∀ s a t, I s → next s a = some t → I t)
    (hstep : ∀ s a t, I s → next s a = some t → (flag t ↔ flag s ∨ P s a))
    {s u : S} {as : List A} (h0 : I s) (hr : runs next s as = some u) :
    flag u ↔ flag s ∨ ¬Along next (fun s a => ¬P s a) s as := by
  induction as generalizing s with
  | nil =>
    simp only [runs_nil,Option.some.injEq] at hr
    simp [hr,Along]
  | cons a as ih =>
    obtain ⟨t,ht,hu⟩ := runs_cons.mp hr
    have hrest := ih (hI s a t h0 ht) hu
    rw [hrest,hstep s a t h0 ht,or_assoc]
    simp only [Along,ht,Option.some.injEq,forall_eq',not_and_or,not_not]

end NestHomework.Transition
