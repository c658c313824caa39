import Mathlib.Algebra.BigOperators.Group.List.Basic
import NestHomework.Shared.Ties
import NestHomework.Transition.Run

/-! Reading a list page by page in the order of a key. Each page goes on from the key of the last
member of the page before, and skips one member. -/
namespace NestHomework.Shared
open Transition
variable {ι τ : Type*} [LinearOrder τ]

/-- A reader between two pages. -/
structure Reader (ι : Type*) where
  pages : List (List ι)
  cursor : Option ι
  finished : Bool

namespace Reader
section Definitions
variable (key : ι → τ) (l : List ι) (limit : ℕ)

def start : Reader ι := ⟨[],none,false⟩

/-- What the next page is taken from. -/
def source : Option ι → List ι
  | none => l
  | some c => l.filter (key c ≤ key ·)

def skip (cursor : Option ι) : ℕ := if cursor.isSome then 1 else 0

/-- The last member of the page `m`, counted from one, has its key for itself. -/
def UniqueBorder (m : ℕ) : Prop :=
  ∀ t ∈ (keys key l)[m*limit-1]?, (l.map key).count t = 1

/-- So it is on every full page that is followed by another. -/
def UniqueBorders : Prop :=
  ∀ m < l.length, 0 < m → m*limit < l.length → UniqueBorder key l limit m

instance (m : ℕ) : Decidable (UniqueBorder key l limit m) :=
  inferInstanceAs (Decidable (∀ t ∈ (keys key l)[m*limit-1]?, (l.map key).count t = 1))

instance : Decidable (UniqueBorders key l limit) :=
  inferInstanceAs (Decidable (∀ m < l.length, _ → _ → _))

/-- All that is read is the beginning of a sorted list of everything. -/
structure Ahead (s : Reader ι) (rest : List ι) : Prop where
  sorts : Sorts key l (s.pages.flatten++rest)
  pages : ∀ page ∈ s.pages, page.length = limit
  cursor : s.cursor = s.pages.flatten.getLast?
  unfinished : s.finished = false

/-- Only members of the list are read. -/
def Within (l : List ι) (s : Reader ι) : Prop :=
  (∀ a ∈ s.pages.flatten, a ∈ l) ∧ ∀ a ∈ s.cursor, a ∈ l

variable [DecidableEq ι]

/-- A page, for a source that comes in this order. One member more is fetched to see whether there is
a next page. -/
def next (s : Reader ι) (order : List ι) : Option (Reader ι) :=
  if s.finished then none
  else if Sorts key (source key l s.cursor) order then
    let rows := (order.drop (skip s.cursor)).take (limit+1)
    if rows.length > limit then some ⟨s.pages++[rows.dropLast],rows.dropLast.getLast?,false⟩
    else some ⟨s.pages++[rows],none,true⟩
  else none

/-- Whatever order the members of one key come in, the reader comes to an end, and has then read each
member once, by their keys, in pages that are not too long. -/
structure Enumerates : Prop where
  terminates : ∃ n, ∀ orders s, runs (next key l limit) start orders = some s → orders.length ≤ n
  complete : ∀ orders s, runs (next key l limit) start orders = some s → s.finished →
    Sorts key l s.pages.flatten
  bounded : ∀ orders s, runs (next key l limit) start orders = some s →
    ∀ page ∈ s.pages, page.length ≤ limit

end Definitions

variable {key : ι → τ} {l : List ι} {limit : ℕ} {s t : Reader ι} {rest order : List ι}

theorem ahead_start (key : ι → τ) (l : List ι) (limit : ℕ) :
    ∃ rest, Ahead key l limit start rest := by
  obtain ⟨order,horder⟩ := exists_sorts key l
  exact ⟨order,horder,by simp [start],rfl,rfl⟩

theorem mem_of_source {cursor : Option ι} {a : ι} (ha : a ∈ source key l cursor) : a ∈ l := by
  cases cursor with
  | none => exact ha
  | some c => exact List.mem_of_mem_filter ha

theorem length_flatten_le {pages : List (List ι)} (h : ∀ page ∈ pages, page.length ≤ limit) :
    pages.flatten.length ≤ pages.length*limit := by
  induction pages with
  | nil => simp
  | cons page pages ih =>
    have hpage := h page (List.mem_cons_self ..)
    have hpages := ih fun p hp => h p (List.mem_cons_of_mem _ hp)
    rw [List.flatten_cons,List.length_append,List.length_cons,Nat.succ_mul]
    omega

theorem Ahead.length (h : Ahead key l limit s rest) :
    s.pages.length*limit+rest.length = l.length := by
  have hflatten : s.pages.flatten.length = s.pages.length*limit := by
    have hpages := h.pages
    generalize s.pages = pages at hpages
    induction pages with
    | nil => simp
    | cons page pages ih =>
      rw [List.flatten_cons,List.length_append,hpages page (List.mem_cons_self ..),
        ih fun p hp => hpages p (List.mem_cons_of_mem _ hp),List.length_cons,Nat.succ_mul,Nat.add_comm]
  rw [← h.sorts.1.length_eq,List.length_append,hflatten]

theorem Ahead.lt_length (hlimit : 0 < limit) (h : Ahead key l limit s rest) (hrest : rest ≠ []) :
    s.pages.length*limit < l.length ∧ s.pages.length < l.length := by
  have hlen := h.length
  have hpos := List.length_pos_of_ne_nil hrest
  have hle : s.pages.length ≤ s.pages.length*limit := Nat.le_mul_of_pos_right _ hlimit
  omega

/-- The cursor is the last member of its page. -/
theorem Ahead.border (h : Ahead key l limit s rest) {c : ι} (hc : s.cursor = some c) :
    0 < s.pages.length ∧ (keys key l)[s.pages.length*limit-1]? = some (key c) := by
  have hlast := h.cursor.symm.trans hc
  obtain ⟨shown,hshown⟩ := List.getLast?_eq_some_iff.mp hlast
  constructor
  · refine List.length_pos_of_ne_nil fun hnil => ?_
    rw [hnil] at hlast
    contradiction
  · have hlen := h.length
    rw [← h.sorts.1.length_eq,List.length_append,Nat.add_right_cancel_iff,hshown,List.length_append,
      List.length_singleton] at hlen
    rw [hlen,Nat.add_sub_cancel,← h.sorts.map_key,hshown]
    simp

theorem Ahead.unique_cursor (hlimit : 0 < limit) (h : Ahead key l limit s rest)
    (hrest : s.pages = [] ∨ rest ≠ []) (hunique : UniqueBorders key l limit) :
    ∀ c ∈ s.cursor, (l.map key).count (key c) = 1 := by
  intro c hc
  obtain ⟨hpos,hkey⟩ := h.border hc
  obtain ⟨hlt,hm⟩ := h.lt_length hlimit (hrest.resolve_left (List.ne_nil_of_length_pos hpos))
  exact hunique _ hm hpos hlt _ hkey

/-- What comes next continues the sorted list, when the cursor has its key for itself. -/
theorem Ahead.resume (h : Ahead key l limit s rest)
    (hunique : ∀ c ∈ s.cursor, (l.map key).count (key c) = 1)
    (horder : Sorts key (source key l s.cursor) order) :
    Sorts key l (s.pages.flatten++order.drop (skip s.cursor)) := by
  cases hc : s.cursor with
  | none =>
    rw [hc] at horder
    rw [List.getLast?_eq_none_iff.mp (h.cursor.symm.trans hc)]
    exact horder
  | some c =>
    rw [hc] at horder
    obtain ⟨shown,hshown⟩ := List.getLast?_eq_some_iff.mp (h.cursor.symm.trans hc)
    have hsorts := h.sorts
    rw [hshown,List.append_assoc,List.singleton_append] at hsorts ⊢
    exact hsorts.resume (hunique c hc) horder

variable [DecidableEq ι]

/-- What a page does. -/
theorem next_eq_some : s.next key l limit order = some t ↔ s.finished = false ∧
    Sorts key (source key l s.cursor) order ∧
      if (order.drop (skip s.cursor)).length > limit then
        t = ⟨s.pages++[(order.drop (skip s.cursor)).take limit],
          ((order.drop (skip s.cursor)).take limit).getLast?,false⟩
      else t = ⟨s.pages++[order.drop (skip s.cursor)],none,true⟩ := by
  unfold next
  generalize order.drop (skip s.cursor) = rows
  cases hf : s.finished with
  | true => simp
  | false =>
    by_cases horder : Sorts key (source key l s.cursor) order
    · by_cases hlen : rows.length > limit
      · have htake : (rows.take (limit+1)).length = limit+1 := by rw [List.length_take]; omega
        have hdrop : (rows.take (limit+1)).dropLast = rows.take limit := by
          rw [List.dropLast_eq_take,htake,List.take_take]
          simp
        simp [horder,htake,hdrop,hlen,eq_comm]
      · have htake : rows.take (limit+1) = rows := List.take_of_length_le (by omega)
        simp [horder,htake,hlen,eq_comm]
    · simp [horder]

theorem Within.next (h : s.Within l) (hn : s.next key l limit order = some t) : t.Within l := by
  obtain ⟨-,horder,ht⟩ := next_eq_some.mp hn
  have hrows : ∀ a ∈ order.drop (skip s.cursor), a ∈ l := fun a ha =>
    mem_of_source (horder.1.mem_iff.mp (List.mem_of_mem_drop ha))
  have hpages : ∀ page : List ι, (∀ a ∈ page, a ∈ l) → ∀ a ∈ (s.pages++[page]).flatten, a ∈ l := by
    intro page hpage a ha
    rw [List.flatten_append,List.flatten_singleton,List.mem_append] at ha
    exact ha.elim (h.1 a) (hpage a)
  split at ht <;> subst ht
  · exact ⟨hpages _ fun a ha => hrows a (List.mem_of_mem_take ha),
      fun a ha => hrows a (List.mem_of_mem_take (List.mem_of_getLast? ha))⟩
  · exact ⟨hpages _ hrows,fun a ha => nomatch ha⟩

/-- One page further. -/
theorem Ahead.next (hlimit : 0 < limit) (h : Ahead key l limit s rest)
    (hunique : ∀ c ∈ s.cursor, (l.map key).count (key c) = 1) (hn : s.next key l limit order = some t) :
    t.pages.length = s.pages.length+1 ∧
      ((∃ rest, rest ≠ [] ∧ Ahead key l limit t rest) ∨
        t.finished ∧ Sorts key l t.pages.flatten ∧ ∀ page ∈ t.pages, page.length ≤ limit) := by
  obtain ⟨-,horder,ht⟩ := next_eq_some.mp hn
  have hsorts := h.resume hunique horder
  generalize order.drop (skip s.cursor) = rows at hsorts ht
  split at ht
  · rename_i hlen
    subst ht
    refine ⟨by simp,.inl ⟨rows.drop limit,?_,?_⟩⟩
    · exact List.ne_nil_of_length_pos (by rw [List.length_drop]; omega)
    · have hpage : rows.take limit ≠ [] :=
        List.ne_nil_of_length_pos (by rw [List.length_take]; omega)
      refine ⟨?_,?_,?_,rfl⟩
      · simpa [List.append_assoc] using hsorts
      · intro page hpage
        obtain hpage | hpage := List.mem_append.mp hpage
        · exact h.pages page hpage
        · rw [List.mem_singleton.mp hpage,List.length_take]
          omega
      · rw [List.flatten_append,List.flatten_singleton,List.getLast?_append_of_ne_nil _ hpage]
  · rename_i hlen
    subst ht
    refine ⟨by simp,.inr ⟨rfl,by simpa using hsorts,?_⟩⟩
    intro page hpage
    obtain hpage | hpage := List.mem_append.mp hpage
    · exact (h.pages page hpage).le
    · rw [List.mem_singleton.mp hpage]
      omega

/-- What holds between two pages of a reader that met unique borders only. -/
inductive Reading (key : ι → τ) (l : List ι) (limit : ℕ) (s : Reader ι) : Prop
  | ahead (rest : List ι) (h : Ahead key l limit s rest) (hrest : s.pages = [] ∨ rest ≠ [])
  | done (finished : s.finished) (sorts : Sorts key l s.pages.flatten)
      (bounded : ∀ page ∈ s.pages, page.length ≤ limit) (length : s.pages.length ≤ l.length+1)

theorem Reading.next (hlimit : 0 < limit) (hunique : UniqueBorders key l limit)
    (h : Reading key l limit s) (hn : s.next key l limit order = some t) : Reading key l limit t := by
  cases h with
  | done finished => simp [Reader.next,finished] at hn
  | ahead rest h hrest =>
    obtain ⟨hlen,⟨rest',hne,hahead⟩ | ⟨hfinished,hsorts,hbounded⟩⟩ :=
      h.next hlimit (h.unique_cursor hlimit hrest hunique) hn
    · exact .ahead rest' hahead (.inr hne)
    · refine .done hfinished hsorts hbounded ?_
      obtain hnil | hne := hrest
      · rw [hlen,hnil,List.length_nil]
        omega
      · have hlt := (h.lt_length hlimit hne).2
        omega

theorem Reading.of_runs (hlimit : 0 < limit) (hunique : UniqueBorders key l limit)
    {orders : List (List ι)} (hr : runs (Reader.next key l limit) start orders = some s) :
    Reading key l limit s := by
  obtain ⟨rest,hstart⟩ := ahead_start key l limit
  exact runs_invariant' (fun _ _ _ h hn => Reading.next hlimit hunique h hn)
    (.ahead rest hstart (.inl rfl)) hr

theorem length_of_runs {orders : List (List ι)}
    (hr : runs (next key l limit) s orders = some t) :
    t.pages.length = s.pages.length+orders.length := by
  induction orders generalizing s with
  | nil =>
    cases hr
    rfl
  | cons order orders ih =>
    obtain ⟨u,hn,hrest⟩ := runs_cons.mp hr
    obtain ⟨-,-,hu⟩ := next_eq_some.mp hn
    have hlen : u.pages.length = s.pages.length+1 := by split at hu <;> simp [hu]
    rw [ih hrest,hlen,List.length_cons]
    omega

theorem UniqueBorders.enumerates (hlimit : 0 < limit) (hunique : UniqueBorders key l limit) :
    Enumerates key l limit where
  terminates := by
    refine ⟨l.length+1,fun orders s hr => ?_⟩
    have hlen := length_of_runs hr
    rw [start,List.length_nil,Nat.zero_add] at hlen
    rw [← hlen]
    cases Reading.of_runs hlimit hunique hr with
    | done _ _ _ length => exact length
    | ahead rest h _ =>
      have htotal := h.length
      have hle : s.pages.length ≤ s.pages.length*limit := Nat.le_mul_of_pos_right _ hlimit
      omega
  complete orders s hr hfinished := by
    cases Reading.of_runs hlimit hunique hr with
    | done _ sorts _ _ => exact sorts
    | ahead rest h _ =>
      rw [h.unfinished] at hfinished
      contradiction
  bounded orders s hr page hpage := by
    cases Reading.of_runs hlimit hunique hr with
    | done _ _ bounded _ => exact bounded page hpage
    | ahead rest h _ => exact (h.pages page hpage).le

section Repeats

theorem next_of_sorts (limit : ℕ) (h : s.finished = false) (horder : Sorts key (source key l s.cursor) order) :
    ∃ t, s.next key l limit order = some t := by
  by_cases hlen : (order.drop (skip s.cursor)).length > limit
  · exact ⟨_,next_eq_some.mpr ⟨h,horder,by rw [if_pos hlen]⟩⟩
  · exact ⟨_,next_eq_some.mpr ⟨h,horder,by rw [if_neg hlen]⟩⟩

theorem exists_next (key : ι → τ) (l : List ι) (limit : ℕ) (h : s.finished = false) :
    ∃ order t, s.next key l limit order = some t := by
  obtain ⟨order,horder⟩ := exists_sorts key (source key l s.cursor)
  exact ⟨order,next_of_sorts limit h horder⟩

/-- A reader that comes to an end in any case can be led there. -/
theorem exists_finished {n : ℕ}
    (h : ∀ orders t, runs (next key l limit) s orders = some t → orders.length ≤ n) :
    ∃ orders t, runs (next key l limit) s orders = some t ∧ t.finished := by
  induction n generalizing s with
  | zero =>
    cases hf : s.finished with
    | true => exact ⟨[],s,rfl,hf⟩
    | false =>
      obtain ⟨order,t,hn⟩ := exists_next key l limit hf
      have := h [order] t (runs_cons.mpr ⟨t,hn,rfl⟩)
      contradiction
  | succ n ih =>
    cases hf : s.finished with
    | true => exact ⟨[],s,rfl,hf⟩
    | false =>
      obtain ⟨order,t,hn⟩ := exists_next key l limit hf
      obtain ⟨orders,u,hr,hu⟩ := ih fun orders u hr =>
        Nat.le_of_succ_le_succ (h (order::orders) u (runs_cons.mpr ⟨t,hn,hr⟩))
      exact ⟨order::orders,u,runs_cons.mpr ⟨t,hn,hr⟩,hu⟩

theorem pages_prefix {orders : List (List ι)} (hr : runs (next key l limit) s orders = some t) :
    s.pages <+: t.pages := by
  refine runs_invariant' (I := fun u => s.pages <+: u.pages) (fun u order v hu hn => ?_)
    (List.prefix_refl _) hr
  obtain ⟨-,-,hv⟩ := next_eq_some.mp hn
  split at hv <;> exact hv ▸ hu.trans (List.prefix_append ..)

/-- Nothing is read twice. -/
theorem Enumerates.nodup (h : Enumerates key l limit) (hl : l.Nodup) {orders : List (List ι)}
    (hr : runs (Reader.next key l limit) start orders = some s) : s.pages.flatten.Nodup := by
  obtain ⟨n,hn⟩ := h.terminates
  obtain ⟨later,t,hlater,hfinished⟩ := exists_finished (n := n) fun later t hlater => by
    have := hn (orders++later) t (runs_append.mpr ⟨s,hr,hlater⟩)
    rw [List.length_append] at this
    omega
  have hall := (h.complete _ t (runs_append.mpr ⟨s,hr,hlater⟩) hfinished).1.nodup_iff.mpr hl
  obtain ⟨more,hmore⟩ := pages_prefix hlater
  rw [← hmore,List.flatten_append,List.nodup_append] at hall
  exact hall.1

/-- Pages up to the first border that several members share. -/
theorem exists_ahead (hlimit : 0 < limit) (m : ℕ) (hm : m*limit < l.length ∨ m = 0)
    (hunique : ∀ m', 0 < m' → m' < m → UniqueBorder key l limit m') :
    ∃ orders s rest, runs (next key l limit) start orders = some s ∧ Ahead key l limit s rest ∧
      s.pages.length = m := by
  induction m with
  | zero =>
    obtain ⟨rest,hstart⟩ := ahead_start key l limit
    exact ⟨[],start,rest,rfl,hstart,rfl⟩
  | succ m ih =>
    have hlt : (m+1)*limit < l.length := hm.resolve_right (Nat.succ_ne_zero m)
    rw [Nat.succ_mul] at hlt
    obtain ⟨orders,s,rest,hr,hahead,rfl⟩ := ih (.inl (by omega))
      fun m' hpos hm' => hunique m' hpos (hm'.trans (Nat.lt_succ_self m))
    have hcursor : ∀ c ∈ s.cursor, (l.map key).count (key c) = 1 := fun c hc => by
      obtain ⟨hpos,hkey⟩ := hahead.border hc
      exact hunique _ hpos (Nat.lt_succ_self _) _ hkey
    obtain ⟨order,t,hn⟩ := exists_next key l limit hahead.unfinished
    obtain ⟨hlen,⟨rest',-,hahead'⟩ | ⟨-,hsorts,hbounded⟩⟩ := hahead.next hlimit hcursor hn
    · exact ⟨orders++[order],t,rest',runs_append.mpr ⟨s,hr,runs_cons.mpr ⟨t,hn,rfl⟩⟩,hahead',hlen⟩
    · have hall := length_flatten_le hbounded
      rw [hsorts.1.length_eq,hlen,Nat.succ_mul] at hall
      omega

/-- At a border that several members share, one of them can be read again. -/
theorem Ahead.exists_repeat (hl : l.Nodup) (hlimit : 0 < limit) (h : Ahead key l limit s rest) {c : ι}
    (hc : s.cursor = some c) (hshared : (l.map key).count (key c) ≠ 1) :
    ∃ order t, s.next key l limit order = some t ∧ ¬t.pages.flatten.Nodup := by
  have hread : c ∈ s.pages.flatten := List.mem_of_getLast? (h.cursor.symm.trans hc)
  have hmem : c ∈ l := h.sorts.1.mem_iff.mp (List.mem_append_left _ hread)
  obtain ⟨d,hd,hne,hsame⟩ := exists_same_key hl hmem hshared
  have hsource : ∀ a ∈ l, key a = key c → a ∈ l.filter (key c ≤ key ·) := fun a ha heq =>
    List.mem_filter.mpr ⟨ha,decide_eq_true heq.ge⟩
  have hleast : ∀ x ∈ l.filter (key c ≤ key ·), key c ≤ key x := fun x hx =>
    of_decide_eq_true (List.mem_filter.mp hx).2
  -- the member to skip is the one that has not been read, if there is one
  have horder : ∃ a b tail, Sorts key (source key l s.cursor) (a::b::tail) ∧
      b ∈ s.pages.flatten := by
    rw [hc]
    by_cases hagain : d ∈ s.pages.flatten
    · obtain ⟨tail,hsorts⟩ :=
        exists_sorts_two (hsource c hmem rfl) (hsource d hd hsame) hne.symm hleast hsame
      exact ⟨c,d,tail,hsorts,hagain⟩
    · obtain ⟨tail,hsorts⟩ := exists_sorts_two (hsource d hd hsame) (hsource c hmem rfl) hne
        (fun x hx => hsame ▸ hleast x hx) hsame.symm
      exact ⟨d,c,tail,hsorts,hread⟩
  obtain ⟨a,b,tail,hsorts,hb⟩ := horder
  have hskip : (a::b::tail).drop (skip s.cursor) = b::tail := by rw [hc]; rfl
  have hrepeat : ∀ page : List ι, b ∈ page → ¬(s.pages++[page]).flatten.Nodup := by
    intro page hpage hnodup
    rw [List.flatten_append,List.flatten_singleton,List.nodup_append] at hnodup
    exact hnodup.2.2 b hb b hpage rfl
  by_cases hlen : (b::tail).length > limit
  · refine ⟨_,_,next_eq_some.mpr ⟨h.unfinished,hsorts,by rw [hskip,if_pos hlen]⟩,hrepeat _ ?_⟩
    obtain ⟨k,rfl⟩ := Nat.exists_eq_add_of_lt hlimit
    simp
  · exact ⟨_,_,next_eq_some.mpr ⟨h.unfinished,hsorts,by rw [hskip,if_neg hlen]⟩,
      hrepeat _ (List.mem_cons_self ..)⟩

end Repeats

/-- Reading page by page reads everything once, if and only if no page ends in the middle of several
members of one key. -/
theorem enumerates_iff (hl : l.Nodup) (hlimit : 0 < limit) :
    Enumerates key l limit ↔ UniqueBorders key l limit := by
  refine ⟨fun h => ?_,UniqueBorders.enumerates hlimit⟩
  intro m _
  induction m using Nat.strongRecOn with
  | ind m ih =>
    intro hpos hm
    have hbefore : ∀ m', 0 < m' → m' < m → UniqueBorder key l limit m' := fun m' hpos' hlt => by
      have hle : m'*limit ≤ m*limit := Nat.mul_le_mul_right limit hlt.le
      exact ih m' hlt (by omega) hpos' (by omega)
    obtain ⟨orders,s,rest,hr,hahead,rfl⟩ := exists_ahead hlimit m (.inl hm) hbefore
    intro t ht
    cases hc : s.cursor with
    | none =>
      have hnil := List.getLast?_eq_none_iff.mp (hahead.cursor.symm.trans hc)
      have hlen := hahead.length
      rw [← hahead.sorts.1.length_eq,hnil,List.nil_append] at hlen
      have := Nat.le_mul_of_pos_right s.pages.length hlimit
      omega
    | some c =>
      obtain ⟨-,hkey⟩ := hahead.border hc
      rw [hkey,Option.mem_some_iff] at ht
      subst ht
      by_contra hshared
      obtain ⟨order,u,hn,hrepeat⟩ := hahead.exists_repeat hl hlimit hc hshared
      have hrun : runs (next key l limit) start (orders++[order]) = some u :=
        runs_append.mpr ⟨s,hr,runs_cons.mpr ⟨u,hn,rfl⟩⟩
      exact hrepeat (h.nodup hl hrun)

end Reader
end NestHomework.Shared
