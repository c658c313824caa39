import Mathlib.Data.Option.Basic
import Mathlib.Algebra.Order.Ring.Int

/-! The string conversions of the language's `BigInt`. Amounts travel between the services as
decimal strings and are read back with `BigInt(amount)`, which throws on anything that is not an
integer literal. -/
namespace NestHomework.Shared

/-- White space and line ends, as `trim` removes them. -/
def isStrWhiteSpace (c : Char) : Bool :=
  [9,10,11,12,13,0x20,0xA0,0x1680,0x2028,0x2029,0x202F,0x205F,0x3000,0xFEFF].contains c.toNat ||
    (0x2000 ≤ c.toNat && c.toNat ≤ 0x200A)

def trim (cs : List Char) : List Char :=
  ((cs.dropWhile isStrWhiteSpace).reverse.dropWhile isStrWhiteSpace).reverse

/-- The value of a digit, when it is one in the base. -/
def digitValue (base : ℕ) (c : Char) : Option ℕ :=
  let v :=
    if c.isDigit then c.toNat-48
    else if 'a' ≤ c ∧ c ≤ 'f' then c.toNat-87
    else if 'A' ≤ c ∧ c ≤ 'F' then c.toNat-55
    else base
  if v < base then some v else none

def digits (base : ℕ) : List Char → Option ℕ
  | [] => none
  | cs => cs.foldlM (fun acc c => (digitValue base c).map (fun v => base*acc+v)) 0

/-- The base of a literal with a prefix. -/
def prefixBase (c : Char) : Option ℕ :=
  if c = 'x' ∨ c = 'X' then some 16
  else if c = 'o' ∨ c = 'O' then some 8
  else if c = 'b' ∨ c = 'B' then some 2
  else none

def signed : List Char → Option ℤ
  | '-'::cs => (digits 10 cs).map (fun n : ℕ => -(n : ℤ))
  | '+'::cs => (digits 10 cs).map (fun n : ℕ => (n : ℤ))
  | cs => (digits 10 cs).map (fun n : ℕ => (n : ℤ))

/-- `BigInt(s)`; `none` is the `SyntaxError`. -/
def stringToBigInt (s : String) : Option ℤ :=
  match trim s.toList with
  | [] => some 0
  | [c] => signed [c]
  | c::d::cs =>
    match if c = '0' then prefixBase d else none with
    | some base => (digits base cs).map (fun n : ℕ => (n : ℤ))
    | none => signed (c::d::cs)

theorem toNat_of_isDigit {c : Char} (h : c.isDigit) : 48 ≤ c.toNat ∧ c.toNat ≤ 57 := by
  simp only [Char.isDigit,Bool.and_eq_true,decide_eq_true_eq,UInt32.le_iff_toNat_le] at h
  exact h

theorem digitValue_of_isDigit {c : Char} (h : c.isDigit) :
    digitValue 10 c = some (c.toNat-48) := by
  have := toNat_of_isDigit h
  simp only [digitValue,h,if_true]
  rw [if_pos (by omega)]

theorem digits_of_all_isDigit {cs : List Char} (hne : cs ≠ []) (h : ∀ c ∈ cs, c.isDigit) :
    digits 10 cs = some (Nat.ofDigitChars 10 cs 0) := by
  have hfold : ∀ acc, cs.foldlM (fun acc c => (digitValue 10 c).map (fun v => 10*acc+v)) acc =
      some (Nat.ofDigitChars 10 cs acc) := by
    clear hne
    induction cs with
    | nil => simp
    | cons c cs ih =>
      intro acc
      simp only [List.mem_cons,forall_eq_or_imp] at h
      simp only [List.foldlM_cons,digitValue_of_isDigit h.1,Option.map_some,Option.bind_eq_bind,
        Option.bind_some,Nat.ofDigitChars_cons]
      exact ih h.2 _
  cases cs with
  | nil => contradiction
  | cons c cs => exact hfold 0

theorem not_whiteSpace_of_isDigit {c : Char} (h : c.isDigit) : isStrWhiteSpace c = false := by
  have := toNat_of_isDigit h
  have hn : c.toNat < 58 := by omega
  simp only [isStrWhiteSpace,List.contains_eq_mem,List.mem_cons,List.not_mem_nil]
  simp
  omega

theorem trim_of_ends {cs : List Char} (hh : ∀ c ∈ cs.head?, isStrWhiteSpace c = false)
    (hl : ∀ c ∈ cs.getLast?, isStrWhiteSpace c = false) : trim cs = cs := by
  have hdrop : ∀ ds : List Char, (∀ c ∈ ds.head?, isStrWhiteSpace c = false) →
      ds.dropWhile isStrWhiteSpace = ds := by
    intro ds hd
    cases ds with
    | nil => rfl
    | cons d ds => simp [hd d (by simp)]
  rw [trim,hdrop cs hh,hdrop cs.reverse (by simpa using hl),List.reverse_reverse]

/-- Reading back what `toString` printed. -/
@[simp] theorem stringToBigInt_toString (n : ℤ) : stringToBigInt (toString n) = some n := by
  have hdig : ∀ m : ℕ, ∀ c ∈ Nat.toDigits 10 m, c.isDigit :=
    fun m c hc => Nat.isDigit_of_mem_toDigits (by decide) (by decide) hc
  have hval : ∀ m : ℕ, digits 10 (Nat.toDigits 10 m) = some m := by
    intro m
    rw [digits_of_all_isDigit Nat.toDigits_ne_nil (hdig m),Nat.ofDigitChars_ten_toDigits]
  have hws : ∀ m : ℕ, ∀ c ∈ Nat.toDigits 10 m, isStrWhiteSpace c = false :=
    fun m c hc => not_whiteSpace_of_isDigit (hdig m c hc)
  cases n with
  | ofNat m =>
    have hl : (toString (Int.ofNat m)).toList = Nat.toDigits 10 m := Nat.toList_repr
    have ht : trim (Nat.toDigits 10 m) = Nat.toDigits 10 m :=
      trim_of_ends (fun c hc => hws m c (List.mem_of_mem_head? hc))
        (fun c hc => hws m c (List.mem_of_mem_getLast? hc))
    have hsigned : ∀ cs, (∀ c ∈ cs, Char.isDigit c) →
        signed cs = (digits 10 cs).map (fun n : ℕ => (n : ℤ)) := by
      intro cs hcs
      unfold signed
      split
      · exact absurd (hcs '-' (by simp)) (by decide)
      · exact absurd (hcs '+' (by simp)) (by decide)
      · rfl
    rw [stringToBigInt,hl,ht]
    have hd := hdig m
    have hv := hval m
    generalize Nat.toDigits 10 m = cs at hd hv
    match cs, hd, hv with
    | [], _, hv => simp [digits] at hv
    | [c], hd, hv => simp only [hsigned [c] hd,hv]; rfl
    | c::d::cs, hd, hv =>
      have hp : prefixBase d = none := by
        have := toNat_of_isDigit (hd d (by simp))
        simp only [prefixBase]
        rw [if_neg,if_neg,if_neg]
        all_goals rintro (rfl | rfl) <;> simp at this
      simp only [hp,ite_self,hsigned _ hd,hv]
      rfl
  | negSucc m =>
    have hl : (toString (Int.negSucc m)).toList = '-'::Nat.toDigits 10 (m+1) := by
      change ("-" ++ Nat.repr (m+1)).toList = _
      rw [String.toList_append,Nat.toList_repr]
      rfl
    have ht : trim ('-'::Nat.toDigits 10 (m+1)) = '-'::Nat.toDigits 10 (m+1) := by
      refine trim_of_ends (by simp; decide) (fun c hc => ?_)
      rcases List.mem_cons.mp (List.mem_of_mem_getLast? hc) with rfl | hc
      · decide
      · exact hws _ c hc
    rw [stringToBigInt,hl,ht]
    have hv := hval (m+1)
    generalize Nat.toDigits 10 (m+1) = cs at hv
    match cs, hv with
    | [], hv => simp [digits] at hv
    | d::cs, hv =>
      simp only [show ('-' = '0') = False by decide,if_false,signed,hv]
      rfl

end NestHomework.Shared
