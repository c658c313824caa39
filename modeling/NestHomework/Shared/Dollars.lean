import Mathlib.Tactic
import NestHomework.Shared.Numeral

/-! The extension of `BigInt`: an amount in hundredths as a decimal numeral. Both methods read the
number anew and repeat the same steps. -/
namespace NestHomework.Shared

/-- `s.padStart(n,c)` -/
def padStart (s : String) (n : ℕ) (c : Char) : String := String.ofList (s.toList.leftpad n c)

/-- Division and remainder of `BigInt` round to zero. -/
def toDollarsStr (this : ℤ) : Option String :=
  (stringToBigInt (toString this)).map fun value =>
    let abs := if value < 0 then -value else value
    let whole := abs.tdiv 100
    let remainder := abs.tmod 100
    let result :=
      if remainder = 0 then toString whole
      else toString whole++"."++padStart (toString remainder) 2 '0'
    if value < 0 then "-"++result else result

def toDollarsInt {Number : Type} (parseFloat : String → Number) (this : ℤ) : Option Number :=
  (stringToBigInt (toString this)).map fun value =>
    let abs := if value < 0 then -value else value
    let whole := abs.tdiv 100
    let remainder := abs.tmod 100
    let result :=
      if remainder = 0 then toString whole
      else toString whole++"."++padStart (toString remainder) 2 '0'
    let str := if value < 0 then "-"++result else result
    parseFloat str

/-- The two digits of a remainder, or none. -/
def centDigits (r : ℕ) : List Char := if r = 0 then [] else (Nat.toDigits 10 r).leftpad 2 '0'

section Cents
variable {r : ℕ}

theorem isDigit_toDigits {n : ℕ} : ∀ c ∈ Nat.toDigits 10 n, c.isDigit :=
  fun _ hc => Nat.isDigit_of_mem_toDigits (by decide) (by decide) hc

theorem isDigit_centDigits : ∀ c ∈ centDigits r, c.isDigit := by
  intro c hc
  unfold centDigits List.leftpad at hc
  split at hc
  · contradiction
  · obtain hc | hc := List.mem_append.mp hc
    · rw [List.eq_of_mem_replicate hc]
      decide
    · exact isDigit_toDigits c hc

theorem length_centDigits (h : r < 100) : (centDigits r).length = if r = 0 then 0 else 2 := by
  have hlen : (Nat.toDigits 10 r).length ≤ 2 :=
    (Nat.length_toDigits_le_iff (by decide) (by decide)).mpr (by omega)
  unfold centDigits
  split
  · rfl
  · rw [List.length_leftpad]
    omega

/-- Leading zeros do not count. -/
theorem ofDigitChars_centDigits : Nat.ofDigitChars 10 (centDigits r) 0 = r := by
  unfold centDigits List.leftpad
  split
  · rename_i h
    simp [h]
  · rw [Nat.ofDigitChars_append,Nat.ofDigitChars_replicate_zero,Nat.mul_zero,
      Nat.ofDigitChars_ten_toDigits]

end Cents

/-- The numeral of an amount. -/
def dollars (n : ℤ) : Numeral where
  negative := n < 0
  whole := Nat.toDigits 10 (n.natAbs/100)
  fraction := centDigits (n.natAbs%100)
  whole_ne := Nat.toDigits_ne_nil
  isDigit_whole := isDigit_toDigits
  isDigit_fraction := isDigit_centDigits

section Dollars
variable (n : ℤ)

theorem length_fraction_dollars :
    (dollars n).fraction.length = if n.natAbs%100 = 0 then 0 else 2 :=
  length_centDigits (Nat.mod_lt _ (by decide))

theorem unsignedValue_dollars : (dollars n).unsignedValue = n.natAbs/100 := by
  have hlen := length_fraction_dollars n
  have hsplit : (n.natAbs : ℚ) = 100*(n.natAbs/100 : ℕ)+(n.natAbs%100 : ℕ) := by
    exact_mod_cast (Nat.div_add_mod _ 100).symm
  have hwhole : Nat.ofDigitChars 10 (dollars n).whole 0 = n.natAbs/100 :=
    Nat.ofDigitChars_ten_toDigits
  have hfraction : Nat.ofDigitChars 10 (dollars n).fraction 0 = n.natAbs%100 :=
    ofDigitChars_centDigits
  rw [Numeral.unsignedValue,hlen,hwhole,hfraction,hsplit]
  split
  · rename_i h
    simp only [h]
    norm_num
  · norm_num
    ring

theorem value_dollars : (dollars n).value = n/100 := by
  rw [Numeral.value,unsignedValue_dollars]
  have habs : (n.natAbs : ℚ) = |(n : ℚ)| := by rw [Nat.cast_natAbs,Int.cast_abs]
  rw [habs]
  by_cases h : n < 0
  · have hq : (n : ℚ) < 0 := by exact_mod_cast h
    simp only [dollars,h,decide_true,if_true]
    rw [abs_of_neg hq]
    ring
  · have hq : 0 ≤ (n : ℚ) := by exact_mod_cast not_lt.mp h
    simp only [dollars,h,decide_false,Bool.false_eq_true,if_false]
    rw [abs_of_nonneg hq]

theorem toList_toString_natCast (m : ℕ) : (toString (m : ℤ)).toList = Nat.toDigits 10 m :=
  Nat.toList_repr

/-- The text without its sign, as both methods put it together. -/
theorem result_eq :
    (if (n.natAbs : ℤ).tmod 100 = 0 then toString ((n.natAbs : ℤ).tdiv 100)
      else toString ((n.natAbs : ℤ).tdiv 100)++"."++padStart (toString ((n.natAbs : ℤ).tmod 100)) 2 '0') =
      String.ofList (dollars n).unsignedText := by
  have hdiv : (n.natAbs : ℤ).tdiv 100 = (n.natAbs/100 : ℕ) := (Int.ofNat_tdiv ..).symm
  have hmod : (n.natAbs : ℤ).tmod 100 = (n.natAbs%100 : ℕ) := (Int.ofNat_tmod ..).symm
  rw [hdiv,hmod,← String.toList_inj,String.toList_ofList,Numeral.unsignedText]
  by_cases h : n.natAbs%100 = 0
  · have hcast : ((n.natAbs%100 : ℕ) : ℤ) = 0 := by exact_mod_cast h
    have hfraction : (dollars n).fraction = [] := if_pos h
    rw [if_pos hcast,if_pos hfraction,toList_toString_natCast]
    rfl
  · have hcast : ((n.natAbs%100 : ℕ) : ℤ) ≠ 0 := by exact_mod_cast h
    have hfraction : (dollars n).fraction = (Nat.toDigits 10 (n.natAbs%100)).leftpad 2 '0' :=
      if_neg h
    have hne : (dollars n).fraction ≠ [] := by simp [hfraction,List.leftpad,Nat.toDigits_ne_nil]
    rw [if_neg hcast,if_neg hne,hfraction,String.toList_append,String.toList_append,padStart,
      toList_toString_natCast,toList_toString_natCast,List.append_assoc]
    simp only [String.toList_ofList]
    rfl

theorem toDollarsStr_eq : toDollarsStr n = some (dollars n).text := by
  have habs : (if n < 0 then -n else n) = n.natAbs := by split <;> omega
  simp only [toDollarsStr,stringToBigInt_toString,Option.map_some,habs,Option.some.injEq]
  rw [result_eq,Numeral.text]
  by_cases h : n < 0
  · have hneg : (dollars n).negative = true := decide_eq_true h
    rw [if_pos h,if_pos hneg,← String.toList_inj,String.toList_append]
    simp only [String.toList_ofList]
    rfl
  · have hneg : ¬(dollars n).negative = true := by simp [dollars,h]
    rw [if_neg h,if_neg hneg]

/-- Both methods make the same text. -/
theorem toDollarsInt_eq {Number : Type} (parseFloat : String → Number) :
    toDollarsInt parseFloat n = some (parseFloat (dollars n).text) := by
  have h : toDollarsInt parseFloat n = (toDollarsStr n).map parseFloat := by
    rw [toDollarsInt,toDollarsStr,Option.map_map]
    rfl
  rw [h,toDollarsStr_eq,Option.map_some]

end Dollars

/-- A text of an amount is the numeral of its hundredth, from which it can be read back. -/
theorem dollars_are_exact :
    (∀ n : ℤ, ∃ d : Numeral, toDollarsStr n = some d.text ∧
      (d.fraction = [] ∨ d.fraction.length = 2) ∧ d.value = n/100 ∧
      parseDecimal d.text = some (n/100 : ℚ)) ∧
    Function.Injective toDollarsStr ∧
    ∀ (Number : Type) (parseFloat : String → Number) (n : ℤ),
      toDollarsInt parseFloat n = (toDollarsStr n).map parseFloat := by
  refine ⟨fun n => ⟨dollars n,toDollarsStr_eq n,?_,value_dollars n,?_⟩,fun m n h => ?_,
    fun Number parseFloat n => ?_⟩
  · have hlen := length_fraction_dollars n
    split at hlen
    · exact .inl (List.length_eq_zero_iff.mp hlen)
    · exact .inr hlen
  · rw [Numeral.parseDecimal_text,value_dollars]
  · rw [toDollarsStr_eq,toDollarsStr_eq,Option.some.injEq] at h
    have hvalue : (m/100 : ℚ) = n/100 := by
      have hparse := congrArg parseDecimal h
      rwa [Numeral.parseDecimal_text,Numeral.parseDecimal_text,value_dollars,value_dollars,
        Option.some.injEq] at hparse
    have hcast : (m : ℚ) = n := by linarith
    exact_mod_cast hcast
  · rw [toDollarsInt_eq,toDollarsStr_eq,Option.map_some]

example : toDollarsStr (-5) = some "-0.05" := by decide +kernel

end NestHomework.Shared
