import Mathlib.Data.Rat.Cast.Order
import Mathlib.Tactic.Ring
import NestHomework.Shared.BigInt

/-! Decimal numerals as texts and as rational numbers. -/
namespace NestHomework.Shared

/-- A sign, at least one digit, and the digits of a fraction. -/
structure Numeral where
  negative : Bool
  whole : List Char
  fraction : List Char
  whole_ne : whole ≠ []
  isDigit_whole : ∀ c ∈ whole, c.isDigit
  isDigit_fraction : ∀ c ∈ fraction, c.isDigit

namespace Numeral
variable (d : Numeral)

/-- The point stands only before a fraction that has digits. -/
def unsignedText : List Char := if d.fraction = [] then d.whole else d.whole++ '.'::d.fraction

def text : String := String.ofList (if d.negative then '-'::d.unsignedText else d.unsignedText)

def unsignedValue : ℚ :=
  Nat.ofDigitChars 10 d.whole 0+Nat.ofDigitChars 10 d.fraction 0/10^d.fraction.length

def value : ℚ := if d.negative then -d.unsignedValue else d.unsignedValue

end Numeral

/-- Read a numeral without a sign. -/
def parseUnsigned (cs : List Char) : Option ℚ :=
  match cs.splitOn '.' with
  | [whole] => (digits 10 whole).map (fun n : ℕ => (n : ℚ))
  | [whole,fraction] =>
    (digits 10 whole).bind fun n =>
      (digits 10 fraction).map fun m => (n : ℚ)+m/10^fraction.length
  | _ => none

def parseDecimal (s : String) : Option ℚ :=
  match s.toList with
  | '-'::cs => (parseUnsigned cs).map (fun q => -q)
  | cs => parseUnsigned cs

theorem ne_of_isDigit {c d : Char} (hc : c.isDigit) (hd : d.isDigit = false) : c ≠ d := by
  rintro rfl
  rw [hc] at hd
  contradiction

namespace Numeral
variable (d : Numeral)

theorem point_not_mem_whole : '.' ∉ d.whole :=
  fun h => ne_of_isDigit (d.isDigit_whole _ h) (by decide) rfl

theorem point_not_mem_fraction : '.' ∉ d.fraction :=
  fun h => ne_of_isDigit (d.isDigit_fraction _ h) (by decide) rfl

theorem parseUnsigned_unsignedText : parseUnsigned d.unsignedText = some d.unsignedValue := by
  have hwhole := digits_of_all_isDigit d.whole_ne d.isDigit_whole
  unfold unsignedText parseUnsigned unsignedValue
  by_cases hf : d.fraction = []
  · rw [if_pos hf,List.splitOn_eq_singleton d.point_not_mem_whole]
    simp [hwhole,hf]
  · have hfraction := digits_of_all_isDigit hf d.isDigit_fraction
    rw [if_neg hf,List.splitOn_append_cons_self_of_not_mem d.point_not_mem_whole,
      List.splitOn_eq_singleton d.point_not_mem_fraction]
    simp [hwhole,hfraction]

/-- A numeral begins with a minus or with a digit. -/
theorem exists_unsignedText : ∃ c cs, d.unsignedText = c::cs ∧ c.isDigit := by
  obtain ⟨c,cs,hc⟩ := List.exists_cons_of_ne_nil d.whole_ne
  have hdigit : c.isDigit := d.isDigit_whole c (by simp [hc])
  unfold unsignedText
  split
  · exact ⟨c,cs,hc,hdigit⟩
  · exact ⟨c,cs++ '.'::d.fraction,by rw [hc,List.cons_append],hdigit⟩

theorem parseDecimal_text : parseDecimal d.text = some d.value := by
  obtain ⟨c,cs,htext,hdigit⟩ := d.exists_unsignedText
  have hparse := d.parseUnsigned_unsignedText
  unfold parseDecimal text value
  rw [String.toList_ofList]
  cases d.negative with
  | true => simp [hparse]
  | false =>
    rw [htext] at hparse
    simp only [Bool.false_eq_true,if_false,htext]
    split
    · rename_i hc
      cases hc
      exact absurd hdigit (by decide)
    · exact hparse

end Numeral
end NestHomework.Shared
