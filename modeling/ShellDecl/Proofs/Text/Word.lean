import Mathlib.Data.List.Basic
import ShellDecl.Proofs.Json.Numeral
import ShellDecl.Text.Word

/-!
# Whole numbers of 32 bits, read

A number of 32 bits is read from what writes it and from nothing else. Its decimal digits are one way to write it.
-/

set_option autoImplicit false

namespace ShellDecl.Text

variable {text : List Char} {n : Nat}

theorem isNumber_iff : isNumber text = true ↔ text ≠ [] ∧ ∀ c ∈ text, c.isDigit = true := by
  simp [isNumber]

theorem not_mem_of_isNumber {c : Char} (hc : c.isDigit = false) (h : isNumber text = true) : c ∉ text := by
  intro hmem
  rw [(isNumber_iff.mp h).2 c hmem] at hc
  cases hc

theorem isNumber_nat (n : Nat) : isNumber (toString n).toList = true := by
  rw [Json.Numeral.nat_digits, isNumber_iff]
  exact ⟨Nat.toDigits_ne_nil, Json.Numeral.nat_isDigit n⟩

theorem decimal_nat (n : Nat) : decimal (toString n).toList = n := by
  have hdecimal : ∀ digits, decimal digits = Nat.ofDigitChars 10 digits 0 := by
    intro digits
    rw [decimal, Nat.ofDigitChars_eq_foldl]
    exact List.foldl_ext _ _ _ fun n c _ => by rw [Nat.mul_comm]; rfl
  rw [Json.Numeral.nat_digits, hdecimal, Nat.ofDigitChars_ten_toDigits]

theorem unsigned_of_isNumber (h : isNumber text = true) : unsigned text = text := by
  have hplus : '+' ∉ text := not_mem_of_isNumber rfl h
  rw [unsigned.eq_def]
  split
  · exact absurd List.mem_cons_self hplus
  · rfl

/-- The text is a number of 32 bits in decimal digits, with or without a plus sign in front of them. -/
def WritesWord (text : List Char) (n : Nat) : Prop :=
  ∃ digits, (text = digits ∨ text = '+' :: digits) ∧ isNumber digits = true ∧ decimal digits = n ∧ n < UInt32.size

theorem word?_eq_some_iff : word? text = some n ↔ WritesWord text n := by
  simp only [word?, Option.ite_none_right_eq_some, Bool.and_eq_true, decide_eq_true_eq, Option.some.injEq]
  constructor
  · rintro ⟨⟨hnumber, hlt⟩, rfl⟩
    refine ⟨unsigned text, ?_, hnumber, rfl, hlt⟩
    rw [unsigned.eq_def]
    split
    · exact .inr rfl
    · exact .inl rfl
  · rintro ⟨digits, rfl | rfl, hnumber, rfl, hlt⟩
    · rw [unsigned_of_isNumber hnumber]
      exact ⟨⟨hnumber, hlt⟩, rfl⟩
    · exact ⟨⟨hnumber, hlt⟩, rfl⟩

theorem word?_nat (h : n < UInt32.size) : word? (toString n).toList = some n :=
  word?_eq_some_iff.mpr ⟨_, .inl rfl, isNumber_nat n, decimal_nat n, h⟩

theorem WritesWord.lt (h : WritesWord text n) : n < UInt32.size := by
  obtain ⟨digits, -, -, -, hlt⟩ := h
  exact hlt

end ShellDecl.Text
