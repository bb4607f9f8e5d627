import Mathlib.Data.List.TakeWhile
import Mathlib.Data.Nat.Digits.Defs
import ShellDecl.Json.Numeral
import ShellDecl.Json.Value

/-!
# How far a number runs

A number ends where a character follows that no number has in it, so its length does not depend on what comes after.
The decimal digits of a number are read back whole, and stand for it while it has a place in 64 bits.
-/

set_option autoImplicit false

namespace ShellDecl.Json.Numeral

/-- No number goes on with the text. -/
def Stops (rest : List Char) : Prop :=
  ∀ c, rest.head? = some c → c.isDigit = false ∧ c ∉ ['.', 'e', 'E', '+', '-']

theorem stops_nil : Stops [] := by
  intro c h
  simp at h

theorem Stops.digitsLength {rest : List Char} (h : Stops rest) : digitsLength rest = 0 := by
  cases rest with
  | nil => rfl
  | cons c rest => simp [Numeral.digitsLength, (h c rfl).1]

theorem digitsLength_le (text : List Char) : digitsLength text ≤ text.length :=
  (List.takeWhile_prefix _).length_le

theorem digitsLength_append {rest : List Char} (h : Stops rest) (text : List Char) :
    digitsLength (text ++ rest) = digitsLength text := by
  induction text with
  | nil => exact h.digitsLength
  | cons c text ih =>
    simp only [digitsLength, List.cons_append, List.takeWhile_cons] at ih ⊢
    split
    · simp [ih]
    · rfl

theorem wholeLength_append {rest : List Char} (h : Stops rest) (text : List Char) :
    wholeLength (text ++ rest) = wholeLength text := by
  cases text with
  | nil =>
    cases rest with
    | nil => rfl
    | cons c rest =>
      have hd := h.digitsLength
      have hz : c ≠ '0' := by
        rintro rfl
        simpa using (h '0' rfl).1
      simp only [List.nil_append, wholeLength, hd]
      simp [hz, digitsLength]
  | cons c text =>
    by_cases hz : c = '0'
    · simp [wholeLength, hz, digitsLength_append h]
    · have ht := digitsLength_append h (c :: text)
      simp only [List.cons_append] at ht
      simp [wholeLength, hz, ht]

theorem wholeLength_le {text : List Char} {n : Nat} (h : wholeLength text = .ok n) : n ≤ text.length := by
  have hd := digitsLength_le text
  unfold wholeLength at h
  grind

theorem fractionLength_append {rest : List Char} (h : Stops rest) (text : List Char) :
    fractionLength (text ++ rest) = fractionLength text := by
  cases text with
  | nil =>
    cases rest with
    | nil => rfl
    | cons c rest =>
      have hc : c ≠ '.' := by
        rintro rfl
        simpa using (h '.' rfl).2
      simp [fractionLength, hc]
  | cons c text =>
    by_cases hc : c = '.'
    · simp [fractionLength, hc, digitsLength_append h]
    · simp [fractionLength, hc]

theorem fractionLength_le {text : List Char} {n : Nat} (h : fractionLength text = .ok n) : n ≤ text.length := by
  cases text with
  | nil => grind [fractionLength]
  | cons c text =>
    have hd := digitsLength_le text
    unfold fractionLength at h
    grind

theorem exponentLength_append {rest : List Char} (h : Stops rest) (text : List Char) :
    exponentLength (text ++ rest) = exponentLength text := by
  match text with
  | [] =>
    cases rest with
    | nil => rfl
    | cons c rest =>
      have hc := (h c rfl).2
      simp only [List.mem_cons, not_or] at hc
      simp [exponentLength, hc.2.1, hc.2.2.1]
  | [e] =>
    cases rest with
    | nil => rfl
    | cons c rest =>
      have hc := (h c rfl).2
      have hd := h.digitsLength
      simp only [List.mem_cons, not_or] at hc
      simp [exponentLength, hc.2.2.2.1, hc.2.2.2.2.1, hd]
      simp [digitsLength]
  | e :: s :: text =>
    have ht := digitsLength_append h text
    have hst := digitsLength_append h (s :: text)
    simp only [List.cons_append] at hst
    by_cases hp : s = '+'
    · simp [exponentLength, hp, ht]
    · by_cases hm : s = '-'
      · simp [exponentLength, hm, ht]
      · simp [exponentLength, hp, hm, hst]

def signLength (text : List Char) : Nat :=
  match text with
  | '-' :: _ => 1
  | _ => 0

theorem signLength_le (text : List Char) : signLength text ≤ text.length := by
  unfold signLength
  split <;> simp

theorem signLength_append {rest : List Char} (h : Stops rest) (text : List Char) :
    signLength (text ++ rest) = signLength text := by
  cases text with
  | nil =>
    cases rest with
    | nil => rfl
    | cons c rest =>
      have hc : c ≠ '-' := by
        rintro rfl
        simpa using (h '-' rfl).2
      simp [signLength, hc]
  | cons c text =>
    by_cases hc : c = '-' <;> simp [signLength, hc]

def lengthBehind (sign : Nat) (text : List Char) : Except Nat Nat :=
  match wholeLength (text.drop sign) with
  | .error n => .error (sign + n)
  | .ok whole =>
    match fractionLength (text.drop (sign + whole)) with
    | .error n => .error (sign + whole + n)
    | .ok fraction =>
      match exponentLength (text.drop (sign + whole + fraction)) with
      | .error n => .error (sign + whole + fraction + n)
      | .ok exponent => .ok (sign + whole + fraction + exponent)

theorem length_eq (text : List Char) : length text = lengthBehind (signLength text) text :=
  rfl

/-- What follows a number does not change how far it runs. -/
theorem length_append {rest : List Char} (h : Stops rest) (text : List Char) :
    length (text ++ rest) = length text := by
  have hs := signLength_le text
  rw [length_eq, length_eq, signLength_append h, lengthBehind, lengthBehind, List.drop_append_of_le_length hs,
    wholeLength_append h]
  cases hw : wholeLength (text.drop (signLength text)) with
  | error n => rfl
  | ok whole =>
    have hwl := wholeLength_le hw
    rw [List.length_drop] at hwl
    simp only
    rw [List.drop_append_of_le_length (by omega), fractionLength_append h]
    cases hf : fractionLength (text.drop (signLength text + whole)) with
    | error n => rfl
    | ok fraction =>
      have hfl := fractionLength_le hf
      rw [List.length_drop] at hfl
      simp only
      rw [List.drop_append_of_le_length (by omega), exponentLength_append h]

/-! ## Decimal digits -/

theorem takeWhile_isDigit {text : List Char} (h : ∀ c ∈ text, c.isDigit) : text.takeWhile Char.isDigit = text :=
  List.takeWhile_eq_self_iff.mpr h

theorem digitsLength_eq {text : List Char} (h : ∀ c ∈ text, c.isDigit) : digitsLength text = text.length := by
  rw [digitsLength, takeWhile_isDigit h]

theorem eq_zero_of_toDigits {n : Nat} {rest : List Char} (h : Nat.toDigits 10 n = '0' :: rest) :
    n = 0 ∧ rest = [] := by
  induction n using Nat.strongRecOn generalizing rest with
  | ind n ih =>
    rw [Nat.toDigits_eq_if (by decide)] at h
    split at h
    · rename_i hn
      simp only [List.cons.injEq] at h
      exact ⟨Nat.digitChar_eq_zero.mp h.1, h.2.symm⟩
    · rename_i hn
      obtain ⟨c, cs, hc⟩ := List.exists_cons_of_ne_nil (Nat.toDigits_ne_nil (n := n / 10) (b := 10))
      rw [hc, List.cons_append, List.cons.injEq] at h
      have hz := (ih (n / 10) (by omega) (hc.trans (by rw [h.1]))).1
      omega

theorem absorb_of_lt {limit : Nat} (text : List Char) (value taken : Nat)
    (h : Nat.ofDigitChars 10 text value < limit) :
    absorb limit value taken text = (Nat.ofDigitChars 10 text value, taken + text.length) := by
  induction text generalizing value taken with
  | nil => simp [absorb]
  | cons c text ih =>
    rw [Nat.ofDigitChars_cons] at h
    have hnext : value * 10 + digit c = 10 * value + (c.toNat - '0'.toNat) := by
      rw [digit, Nat.mul_comm]
    have hle : 10 * value + (c.toNat - '0'.toNat) ≤
        Nat.ofDigitChars 10 text (10 * value + (c.toNat - '0'.toNat)) := by
      rw [Nat.ofDigitChars_eq_ofDigitChars_zero]
      have := Nat.one_le_pow text.length 10 (by decide)
      nlinarith
    rw [absorb, hnext, if_pos (by omega), ih _ _ h, Nat.ofDigitChars_cons]
    simp only [List.length_cons, Prod.mk.injEq, true_and]
    omega

theorem nat_digits (n : Nat) : (toString n).toList = Nat.toDigits 10 n := by
  rw [Nat.toString_eq_ofList_toDigits, String.toList_ofList]

theorem nat_isDigit (n : Nat) : ∀ c ∈ Nat.toDigits 10 n, c.isDigit :=
  fun _ hc => Nat.isDigit_of_mem_toDigits (by decide) (by decide) hc

theorem nat_head (n : Nat) : ∃ c cs, Nat.toDigits 10 n = c :: cs ∧ c ≠ '-' := by
  obtain ⟨c, cs, hc⟩ := List.exists_cons_of_ne_nil (Nat.toDigits_ne_nil (n := n) (b := 10))
  refine ⟨c, cs, hc, ?_⟩
  rintro rfl
  simpa using nat_isDigit n '-' (by simp [hc])

theorem length_nat (n : Nat) : length (toString n).toList = .ok (toString n).toList.length := by
  obtain ⟨c, cs, hc, hsign⟩ := nat_head n
  have hwhole : wholeLength (c :: cs) = .ok (c :: cs).length := by
    by_cases hz : c = '0'
    · obtain ⟨-, rfl⟩ := eq_zero_of_toDigits (hc.trans (by rw [hz]))
      rw [hz]
      rfl
    · have hl := digitsLength_eq (nat_isDigit n)
      rw [hc] at hl
      simp [wholeLength, hz, hl]
  rw [nat_digits, hc]
  simp [length, hsign, hwhole, fractionLength, exponentLength]

theorem value_nat {n : Nat} (h : n < UInt64.size) : value (toString n).toList = .ok (.natural n) := by
  obtain ⟨c, cs, hc, hsign⟩ := nat_head n
  have habsorb := @absorb_of_lt UInt64.size (Nat.toDigits 10 n) 0 0 (by rwa [Nat.ofDigitChars_ten_toDigits])
  rw [Nat.ofDigitChars_ten_toDigits, Nat.zero_add] at habsorb
  have htake := takeWhile_isDigit (nat_isDigit n)
  rw [hc] at habsorb htake
  rw [nat_digits, hc]
  simp [-Nat.reducePow, value, hsign, htake, habsorb]

end ShellDecl.Json.Numeral
