import Mathlib.Data.List.Basic
import ShellDecl.Proofs.Json.Numeral
import ShellDecl.Toml.Number

/-!
# Whole numbers are read back

Digits that a line break follows are a whole number. They are no date, since no mark stands between them, and they have
no prefix for another base.
-/

set_option autoImplicit false

namespace ShellDecl.Toml.Number

/-- The digits of a line and what is behind them. -/
def Digits (ds : List Char) : Prop :=
  ∀ c ∈ ds, c.isDigit = true

variable {ds rest : List Char}

theorem ne_of_isDigit {c m : Char} (hc : c.isDigit = true) (hm : m.isDigit = false) : c ≠ m := by
  rintro rfl
  rw [hm] at hc
  cases hc

theorem signLength_digit {c : Char} (hc : c.isDigit = true) (text : List Char) : signLength (c :: text) = 0 := by
  rw [signLength.eq_def]
  split
  · rename_i heq
    exact absurd (List.cons.inj heq).1 (ne_of_isDigit hc rfl)
  · rename_i heq
    exact absurd (List.cons.inj heq).1 (ne_of_isDigit hc rfl)
  · rfl

theorem mark?_drop (h : Digits ds) {m : Char} (hdigit : m.isDigit = false) (hend : m ≠ '\n') {n : Nat}
    (hn : n ≤ ds.length) : mark? (· == m) ((ds ++ '\n' :: rest).drop n) = none := by
  rw [List.drop_append_of_le_length hn]
  cases hdrop : ds.drop n with
  | nil => simp [mark?, Ne.symm hend]
  | cons c more =>
    have hc := h c (List.mem_of_mem_drop (hdrop ▸ List.mem_cons_self))
    simp [mark?, ne_of_isDigit hc hdigit]

theorem field?_eq_some {count low high n : Nat} {more : List Char}
    (h : field? count low high (ds ++ '\n' :: rest) = some (n, more)) :
    count ≤ ds.length ∧ more = (ds ++ '\n' :: rest).drop count := by
  simp only [field?] at h
  split at h
  · rename_i hfield
    obtain ⟨-, hall, -⟩ := hfield
    refine ⟨Nat.not_lt.mp fun hlt => ?_, (Prod.mk.inj (Option.some.inj h)).2.symm⟩
    have hline : '\n' ∈ (ds ++ '\n' :: rest).take count := by
      rw [List.take_append, List.take_of_length_le (Nat.le_of_lt hlt), List.mem_append]
      obtain ⟨k, hk⟩ := Nat.exists_eq_succ_of_ne_zero (Nat.sub_ne_zero_of_lt hlt)
      rw [hk]
      exact .inr List.mem_cons_self
    exact absurd (List.all_eq_true.mp hall _ hline) (by decide)
  · cases h

theorem date?_eq_none (h : Digits ds) (rest : List Char) : date? (ds ++ '\n' :: rest) = none := by
  have hday : day? (ds ++ '\n' :: rest) = none := by
    unfold day?
    cases hyear : field? 4 0 9999 (ds ++ '\n' :: rest) with
    | none => rfl
    | some found =>
      obtain ⟨n, more⟩ := found
      obtain ⟨hcount, rfl⟩ := field?_eq_some hyear
      have hmark : mark? (· == '-') ((ds ++ '\n' :: rest).drop 4) = none := mark?_drop h rfl (by decide) hcount
      simp [hmark]
  have htime : time? (ds ++ '\n' :: rest) = none := by
    unfold time?
    cases hhour : field? 2 0 23 (ds ++ '\n' :: rest) with
    | none => rfl
    | some found =>
      obtain ⟨n, more⟩ := found
      obtain ⟨hcount, rfl⟩ := field?_eq_some hhour
      have hmark : mark? (· == ':') ((ds ++ '\n' :: rest).drop 2) = none := mark?_drop h rfl (by decide) hcount
      simp [hmark]
  rw [date?, hday, htime]
  rfl

theorem moreDigits?_append (h : Digits ds) (rest : List Char) :
    moreDigits? Char.isDigit (ds ++ '\n' :: rest) = some ds.length := by
  induction ds with
  | nil => simp [moreDigits?]
  | cons c ds ih =>
    have hc := h c List.mem_cons_self
    have hmore := ih fun d hd => h d (List.mem_cons_of_mem _ hd)
    rw [List.cons_append, moreDigits?.eq_def]
    split
    · rename_i heq
      exact absurd heq (by simp)
    · rename_i heq
      exact absurd (List.cons.inj heq).1 (ne_of_isDigit hc rfl)
    · rename_i heq
      obtain ⟨rfl, rfl⟩ := List.cons.inj heq
      simp [hc, hmore]

theorem valueIn_eq (h : Digits ds) : valueIn 10 ds = Nat.ofDigitChars 10 ds 0 := by
  have hkeep : ds.filter (· != '_') = ds :=
    List.filter_eq_self.mpr fun c hc => bne_iff_ne.mpr (ne_of_isDigit (h c hc) rfl)
  rw [valueIn, hkeep, Nat.ofDigitChars_eq_foldl]
  refine List.foldl_ext _ _ _ fun n c hc => ?_
  rw [digitValue, if_pos (h c hc), Nat.mul_comm]
  rfl

theorem integer?_nat {n : Nat} (hn : n < UInt32.size) : integer? n = some (.integer n) := by
  have hsize : (UInt32.size : Int) ≤ Int64.maxValue.toInt := by decide
  have hmin : Int64.minValue.toInt ≤ 0 := by decide
  rw [integer?, if_pos ⟨by omega, by omega⟩]

theorem decimal?_digits {n : Nat} (hn : n < UInt32.size) (rest : List Char) :
    decimal? (Nat.toDigits 10 n ++ '\n' :: rest) = some (.integer n, '\n' :: rest) := by
  have hdigits : Digits (Nat.toDigits 10 n) := Json.Numeral.nat_isDigit n
  have hvalue : valueIn 10 (Nat.toDigits 10 n) = n := by rw [valueIn_eq hdigits, Nat.ofDigitChars_ten_toDigits]
  obtain ⟨c, cs, hc⟩ := List.exists_cons_of_ne_nil (Nat.toDigits_ne_nil (n := n) (b := 10))
  rw [hc] at hdigits hvalue ⊢
  have hcdigit := hdigits c List.mem_cons_self
  have hsignLength : signLength (c :: cs ++ '\n' :: rest) = 0 := signLength_digit hcdigit _
  have hwhole : wholeLength? (c :: cs ++ '\n' :: rest) = some (c :: cs).length := by
    rw [wholeLength?, hsignLength, List.drop_zero]
    by_cases hzero : c = '0'
    · obtain ⟨-, rfl⟩ := Json.Numeral.eq_zero_of_toDigits (hc.trans (by rw [hzero]))
      rw [hzero]
      rfl
    · have hmore := moreDigits?_append (fun d hd => hdigits d (List.mem_cons_of_mem _ hd)) rest
      rw [List.cons_append]
      split
      · rename_i heq
        exact absurd (List.cons.inj heq).1 hzero
      · simp [digits?, hcdigit, hmore]
  have hhead : ((c :: cs ++ '\n' :: rest).head? == some '-') = false := by
    simpa using (ne_of_isDigit hcdigit rfl : c ≠ '-')
  have htake : (c :: cs ++ '\n' :: rest).take (c :: cs).length = c :: cs := List.take_left
  have hdrop : (c :: cs ++ '\n' :: rest).drop (c :: cs).length = '\n' :: rest := List.drop_left
  rw [decimal?, hwhole]
  simp only [Option.bind_eq_bind, Option.bind_some, hdrop, htake, hhead, hsignLength]
  simp [fractionLength?, exponentLength?, hvalue, integer?_nat hn]

theorem read_digits {n : Nat} (hn : n < UInt32.size) (rest : List Char) :
    read ((toString n).toList ++ '\n' :: rest) = some (.integer n, '\n' :: rest) := by
  have hdigits : Digits (Nat.toDigits 10 n) := Json.Numeral.nat_isDigit n
  have hdecimal := decimal?_digits hn rest
  have hdate := date?_eq_none hdigits rest
  rw [Json.Numeral.nat_digits]
  obtain ⟨c, cs, hc⟩ := List.exists_cons_of_ne_nil (Nat.toDigits_ne_nil (n := n) (b := 10))
  have hcdigit := hdigits c (by rw [hc]; exact List.mem_cons_self)
  -- Behind a zero there is no letter, since nothing but the line break is.
  have hbase : ∀ d more, Nat.toDigits 10 n ++ '\n' :: rest = '0' :: d :: more → d = '\n' := by
    intro d more heq
    rw [hc] at heq
    obtain ⟨hzero, htail⟩ := List.cons.inj heq
    obtain ⟨-, rfl⟩ := Json.Numeral.eq_zero_of_toDigits (hc.trans (by rw [hzero]))
    exact (List.cons.inj htail).1.symm
  have hspecial : special? (Nat.toDigits 10 n ++ '\n' :: rest) = none := by
    rw [hc, List.cons_append, special?, signLength_digit hcdigit, List.drop_zero]
    split
    · rename_i heq
      exact absurd (List.cons.inj heq).1 (ne_of_isDigit hcdigit rfl)
    · rename_i heq
      exact absurd (List.cons.inj heq).1 (ne_of_isDigit hcdigit rfl)
    · rfl
  rw [read, hdate]
  · simp only [hspecial, hdecimal]
  all_goals
    intro more heq
    exact absurd (hbase _ _ heq) (by decide)

end ShellDecl.Toml.Number
