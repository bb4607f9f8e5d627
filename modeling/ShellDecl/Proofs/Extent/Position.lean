import Mathlib.Data.List.Induction
import Mathlib.Data.List.TakeWhile
import ShellDecl.Extent

/-!
# Positions in a text

The end of a text, which is computed from its line breaks and its last line, is the place that a reader reaches a
character at a time. So ends compose along a cut of the text, and reading on never goes back. To read in words of 32 bits
is to lose at the end what does not fit in a word.
-/

set_option autoImplicit false

namespace ShellDecl.Position

def first : Position := ⟨1, 1⟩

theorem le_iff {p q : Position} :
    p.le q = true ↔ p.line < q.line ∨ (p.line = q.line ∧ p.column ≤ q.column) := by
  simp [le]

theorem lt_iff {p q : Position} :
    p.lt q = true ↔ p.line < q.line ∨ (p.line = q.line ∧ p.column < q.column) := by
  simp [lt]

theorem lt_iff_not_le {p q : Position} : p.lt q = true ↔ ¬ q.le p = true := by
  rw [lt_iff, le_iff]
  omega

theorem le_refl (p : Position) : p.le p = true :=
  le_iff.mpr (Or.inr ⟨rfl, Nat.le_refl _⟩)

theorem le_trans {p q r : Position} (hpq : p.le q = true) (hqr : q.le r = true) : p.le r = true := by
  rw [le_iff] at *
  omega

theorem lt_of_lt_of_le {p q r : Position} (hpq : p.lt q = true) (hqr : q.le r = true) : p.lt r = true := by
  rw [lt_iff] at *
  rw [le_iff] at hqr
  omega

@[simp] theorem advance_nil (p : Position) : p.advance [] = p := rfl

theorem advance_append (p : Position) (a b : List Char) : p.advance (a ++ b) = (p.advance a).advance b := by
  simp [advance, List.foldl_append]

theorem le_step (p : Position) (c : Char) : p.le (p.step c) = true := by
  rw [le_iff, step]
  split <;> simp

theorem le_advance (p : Position) (text : List Char) : p.le (p.advance text) = true := by
  induction text generalizing p with
  | nil => exact le_refl p
  | cons c text ih => exact le_trans (le_step p c) (ih (p.step c))

theorem advance_le_of_prefix (p : Position) {a b : List Char} (h : a <+: b) :
    (p.advance a).le (p.advance b) = true := by
  obtain ⟨rest, rfl⟩ := h
  rw [advance_append]
  exact le_advance _ _

theorem lt_step (p : Position) (c : Char) : p.lt (p.step c) = true := by
  rw [lt_iff, step]
  split <;> simp

theorem lt_advance (p : Position) {text : List Char} (h : text ≠ []) : p.lt (p.advance text) = true := by
  obtain ⟨c, rest, rfl⟩ := List.exists_cons_of_ne_nil h
  have hstep := lt_step p c
  rw [lt_iff_not_le] at hstep ⊢
  exact fun hle => hstep (le_trans (le_advance (p.step c) rest) hle)

theorem advance_take_lt_iff (p : Position) {text : List Char} {i k : Nat} (hk : k ≤ text.length) :
    (p.advance (text.take i)).lt (p.advance (text.take k)) = true ↔ i < k := by
  constructor
  · intro hlt
    by_contra hik
    have hle := advance_le_of_prefix p (List.take_prefix_take_left (l := text) (Nat.le_of_not_lt hik))
    exact lt_iff_not_le.mp hlt hle
  · intro hik
    have hsplit : text.take i ++ (text.drop i).take (k - i) = text.take k := by
      rw [← List.take_add, Nat.add_sub_cancel' hik.le]
    have hne : (text.drop i).take (k - i) ≠ [] := by
      rw [← List.length_pos_iff, List.length_take, List.length_drop]
      omega
    rw [← hsplit, advance_append]
    exact lt_advance _ hne

theorem advance_eq_self_iff {p : Position} {text : List Char} : p.advance text = p ↔ text = [] := by
  constructor
  · intro h
    by_contra hne
    have hlt := lt_advance p hne
    rw [h, lt_iff_not_le] at hlt
    exact hlt (le_refl p)
  · rintro rfl
    rfl

theorem lastLine_concat (text : List Char) (c : Char) :
    lastLine (text ++ [c]) = if c = '\n' then [] else lastLine text ++ [c] := by
  by_cases h : c = '\n' <;> simp [lastLine, h]

theorem lastLine_suffix (text : List Char) : lastLine text <:+ text := by
  rw [lastLine, ← List.reverse_prefix, List.reverse_reverse]
  exact List.takeWhile_prefix _

theorem bne_newline_of_not_mem {text : List Char} (h : '\n' ∉ text) : ∀ c ∈ text, (c != '\n') = true := by
  intro c hc
  rw [bne_iff_ne]
  exact fun he => h (he ▸ hc)

theorem lastLine_of_not_mem {text : List Char} (h : '\n' ∉ text) : lastLine text = text := by
  have hall := bne_newline_of_not_mem (mt List.mem_reverse.mp h)
  rw [lastLine, List.takeWhile_eq_self_iff.mpr hall, List.reverse_reverse]

theorem not_mem_lastLine (text : List Char) : '\n' ∉ lastLine text := by
  intro h
  have := List.mem_takeWhile_imp (List.mem_reverse.mp h)
  simp at this

theorem lastLine_append_newline (a b : List Char) : lastLine (a ++ '\n' :: b) = lastLine b := by
  induction b using List.reverseRecOn with
  | nil => simp [lastLine]
  | append_singleton b c ih =>
    rw [← List.cons_append, ← List.append_assoc, lastLine_concat, lastLine_concat, ih]

theorem lastLine_lastLine_append (a b : List Char) : lastLine (lastLine a ++ b) = lastLine (a ++ b) := by
  induction b using List.reverseRecOn with
  | nil => rw [List.append_nil, List.append_nil, lastLine_of_not_mem (not_mem_lastLine a)]
  | append_singleton b c ih => rw [← List.append_assoc, ← List.append_assoc, lastLine_concat, lastLine_concat, ih]

theorem endOf_concat (p : Position) (text : List Char) (c : Char) :
    p.endOf (text ++ [c]) = (p.endOf text).step c := by
  have hcount : '\n' ∉ text → text.count '\n' = 0 := List.count_eq_zero_of_not_mem
  by_cases hc : c = '\n' <;> by_cases ht : '\n' ∈ text
  · simp [endOf, step, lastLine_concat, hc, ht]; omega
  · simp [endOf, step, lastLine_concat, hc, ht, hcount ht]
  · simp [endOf, step, lastLine_concat, hc, ht, Ne.symm hc]
  · simp [endOf, step, hc, ht, Ne.symm hc]; omega

theorem endOf_eq_advance (p : Position) (text : List Char) : p.endOf text = p.advance text := by
  induction text using List.reverseRecOn with
  | nil => simp [endOf]
  | append_singleton text c ih => rw [endOf_concat, ih, advance_append]; rfl

/-- The end of a text is the place where it is read to, a character at a time. So ends compose along a cut of the text,
and no end is in front of its start. -/
theorem endOf_composes (p : Position) (text rest : List Char) :
    p.endOf text = p.advance text ∧
      p.endOf (text ++ rest) = (p.endOf text).endOf rest ∧
      p.le (p.endOf text) = true := by
  refine ⟨endOf_eq_advance p text, ?_, ?_⟩
  · calc p.endOf (text ++ rest)
        = p.advance (text ++ rest) := endOf_eq_advance p (text ++ rest)
      _ = (p.advance text).advance rest := advance_append p text rest
      _ = (p.endOf text).endOf rest := by rw [endOf_eq_advance, endOf_eq_advance]
  · rw [endOf_eq_advance]
    exact le_advance p text

/-- To count a text on one line is to stop no later than to read it. -/
theorem onLine_le_advance (p : Position) (text : List Char) :
    le ⟨p.line, p.column + text.length⟩ (p.advance text) = true := by
  rw [← endOf_eq_advance, endOf, le_iff]
  by_cases h : '\n' ∈ text
  · have hbreaks : 0 < text.count '\n' := List.count_pos_iff.mpr h
    simp [h, hbreaks]
  · simp [h]

/-- A text is counted on one line as it is read exactly if it has no line break. -/
theorem onLine_eq_endOf_iff (p : Position) (text : List Char) :
    (⟨p.line, p.column + text.length⟩ : Position) = p.endOf text ↔ '\n' ∉ text := by
  rw [endOf]
  by_cases h : '\n' ∈ text
  · have hbreaks : 0 < text.count '\n' := List.count_pos_iff.mpr h
    simp [h]
    omega
  · simp [h]

theorem line_lt_advance (p : Position) {text : List Char} (h : '\n' ∈ text) : p.line < (p.advance text).line := by
  have hbreaks : 0 < text.count '\n' := List.count_pos_iff.mpr h
  rw [← endOf_eq_advance, endOf, if_pos (by simpa using h)]
  exact Nat.lt_add_of_pos_right hbreaks

/-- What was read of a source tells where a reader stands: the line breaks in it, and its last line. -/
theorem first_advance (text : List Char) :
    first.advance text = ⟨text.count '\n' + 1, (lastLine text).length + 1⟩ := by
  rw [← endOf_eq_advance, endOf]
  by_cases h : '\n' ∈ text
  · simp [h, first]; omega
  · simp [h, first, lastLine_of_not_mem h, List.count_eq_zero_of_not_mem h]; omega

/-- A line and a column of 32 bits. -/
def Fits (p : Position) : Prop :=
  p.line < UInt32.size ∧ p.column < UInt32.size

instance (p : Position) : Decidable p.Fits :=
  inferInstanceAs (Decidable (_ ∧ _))

theorem wrap_of_fits {p : Position} (h : p.Fits) : p.wrap = p := by
  rw [wrap, Nat.mod_eq_of_lt h.1, Nat.mod_eq_of_lt h.2]

theorem wrap_le (p : Position) : p.wrap.le p = true := by
  have hline : p.wrap.line ≤ p.line := Nat.mod_le _ _
  have hcolumn : p.wrap.column ≤ p.column := Nat.mod_le _ _
  rw [le_iff]
  omega

theorem first_advance_le (text : List Char) :
    (first.advance text).line ≤ text.length + 1 ∧ (first.advance text).column ≤ text.length + 1 := by
  rw [first_advance]
  exact ⟨Nat.succ_le_succ List.count_le_length, Nat.succ_le_succ (lastLine_suffix text).length_le⟩

end ShellDecl.Position
