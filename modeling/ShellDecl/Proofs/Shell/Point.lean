import ShellDecl.Proofs.Shell.Range

/-!
# Points of a source

Rows and byte columns order the places of a source as their bytes do. A cursor on a character, given by line and
character column, is turned into the point of that character.
-/

set_option autoImplicit false

namespace ShellDecl.Shell

open Position (first lastLine bne_newline_of_not_mem)

theorem Point.lt_iff {p q : Point} :
    p.lt q = true ↔ p.row < q.row ∨ (p.row = q.row ∧ p.column < q.column) := by
  simp [Point.lt]

theorem Point.lt_trans {p q r : Point} (hpq : p.lt q = true) (hqr : q.lt r = true) : p.lt r = true := by
  rw [Point.lt_iff] at *
  omega

theorem Point.lt_irrefl (p : Point) : p.lt p = false := by
  simp [Point.lt]

theorem Point.lt_asymm {p q : Point} (h : p.lt q = true) : q.lt p = false := by
  rw [Point.lt_iff] at h
  rw [Bool.eq_false_iff, ne_eq, Point.lt_iff]
  omega

namespace Place

theorem point_lt_step (p : Place) (c : Char) : p.point.lt (p.step c).point = true := by
  have hsize := c.utf8Size_pos
  rw [Point.lt_iff, step]
  split <;> simp [point, hsize]

theorem point_lt_advance (p : Place) {text : List Char} (h : text ≠ []) :
    p.point.lt (p.advance text).point = true := by
  induction text generalizing p with
  | nil => exact absurd rfl h
  | cons c text ih =>
    by_cases ht : text = []
    · rw [ht]
      exact point_lt_step p c
    · exact Point.lt_trans (point_lt_step p c) (ih (p.step c) ht)

variable {source : String} {p q : Place}

theorem IsIn.point_lt (hp : p.IsIn source) (hq : q.IsIn source) (h : p.byte < q.byte) :
    p.point.lt q.point = true := by
  obtain ⟨i, hi, hpi⟩ := hp
  obtain ⟨j, hj, hqj⟩ := hq
  have hij : i < j := by
    by_contra hle
    have := (byteLength_take_le_iff hj hi).mpr (Nat.le_of_not_lt hle)
    rw [hpi.byte, hqj.byte] at h
    omega
  have hsplit : source.toList.take i ++ (source.toList.drop i).take (j - i) = source.toList.take j := by
    rw [← List.take_add, Nat.add_sub_cancel' hij.le]
  have hne : (source.toList.drop i).take (j - i) ≠ [] := by
    rw [← List.length_pos_iff, List.length_take, List.length_drop]
    omega
  rw [hpi.eq_advance, hqj.eq_advance, ← hsplit, advance_append]
  exact point_lt_advance _ hne

theorem isIn_advance {i : Nat} (hi : i ≤ source.toList.length) : (origin.advance (source.toList.take i)).IsIn source :=
  ⟨i, hi, isAfter_advance _⟩

theorem IsIn.eq_of_byte_eq (hp : p.IsIn source) (hq : q.IsIn source) (h : p.byte = q.byte) : p = q := by
  obtain ⟨i, hi, hpi⟩ := hp
  obtain ⟨j, hj, hqj⟩ := hq
  rw [hpi.byte, hqj.byte] at h
  have hij := (byteLength_take_le_iff hi hj).mp h.le
  have hji := (byteLength_take_le_iff hj hi).mp h.ge
  rw [hpi.eq_advance, hqj.eq_advance, Nat.le_antisymm hij hji]

theorem IsIn.point_lt_iff (hp : p.IsIn source) (hq : q.IsIn source) :
    p.point.lt q.point = true ↔ p.byte < q.byte := by
  refine ⟨fun h => ?_, hp.point_lt hq⟩
  rcases Nat.lt_trichotomy p.byte q.byte with hlt | heq | hgt
  · exact hlt
  · rw [hp.eq_of_byte_eq hq heq, Point.lt_irrefl] at h
    exact absurd h Bool.false_ne_true
  · rw [Point.lt_asymm (hq.point_lt hp hgt)] at h
    exact absurd h Bool.false_ne_true

theorem IsIn.point_eq_iff (hp : p.IsIn source) (hq : q.IsIn source) : p.point = q.point ↔ p.byte = q.byte := by
  constructor
  · intro h
    have hpq := mt (hp.point_lt_iff hq).mpr
    have hqp := mt (hq.point_lt_iff hp).mpr
    rw [h, Point.lt_irrefl] at hpq hqp
    have h₁ := hpq Bool.false_ne_true
    have h₂ := hqp Bool.false_ne_true
    omega
  · exact fun h => congrArg point (hp.eq_of_byte_eq hq h)

end Place

theorem row?_eq (n : Nat) (text : List Char) : row? n text = (text.splitOn '\n')[n]? := by
  induction n generalizing text with
  | zero =>
    by_cases h : '\n' ∈ text
    · rcases List.eq_append_cons_of_mem h with ⟨line, rest, rfl, hline⟩
      rw [List.splitOn_append_cons_self_of_not_mem hline, row?,
        List.takeWhile_append_of_pos (bne_newline_of_not_mem hline)]
      simp
    · rw [List.splitOn_eq_singleton h, row?, List.takeWhile_eq_self_iff.mpr (bne_newline_of_not_mem h)]
      rfl
  | succ n ih =>
    by_cases h : '\n' ∈ text
    · rcases List.eq_append_cons_of_mem h with ⟨line, rest, rfl, hline⟩
      rw [List.splitOn_append_cons_self_of_not_mem hline, row?,
        List.dropWhile_append_of_pos (bne_newline_of_not_mem hline)]
      simpa using ih rest
    · rw [List.splitOn_eq_singleton h, row?, List.dropWhile_eq_nil_iff.mpr (bne_newline_of_not_mem h)]
      rfl

/-- A cursor on a character that does not end its line is at the point of that character. -/
theorem pointAt?_advance {source : String} {before rest : List Char} {c : Char}
    (h : source.toList = before ++ c :: rest) (hc : c ≠ '\n') :
    pointAt? source (first.advance before).line (first.advance before).column =
      some (Place.origin.advance before).point := by
  obtain ⟨line, lines, hlines⟩ := List.exists_cons_of_ne_nil (List.splitOn_ne_nil '\n' rest)
  have hsplit : (c :: rest).splitOn '\n' = (c :: line) :: lines := by
    rw [List.splitOn_cons_eq_if_modifyHead, hlines]
    simp [hc]
  have hrow : row? (before.count '\n') source.toList = some (lastLine before ++ c :: line) := by
    have hdrop := congrArg (·[0]?) (drop_lines before hsplit)
    simp only [List.getElem?_drop, Nat.add_zero, List.getElem?_cons_zero] at hdrop
    rw [row?_eq, h, hdrop]
  have hafter := Place.isAfter_advance before
  rw [Position.first_advance, pointAt?]
  simp only [hrow, List.length_append, List.length_cons, List.take_left', Place.point, hafter.row, hafter.column]
  rw [if_pos (by omega)]

end ShellDecl.Shell
