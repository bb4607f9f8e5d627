import ShellDecl.Declaration
import ShellDecl.Proofs.Extent.Position
import ShellDecl.Proofs.Text.Occurrence

/-!
# Where a name stands

A name has a place in a node exactly if it is not empty and occurs in the text of the node. The place is reached by
reading what stands in front of the leftmost occurrence, in words of 32 bits.
-/

set_option autoImplicit false

namespace ShellDecl

def NamedIn (e : Extent) (name : String) : Prop :=
  name ≠ "" ∧ name.toList <:+: e.text.toList

instance (e : Extent) (name : String) : Decidable (NamedIn e name) :=
  inferInstanceAs (Decidable (_ ∧ _))

/-- A name that begins at a place and stays on its line. -/
def wordAt (p : Position) (name : String) : Extent :=
  .onLine p.line p.column (p.column + name.length) name

@[simp] theorem wordAt_start (p : Position) (name : String) : (wordAt p name).start = p := rfl

@[simp] theorem wordAt_text (p : Position) (name : String) : (wordAt p name).text = name := rfl

def Extent.wrap (e : Extent) : Extent :=
  ⟨e.start.wrap, e.stop.wrap, e.text⟩

theorem wordAt_wrap_of_fits {p : Position} {name : String} (hline : p.line < UInt32.size)
    (hcolumn : p.column + name.length < UInt32.size) : (wordAt p name).wrap = wordAt p name := by
  have hstart : p.Fits := ⟨hline, by omega⟩
  have hstop : (wordAt p name).stop.Fits := ⟨hline, hcolumn⟩
  rw [Extent.wrap, wordAt_start, Position.wrap_of_fits hstart, Position.wrap_of_fits hstop]
  rfl

/-- The place of a name that begins a number of characters into the text of an extent. -/
def nameAt (e : Extent) (name : String) (i : Nat) : Extent :=
  (wordAt (e.start.advance (e.text.toList.take i)) name).wrap

theorem nameAt_text (e : Extent) (name : String) (i : Nat) : (nameAt e name i).text = name := rfl

theorem nameExtent_of_not_namedIn {t : Script} {name : String} (h : ¬ NamedIn t.extent name) :
    nameExtent t name = .error (.nameNotInExtent name t.extent) := by
  rw [NamedIn, not_and_or, not_not] at h
  by_cases he : name = ""
  · simp [nameExtent, he]
  · have hocc := Text.indexOf?_eq_none_iff.mpr (h.resolve_left he)
    simp [nameExtent, he, hocc]

theorem nameExtent_of_index {t : Script} {name : String} {i : Nat} (he : name ≠ "")
    (hi : Text.indexOf? name.toList t.extent.text.toList = some i) :
    nameExtent t name = .ok (nameAt t.extent name i) := by
  simp [nameExtent, nameAt, wordAt, Extent.wrap, Extent.onLine, Position.wrap, he, hi, Position.endOf_eq_advance]

theorem nameExtent_of_namedIn {t : Script} {name : String} (h : NamedIn t.extent name) :
    ∃ i, Text.indexOf? name.toList t.extent.text.toList = some i ∧
      nameExtent t name = .ok (nameAt t.extent name i) := by
  obtain ⟨i, hi⟩ := Text.exists_indexOf?_iff.mpr h.2
  exact ⟨i, hi, nameExtent_of_index h.1 hi⟩

theorem nameExtent_of_beforeFirst {t : Script} {name : String} {before : List Char} (hne : name ≠ "")
    (h : Text.BeforeFirst name.toList t.extent.text.toList before) :
    nameExtent t name = .ok (wordAt (t.extent.start.advance before) name).wrap := by
  obtain ⟨hbefore, hindex⟩ := Text.beforeFirst_iff.mp h
  rw [nameExtent_of_index hne hindex, nameAt, ← List.prefix_iff_eq_take.mp hbefore]

theorem namedIn_iff_beforeFirst {e : Extent} {name : String} :
    NamedIn e name ↔ name ≠ "" ∧ ∃ before, Text.BeforeFirst name.toList e.text.toList before := by
  refine and_congr_right fun _ => ⟨fun h => ?_, ?_⟩
  · obtain ⟨i, hi⟩ := Text.exists_indexOf?_iff.mpr h
    have hle : i ≤ e.text.toList.length := (Text.indexOf?_eq_some_iff.mp hi).1
    refine ⟨e.text.toList.take i, Text.beforeFirst_iff.mpr ⟨List.take_prefix i _, ?_⟩⟩
    rw [hi, List.length_take_of_le hle]
  · rintro ⟨before, h⟩
    exact (List.suffix_append before name.toList).isInfix.trans h.occurs.isInfix

/-- One column further on it would begin in the last column that fits, and end in column 0. -/
example : nameExtent (.function (.ofText ⟨1, 4294967294⟩ "ab") "b" []) "b" = .ok (.onLine 1 4294967295 0 "b") := by
  decide

end ShellDecl
