import ShellDecl.Proofs.Extent.Reading
import ShellDecl.Proofs.Shell.Place

/-!
# The range of a node

A node covers the characters between two offsets of its source. Its text is cut out by bytes and its columns are
counted in characters, and both come out as if a reader had stepped from the first character of the source to the node
and through it.
-/

set_option autoImplicit false

namespace ShellDecl.Shell

open Position (first lastLine)

theorem byteLength_take_le_iff {text : List Char} {i j : Nat} (hi : i ≤ text.length) (hj : j ≤ text.length) :
    byteLength (text.take i) ≤ byteLength (text.take j) ↔ i ≤ j := by
  constructor
  · intro h
    by_contra hlt
    have := byteLength_take_lt (Nat.lt_of_not_le hlt) hi
    omega
  · intro h
    obtain hlt | rfl := Nat.lt_or_eq_of_le h
    · exact (byteLength_take_lt hlt hj).le
    · exact Nat.le_refl _

/-- A place on a boundary between two characters of a source, with the row and the column of that boundary. -/
def Place.IsIn (p : Place) (source : String) : Prop :=
  ∃ i ≤ source.toList.length, p.IsAfter (source.toList.take i)

instance (p : Place) (source : String) : Decidable (p.IsIn source) :=
  decidable_of_iff (∃ i, i < source.toList.length + 1 ∧ p.IsAfter (source.toList.take i)) (by
    simp only [Place.IsIn, Nat.lt_succ_iff])

theorem Place.IsIn.isValid {p : Place} {source : String} (h : p.IsIn source) :
    String.Pos.Raw.IsValid source ⟨p.byte⟩ := by
  obtain ⟨i, -, hafter⟩ := h
  rw [hafter.byte, ← String.Pos.Raw.isValid_eq_true_iff]
  exact isValid_byteLength (List.take_append_drop i source.toList).symm

theorem exists_take_of_isValid {source : String} {b : Nat} (h : String.Pos.Raw.IsValid source ⟨b⟩) :
    ∃ j ≤ source.toList.length, b = byteLength (source.toList.take j) := by
  obtain ⟨j, hj⟩ := String.Pos.Raw.isValid_iff_exists_take_toList.mp h
  rw [← byteLength_eq_utf8ByteSize] at hj
  obtain hle | hlt := Nat.le_total j source.toList.length
  · exact ⟨j, hle, hj⟩
  · refine ⟨source.toList.length, Nat.le_refl _, ?_⟩
    rw [List.take_length, ← List.take_of_length_le hlt]
    exact hj

namespace Node

/-- The bytes in front of a node on its line are as many characters as the line has in front of it. -/
theorem indent_of_isAfter {source : String} {n : Node} {before rest : List Char}
    (hsource : source.toList = before ++ rest) (h : n.start.IsAfter before) :
    n.indent source = (lastLine before).length := by
  obtain ⟨head, hhead⟩ := Position.lastLine_suffix before
  have hsplit : source.toList = head ++ lastLine before ++ rest := by rw [hhead, hsource]
  have hslice := slice?_append hsplit
  have hline : n.start.byte - n.start.column = byteLength head := by
    rw [h.byte, h.column]
    conv_lhs => enter [1]; rw [← hhead, byteLength_append]
    omega
  rw [hhead, ← h.byte, ← hline] at hslice
  simp [indent, hslice]

/-- The extent of a node begins where a reader stands who has read what is in front of the node. -/
theorem extent_start {source : String} {n : Node} {before rest : List Char}
    (hsource : source.toList = before ++ rest) (h : n.start.IsAfter before) :
    (n.extent source).start = first.advance before := by
  rw [Position.first_advance, ← indent_of_isAfter hsource h, ← h.row]
  rfl

/-- The node begins after `i` characters of a text and ends after `j` of them. -/
structure Covers (n : Node) (text : List Char) (i j : Nat) : Prop where
  start : n.start.IsAfter (text.take i)
  stop : n.stop.byte = byteLength (text.take j)
  le : i ≤ j
  length : j ≤ text.length

theorem exists_covers {source : String} {n : Node} (hstart : n.start.IsIn source)
    (hstop : String.Pos.Raw.IsValid source ⟨n.stop.byte⟩) (hle : n.start.byte ≤ n.stop.byte) :
    ∃ i j, n.Covers source.toList i j := by
  obtain ⟨i, hi, hafter⟩ := hstart
  obtain ⟨j, hj, hbyte⟩ := exists_take_of_isValid hstop
  rw [hafter.byte, hbyte, byteLength_take_le_iff hi hj] at hle
  exact ⟨i, j, hafter, hbyte, hle, hj⟩

namespace Covers

variable {source : String} {n : Node} {i j : Nat}

theorem take_append {text : List Char} (h : n.Covers text i j) :
    text.take i ++ (text.take j).drop i = text.take j :=
  take_append_drop_take text h.le

theorem split {text : List Char} (h : n.Covers text i j) :
    text = text.take i ++ (text.take j).drop i ++ text.drop j := by
  rw [h.take_append, List.take_append_drop]

theorem start_le_iff {text : List Char} {m : Node} {i' j' : Nat} (h : n.Covers text i j) (h' : m.Covers text i' j') :
    n.start.byte ≤ m.start.byte ↔ i ≤ i' := by
  rw [h.start.byte, h'.start.byte, byteLength_take_le_iff (h.le.trans h.length) (h'.le.trans h'.length)]

theorem stop_le_iff {text : List Char} {m : Node} {i' j' : Nat} (h : n.Covers text i j) (h' : m.Covers text i' j') :
    n.stop.byte ≤ m.stop.byte ↔ j ≤ j' := by
  rw [h.stop, h'.stop, byteLength_take_le_iff h.length h'.length]

theorem le_stop {text : List Char} (h : n.Covers text i j) : j ≤ n.stop.byte := by
  have hlength := length_le_byteLength (text.take j)
  rwa [List.length_take_of_le h.length, ← h.stop] at hlength

theorem lt_iff {text : List Char} (h : n.Covers text i j) : n.start.byte < n.stop.byte ↔ i < j := by
  rw [h.start.byte, h.stop, ← not_le, byteLength_take_le_iff h.length (h.le.trans h.length), not_le]

theorem slice_eq (h : n.Covers source.toList i j) :
    slice? source n.start.byte n.stop.byte = some (String.ofList ((source.toList.take j).drop i)) := by
  have hslice := slice?_append h.split
  rwa [h.take_append, ← h.start.byte, ← h.stop] at hslice

theorem text_eq (h : n.Covers source.toList i j) :
    n.text source = String.ofList ((source.toList.take j).drop i) := by
  rw [Node.text, h.slice_eq]
  rfl

theorem text_prefix_drop (h : n.Covers source.toList i j) : (n.text source).toList <+: source.toList.drop i := by
  rw [h.text_eq, String.toList_ofList, List.drop_take]
  exact List.take_prefix ..

theorem text_ne (h : n.Covers source.toList i j) (hlt : n.start.byte < n.stop.byte) : n.text source ≠ "" := by
  have hij := h.lt_iff.mp hlt
  have hlength := h.length
  rw [h.text_eq, ne_eq, String.ofList_eq_empty_iff, List.drop_eq_nil_iff, List.length_take]
  omega

theorem extent_eq (h : n.Covers source.toList i j) :
    n.extent source = ⟨first.advance (source.toList.take i), first.advance (source.toList.take j),
      String.ofList ((source.toList.take j).drop i)⟩ := by
  have hstart : (⟨n.start.row + 1, n.indent source + 1⟩ : Position) = first.advance (source.toList.take i) :=
    extent_start (List.take_append_drop i source.toList).symm h.start
  rw [Node.extent, hstart, h.text_eq, Position.endOf_eq_advance, String.toList_ofList, ← Position.advance_append,
    h.take_append]

theorem toByteArray_text (h : n.Covers source.toList i j) :
    (n.text source).toByteArray = source.toByteArray.extract n.start.byte n.stop.byte := by
  let before := String.ofList (source.toList.take i)
  let text := String.ofList ((source.toList.take j).drop i)
  let rest := String.ofList (source.toList.drop j)
  have hsource : source = before ++ (text ++ rest) := by
    rw [← String.toList_inj]
    simp [before, text, rest, ← List.append_assoc, h.take_append]
  have hstart : n.start.byte = before.toByteArray.size := by
    rw [h.start.byte, byteLength_eq_utf8ByteSize, String.size_toByteArray]
  have hstop : n.stop.byte = before.toByteArray.size + text.toByteArray.size := by
    rw [h.stop, byteLength_eq_utf8ByteSize, ← h.take_append, String.ofList_append, String.utf8ByteSize_append]
    rfl
  have hcut := ByteArray.extract_append_size_add (a := before.toByteArray) (b := (text ++ rest).toByteArray)
    (i := 0) (j := text.toByteArray.size)
  rw [← String.toByteArray_append, ← hsource, Nat.add_zero, ← hstop, ← hstart, String.toByteArray_append,
    ByteArray.extract_append_eq_left rfl] at hcut
  rw [h.text_eq, hcut]

end Covers

/-- An extent has the bytes of its node for text, and to read the source from its start to its stop gives that text
back. -/
theorem extent_reads_back {source : String} {n : Node} (hstart : n.start.IsIn source)
    (hstop : String.Pos.Raw.IsValid source ⟨n.stop.byte⟩) (hle : n.start.byte ≤ n.stop.byte) :
    (n.extent source).text.toByteArray = source.toByteArray.extract n.start.byte n.stop.byte ∧
    between? source.toList (n.extent source).start (n.extent source).stop =
      some (n.extent source).text.toList := by
  obtain ⟨i, j, h⟩ := exists_covers hstart hstop hle
  refine ⟨h.toByteArray_text, ?_⟩
  have hread := between?_advance h.split
  rw [h.take_append] at hread
  rw [h.extent_eq, String.toList_ofList]
  exact hread

theorem extent_reads_back_accented :
    let source := "é; ü() (\n:)\n"
    let n := Node.mk "function_definition" true false ⟨4, 0, 4⟩ ⟨13, 1, 2⟩ []
    n.start.IsIn source ∧ String.Pos.Raw.IsValid source ⟨n.stop.byte⟩ ∧ n.start.byte ≤ n.stop.byte ∧
    (n.extent source).text.toByteArray = source.toByteArray.extract n.start.byte n.stop.byte ∧
    between? source.toList (n.extent source).start (n.extent source).stop =
      some (n.extent source).text.toList := by
  have hstart : Place.IsIn ⟨4, 0, 4⟩ "é; ü() (\n:)\n" := by decide
  have hstop : String.Pos.Raw.IsValid "é; ü() (\n:)\n" ⟨13⟩ := by decide
  exact ⟨hstart, hstop, by decide, extent_reads_back hstart hstop (by decide)⟩

end Node

end ShellDecl.Shell
