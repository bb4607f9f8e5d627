import ShellDecl.Proofs.Declaration.Narrowed
import ShellDecl.Proofs.Shell.Lowering

/-!
# The name of a definition and its name node

A definition is found at the first place in its text where its name occurs. That is the name node of the definition,
unless the name occurs in front of the name node, in a keyword or in a comment.
-/

set_option autoImplicit false

namespace ShellDecl.Shell.Node

open Position (first)

variable {source : String} {n c : Node} {i j i' j' k : Nat}

theorem Covers.nameExtent_lower {name : String} (hn : n.Covers source.toList i j) (hfits : n.stop.byte + 1 < UInt32.size)
    (hnamed : NamedIn (n.extent source) name) :
    ∃ k, nameExtent (n.lower source) name = .ok (wordAt (first.advance (source.toList.take k)) name) ∧
      Text.FirstFrom name.toList source.toList i k := by
  rw [← extent_lower] at hnamed
  obtain ⟨k, hindex, hok⟩ := nameExtent_of_namedIn hnamed
  rw [extent_lower, hn.extent_eq, String.toList_ofList] at hindex
  refine ⟨i + k, ?_, Text.firstFrom_of_index hindex⟩
  have hend : i + k + name.length ≤ j := by
    obtain ⟨hk, hoccurs, -⟩ := Text.indexOf?_eq_some_iff.mp hindex
    have hlength := hoccurs.length_le
    have hle := hn.le
    simp only [List.length_drop, List.length_take, String.length_toList] at hk hlength
    omega
  have hread : (first.advance (source.toList.take i)).advance (((source.toList.take j).drop i).take k) =
      first.advance (source.toList.take (i + k)) := by
    rw [← Position.advance_append, List.drop_take, List.take_take, Nat.min_eq_left (by omega), List.take_add]
  -- The name ends within the node, whose last byte is numbered in 32 bits.
  have hwrap : (wordAt (first.advance (source.toList.take (i + k))) name).wrap =
      wordAt (first.advance (source.toList.take (i + k))) name := by
    obtain ⟨hline, hcolumn⟩ := Position.first_advance_le (source.toList.take (i + k))
    have hstop := hn.le_stop
    rw [List.length_take] at hline hcolumn
    exact wordAt_wrap_of_fits (by omega) (by omega)
  rw [hok, nameAt, extent_lower, hn.extent_eq, String.toList_ofList, hread, hwrap]

theorem IsTreeOf.nameExtent_lower (h : n.IsTreeOf source) (hk : n.kind = "function_definition")
    (hc : n.nameChild? = some c) (hn : n.Covers source.toList i j) :
    ∃ k, nameExtent (n.lower source) (c.text source) =
        .ok (wordAt (first.advance (source.toList.take k)) (c.text source)) ∧
      Text.FirstFrom (c.text source).toList source.toList i k :=
  hn.nameExtent_lower h.self.fits (h.namedIn hk hc)

/-- The name of a definition occurs in the text of the definition at a place in front of the name node. -/
def PrecededByName (source : String) (n c : Node) : Prop :=
  ∃ k < (n.text source).toList.length, (c.text source).toList <+: (n.text source).toList.drop k ∧
    n.start.byte + byteLength ((n.text source).toList.take k) < c.start.byte

instance (source : String) (n c : Node) : Decidable (n.PrecededByName source c) :=
  inferInstanceAs (Decidable (∃ k < _, _ ∧ _))

theorem not_precededByName (h : n.start.byte = c.start.byte) : ¬ n.PrecededByName source c := by
  rintro ⟨k, -, -, hlt⟩
  omega

theorem Covers.byteLength_take (hn : n.Covers source.toList i j) (hk : k ≤ j - i) :
    n.start.byte + byteLength ((n.text source).toList.take k) = byteLength (source.toList.take (i + k)) := by
  rw [hn.text_eq, String.toList_ofList, List.drop_take, List.take_take, Nat.min_eq_left hk, List.take_add,
    byteLength_append, hn.start.byte]

theorem Covers.length_text (hn : n.Covers source.toList i j) : (n.text source).toList.length = j - i := by
  have := hn.length
  rw [hn.text_eq, String.toList_ofList, List.length_drop, List.length_take]
  omega

theorem Covers.prefix_drop_text {needle : List Char} (hn : n.Covers source.toList i j) :
    needle <+: (n.text source).toList.drop k ↔
      needle <+: source.toList.drop (i + k) ∧ needle.length ≤ j - (i + k) := by
  rw [hn.text_eq, String.toList_ofList, List.drop_drop, List.drop_take, List.prefix_take_iff]

/-- The place where a definition is found is its name node or in front of it, and it is in front of it exactly if the
name occurs there. -/
theorem Covers.first_name (hn : n.Covers source.toList i j) (hc : c.Covers source.toList i' j') (hi : i ≤ i')
    (hj : j' ≤ j) (hfirst : Text.FirstFrom (c.text source).toList source.toList i k) :
    k ≤ i' ∧ (k < i' ↔ n.PrecededByName source c) := by
  have hlength := hc.length_text
  have hle : k ≤ i' := by
    by_contra hlt
    exact hfirst.first i' hi (Nat.lt_of_not_le hlt) hc.text_prefix_drop
  refine ⟨hle, fun hlt => ?_, ?_⟩
  · have hik := hfirst.le
    have hij := hc.le
    refine ⟨k - i, ?_, ?_, ?_⟩
    · rw [hn.length_text]
      omega
    · rw [hn.prefix_drop_text, Nat.add_sub_cancel' hik]
      exact ⟨hfirst.occurs, by omega⟩
    · rw [hn.byteLength_take (by omega), Nat.add_sub_cancel' hik, hc.start.byte]
      exact byteLength_take_lt hlt (hc.le.trans hc.length)
  · -- An occurrence in front of the name node is no earlier than the first one.
    rintro ⟨l, hl, hocc, hbyte⟩
    rw [hn.length_text] at hl
    rw [hn.byteLength_take (by omega), hc.start.byte] at hbyte
    have hil : i + l < i' := by
      by_contra hge
      have hlength := hn.length
      have := (byteLength_take_le_iff (hc.le.trans hc.length) (by omega)).mpr (Nat.le_of_not_lt hge)
      omega
    by_contra hge
    exact hfirst.first (i + l) (Nat.le_add_right i l) (by omega) (hn.prefix_drop_text.mp hocc).1

theorem Covers.advance_take_eq_iff (hc : c.Covers source.toList i' j') (hk : k ≤ i') :
    first.advance (source.toList.take k) = first.advance (source.toList.take i') ↔ k = i' := by
  constructor
  · intro h
    have hlength := hc.le.trans hc.length
    rw [← take_append_drop_take source.toList hk, Position.advance_append, eq_comm, Position.advance_eq_self_iff,
      List.drop_eq_nil_iff, List.length_take] at h
    omega
  · exact fun h => congrArg (first.advance <| source.toList.take ·) h

theorem Covers.extent_eq_wordAt (hc : c.Covers source.toList i' j') (hline : '\n' ∉ (c.text source).toList) :
    c.extent source = wordAt (first.advance (source.toList.take i')) (c.text source) := by
  have hstart : (c.extent source).start = first.advance (source.toList.take i') := by rw [hc.extent_eq]
  have hstop := (Position.onLine_eq_endOf_iff (first.advance (source.toList.take i')) (c.text source).toList).mpr hline
  rw [String.length_toList, ← hstart] at hstop
  rw [← hstart, wordAt, Extent.onLine, hstop]
  rfl

/-- A definition and its name node: a part of the definition that is not empty, both on boundaries between two characters
of the source. -/
structure HoldsName (source : String) (n c : Node) : Prop where
  kind : n.kind = "function_definition"
  name : n.nameChild? = some c
  start : n.start.IsIn source
  stop : String.Pos.Raw.IsValid source ⟨n.stop.byte⟩
  nameStart : c.start.IsIn source
  nameStop : String.Pos.Raw.IsValid source ⟨c.stop.byte⟩
  start_le : n.start.byte ≤ c.start.byte
  lt : c.start.byte < c.stop.byte
  le_stop : c.stop.byte ≤ n.stop.byte
  fits : n.stop.byte + 1 < UInt32.size

/-- A definition is found where its name node stands, exactly if its name occurs nowhere in front of the name node. -/
theorem nameExtent_eq_extent_iff (h : n.HoldsName source c) (hline : '\n' ∉ (c.text source).toList) :
    n.lower source = .function (n.extent source) (c.text source) (n.namedChildren.map (lower source)) ∧
    ∃ found, nameExtent (n.lower source) (c.text source) = .ok found ∧
      (found = c.extent source ↔ ¬ n.PrecededByName source c) ∧
      (n.start.byte = c.start.byte → found = c.extent source) := by
  have hle := h.start_le.trans (h.lt.le.trans h.le_stop)
  obtain ⟨i, j, hn⟩ := exists_covers h.start h.stop hle
  obtain ⟨i', j', hc⟩ := exists_covers h.nameStart h.nameStop h.lt.le
  have hi := (hn.start_le_iff hc).mp h.start_le
  have hj := (hc.stop_le_iff hn).mp h.le_stop
  have hnamed : NamedIn (n.extent source) (c.text source) := ⟨hc.text_ne h.lt, hn.infix_text hc hi hj⟩
  obtain ⟨k, hok, hfirst⟩ := hn.nameExtent_lower h.fits hnamed
  obtain ⟨hk, hbefore⟩ := hn.first_name hc hi hj hfirst
  have hiff : wordAt (first.advance (source.toList.take k)) (c.text source) = c.extent source ↔
      ¬ n.PrecededByName source c := by
    rw [hc.extent_eq_wordAt hline, ← hbefore, not_lt]
    constructor
    · intro heq
      have hstart := congrArg Extent.start heq
      rw [wordAt_start, wordAt_start, hc.advance_take_eq_iff hk] at hstart
      exact hstart.ge
    · intro hge
      rw [Nat.le_antisymm hk hge]
  exact ⟨lower_definition source h.kind h.name, _, hok, hiff, fun hstart => hiff.mpr (not_precededByName hstart)⟩

def continued : String := "é=1; function \\\n  ü \x7b :; \x7d\n"

def continuedName : Node := .mk "word" true true ⟨19, 1, 2⟩ ⟨21, 1, 4⟩ []

def continuedFunction : Node := .mk "function_definition" true false ⟨6, 0, 6⟩ ⟨28, 1, 11⟩ [continuedName]

theorem nameExtent_eq_extent_continued :
    continuedFunction.HoldsName continued continuedName ∧ '\n' ∉ (continuedName.text continued).toList ∧
    ∃ found, nameExtent (continuedFunction.lower continued) (continuedName.text continued) = .ok found ∧
      ¬ continuedFunction.PrecededByName continued continuedName ∧ found = continuedName.extent continued := by
  have hholds : continuedFunction.HoldsName continued continuedName := by
    constructor <;> decide
  have hline : '\n' ∉ (continuedName.text continued).toList := by decide
  have hnot : ¬ continuedFunction.PrecededByName continued continuedName := by decide
  obtain ⟨-, found, hok, hiff, -⟩ := nameExtent_eq_extent_iff hholds hline
  exact ⟨hholds, hline, found, hok, hnot, hiff.mpr hnot⟩

end ShellDecl.Shell.Node
