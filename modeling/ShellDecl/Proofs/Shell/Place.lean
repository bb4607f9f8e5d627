import Mathlib.Tactic.MkIffOfInductiveProp
import ShellDecl.Proofs.Extent.Position
import ShellDecl.Shell.Document

/-!
# Places of a source

A place between two characters of a source counts the bytes, the line breaks and the bytes of the last line in front of
it. A place that comes later counts more, and what is cut out between two places is the text between them.
-/

set_option autoImplicit false

namespace ShellDecl.Shell

open Position (lastLine)

@[simp] theorem byteLength_nil : byteLength [] = 0 := rfl

theorem foldl_utf8Size (n : Nat) (text : List Char) :
    text.foldl (fun n c => n + c.utf8Size) n = n + byteLength text := by
  unfold byteLength
  induction text generalizing n with
  | nil => rfl
  | cons c text ih =>
    rw [List.foldl_cons, List.foldl_cons, ih, ih (0 + c.utf8Size)]
    omega

@[simp] theorem byteLength_cons (c : Char) (text : List Char) :
    byteLength (c :: text) = c.utf8Size + byteLength text := by
  rw [byteLength, List.foldl_cons, foldl_utf8Size, Nat.zero_add]

@[simp] theorem byteLength_append (a b : List Char) : byteLength (a ++ b) = byteLength a + byteLength b := by
  rw [byteLength, List.foldl_append, foldl_utf8Size]
  rfl

theorem byteLength_pos {text : List Char} (h : text ≠ []) : 0 < byteLength text := by
  obtain ⟨c, rest, rfl⟩ := List.exists_cons_of_ne_nil h
  have := c.utf8Size_pos
  rw [byteLength_cons]
  omega

theorem length_le_byteLength (text : List Char) : text.length ≤ byteLength text := by
  induction text with
  | nil => exact Nat.le_refl 0
  | cons c text ih =>
    have := c.utf8Size_pos
    rw [List.length_cons, byteLength_cons]
    omega

theorem byteLength_eq_utf8ByteSize (text : List Char) : byteLength text = (String.ofList text).utf8ByteSize := by
  induction text with
  | nil => rfl
  | cons c text ih =>
    rw [byteLength_cons, ih, ← List.singleton_append, String.ofList_append, String.utf8ByteSize_append,
      ← String.singleton_eq_ofList, String.utf8ByteSize_singleton]

theorem take_append_drop_take (text : List Char) {i j : Nat} (h : i ≤ j) :
    text.take i ++ (text.take j).drop i = text.take j := by
  simpa [List.take_take, Nat.min_eq_left h] using List.take_append_drop i (text.take j)

theorem byteLength_take_lt {text : List Char} {i j : Nat} (hij : i < j) (hj : j ≤ text.length) :
    byteLength (text.take i) < byteLength (text.take j) := by
  have hsplit := take_append_drop_take text hij.le
  have hne : (text.take j).drop i ≠ [] := by
    rw [ne_eq, List.drop_eq_nil_iff, List.length_take]
    omega
  have hpos := byteLength_pos hne
  rw [← hsplit, byteLength_append]
  omega

namespace Place

/-- The place of a reader that has read `before`. -/
@[mk_iff]
structure IsAfter (p : Place) (before : List Char) : Prop where
  byte : p.byte = byteLength before
  row : p.row = before.count '\n'
  column : p.column = byteLength (lastLine before)

instance (p : Place) (before : List Char) : Decidable (p.IsAfter before) :=
  decidable_of_iff' _ (isAfter_iff p before)

theorem advance_append (p : Place) (a b : List Char) : p.advance (a ++ b) = (p.advance a).advance b := by
  simp [advance, List.foldl_append]

theorem IsAfter.step {p : Place} {before : List Char} (h : p.IsAfter before) (c : Char) :
    (p.step c).IsAfter (before ++ [c]) := by
  by_cases hc : c = '\n'
  · have hsize : '\n'.utf8Size = 1 := by decide
    constructor <;> simp [Place.step, hc, h.byte, h.row, Position.lastLine_concat, hsize]
  · constructor <;> simp [Place.step, hc, h.byte, h.row, h.column, Position.lastLine_concat]

theorem isAfter_advance (before : List Char) : (origin.advance before).IsAfter before := by
  induction before using List.reverseRecOn with
  | nil => exact ⟨rfl, rfl, rfl⟩
  | append_singleton before c ih =>
    rw [advance_append]
    exact ih.step c

theorem IsAfter.eq_advance {p : Place} {before : List Char} (h : p.IsAfter before) : p = origin.advance before := by
  have hb := isAfter_advance before
  cases p
  cases hq : origin.advance before
  rw [hq] at hb
  simp_all [isAfter_iff]

end Place

theorem extract_go₂_cons (c : Char) (cs : List Char) (i stop : String.Pos.Raw) :
    String.Pos.Raw.extract.go₂ (c :: cs) i stop =
      if i = stop then [] else c :: String.Pos.Raw.extract.go₂ cs (i + c) stop :=
  rfl

theorem extract_go₁_cons (c : Char) (cs : List Char) (i start stop : String.Pos.Raw) :
    String.Pos.Raw.extract.go₁ (c :: cs) i start stop =
      if i = start then String.Pos.Raw.extract.go₂ (c :: cs) i stop
      else String.Pos.Raw.extract.go₁ cs (i + c) start stop :=
  rfl

theorem extract_go₂ (text rest : List Char) (k : Nat) :
    String.Pos.Raw.extract.go₂ (text ++ rest) ⟨k⟩ ⟨k + byteLength text⟩ = text := by
  induction text generalizing k with
  | nil =>
    cases rest with
    | nil => rfl
    | cons c rest => exact if_pos rfl
  | cons c text ih =>
    have hne : (⟨k⟩ : String.Pos.Raw) ≠ ⟨k + byteLength (c :: text)⟩ := by
      rw [ne_eq, String.Pos.Raw.ext_iff]
      exact (Nat.lt_add_of_pos_right (byteLength_pos (List.cons_ne_nil c text))).ne
    have hnext := ih (k + c.utf8Size)
    rw [Nat.add_assoc, ← byteLength_cons] at hnext
    rw [List.cons_append, extract_go₂_cons, if_neg hne]
    exact congrArg (c :: ·) hnext

theorem extract_go₁ (before rest : List Char) (k : Nat) (stop : String.Pos.Raw) :
    String.Pos.Raw.extract.go₁ (before ++ rest) ⟨k⟩ ⟨k + byteLength before⟩ stop =
      String.Pos.Raw.extract.go₂ rest ⟨k + byteLength before⟩ stop := by
  induction before generalizing k with
  | nil =>
    cases rest with
    | nil => rfl
    | cons c rest => exact if_pos rfl
  | cons c before ih =>
    have hne : (⟨k⟩ : String.Pos.Raw) ≠ ⟨k + byteLength (c :: before)⟩ := by
      rw [ne_eq, String.Pos.Raw.ext_iff]
      exact (Nat.lt_add_of_pos_right (byteLength_pos (List.cons_ne_nil c before))).ne
    have hnext := ih (k + c.utf8Size)
    rw [Nat.add_assoc, ← byteLength_cons] at hnext
    rw [List.cons_append, extract_go₁_cons, if_neg hne]
    exact hnext

theorem isValid_byteLength {source : String} {before rest : List Char} (h : source.toList = before ++ rest) :
    (⟨byteLength before⟩ : String.Pos.Raw).isValid source = true := by
  rw [String.Pos.Raw.isValid_eq_true_iff, String.Pos.Raw.isValid_iff_exists_take_toList]
  exact ⟨before.length, by simp [h, byteLength_eq_utf8ByteSize]⟩

/-- What is cut out of a source after `before`, over the bytes of `text`. -/
theorem slice?_append {source : String} {before text rest : List Char}
    (h : source.toList = before ++ text ++ rest) :
    slice? source (byteLength before) (byteLength (before ++ text)) = some (String.ofList text) := by
  have hstart := isValid_byteLength (h.trans (List.append_assoc ..))
  have hstop := isValid_byteLength h
  have hle : byteLength before ≤ byteLength (before ++ text) := by simp
  have hextract : String.Pos.Raw.extract source ⟨byteLength before⟩ ⟨byteLength (before ++ text)⟩ =
      if byteLength before ≥ byteLength (before ++ text) then ""
      else String.ofList
        (String.Pos.Raw.extract.go₁ source.toList 0 ⟨byteLength before⟩ ⟨byteLength (before ++ text)⟩) := rfl
  have hcut : String.Pos.Raw.extract.go₁ source.toList 0 ⟨byteLength before⟩ ⟨byteLength (before ++ text)⟩ = text := by
    have h₁ := extract_go₁ before (text ++ rest) 0 ⟨byteLength (before ++ text)⟩
    have h₂ := extract_go₂ text rest (byteLength before)
    rw [Nat.zero_add, ← List.append_assoc, ← h] at h₁
    rw [← byteLength_append] at h₂
    exact h₁.trans h₂
  rw [slice?, if_pos ⟨hle, hstart, hstop⟩, hextract, hcut]
  by_cases ht : text = []
  · simp [ht]
  · have := byteLength_pos ht
    rw [if_neg (by simp; omega)]

end ShellDecl.Shell
