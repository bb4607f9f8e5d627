import Mathlib.Data.List.Infix
import Mathlib.Data.Nat.Find
import ShellDecl.Text.Occurrence

/-!
# Leftmost occurrences

A search answers a place where the text occurs, and the text occurs at no earlier place. It answers nothing exactly
where the text occurs nowhere. Offsets count characters.
-/

set_option autoImplicit false

namespace ShellDecl.Text

theorem indexFrom?_eq_map (needle text : List Char) (before : Nat) :
    indexFrom? needle before text = (indexOf? needle text).map (before + ·) := by
  unfold indexOf?
  induction text generalizing before with
  | nil => by_cases h : needle.isEmpty <;> simp [indexFrom?, h]
  | cons c rest ih =>
    by_cases h : needle.isPrefixOf (c :: rest)
    · simp [indexFrom?, h]
    · simp only [indexFrom?, h, Bool.false_eq_true, if_false]
      rw [ih, ih (0 + 1)]
      cases indexFrom? needle 0 rest with
      | none => rfl
      | some i => simp; omega

theorem indexOf?_nil (needle : List Char) : indexOf? needle [] = if needle = [] then some 0 else none := by
  simp [indexOf?, indexFrom?]

theorem indexOf?_cons (needle : List Char) (c : Char) (rest : List Char) :
    indexOf? needle (c :: rest) =
      if needle <+: c :: rest then some 0 else (indexOf? needle rest).map (· + 1) := by
  have h := indexFrom?_eq_map needle rest 1
  simp only [indexOf?, indexFrom?, List.isPrefixOf_iff_prefix, Nat.zero_add, Nat.add_comm 1] at h ⊢
  rw [h]

/-- The answer is the first offset at which the text occurs. -/
theorem indexOf?_eq_some_iff {needle text : List Char} {i : Nat} :
    indexOf? needle text = some i ↔
      i ≤ text.length ∧ needle <+: text.drop i ∧ ∀ j < i, ¬ needle <+: text.drop j := by
  induction text generalizing i with
  | nil =>
    rw [indexOf?_nil]
    by_cases h : needle = []
    · subst h
      simp only [if_true, Option.some.injEq, List.length_nil, Nat.le_zero, List.drop_nil, List.nil_prefix, true_and]
      constructor
      · intro hi
        exact ⟨hi.symm, fun j hj => by omega⟩
      · exact fun hi => hi.1.symm
    · simp [h]
  | cons c rest ih =>
    rw [indexOf?_cons]
    by_cases h : needle <+: c :: rest
    · simp only [h, if_true, Option.some.injEq]
      constructor
      · intro hi
        subst hi
        exact ⟨Nat.zero_le _, h, fun j hj => by omega⟩
      · intro hi
        by_contra hne
        exact hi.2.2 0 (by omega) h
    · simp only [h, if_false]
      cases i with
      | zero => simp [h]
      | succ i =>
        simp only [Option.map_eq_some_iff, Nat.add_right_cancel_iff, exists_eq_right, ih, List.length_cons,
          List.drop_succ_cons, Nat.add_le_add_iff_right]
        refine and_congr_right fun _ => and_congr_right fun _ => ⟨fun hj j hlt => ?_, fun hj j hlt => ?_⟩
        · cases j with
          | zero => exact h
          | succ j => exact hj j (by omega)
        · exact hj (j + 1) (by omega)

theorem infix_iff_exists_drop {needle text : List Char} :
    needle <:+: text ↔ ∃ i ≤ text.length, needle <+: text.drop i := by
  rw [List.infix_iff_prefix_suffix]
  constructor
  · rintro ⟨rest, hp, hs⟩
    refine ⟨text.length - rest.length, Nat.sub_le .., ?_⟩
    rwa [← List.suffix_iff_eq_drop.mp hs]
  · rintro ⟨i, _, hp⟩
    exact ⟨text.drop i, hp, List.drop_suffix ..⟩

theorem exists_indexOf?_iff {needle text : List Char} :
    (∃ i, indexOf? needle text = some i) ↔ needle <:+: text := by
  rw [infix_iff_exists_drop]
  constructor
  · rintro ⟨i, hi⟩
    obtain ⟨hle, hp, -⟩ := indexOf?_eq_some_iff.mp hi
    exact ⟨i, hle, hp⟩
  · rintro ⟨i, hle, hp⟩
    -- The least such offset is the answer.
    have hex : ∃ i, needle <+: text.drop i := ⟨i, hp⟩
    classical
    refine ⟨Nat.find hex, indexOf?_eq_some_iff.mpr ⟨?_, Nat.find_spec hex, fun j hj => Nat.find_min hex hj⟩⟩
    exact (Nat.find_min' hex hp).trans hle

theorem indexOf?_eq_none_iff {needle text : List Char} : indexOf? needle text = none ↔ ¬ needle <:+: text := by
  rw [← exists_indexOf?_iff, Option.eq_none_iff_forall_ne_some, not_exists]

/-- What stands in front of the leftmost occurrence of a text in another. -/
structure BeforeFirst (needle text before : List Char) : Prop where
  occurs : before ++ needle <+: text
  leftmost : ∀ other, other ++ needle <+: text → before.length ≤ other.length

theorem append_prefix_iff {needle text before : List Char} :
    before ++ needle <+: text ↔ before <+: text ∧ needle <+: text.drop before.length := by
  constructor
  · rintro ⟨rest, rfl⟩
    rw [List.append_assoc, List.drop_left]
    exact ⟨List.prefix_append before _, List.prefix_append needle rest⟩
  · rintro ⟨⟨after, rfl⟩, hocc⟩
    rw [List.drop_left] at hocc
    exact (List.prefix_append_right_inj before).mpr hocc

theorem beforeFirst_iff {needle text before : List Char} :
    BeforeFirst needle text before ↔ before <+: text ∧ indexOf? needle text = some before.length := by
  rw [indexOf?_eq_some_iff]
  constructor
  · intro h
    obtain ⟨hbefore, hocc⟩ := append_prefix_iff.mp h.occurs
    refine ⟨hbefore, hbefore.length_le, hocc, fun j hj hearlier => ?_⟩
    have hlength : (text.take j).length = j := List.length_take_of_le (hj.le.trans hbefore.length_le)
    have hleftmost := h.leftmost (text.take j)
      (append_prefix_iff.mpr ⟨List.take_prefix j text, by rwa [hlength]⟩)
    omega
  · rintro ⟨hbefore, -, hocc, hfirst⟩
    refine ⟨append_prefix_iff.mpr ⟨hbefore, hocc⟩, fun other hother => ?_⟩
    by_contra hlt
    exact hfirst other.length (by omega) (append_prefix_iff.mp hother).2

/-- The text occurs `k` characters into another, and nowhere between `i` and there. -/
structure FirstFrom (needle text : List Char) (i k : Nat) : Prop where
  le : i ≤ k
  occurs : needle <+: text.drop k
  first : ∀ j, i ≤ j → j < k → ¬ needle <+: text.drop j

theorem FirstFrom.mono {needle text : List Char} {i k i' k' : Nat} (h : FirstFrom needle text i k)
    (h' : FirstFrom needle text i' k') (hle : i ≤ i') : k ≤ k' := by
  by_contra hlt
  exact h.first k' (hle.trans h'.le) (Nat.lt_of_not_le hlt) h'.occurs

theorem firstFrom_of_index {needle text : List Char} {i j k : Nat}
    (h : indexOf? needle ((text.take j).drop i) = some k) : FirstFrom needle text i (i + k) := by
  obtain ⟨-, hp, hfirst⟩ := indexOf?_eq_some_iff.mp h
  rw [List.drop_drop, List.drop_take, List.prefix_take_iff] at hp
  refine ⟨Nat.le_add_right i k, hp.1, fun l hil hlk hocc => ?_⟩
  refine hfirst (l - i) (by omega) ?_
  rw [List.drop_drop, Nat.add_sub_cancel' hil, List.drop_take, List.prefix_take_iff]
  exact ⟨hocc, by omega⟩

end ShellDecl.Text
