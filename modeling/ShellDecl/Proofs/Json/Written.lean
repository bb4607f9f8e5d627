import ShellDecl.Proofs.Json.Draft

/-!
# The printed forms of a value

Both printed forms, on one line and indented, are texts of the value, as long as each of its numbers is one that can
be read.
-/

set_option autoImplicit false

namespace ShellDecl.Json

/-- A value all of whose numbers can be read. -/
inductive Readable : Json → Prop where
  | null : Readable .null
  | bool (b : Bool) : Readable (.bool b)
  | number (digits : String) (n : Number) (hlength : Numeral.length digits.toList = .ok digits.toList.length)
      (hvalue : Numeral.value digits.toList = .ok n) : Readable (.number digits)
  | str (s : String) : Readable (.str s)
  | arr (vs : List Json) (h : ∀ v ∈ vs, Readable v) : Readable (.arr vs)
  | obj (ms : List (String × Json)) (h : ∀ m ∈ ms, Readable m.2) : Readable (.obj ms)

theorem readable_nat {n : Nat} (h : n < UInt64.size) : Readable (.nat n) :=
  .number _ _ (Numeral.length_nat n) (Numeral.value_nat h)

theorem commas_cons_cons (s t : List Char) (ts : List (List Char)) :
    commas (s :: t :: ts) = s ++ ',' :: commas (t :: ts) := by
  simp [commas]

theorem quote_toList (s : String) : (quote s).toList = '"' :: (s.toList.flatMap escape ++ ['"']) := by
  rw [quote, String.toList_ofList, List.cons_append]

theorem writes_quote (s : String) : Writes (.str s) (quote s).toList := by
  rw [quote_toList]
  exact .str s _ (Quoted.spells_escape _)

theorem writesKey_quote {blank : List Char} (h : Blank blank) (k : String) :
    WritesKey k (blank ++ ((quote k).toList ++ [':'])) :=
  ⟨blank, _, [], h, Quoted.spells_escape _, blank_nil, by simp [quote_toList]⟩

/-! ## On one line -/

theorem compactItems_toList (vs : List Json) :
    (compactItems vs).toList = commas (vs.map fun v => v.compact.toList) := by
  induction vs with
  | nil => rfl
  | cons v vs ih =>
    cases vs with
    | nil => simp [compactItems, commas]
    | cons w ws =>
      rw [List.map_cons] at ih ⊢
      rw [List.map_cons, commas_cons_cons, ← ih]
      simp [compactItems]

theorem compactMembers_toList (ms : List (String × Json)) :
    (compactMembers ms).toList = commas (ms.map fun m => (quote m.1).toList ++ [':'] ++ m.2.compact.toList) := by
  induction ms with
  | nil => rfl
  | cons m ms ih =>
    cases ms with
    | nil => simp [compactMembers, commas]
    | cons w ws =>
      rw [List.map_cons] at ih ⊢
      rw [List.map_cons, commas_cons_cons, ← ih]
      simp [compactMembers]

theorem Readable.writes_compact {w : Json} (h : Readable w) : Writes w w.compact.toList := by
  induction h with
  | null => exact .null
  | bool b => cases b <;> constructor
  | number digits n hlength hvalue => exact .number digits n hlength hvalue
  | str s => exact writes_quote s
  | arr vs h ih =>
    have hw := Writes.arr (vs.map fun v => (v, v.compact.toList)) [] [] blank_nil blank_nil (by simpa using ih)
    rw [compact, String.toList_append, String.toList_append, compactItems_toList]
    simpa [Function.comp_def] using hw
  | obj ms h ih =>
    have hw := Writes.obj (ms.map fun m => ⟨m.1, [] ++ ((quote m.1).toList ++ [':']), m.2, m.2.compact.toList⟩) [] []
      blank_nil blank_nil (List.forall_mem_map.mpr fun m hm => writesKey_quote blank_nil m.1)
      (List.forall_mem_map.mpr ih)
    rw [compact, String.toList_append, String.toList_append, compactMembers_toList]
    simpa [Function.comp_def] using hw

/-! ## Indented -/

theorem pushn_toList (s : String) (c : Char) (n : Nat) : (s.pushn c n).toList = s.toList ++ List.replicate n c := by
  induction n with
  | zero => simp [String.pushn, Nat.repeat]
  | succ n ih =>
    rw [String.pushn] at ih ⊢
    rw [Nat.repeat, String.toList_push, ih, List.replicate_succ', List.append_assoc]

theorem blank_newline (depth : Nat) : Blank (newline depth).toList := by
  intro c hc
  rw [newline, String.toList_append, pushn_toList] at hc
  simp at hc
  obtain rfl | ⟨-, rfl⟩ := hc <;> rfl

theorem prettyItems_toList (depth : Nat) (vs : List Json) :
    (prettyItems depth vs).toList = commas (vs.map fun v => (newline depth).toList ++ (prettyAt depth v).toList) := by
  induction vs with
  | nil => rfl
  | cons v vs ih =>
    cases vs with
    | nil => simp [prettyItems, commas]
    | cons w ws =>
      rw [List.map_cons] at ih ⊢
      rw [List.map_cons, commas_cons_cons, ← ih]
      simp [prettyItems]

theorem prettyMembers_toList (depth : Nat) (ms : List (String × Json)) :
    (prettyMembers depth ms).toList = commas (ms.map fun m =>
      ((newline depth).toList ++ ((quote m.1).toList ++ [':'])) ++ (' ' :: (prettyAt depth m.2).toList)) := by
  induction ms with
  | nil => rfl
  | cons m ms ih =>
    cases ms with
    | nil => simp [prettyMembers, commas]
    | cons w ws =>
      rw [List.map_cons] at ih ⊢
      rw [List.map_cons, commas_cons_cons, ← ih]
      simp [prettyMembers]

theorem Readable.writes_prettyAt {w : Json} (h : Readable w) (depth : Nat) : Writes w (prettyAt depth w).toList := by
  induction h generalizing depth with
  | null => simpa only [prettyAt] using Readable.null.writes_compact
  | bool b => simpa only [prettyAt] using (Readable.bool b).writes_compact
  | number digits n hlength hvalue =>
    simpa only [prettyAt] using (Readable.number digits n hlength hvalue).writes_compact
  | str s => simpa only [prettyAt] using (Readable.str s).writes_compact
  | arr vs h ih =>
    cases vs with
    | nil => simpa only [prettyAt] using (Readable.arr [] h).writes_compact
    | cons v vs =>
      have hw := Writes.arr
        ((v :: vs).map fun v => (v, (newline (depth + 1)).toList ++ ((prettyAt (depth + 1) v).toList ++ []))) []
        (newline depth).toList blank_nil (blank_newline depth)
        (List.forall_mem_map.mpr fun v hv => .padded v _ _ _ (blank_newline _) (ih v hv _) blank_nil)
      rw [prettyAt, String.toList_append, String.toList_append, String.toList_append, prettyItems_toList]
      simpa [Function.comp_def] using hw
  | obj ms h ih =>
    cases ms with
    | nil => simpa only [prettyAt] using (Readable.obj [] h).writes_compact
    | cons m ms =>
      have hblank : Blank [' '] := by
        intro c hc
        obtain rfl := List.mem_singleton.mp hc
        rfl
      have hw := Writes.obj
        ((m :: ms).map fun m => ⟨m.1, (newline (depth + 1)).toList ++ ((quote m.1).toList ++ [':']), m.2,
          [' '] ++ ((prettyAt (depth + 1) m.2).toList ++ [])⟩) []
        (newline depth).toList blank_nil (blank_newline depth)
        (List.forall_mem_map.mpr fun m hm => writesKey_quote (blank_newline _) m.1)
        (List.forall_mem_map.mpr fun m hm => .padded m.2 _ _ _ hblank (ih m hm _) blank_nil)
      rw [prettyAt, String.toList_append, String.toList_append, String.toList_append, prettyMembers_toList]
      simpa [Function.comp_def] using hw

theorem Readable.writes_pretty {w : Json} (h : Readable w) : Writes w w.pretty.toList :=
  h.writes_prettyAt 0

end ShellDecl.Json
