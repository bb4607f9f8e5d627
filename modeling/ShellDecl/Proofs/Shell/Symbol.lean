import ShellDecl.Proofs.Shell.Cursor

/-!
# Symbols of a script

In the tree of a script, variables and the names of definitions are words. A cursor on the first character of such a
word is on its symbol. A cursor on a definition, in front of its name, is on no symbol.
-/

set_option autoImplicit false

namespace ShellDecl.Shell

open Position (first)

namespace Node

/-- A leaf that begins with a character of its line. -/
@[mk_iff]
structure IsWord (source : String) (n : Node) : Prop where
  leaf : n.children = []
  lt : n.start.byte < n.stop.byte
  head : (n.text source).toList.head? ≠ some '\n'

instance (source : String) (n : Node) : Decidable (n.IsWord source) :=
  decidable_of_iff' _ (isWord_iff source n)

/-- What is assumed of a definition `n` with the name `c`: the name is a named word, in front of it stand only leaves
that mean nothing to a lookup, and from the start of the definition to its name no node is without extent. -/
@[mk_iff]
structure IsDefinition (source : String) (n c root : Node) : Prop where
  word : c.IsWord source
  named : c.named = true
  role : roleOf? c.kind = none
  before : ∀ b ∈ n.children, b.start.byte < c.start.byte → b.children = [] ∧ roleOf? b.kind = none
  clear : ∀ e ∈ root.nodes, e.start.byte = e.stop.byte → ¬ (n.start.byte ≤ e.start.byte ∧ e.start.byte ≤ c.start.byte)

instance (source : String) (n c root : Node) : Decidable (n.IsDefinition source c root) :=
  decidable_of_iff' _ (isDefinition_iff source n c root)

/-- What is assumed of the tree of a script, next to the order of its nodes. -/
@[mk_iff]
structure IsScriptTree (source : String) (root : Node) : Prop where
  tree : root.IsTreeOf source
  variableNames : ∀ n ∈ root.nodes, n.kind = "variable_name" → n.IsWord source ∧ root.Clear n.start.byte
  definitions : ∀ n ∈ root.nodes, n.kind = "function_definition" → ∀ c ∈ n.nameChild?, n.IsDefinition source c root
  commands : ∀ n ∈ root.nodes, n.kind = "command_name" → ∀ c ∈ n.children, c.kind ≠ "function_definition"

instance (source : String) (root : Node) : Decidable (root.IsScriptTree source) :=
  decidable_of_iff' _ (isScriptTree_iff source root)

variable {source : String} {root n c : Node} {i j k : Nat}

theorem IsDefinition.clear_of_le {b : Nat} (h : n.IsDefinition source c root) (hlo : n.start.byte ≤ b)
    (hhi : b ≤ c.start.byte) : root.Clear b := by
  intro e he hempty heq
  exact h.clear e he hempty ⟨heq ▸ hlo, heq ▸ hhi⟩

theorem IsWord.exists_head (hw : n.IsWord source) (hn : n.Covers source.toList i j)
    (hocc : (n.text source).toList <+: source.toList.drop k) :
    ∃ a rest, source.toList = source.toList.take k ++ a :: rest ∧ a ≠ '\n' := by
  have hne := hn.text_ne hw.lt
  have hhead := hw.head
  cases htext : (n.text source).toList with
  | nil => exact absurd (String.toList_eq_nil_iff.mp htext) hne
  | cons a text =>
    rw [htext] at hhead hocc
    rcases hocc with ⟨rest, hrest⟩
    refine ⟨a, text ++ rest, ?_, by simpa using hhead⟩
    rw [← List.cons_append, hrest, List.take_append_drop]

theorem Covers.advance_inside (hn : n.Covers source.toList i j) (hi : i ≤ k) (hj : k < j) :
    (Place.origin.advance (source.toList.take k)).IsIn source ∧
      n.start.byte ≤ (Place.origin.advance (source.toList.take k)).byte ∧
      (Place.origin.advance (source.toList.take k)).byte < n.stop.byte := by
  have hlength := hn.length
  rw [(Place.isAfter_advance _).byte, hn.start.byte, hn.stop]
  exact ⟨Place.isIn_advance (by omega), (byteLength_take_le_iff (by omega) (by omega)).mpr hi,
    byteLength_take_lt hj hlength⟩

theorem symbolAt?_advance (root : Node) {before rest : List Char} {a : Char} (h : source.toList = before ++ a :: rest)
    (ha : a ≠ '\n') :
    symbolAt? source root (first.advance before).line (first.advance before).column =
      ((root.descendantAt (Place.origin.advance before).point).1.classify?
        (root.descendantAt (Place.origin.advance before).point).2).map
          fun (kind, n) => ⟨kind, n.extent source, (n.extent source).text⟩ := by
  rw [symbolAt?, pointAt?_advance h ha]

/-- The symbol at the start of a word is the one of the node that is found there. -/
theorem IsWord.symbolAt?_start (hw : n.IsWord source) (hnode : n.IsNodeOf source) (root : Node) :
    symbolAt? source root (n.extent source).start.line (n.extent source).start.column =
      ((root.descendantAt n.start.point).1.classify? (root.descendantAt n.start.point).2).map
        fun (kind, n) => ⟨kind, n.extent source, (n.extent source).text⟩ := by
  rcases hnode.exists_covers with ⟨i, j, hcovers⟩
  rcases hw.exists_head hcovers hcovers.text_prefix_drop with ⟨a, rest, hsource, ha⟩
  have hstart : (n.extent source).start = first.advance (source.toList.take i) := by rw [hcovers.extent_eq]
  rw [hstart, symbolAt?_advance root hsource ha, ← hcovers.start.eq_advance]

theorem classify?_variable (hk : n.kind = "variable_name") (parent : Option Node) :
    n.classify? parent = some (.var, n) := by
  simp only [classify?, roleOf?_variableName.mpr hk]

theorem classify?_name (hk : n.kind = "function_definition") (hc : n.nameChild? = some c)
    (hrole : roleOf? c.kind = none) : c.classify? (some n) = some (.function, c) := by
  simp only [classify?, hrole, roleOf?_functionDefinition.mpr hk, hc, if_true]

theorem classify?_none {parent : Option Node} (hrole : roleOf? n.kind = none ∨ n.kind = "function_definition")
    (hparent : ∀ m ∈ parent, m.kind ≠ "command_name" ∧ (m.kind = "function_definition" → m.nameChild? ≠ some n)) :
    n.classify? parent = none := by
  have hown : roleOf? n.kind = none ∨ roleOf? n.kind = some .functionDefinition :=
    hrole.imp_right roleOf?_functionDefinition.mpr
  cases parent with
  | none => rcases hown with hr | hr <;> simp only [classify?, hr]
  | some m =>
    rcases hparent m rfl with ⟨hcommand, hname⟩
    cases hm : roleOf? m.kind with
    | none => rcases hown with hr | hr <;> simp only [classify?, hr, hm]
    | some role =>
      cases role with
      | functionDefinition =>
        have hne := hname (roleOf?_functionDefinition.mp hm)
        rcases hown with hr | hr <;> simp only [classify?, hr, hm, if_neg hne]
      | variableName => rcases hown with hr | hr <;> simp only [classify?, hr, hm]
      | expansion => rcases hown with hr | hr <;> simp only [classify?, hr, hm]
      | commandName => exact absurd (roleOf?_commandName.mp hm) hcommand

namespace IsScriptTree

theorem symbolAt?_variable (h : root.IsScriptTree source) (hn : n ∈ root.namedNodes) (hk : n.kind = "variable_name") :
    symbolAt? source root (n.extent source).start.line (n.extent source).start.column =
      some ⟨.var, n.extent source, (n.extent source).text⟩ := by
  have hmem := (namedNodes_sublist root).mem hn
  have hnode := h.tree n hmem
  rcases h.variableNames n hmem hk with ⟨hword, hclear⟩
  rcases h.tree.descendantAt_eq hnode.start hclear hn (Nat.le_refl _) hword.lt with ⟨parent, hdesc, -⟩
  rw [hword.symbolAt?_start hnode, hdesc, hword.leaf, underAll, classify?_variable hk]
  rfl

theorem symbolAt?_name (h : root.IsScriptTree source) (hn : n ∈ root.namedNodes) (hk : n.kind = "function_definition")
    (hc : n.nameChild? = some c) :
    symbolAt? source root (c.extent source).start.line (c.extent source).start.column =
      some ⟨.function, c.extent source, (c.extent source).text⟩ := by
  have hmem := (namedNodes_sublist root).mem hn
  have hdef := h.definitions n hmem hk c hc
  have hchild : c ∈ n.children := List.mem_of_find?_eq_some hc
  have htree := h.tree.of_mem hmem
  have hnode := (htree.child hchild).self
  have hin := htree.self.inside c hchild
  have hlt := hdef.word.lt
  have hclear : root.Clear c.start.byte := hdef.clear_of_le hin.1 (Nat.le_refl _)
  rcases h.tree.descendantAt_eq hnode.start hclear hn hin.1 (by omega) with ⟨parent, hdesc, -⟩
  rw [hdef.word.symbolAt?_start hnode, hdesc,
    htree.underAll_children hnode.start (hclear.of_mem hmem) hchild (Nat.le_refl _) hlt,
    under_leaf hdef.named hdef.word.leaf, classify?_name hk hc hdef.role]
  rfl

/-- There is no symbol at a character of a definition that stands in front of its name. -/
theorem symbolAt?_before (h : root.IsScriptTree source) (hn : n ∈ root.namedNodes)
    (hk : n.kind = "function_definition") (hc : n.nameChild? = some c) {i j i' j' k : Nat} (hcn : n.Covers source.toList i j)
    (hcc : c.Covers source.toList i' j') (hi : i ≤ k) (hi' : k < i') {a : Char} {rest : List Char}
    (hsource : source.toList = source.toList.take k ++ a :: rest) (ha : a ≠ '\n') :
    symbolAt? source root (first.advance (source.toList.take k)).line (first.advance (source.toList.take k)).column =
      none := by
  have hmem := (namedNodes_sublist root).mem hn
  have hdef := h.definitions n hmem hk c hc
  have hname : (Place.origin.advance (source.toList.take k)).byte < c.start.byte := by
    have hlength := hcc.le.trans hcc.length
    rw [(Place.isAfter_advance _).byte, hcc.start.byte]
    exact byteLength_take_lt hi' hlength
  have hj : k < j := by
    have hin := (h.tree n hmem).inside c (List.mem_of_find?_eq_some hc)
    have hstop := (hcc.stop_le_iff hcn).mp hin.2
    have hle := hcc.le
    omega
  rcases hcn.advance_inside hi hj with ⟨hq, hlo, hhi⟩
  have hclear : root.Clear (Place.origin.advance (source.toList.take k)).byte := hdef.clear_of_le hlo hname.le
  rcases h.tree.descendantAt_eq hq hclear hn hlo hhi with ⟨parent, hdesc, hparent⟩
  -- The definition is no symbol where it stands: it is in no command name, and it is no name.
  have hself : n.classify? parent = none := by
    apply classify?_none (Or.inr hk)
    intro m hm
    rcases hparent m hm with ⟨hmroot, hnm⟩
    constructor
    · exact fun hcommand => h.commands m hmroot hcommand n hnm hk
    · intro hmk hmn
      have hrole := (h.definitions m hmroot hmk n hmn).role
      rw [roleOf?_functionDefinition.mpr hk] at hrole
      exact absurd hrole (by simp)
  rw [symbolAt?_advance root hsource ha, hdesc]
  rcases underAll_cases n.children with hbest | ⟨b, hb, -, hstart, hunder⟩
  · rw [hbest, hself]
    rfl
  · -- What stands in front of the name is a leaf, and no name.
    have hbc : b.start.byte < c.start.byte := by
      rw [Bool.eq_false_iff, ne_eq, hq.point_lt_iff (h.tree.of_mem hmem |>.child hb).self.start] at hstart
      omega
    rcases hdef.before b hb hbc with ⟨hleaf, hrole⟩
    rw [hunder, under_eq, hleaf, underAll]
    split
    · have hother : b.classify? (some n) = none := by
        apply classify?_none (Or.inl hrole)
        intro m hm
        rw [Option.mem_some_iff.mp hm] at hk hc
        constructor
        · simp [hk]
        · intro _ hbn
          rw [hc] at hbn
          rw [Option.some.inj hbn] at hbc
          omega
      rw [hother]
      rfl
    · rw [hself]
      rfl

end IsScriptTree

end Node

end ShellDecl.Shell
