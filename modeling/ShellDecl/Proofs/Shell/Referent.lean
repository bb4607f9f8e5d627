import ShellDecl.Proofs.Extent.Partition
import ShellDecl.Proofs.Shell.Cursor
import ShellDecl.Proofs.Shell.PointAt

/-!
# What a cursor refers to

The node under a cursor is a symbol by its own kind, by the variable in it, or by the node that it is a child of. So what
is answered at a cursor is a variable name, a command name, a child of a command name, or the name of a definition, and
the cursor is in it or in the expansion of it. Where a cursor is on no character there is no symbol.
-/

set_option autoImplicit false

namespace ShellDecl.Shell

open Position (first lt_iff_not_le advance_take_lt_iff)

theorem roleOf?_expansion {kind : String} :
    roleOf? kind = some .expansion ↔ kind = "simple_expansion" ∨ kind = "expansion" := by
  simp [roleOf?_eq_some_iff, roles]

namespace Node

variable {source : String} {root n m o : Node} {p : Point} {parent : Option Node} {kind : SymbolKind}

/-! ## The symbol of a node -/

/-- The first variable name among the named children of a node. -/
def firstVariable? (n : Node) : Option Node :=
  n.namedChildren.find? (·.kind == "variable_name")

theorem kind_of_firstVariable? (h : n.firstVariable? = some m) : m.kind = "variable_name" := by
  simpa using List.find?_some h

theorem mem_of_firstVariable? (h : n.firstVariable? = some m) : m ∈ n.namedChildren :=
  List.mem_of_find?_eq_some h

/-- The ways in which a node with a given parent refers to a symbol of a kind, and the node that is the symbol. -/
inductive Refers (n : Node) (parent : Option Node) : SymbolKind → Node → Prop
  | variableName : n.kind = "variable_name" → Refers n parent .var n
  | expansion {m : Node} : n.kind = "simple_expansion" ∨ n.kind = "expansion" → n.firstVariable? = some m →
      Refers n parent .var m
  | commandName : n.kind = "command_name" → Refers n parent .function n
  | inCommandName {o : Node} : parent = some o → o.kind = "command_name" → Refers n parent .function n
  | definitionName {o : Node} : parent = some o → o.kind = "function_definition" → o.nameChild? = some n →
      Refers n parent .function n

theorem refers_of_classify? (h : n.classify? parent = some (kind, m)) : n.Refers parent kind m := by
  rw [classify?.eq_def] at h
  split at h
  · rename_i hrole
    cases h
    exact .variableName (roleOf?_variableName.mp hrole)
  · rename_i hrole
    rcases Option.map_eq_some_iff.mp h with ⟨v, hv, heq⟩
    cases heq
    exact .expansion (roleOf?_expansion.mp hrole) hv
  · rename_i hrole
    cases h
    exact .commandName (roleOf?_commandName.mp hrole)
  · cases parent with
    | none => cases h
    | some o =>
      simp only at h
      split at h
      · rename_i hrole
        cases h
        exact .inCommandName rfl (roleOf?_commandName.mp hrole)
      · rename_i hrole
        rcases Option.ite_none_right_eq_some.mp h with ⟨hname, heq⟩
        cases heq
        exact .definitionName rfl (roleOf?_functionDefinition.mp hrole) hname
      · cases h

/-! ## The place of a cursor -/

/-- All nodes of a tree begin and end at places of its source. -/
def IsPlaced (source : String) (root : Node) : Prop :=
  ∀ n ∈ root.nodes, n.start.IsIn source ∧ n.stop.IsIn source

instance (source : String) (root : Node) : Decidable (root.IsPlaced source) :=
  inferInstanceAs (Decidable (∀ n ∈ root.nodes, _ ∧ _))

theorem Covers.contains_iff {i j k : Nat} (h : n.Covers source.toList i j) :
    (n.extent source).contains (first.advance (source.toList.take k)) = true ↔ i ≤ k ∧ k < j := by
  have hstart := advance_take_lt_iff first (i := k) (h.le.trans h.length)
  have hstop := advance_take_lt_iff first (i := k) h.length
  rw [h.extent_eq, Extent.contains_iff, hstop, ← not_lt, ← hstart, lt_iff_not_le, not_not]

/-- A search enters a node that has an extent only if the cursor is on a character of it. -/
theorem contains_of_entered {before rest : List Char} (hsource : source.toList = before ++ rest)
    (hin : n.start.IsIn source ∧ n.stop.IsIn source) (hlt : n.start.byte < n.stop.byte)
    (hpast : n.isBefore (Place.origin.advance before).point = false)
    (hstart : (Place.origin.advance before).point.lt n.start.point = false) :
    (n.extent source).contains (first.advance before) = true := by
  have htake : source.toList.take before.length = before := by rw [hsource, List.take_left]
  have hlength : before.length ≤ source.toList.length := by simp [hsource]
  have hbyte := (Place.isAfter_advance before).byte
  rw [← htake] at hbyte hpast hstart ⊢
  have hq : (Place.origin.advance (source.toList.take before.length)).IsIn source := Place.isIn_advance hlength
  rcases exists_covers hin.1 hin.2.isValid hlt.le with ⟨i, j, hcovers⟩
  rw [hcovers.contains_iff]
  constructor
  · rw [Bool.eq_false_iff, ne_eq, hq.point_lt_iff hin.1, not_lt, hcovers.start.byte, hbyte] at hstart
    exact (byteLength_take_le_iff (hcovers.le.trans hcovers.length) hlength).mp hstart
  · have hstop : (Place.origin.advance (source.toList.take before.length)).byte < n.stop.byte := by
      rw [Bool.eq_false_iff, ne_eq, isBefore_iff hin.1 hin.2 hlt.le hq] at hpast
      omega
    rw [hcovers.stop, hbyte, ← not_le, byteLength_take_le_iff hcovers.length hlength, not_le] at hstop
    exact hstop

theorem sizeOf_lt_of_mem (h : m ∈ n.children) : sizeOf m < sizeOf n := by
  cases n with
  | mk kind named isName start stop children =>
    have := List.sizeOf_lt_of_mem h
    simp only [Node.children, mk.sizeOf_spec] at this ⊢
    omega

theorem sizeOf_le_of_mem_nodes (h : n ∈ root.nodes) : sizeOf n ≤ sizeOf root := by
  induction root using induction_children with
  | step root ih =>
    rcases mem_nodes.mp h with rfl | ⟨c, hc, hn⟩
    · exact Nat.le_refl _
    · exact (ih c hc hn).trans (sizeOf_lt_of_mem hc).le

theorem ne_of_mem_children (ho : o ∈ root.nodes) (hn : n ∈ o.children) : n ≠ root := by
  rintro rfl
  have hle := sizeOf_le_of_mem_nodes ho
  have hlt := sizeOf_lt_of_mem hn
  omega

theorem Visits.cases (h : Visits root p n parent) :
    (n = root ∧ parent = none) ∨
      n ≠ root ∧ n.isBefore p = false ∧ p.lt n.start.point = false ∧
        ∃ o ∈ root.nodes, parent = some o ∧ n ∈ o.children := by
  cases h with
  | root => exact Or.inl ⟨rfl, rfl⟩
  | child ho hc hpast hstart =>
    exact Or.inr ⟨ne_of_mem_children ho.mem_nodes hc, hpast, hstart, _, ho.mem_nodes, rfl, hc⟩

/-- What a search finds at a cursor is the root, or a named node that the cursor is in, with its parent. It is assumed
that what is found below the root has an extent. -/
theorem descendantAt_cases {line column : Nat} (hplaced : root.IsPlaced source)
    (hpoint : pointAt? source line column = some p) (hdesc : root.descendantAt p = (n, parent))
    (hfound : n = root ∨ n.start.byte < n.stop.byte) :
    (n = root ∧ parent = none) ∨
      (n ∈ root.nodes ∧ n.named = true ∧ (n.extent source).contains ⟨line, column⟩ = true ∧
        ∃ o ∈ root.nodes, parent = some o ∧ n ∈ o.children) := by
  rcases descendantAt_visits root p with ⟨hvisits, hnamed⟩
  rw [hdesc] at hvisits hnamed
  rcases hvisits.cases with hroot | ⟨hne, hpast, hstart, hparent⟩
  · exact Or.inl hroot
  · right
    rcases exists_before_of_pointAt? hpoint with ⟨before, c, rest, hsource, hc, hadvance⟩
    have hcursor := pointAt?_advance hsource hc
    rw [hadvance, hpoint, Option.some.injEq] at hcursor
    subst hcursor
    have hin := hplaced n hvisits.mem_nodes
    have hcontains := contains_of_entered hsource hin (hfound.resolve_left hne) hpast hstart
    rw [hadvance] at hcontains
    exact ⟨hvisits.mem_nodes, hnamed.resolve_left hne, hcontains, hparent⟩

/-! ## The symbol under a cursor -/

/-- The node can be the symbol of a kind: it is a variable name, or it is a command name, a child of one, or the name of a
definition. -/
def IsSymbol (n root : Node) : SymbolKind → Prop
  | .var => n.kind = "variable_name"
  | .function =>
    n.kind = "command_name" ∨
      ∃ o ∈ root.nodes,
        (o.kind = "command_name" ∧ n ∈ o.children) ∨ (o.kind = "function_definition" ∧ o.nameChild? = some n)
  | _ => False

/-- The cursor is in the node, or in an expansion whose first variable the node is. -/
def IsUnder (n root : Node) (source : String) (cursor : Position) : Prop :=
  (n.extent source).contains cursor = true ∨
    ∃ o ∈ root.nodes, (o.kind = "simple_expansion" ∨ o.kind = "expansion") ∧ o.firstVariable? = some n ∧
      (o.extent source).contains cursor = true

/-- A node of a tree that the cursor is in refers to a named node of the tree. -/
theorem Refers.isSymbol {cursor : Position} (h : n.Refers parent kind m) (hn : n ∈ root.nodes) (hnamed : n.named = true)
    (hparent : ∃ o ∈ root.nodes, parent = some o ∧ n ∈ o.children) (hcursor : (n.extent source).contains cursor = true) :
    m ∈ root.nodes ∧ m.named = true ∧ m.IsSymbol root kind ∧ m.IsUnder root source cursor := by
  rcases hparent with ⟨o, ho, rfl, hchild⟩
  cases h with
  | variableName hkind => exact ⟨hn, hnamed, hkind, Or.inl hcursor⟩
  | expansion hkind hv =>
    rcases List.mem_filter.mp (mem_of_firstVariable? hv) with ⟨hbelow, hvariable⟩
    have hmem : m ∈ root.nodes := nodes_trans hn (mem_nodes.mpr (Or.inr ⟨m, hbelow, mem_reach_self m⟩))
    exact ⟨hmem, hvariable, kind_of_firstVariable? hv, Or.inr ⟨n, hn, hkind, hv, hcursor⟩⟩
  | commandName hkind => exact ⟨hn, hnamed, Or.inl hkind, Or.inl hcursor⟩
  | inCommandName hsame hkind =>
    cases hsame
    exact ⟨hn, hnamed, Or.inr ⟨o, ho, Or.inl ⟨hkind, hchild⟩⟩, Or.inl hcursor⟩
  | definitionName hsame hkind hname =>
    cases hsame
    exact ⟨hn, hnamed, Or.inr ⟨o, ho, Or.inr ⟨hkind, hname⟩⟩, Or.inl hcursor⟩

end Node

open Node

variable {source : String} {root : Node} {line column : Nat} {q : Symbol}

theorem symbolAt?_eq_some (h : symbolAt? source root line column = some q) :
    ∃ p kind n, pointAt? source line column = some p ∧
      (root.descendantAt p).1.classify? (root.descendantAt p).2 = some (kind, n) ∧
      q = ⟨kind, n.extent source, (n.extent source).text⟩ := by
  rw [symbolAt?] at h
  split at h
  · cases h
  · rename_i p hpoint
    rcases Option.map_eq_some_iff.mp h with ⟨⟨kind, n⟩, hclass, rfl⟩
    exact ⟨p, kind, n, hpoint, hclass, rfl⟩

theorem symbolAt?_outside (root : Node)
    (h : ¬ ((1 ≤ line ∧ line ≤ (source.toList.splitOn '\n').length) ∧
      1 ≤ column ∧ column ≤ (lineAt source line).length)) : symbolAt? source root line column = none := by
  cases hq : symbolAt? source root line column with
  | none => rfl
  | some q =>
    rcases symbolAt?_eq_some hq with ⟨p, kind, n, hpoint, -⟩
    rcases pointAt?_eq_some_iff.mp hpoint with ⟨hline, hcolumn, -⟩
    exact absurd ⟨hline, hcolumn⟩ h

/-- A symbol under a cursor is displayed as it is written, and it is a named node of the tree: a variable name, or a
command name, a child of one, or the name of a definition. The cursor is in it, or in an expansion whose first variable
it is. A cursor on no character of a line has no symbol. -/
theorem symbolAt?_sound (source : String) (root : Node) (line column : Nat) (hplaced : root.IsPlaced source)
    (hroot : root.classify? none = none)
    (hfound : ∀ p, pointAt? source line column = some p →
      (root.descendantAt p).1 = root ∨ (root.descendantAt p).1.start.byte < (root.descendantAt p).1.stop.byte) :
    (∀ q, symbolAt? source root line column = some q →
      q.displayName = q.extent.text ∧
      ∃ n ∈ root.nodes, n.named = true ∧ q.extent = n.extent source ∧ n.IsSymbol root q.kind ∧
        n.IsUnder root source ⟨line, column⟩) ∧
    (¬ ((1 ≤ line ∧ line ≤ (source.toList.splitOn '\n').length) ∧
        1 ≤ column ∧ column ≤ (lineAt source line).length) → symbolAt? source root line column = none) := by
  refine ⟨fun q hq => ?_, symbolAt?_outside root⟩
  rcases symbolAt?_eq_some hq with ⟨p, kind, n, hpoint, hclass, rfl⟩
  have hextent := hfound p hpoint
  rcases hdesc : root.descendantAt p with ⟨m, parent⟩
  rw [hdesc] at hclass hextent
  rcases descendantAt_cases hplaced hpoint hdesc hextent with ⟨rfl, rfl⟩ | ⟨hmem, hnamed, hcursor, hparent⟩
  · rw [hroot] at hclass
    cases hclass
  · rcases (refers_of_classify? hclass).isSymbol hmem hnamed hparent hcursor with ⟨hn, hnnamed, hsymbol, hunder⟩
    exact ⟨rfl, n, hn, hnnamed, rfl, hsymbol, hunder⟩

def accented : String := "x=é; f \"$\x7bx\x7d\"\n"

def accentedTree : Node :=
  .mk "program" true false ⟨0, 0, 0⟩ ⟨15, 1, 0⟩ [
    .mk "variable_assignment" true false ⟨0, 0, 0⟩ ⟨4, 0, 4⟩ [
      .mk "variable_name" true true ⟨0, 0, 0⟩ ⟨1, 0, 1⟩ [],
      .mk "word" true false ⟨2, 0, 2⟩ ⟨4, 0, 4⟩ []],
    .mk "command" true false ⟨6, 0, 6⟩ ⟨14, 0, 14⟩ [
      .mk "command_name" true true ⟨6, 0, 6⟩ ⟨7, 0, 7⟩ [
        .mk "word" true false ⟨6, 0, 6⟩ ⟨7, 0, 7⟩ []],
      .mk "string" true false ⟨8, 0, 8⟩ ⟨14, 0, 14⟩ [
        .mk "expansion" true false ⟨9, 0, 9⟩ ⟨13, 0, 13⟩ [
          .mk "variable_name" true false ⟨11, 0, 11⟩ ⟨12, 0, 12⟩ []]]]]

/-- The dollar sign refers to the variable behind it, the word to itself, and the end of the line to nothing. -/
theorem symbolAt?_sound_accented :
    accentedTree.IsPlaced accented ∧ accentedTree.classify? none = none ∧
    (∀ p, pointAt? accented 1 9 = some p →
      (accentedTree.descendantAt p).1 = accentedTree ∨
        (accentedTree.descendantAt p).1.start.byte < (accentedTree.descendantAt p).1.stop.byte) ∧
    (∃ q, symbolAt? accented accentedTree 1 9 = some q ∧ q.extent.contains ⟨1, 9⟩ = false ∧
      ∃ n ∈ accentedTree.nodes, n.named = true ∧ q.extent = n.extent accented ∧ n.IsSymbol accentedTree q.kind ∧
        n.IsUnder accentedTree accented ⟨1, 9⟩) ∧
    symbolAt? accented accentedTree 1 14 = none := by
  have hplaced : accentedTree.IsPlaced accented := by decide
  have hroot : accentedTree.classify? none = none := by decide
  have hdollar : pointAt? accented 1 9 = some ⟨0, 9⟩ := by decide
  have hend : pointAt? accented 1 14 = none := by decide
  have hfound : ∀ p, pointAt? accented 1 9 = some p →
      (accentedTree.descendantAt p).1 = accentedTree ∨
        (accentedTree.descendantAt p).1.start.byte < (accentedTree.descendantAt p).1.stop.byte := by
    intro p hp
    rw [hdollar, Option.some.injEq] at hp
    rw [← hp]
    decide
  have hsymbol : symbolAt? accented accentedTree 1 9 = some ⟨.var, ⟨⟨1, 11⟩, ⟨1, 12⟩, "x"⟩, "x"⟩ := by decide +kernel
  rcases (symbolAt?_sound accented accentedTree 1 9 hplaced hroot hfound).1 _ hsymbol with ⟨-, hnode⟩
  have hnone := (symbolAt?_sound accented accentedTree 1 14 hplaced hroot (by simp [hend])).2
  exact ⟨hplaced, hroot, hfound, ⟨_, hsymbol, by decide, hnode⟩, hnone (by decide)⟩

end ShellDecl.Shell
