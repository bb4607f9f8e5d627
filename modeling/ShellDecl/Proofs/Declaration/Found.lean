import ShellDecl.Proofs.Declaration.Order
import ShellDecl.Proofs.Shell.Referent

/-!
# Looking up a symbol from where it is declared

A variable is declared where it occurs, and a function where its name stands in a definition. So a cursor on one of them
leads to a declaration: the one under the cursor, or one in front of it.
-/

set_option autoImplicit false

namespace ShellDecl.Shell

open Position (first)

namespace Node

variable {source : String} {root n m c : Node} {p : Point} {parent : Option Node} {query : Symbol}

/-- Nodes without a name of their own are tokens, and nothing is below a token. -/
def TokensAreLeaves (root : Node) : Prop :=
  ∀ n ∈ root.nodes, n.named = false → n.children = []

instance (root : Node) : Decidable root.TokensAreLeaves :=
  inferInstanceAs (Decidable (∀ n ∈ root.nodes, _ → _))

theorem TokensAreLeaves.descendantAt_mem (h : root.TokensAreLeaves) (p : Point) :
    (root.descendantAt p).1 ∈ root.namedNodes := by
  rcases descendantAt_visits root p with ⟨hvisits, hroot | hnamed⟩
  · exact (mem_namedNodes_iff h).mpr (Or.inl hroot)
  · exact (mem_namedNodes_iff h).mpr (Or.inr ⟨hvisits.mem_nodes, hnamed⟩)

theorem TokensAreLeaves.mem_of_child (h : root.TokensAreLeaves) (hn : n ∈ root.nodes) (hc : c ∈ n.children) :
    n ∈ root.namedNodes := by
  rw [mem_namedNodes_iff h]
  by_cases hnamed : n.named = true
  · exact Or.inr ⟨hn, hnamed⟩
  · have hleaf := h n hn (by simpa using hnamed)
    rw [hleaf] at hc
    exact absurd hc List.not_mem_nil

theorem mem_namedNodes_child (hn : n ∈ root.namedNodes) (hc : c ∈ n.namedChildren) : c ∈ root.namedNodes := by
  have hmem := List.mem_filter.mp hc
  induction root using induction_children with
  | step root ih =>
    rcases mem_reach.mp hn with rfl | ⟨d, hd, hnamed, hnd⟩
    · exact mem_reach.mpr (Or.inr ⟨c, hmem.1, hmem.2, mem_reach_self c⟩)
    · exact mem_reach.mpr (Or.inr ⟨d, hd, hnamed, ih d hd hnd⟩)

theorem classify?_var (h : n.classify? parent = some (.var, m)) :
    m.kind = "variable_name" ∧ (m = n ∨ m ∈ n.namedChildren) := by
  cases refers_of_classify? h with
  | variableName hkind => exact ⟨hkind, Or.inl rfl⟩
  | expansion _ hv => exact ⟨kind_of_firstVariable? hv, Or.inr (mem_of_firstVariable? hv)⟩

theorem symbolAt?_var {line column : Nat} (h : root.TokensAreLeaves)
    (hquery : symbolAt? source root line column = some query) (hkind : query.kind = .var) :
    ∃ m ∈ root.namedNodes, m.kind = "variable_name" ∧ query = ⟨.var, m.extent source, m.text source⟩ := by
  rcases symbolAt?_eq_some hquery with ⟨p, kind, m, -, hclass, rfl⟩
  obtain rfl : kind = .var := hkind
  have hn := h.descendantAt_mem p
  rcases classify?_var hclass with ⟨hk, rfl | hchild⟩
  · exact ⟨_, hn, hk, rfl⟩
  · exact ⟨m, mem_namedNodes_child hn hchild, hk, rfl⟩

/-- If a node declares what is asked for, the first node that does is that node or stands in front of it, and it gives
the answer. -/
theorem IsTreeOf.first_declares (h : root.IsTreeOf source) (hm : m ∈ root.namedNodes)
    (hd : m.Declares source query) :
    ∃ before n after e, root.namedNodes = before ++ n :: after ∧ m ∈ n :: after ∧ n.Declares source query ∧
      (n.lower source).location = .ok e ∧ e.text = query.sought ∧
      findDeclaration (root.lower source) query = .ok (some ⟨query.kind, e, ""⟩) := by
  rcases h.none_or_first query with ⟨-, hnone⟩ | ⟨before, n, after, hsplit, hbefore, hn, hanswer⟩
  · exact absurd hd (hnone m hm)
  · have htree : n.IsTreeOf source := h.of_mem ((namedNodes_sublist root).mem (by simp [hsplit]))
    rcases htree.self.exists_covers with ⟨i, j, hcovers⟩
    rcases hn.location htree hcovers with ⟨e, -, hloc, hans, htext, -⟩
    refine ⟨before, n, after, e, hsplit, ?_, hn, hloc, htext, hanswer.trans hans⟩
    rw [hsplit] at hm
    rcases List.mem_append.mp hm with hfront | hback
    · exact absurd hd (hbefore m hfront)
    · exact hback

theorem IsTreeOf.start_le_of_mem {before after : List Node} (h : root.IsTreeOf source)
    (hsplit : root.namedNodes = before ++ n :: after) (hm : m ∈ n :: after) : n.start.byte ≤ m.start.byte := by
  have hpair := h.pairwise_start.sublist (namedNodes_sublist root)
  rw [hsplit, List.pairwise_append] at hpair
  rcases List.mem_cons.mp hm with rfl | hafter
  · exact Nat.le_refl _
  · exact (List.pairwise_cons.mp hpair.2.1).1 m hafter

end Node

namespace Document

open Node

variable {d : Document} {line column : Nat} {query : Symbol}

/-- A lookup from a variable finds a variable of its text at its place or in front of it, and a lookup from the name of
a definition finds a function of that name: the definition itself or one that comes before it in document order. -/
theorem definitionAt_declared (h : d.root.IsTreeOf d.source) (htokens : d.root.TokensAreLeaves)
    (hquery : d.symbolAt? line column = some query) :
    (query.kind = .var →
      ∃ found, d.declarationOf query = .ok (some found) ∧
        d.definitionAt line column = .ok ⟨some query, some found⟩ ∧
        found.kind = query.kind ∧ found.extent.text = query.extent.text ∧
        found.extent.start.le query.extent.start = true) ∧
    (∀ n ∈ d.root.nodes, n.kind = "function_definition" → ∀ c ∈ n.nameChild?,
      query.kind = .function → query.extent = c.extent d.source →
      ∃ found, d.declarationOf query = .ok (some found) ∧
        d.definitionAt line column = .ok ⟨some query, some found⟩ ∧
        found.kind = query.kind ∧ found.extent.text = query.extent.text ∧
        ∃ before m after, d.root.namedNodes = before ++ m :: after ∧ n ∈ m :: after ∧
          m.kind = "function_definition" ∧ ∃ name ∈ m.nameChild?,
            nameExtent (m.lower d.source) (name.text d.source) = .ok found.extent) := by
  have hanswer : ∀ found, d.declarationOf query = .ok (some found) →
      d.definitionAt line column = .ok ⟨some query, some found⟩ := by
    intro found hfound
    simp only [definitionAt, hquery, hfound]
    rfl
  constructor
  · intro hkind
    rcases symbolAt?_var htokens hquery hkind with ⟨m, hm, hk, rfl⟩
    have hd : m.Declares d.source ⟨.var, m.extent d.source, m.text d.source⟩ := Or.inr ⟨rfl, hk, rfl⟩
    rcases h.first_declares hm hd with ⟨before, n, after, e, hsplit, hmem, hn, hloc, htext, hdecl⟩
    rw [← d.lowered] at hdecl
    refine ⟨_, hdecl, hanswer _ hdecl, rfl, htext, ?_⟩
    have htree : ∀ n ∈ d.root.namedNodes, n.IsTreeOf d.source :=
      fun n hn => h.of_mem ((namedNodes_sublist d.root).mem hn)
    have hlocm : (m.lower d.source).location = .ok (m.extent d.source) := by
      rw [lower_variable d.source hk]
      rfl
    exact hn.start_le hd (htree n (by simp [hsplit])) (htree m hm) (h.start_le_of_mem hsplit hmem) hloc hlocm
  · intro n hn hk c hc hkind hextent
    have hm := htokens.mem_of_child hn (List.mem_of_find?_eq_some hc)
    have hd : n.Declares d.source query := Or.inl ⟨hkind, hk, c, hc, by rw [hextent]; rfl⟩
    rcases h.first_declares hm hd with ⟨before, m, after, e, hsplit, hmem, hdm, hloc, htext, hdecl⟩
    rw [← d.lowered] at hdecl
    refine ⟨_, hdecl, hanswer _ hdecl, rfl, ?_, before, m, after, hsplit, hmem, ?_⟩
    · rw [htext, Symbol.sought, if_neg (by simp [hkind])]
    · rcases hdm with ⟨-, hkm, name, hname, -⟩ | ⟨hvar, -⟩
      · refine ⟨hkm, name, hname, ?_⟩
        rw [lower_definition d.source hkm hname] at hloc ⊢
        exact hloc
      · rw [hkind] at hvar
        exact absurd hvar (by simp)

def expanded : Document :=
  .ofTree "x=1\necho $x\nf() (:)\n" (
    .mk "program" true false ⟨0, 0, 0⟩ ⟨20, 3, 0⟩ [
      .mk "variable_assignment" true false ⟨0, 0, 0⟩ ⟨3, 0, 3⟩ [
        .mk "variable_name" true true ⟨0, 0, 0⟩ ⟨1, 0, 1⟩ [],
        .mk "number" true false ⟨2, 0, 2⟩ ⟨3, 0, 3⟩ []],
      .mk "command" true false ⟨4, 1, 0⟩ ⟨11, 1, 7⟩ [
        .mk "command_name" true true ⟨4, 1, 0⟩ ⟨8, 1, 4⟩ [
          .mk "word" true false ⟨4, 1, 0⟩ ⟨8, 1, 4⟩ []],
        .mk "simple_expansion" true false ⟨9, 1, 5⟩ ⟨11, 1, 7⟩ [
          .mk "variable_name" true false ⟨10, 1, 6⟩ ⟨11, 1, 7⟩ []]],
      .mk "function_definition" true false ⟨12, 2, 0⟩ ⟨19, 2, 7⟩ [
        .mk "word" true true ⟨12, 2, 0⟩ ⟨13, 2, 1⟩ [],
        .mk "subshell" true false ⟨16, 2, 4⟩ ⟨19, 2, 7⟩ [
          .mk "command" true false ⟨17, 2, 5⟩ ⟨18, 2, 6⟩ [
            .mk "command_name" true true ⟨17, 2, 5⟩ ⟨18, 2, 6⟩ [
              .mk "word" true false ⟨17, 2, 5⟩ ⟨18, 2, 6⟩ []]]]]])

/-- A cursor on the dollar sign leads to the assignment, and one on the name of the function to that name. -/
theorem definitionAt_declared_expanded :
    expanded.root.IsTreeOf expanded.source ∧ expanded.root.TokensAreLeaves ∧
    (∃ query found, expanded.symbolAt? 2 6 = some query ∧ query.kind = .var ∧
      expanded.definitionAt 2 6 = .ok ⟨some query, some found⟩ ∧
      found.extent.start.le query.extent.start = true) ∧
    (∃ query found, expanded.symbolAt? 3 1 = some query ∧ query.kind = .function ∧
      (∃ n ∈ expanded.root.nodes, n.kind = "function_definition" ∧
        ∃ c ∈ n.nameChild?, query.extent = c.extent expanded.source) ∧
      expanded.definitionAt 3 1 = .ok ⟨some query, some found⟩ ∧ found.kind = .function) := by
  have htree : expanded.root.IsTreeOf expanded.source := by decide
  have htokens : expanded.root.TokensAreLeaves := by decide
  have hvar : expanded.symbolAt? 2 6 = some ⟨.var, ⟨⟨2, 7⟩, ⟨2, 8⟩, "x"⟩, "x"⟩ := by decide +kernel
  have hname : expanded.symbolAt? 3 1 = some ⟨.function, ⟨⟨3, 1⟩, ⟨3, 2⟩, "f"⟩, "f"⟩ := by decide +kernel
  refine ⟨htree, htokens, ?_, ?_⟩
  · rcases (definitionAt_declared htree htokens hvar).1 rfl with ⟨found, -, hfound, -, -, hle⟩
    exact ⟨_, found, hvar, rfl, hfound, hle⟩
  · have hdef : ∃ n ∈ expanded.root.nodes, n.kind = "function_definition" ∧
        ∃ c ∈ n.nameChild?, (⟨⟨3, 1⟩, ⟨3, 2⟩, "f"⟩ : Extent) = c.extent expanded.source := by decide
    rcases hdef with ⟨n, hn, hk, c, hc, hextent⟩
    rcases (definitionAt_declared htree htokens hname).2 n hn hk c hc rfl hextent with ⟨found, -, hfound, hkind, -⟩
    exact ⟨_, found, hname, rfl, ⟨n, hn, hk, c, hc, hextent⟩, hfound, hkind⟩

end Document

mutual

theorem Phrase.place_tokens (p : Place) : (q : Phrase) → ∀ n ∈ (q.place p).1, n.TokensAreLeaves
  | .text cs => by simp [Phrase.place]
  | .joint => by
    intro n hn m hm hnamed
    obtain rfl : n = .mk "" false false p p [] := by simpa [Phrase.place] using hn
    rcases Node.mem_nodes.mp hm with rfl | ⟨c, hc, -⟩
    · rfl
    · exact absurd hc List.not_mem_nil
  | .node kind isName parts => by
    intro n hn m hm hnamed
    have ih := placeAll_tokens p parts
    obtain rfl : n = .mk kind true isName p (Phrase.placeAll p parts).2 (Phrase.placeAll p parts).1 := by
      simpa [Phrase.place] using hn
    rcases Node.mem_nodes.mp hm with rfl | ⟨c, hc, hmc⟩
    · exact absurd hnamed (by simp [Node.named])
    · exact ih c hc m hmc hnamed

theorem Phrase.placeAll_tokens (p : Place) : (qs : List Phrase) → ∀ n ∈ (Phrase.placeAll p qs).1, n.TokensAreLeaves
  | [] => by simp [Phrase.placeAll]
  | q :: qs => by
    intro n hn
    rw [Phrase.placeAll] at hn
    rcases List.mem_append.mp hn with hfirst | hmore
    · exact place_tokens p q n hfirst
    · exact placeAll_tokens _ qs n hmore

end

/-- So the tree of every script has its tokens for leaves. -/
theorem parseTree_tokens (source : String) : (parseTree source).TokensAreLeaves := by
  rw [parseTree]
  split
  · rename_i root more hplaced
    apply Phrase.placeAll_tokens .origin _ root
    rw [hplaced]
    exact List.mem_cons_self
  · decide

end ShellDecl.Shell
