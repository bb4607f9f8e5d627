import ShellDecl.Proofs.Declaration.Order
import ShellDecl.Proofs.Shell.Symbol

/-!
# Looking up from a declaration

A declaration that was found is looked up again from its own place. A variable is found again, and so is a function
that was found at its name node. At the place of a function that was found in front of its name node there is no symbol.
-/

set_option autoImplicit false

namespace ShellDecl.Shell

open Position (first)

namespace Node.IsScriptTree

variable {source : String} {root n c : Node}

/-- A definition is found at its name node, unless its name precedes that node. Then there is no symbol where it is
found. -/
theorem nameExtent_start (h : root.IsScriptTree source) (hn : n ∈ root.namedNodes)
    (hk : n.kind = "function_definition") (hc : n.nameChild? = some c) {e : Extent}
    (he : nameExtent (n.lower source) (c.text source) = .ok e) :
    (¬ n.PrecededByName source c → e.start = (c.extent source).start) ∧
      (n.PrecededByName source c → symbolAt? source root e.start.line e.start.column = none) := by
  have hmem := (namedNodes_sublist root).mem hn
  have htree := h.tree.of_mem hmem
  have hchild : c ∈ n.children := List.mem_of_find?_eq_some hc
  have hin := htree.self.inside c hchild
  rcases htree.self.exists_covers with ⟨i, j, hcn⟩
  rcases (htree.child hchild).self.exists_covers with ⟨i', j', hcc⟩
  rcases htree.nameExtent_lower hk hc hcn with ⟨k, hok, hoccurs⟩
  have hplace := hcn.first_name hcc ((hcn.start_le_iff hcc).mp hin.1) ((hcc.stop_le_iff hcn).mp hin.2) hoccurs
  obtain rfl : wordAt (first.advance (source.toList.take k)) (c.text source) = e := Except.ok.inj (hok.symm.trans he)
  constructor
  · intro hnot
    have hki : k = i' := by
      by_contra hne
      exact hnot (hplace.2.mp (Nat.lt_of_le_of_ne hplace.1 hne))
    rw [wordAt_start, hki, hcc.extent_eq]
  · intro hpreceded
    have hki := hplace.2.mpr hpreceded
    rcases (h.definitions n hmem hk c hc).word.exists_head hcc hoccurs.occurs with ⟨a, rest, hsource, ha⟩
    exact h.symbolAt?_before hn hk hc hcn hcc hoccurs.le hki hsource ha

end Node.IsScriptTree

namespace Document

open Node

variable {d : Document} {line column : Nat} {query found : Symbol}

theorem declarationOf_of_definitionAt {asked : Option Symbol}
    (h : d.definitionAt line column = .ok ⟨asked, some found⟩) :
    ∃ query, d.declarationOf query = .ok (some found) := by
  rcases definitionAt_eq_ok h with hnone | ⟨query, r, -, hdecl, heq⟩
  · cases hnone
  · cases heq
    exact ⟨query, hdecl⟩

theorem definitionAt_of_symbol {other : Symbol} (hsymbol : d.symbolAt? line column = some other)
    (hkind : other.kind = query.kind) (hsought : other.sought = query.sought)
    (hdecl : d.declarationOf query = .ok (some found)) :
    d.definitionAt line column = .ok ⟨some other, some found⟩ := by
  have hother : d.declarationOf other = .ok (some found) := by
    rw [← hdecl]
    exact findDeclaration_congr hkind hsought d.script
  simp only [definitionAt, hsymbol, hother]
  rfl

/-- A declaration is found again from its own place, unless it is a function that was found in front of its name node.
Then there is no symbol at its place. A function that begins with its name is always found again. -/
theorem definitionAt_again (h : d.root.IsScriptTree d.source) {asked : Option Symbol}
    (hfound : d.definitionAt line column = .ok ⟨asked, some found⟩) :
    (found.kind = .var ∧
      ∃ q, d.definitionAt found.extent.start.line found.extent.start.column = .ok ⟨some q, some found⟩) ∨
    (found.kind = .function ∧
      ∃ n ∈ d.root.namedNodes, n.kind = "function_definition" ∧ ∃ c ∈ n.nameChild?,
        nameExtent (n.lower d.source) (c.text d.source) = .ok found.extent ∧
        (n.start.byte = c.start.byte → ¬ n.PrecededByName d.source c) ∧
        (¬ n.PrecededByName d.source c → found.extent.start = (c.extent d.source).start ∧
          ∃ q, d.definitionAt found.extent.start.line found.extent.start.column = .ok ⟨some q, some found⟩) ∧
        (n.PrecededByName d.source c →
          d.definitionAt found.extent.start.line found.extent.start.column = .ok ⟨none, none⟩)) := by
  rcases declarationOf_of_definitionAt hfound with ⟨query, hdecl⟩
  have hanswer := hdecl
  rw [declarationOf, d.lowered] at hanswer
  rcases h.tree.none_or_first query with ⟨hnone, -⟩ | ⟨before, n, after, hsplit, -, hn, hfirst⟩
  · rw [hnone] at hanswer
    exact absurd hanswer (by simp)
  · have hmem : n ∈ d.root.namedNodes := by simp [hsplit]
    have hnode := (namedNodes_sublist d.root).mem hmem
    have htree := h.tree.of_mem hnode
    rcases htree.self.exists_covers with ⟨i, j, hcn⟩
    rcases hn.location htree hcn with ⟨e, -, hloc, hans, -⟩
    rw [hfirst, hans] at hanswer
    obtain rfl : ⟨query.kind, e, ""⟩ = found := by simpa using hanswer
    rcases hn with ⟨hq, hk, c, hc, htext⟩ | ⟨hq, hk, htext⟩
    · right
      have hok : nameExtent (n.lower d.source) (c.text d.source) = .ok e := by
        rw [lower_definition d.source hk hc] at hloc ⊢
        exact hloc
      rcases h.nameExtent_start hmem hk hc hok with ⟨hstable, hpreceded⟩
      refine ⟨hq, n, hmem, hk, c, hc, hok, not_precededByName, ?_, ?_⟩
      · intro hnot
        have hsought : (Symbol.mk .function (c.extent d.source) (c.extent d.source).text).sought = query.sought := by
          simp [Symbol.sought, hq, ← htext, extent]
        have hagain := definitionAt_of_symbol (h.symbolAt?_name hmem hk hc) hq.symm hsought hdecl
        rw [← hstable hnot] at hagain
        exact ⟨hstable hnot, _, hagain⟩
      · intro hbefore
        rw [definitionAt, Document.symbolAt?, hpreceded hbefore]
    · left
      have hvar : n.extent d.source = e := by
        rw [lower_variable d.source hk] at hloc
        exact Except.ok.inj hloc
      have hsought : (Symbol.mk .var (n.extent d.source) (n.extent d.source).text).sought = query.sought := by
        simp [Symbol.sought, hq, ← htext, extent]
      have hagain := definitionAt_of_symbol (h.symbolAt?_variable hmem hk) hq.symm hsought hdecl
      rw [hvar] at hagain
      exact ⟨hq, _, hagain⟩

def keyword : Document :=
  .ofTree "function on \x7b :; \x7d\non\n" (
    .mk "program" true false ⟨0, 0, 0⟩ ⟨22, 2, 0⟩ [
      .mk "function_definition" true false ⟨0, 0, 0⟩ ⟨18, 0, 18⟩ [
        .mk "word" true true ⟨9, 0, 9⟩ ⟨11, 0, 11⟩ [],
        .mk "compound_statement" true false ⟨12, 0, 12⟩ ⟨18, 0, 18⟩ [
          .mk "command" true false ⟨14, 0, 14⟩ ⟨15, 0, 15⟩ [
            .mk "command_name" true true ⟨14, 0, 14⟩ ⟨15, 0, 15⟩ [
              .mk "word" true false ⟨14, 0, 14⟩ ⟨15, 0, 15⟩ []]]]],
      .mk "command" true false ⟨19, 1, 0⟩ ⟨21, 1, 2⟩ [
        .mk "command_name" true true ⟨19, 1, 0⟩ ⟨21, 1, 2⟩ [
          .mk "word" true false ⟨19, 1, 0⟩ ⟨21, 1, 2⟩ []]]])

def inKeyword : Symbol :=
  ⟨.function, ⟨⟨1, 7⟩, ⟨1, 9⟩, "on"⟩, ""⟩

theorem keyword_isScriptTree : keyword.root.IsScriptTree keyword.source := by decide

theorem definitionAt_keyword :
    keyword.definitionAt 2 1 = .ok ⟨some ⟨.function, ⟨⟨2, 1⟩, ⟨2, 3⟩, "on"⟩, "on"⟩, some inKeyword⟩ := by
  decide +kernel

theorem definitionAt_again_keyword :
    keyword.root.IsScriptTree keyword.source ∧
    (∃ asked, keyword.definitionAt 2 1 = .ok ⟨asked, some inKeyword⟩) ∧
    ∃ n ∈ keyword.root.namedNodes, ∃ c ∈ n.nameChild?,
      nameExtent (n.lower keyword.source) (c.text keyword.source) = .ok inKeyword.extent ∧
      (n.PrecededByName keyword.source c →
        keyword.definitionAt inKeyword.extent.start.line inKeyword.extent.start.column = .ok ⟨none, none⟩) := by
  rcases definitionAt_again keyword_isScriptTree definitionAt_keyword with
    ⟨hvar, -⟩ | ⟨-, n, hn, -, c, hc, hok, -, -, hbefore⟩
  · exact absurd hvar (by decide)
  · exact ⟨keyword_isScriptTree, ⟨_, definitionAt_keyword⟩, n, hn, c, hc, hok, hbefore⟩

/-- Not every declaration is found again from its own place. -/
theorem not_always_again :
    ¬ ∀ (d : Document) (line column : Nat) (asked : Option Symbol) (found : Symbol),
      d.root.IsScriptTree d.source → d.definitionAt line column = .ok ⟨asked, some found⟩ →
      ∃ again, d.definitionAt found.extent.start.line found.extent.start.column = .ok ⟨again, some found⟩ := by
  intro hall
  have hnothing : keyword.definitionAt inKeyword.extent.start.line inKeyword.extent.start.column =
      .ok ⟨none, none⟩ := by decide +kernel
  rcases hall keyword 2 1 _ inKeyword keyword_isScriptTree definitionAt_keyword with ⟨again, hagain⟩
  rw [hnothing] at hagain
  exact absurd hagain (by simp)

end Document

end ShellDecl.Shell
