import ShellDecl.Lookup
import ShellDecl.Proofs.Declaration.NameNode
import ShellDecl.Proofs.Declaration.Search

/-!
# The first declaration of a source

In a well-formed tree the nodes that declare a symbol begin one after the other, and each is found at the first place
from its beginning where the declared text occurs. So the declaration that a lookup answers stands first in the source,
also where a definition holds another one of its name.
-/

set_option autoImplicit false

namespace ShellDecl

open Position (first)

/-- Where a node of a script tree is found: a function at its name, any other node as a whole. -/
def Script.location : Script → Except FinderError Extent
  | .function e name body => nameExtent (.function e name body) name
  | t => .ok t.extent

namespace Shell.Node

/-- A definition whose name is the text of a query for a function, or a variable whose text is the display name of a
query for a variable. -/
def Declares (source : String) (query : Symbol) (n : Node) : Prop :=
  (query.kind = .function ∧ n.kind = "function_definition" ∧
    ∃ c ∈ n.nameChild?, c.text source = query.extent.text) ∨
  (query.kind = .var ∧ n.kind = "variable_name" ∧ n.text source = query.displayName)

instance (source : String) (query : Symbol) (n : Node) : Decidable (n.Declares source query) :=
  inferInstanceAs (Decidable (_ ∨ _))

variable {source : String} {query : Symbol} {n : Node}

theorem ends_lower (h : n.IsTreeOf source) : (n.lower source).Ends query ↔ n.Declares source query := by
  obtain ⟨hk, c, hc⟩ | hk | ⟨hd, hv⟩ := lower_cases n
  · have hnamed := h.namedIn hk hc
    simp [lower_definition source hk hc, Script.Ends, Script.IsMalformed, Script.DeclaresFunction,
      Script.DeclaresVariable, Declares, hnamed, hk, hc]
  · simp [lower_variable source hk, Script.Ends, Script.IsMalformed, Script.DeclaresFunction, Script.DeclaresVariable,
      Declares, hk, extent]
  · have hnone : ¬ n.Declares source query := by
      rintro (⟨-, hk, c, hc, -⟩ | ⟨-, hk, -⟩)
      · rw [hd hk] at hc
        exact absurd hc (by simp)
      · exact hv hk
    simp [lower_other source hd hv, Script.Ends, Script.IsMalformed, Script.DeclaresFunction,
      Script.DeclaresVariable, hnone]

theorem Declares.location (hd : n.Declares source query) (h : n.IsTreeOf source) {i j : Nat}
    (hn : n.Covers source.toList i j) :
    ∃ e k, (n.lower source).location = .ok e ∧ (n.lower source).answer = .ok (some ⟨query.kind, e, ""⟩) ∧
      e.text = query.sought ∧ e.start = first.advance (source.toList.take k) ∧
      Text.FirstFrom query.sought.toList source.toList i k := by
  rcases hd with ⟨hq, hk, c, hc, htext⟩ | ⟨hq, hk, htext⟩
  · have hsought : query.sought = c.text source := by simp [Symbol.sought, hq, htext]
    have hlower := lower_definition source hk hc
    obtain ⟨k, hok, hfirst⟩ := h.nameExtent_lower hk hc hn
    rw [hlower] at hok
    refine ⟨wordAt (first.advance (source.toList.take k)) (c.text source), k, ?_, ?_, hsought.symm, rfl,
      hsought ▸ hfirst⟩
    · rw [hlower]
      exact hok
    · rw [hlower, Script.answer, if_pos (h.namedIn hk hc), hok, hq]
      rfl
  · have hsought : query.sought = n.text source := by simp [Symbol.sought, hq, htext]
    have hlower := lower_variable source hk
    refine ⟨n.extent source, i, ?_, ?_, hsought.symm, ?_, ?_⟩
    · rw [hlower]
      rfl
    · rw [hlower, hq]
      rfl
    · rw [hn.extent_eq]
    · rw [hsought, hn.text_eq, String.toList_ofList, List.drop_take]
      exact ⟨Nat.le_refl i, List.take_prefix .., fun l hil hli => by omega⟩

/-- Either no node of a tree declares what is asked for, or the first one that does gives the answer. -/
theorem IsTreeOf.none_or_first {root : Node} (h : root.IsTreeOf source) (query : Symbol) :
    (findDeclaration (root.lower source) query = .ok none ∧ ∀ n ∈ root.namedNodes, ¬ n.Declares source query) ∨
    ∃ before n after, root.namedNodes = before ++ n :: after ∧ (∀ m ∈ before, ¬ m.Declares source query) ∧
      n.Declares source query ∧ findDeclaration (root.lower source) query = (n.lower source).answer := by
  have hpre : (root.lower source).preorder = root.namedNodes.map (lower source) := by
    rw [preorder_lower, h.reach_lowers]
  have hends : ∀ n ∈ root.namedNodes, ((n.lower source).Ends query ↔ n.Declares source query) :=
    fun n hn => ends_lower (h.of_mem (namedNodes_sublist root |>.mem hn))
  rw [findDeclaration_eq_search, hpre]
  rcases Script.none_or_first query (root.namedNodes.map (lower source)) with
    hnone | ⟨before, t, after, hsplit, hbefore, ht⟩
  · refine Or.inl ⟨Script.search_of_none hnone, fun n hn hd => ?_⟩
    exact hnone _ (List.mem_map_of_mem hn) ((hends n hn).mpr hd)
  · obtain ⟨front, rest, hnodes, rfl, hrest⟩ := List.map_eq_append_iff.mp hsplit
    obtain ⟨n, back, rfl, rfl, rfl⟩ := List.map_eq_cons_iff.mp hrest
    have hn : n ∈ root.namedNodes := by simp [hnodes]
    refine Or.inr ⟨front, n, back, hnodes, fun m hm hd => ?_, (hends n hn).mp ht, ?_⟩
    · have hmem : m ∈ root.namedNodes := by simp [hnodes, hm]
      exact hbefore _ (List.mem_map_of_mem hm) ((hends m hmem).mpr hd)
    · rw [hsplit, Script.search_of_first hbefore ht]

theorem Declares.start_le {m : Node} {e e' : Extent} (hn : n.Declares source query) (hm : m.Declares source query)
    (h : n.IsTreeOf source) (h' : m.IsTreeOf source) (hle : n.start.byte ≤ m.start.byte)
    (he : (n.lower source).location = .ok e) (he' : (m.lower source).location = .ok e') :
    e.start.le e'.start = true := by
  obtain ⟨i, j, hcn⟩ := h.self.exists_covers
  obtain ⟨i', j', hcm⟩ := h'.self.exists_covers
  obtain ⟨f, k, hf, -, -, hstart, hfirst⟩ := hn.location h hcn
  obtain ⟨f', k', hf', -, -, hstart', hfirst'⟩ := hm.location h' hcm
  obtain rfl : f = e := Except.ok.inj (hf.symm.trans he)
  obtain rfl : f' = e' := Except.ok.inj (hf'.symm.trans he')
  have hi := (hcn.start_le_iff hcm).mp hle
  rw [hstart, hstart']
  exact Position.advance_le_of_prefix first (List.take_prefix_take_left (hfirst.mono hfirst' hi))

end Shell.Node

namespace Shell.Document

open Node

/-- A lookup in a well-formed tree never fails. It answers exactly if some node declares what is asked for, the answer
is where such a node is found, and every other such node is found there or further on. -/
theorem declarationOf_first {d : Document} (h : d.root.IsTreeOf d.source) (query : Symbol) :
    ∃ r, d.declarationOf query = .ok r ∧
      (r.isSome = true ↔ ∃ n ∈ d.root.namedNodes, n.Declares d.source query) ∧
      (query.kind ≠ .function → query.kind ≠ .var → r = none) ∧
      ∀ found, r = some found →
        (∃ n ∈ d.root.namedNodes, n.Declares d.source query ∧
          (n.lower d.source).location = .ok found.extent) ∧
        ∀ m ∈ d.root.namedNodes, m.Declares d.source query →
          ∃ e, (m.lower d.source).location = .ok e ∧ found.extent.start.le e.start = true := by
  have htree : ∀ n ∈ d.root.namedNodes, n.IsTreeOf d.source :=
    fun n hn => h.of_mem ((namedNodes_sublist d.root).mem hn)
  rw [declarationOf, d.lowered]
  obtain ⟨hnone, hall⟩ | ⟨before, n, after, hsplit, hbefore, hn, hanswer⟩ := h.none_or_first query
  · refine ⟨none, hnone, ?_, fun _ _ => rfl, nofun⟩
    simpa using hall
  · have hmem : n ∈ d.root.namedNodes := by simp [hsplit]
    obtain ⟨i, j, hcovers⟩ := (htree n hmem).self.exists_covers
    obtain ⟨e, k, hloc, hans, -⟩ := hn.location (htree n hmem) hcovers
    refine ⟨some ⟨query.kind, e, ""⟩, hanswer.trans hans, ?_, ?_, ?_⟩
    · simpa using ⟨n, hmem, hn⟩
    · intro hfun hvar
      exact absurd hn (by simp [Declares, hfun, hvar])
    · rintro found ⟨⟩
      refine ⟨⟨n, hmem, hn, hloc⟩, fun m hm hd => ?_⟩
      obtain ⟨i', j', hcm⟩ := (htree m hm).self.exists_covers
      obtain ⟨e', -, hloc', -⟩ := hd.location (htree m hm) hcm
      refine ⟨e', hloc', ?_⟩
      -- No node in front of the first one declares the same, and every node behind it begins no earlier.
      have hpair := h.pairwise_start.sublist (namedNodes_sublist d.root)
      rw [hsplit] at hm hpair
      rcases List.mem_append.mp hm with hm | hm
      · exact absurd hd (hbefore m hm)
      · obtain rfl | hm := List.mem_cons.mp hm
        · obtain rfl : e = e' := Except.ok.inj (hloc.symm.trans hloc')
          exact Position.le_refl _
        · have hle := (List.pairwise_cons.mp (List.pairwise_append.mp hpair).2.1).1 m hm
          exact hn.start_le hd (htree n hmem) (htree m (by simp [hsplit, hm])) hle hloc hloc'

def nested : Document :=
  .ofTree "f() (f() (:))\n" (
    .mk "program" true false ⟨0, 0, 0⟩ ⟨14, 1, 0⟩ [
      .mk "function_definition" true false ⟨0, 0, 0⟩ ⟨13, 0, 13⟩ [
        .mk "word" true true ⟨0, 0, 0⟩ ⟨1, 0, 1⟩ [],
        .mk "subshell" true false ⟨4, 0, 4⟩ ⟨13, 0, 13⟩ [
          .mk "function_definition" true false ⟨5, 0, 5⟩ ⟨12, 0, 12⟩ [
            .mk "word" true true ⟨5, 0, 5⟩ ⟨6, 0, 6⟩ [],
            .mk "subshell" true false ⟨9, 0, 9⟩ ⟨12, 0, 12⟩ [
              .mk "command" true false ⟨10, 0, 10⟩ ⟨11, 0, 11⟩ [
                .mk "command_name" true true ⟨10, 0, 10⟩ ⟨11, 0, 11⟩ [
                  .mk "word" true false ⟨10, 0, 10⟩ ⟨11, 0, 11⟩ []]]]]]]])

theorem declarationOf_first_nested :
    nested.root.IsTreeOf nested.source ∧
    ∃ found, nested.declarationOf (.named .function "f") = .ok (some found) ∧
      ∀ m ∈ nested.root.namedNodes, m.Declares nested.source (.named .function "f") →
        ∃ e, (m.lower nested.source).location = .ok e ∧ found.extent.start.le e.start = true := by
  have htree : nested.root.IsTreeOf nested.source := by decide
  obtain ⟨r, hr, hsome, -, hfound⟩ := declarationOf_first htree (.named .function "f")
  obtain ⟨found, rfl⟩ := Option.isSome_iff_exists.mp (hsome.mpr (by decide))
  exact ⟨htree, found, hr, (hfound found rfl).2⟩

end Shell.Document

end ShellDecl
