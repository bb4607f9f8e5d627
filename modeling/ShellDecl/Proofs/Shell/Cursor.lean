import ShellDecl.Proofs.Shell.Point
import ShellDecl.Proofs.Shell.Tree

/-!
# The node under a cursor

A search for the smallest node under a cursor goes down from a node to the child that the cursor is in. A node without
extent stops it at its place, so a search is followed only where there is none.
-/

set_option autoImplicit false

namespace ShellDecl.Shell.Node

variable {source : String} {root n c : Node} {p : Point} {q : Place} {parent : Option Node} {best : Node × Option Node}

theorem under_eq (n : Node) :
    under p parent best n = underAll p (some n) (if n.named = true then (n, parent) else best) n.children := by
  cases n
  rw [under]
  rfl

theorem under_leaf (hnamed : n.named = true) (hleaf : n.children = []) : under p parent best n = (n, parent) := by
  rw [under_eq, hleaf, if_pos hnamed, underAll]

theorem underAll_enter {before after : List Node} (hbefore : ∀ b ∈ before, b.isBefore p = true)
    (hpast : c.isBefore p = false) (hstart : p.lt c.start.point = false) :
    underAll p parent best (before ++ c :: after) = under p parent best c := by
  induction before with
  | nil => rw [List.nil_append, underAll, hpast, hstart]; rfl
  | cons b before ih =>
    rw [List.cons_append, underAll, if_pos (hbefore b List.mem_cons_self)]
    exact ih fun b hb => hbefore b (List.mem_cons_of_mem _ hb)

theorem underAll_cases (cs : List Node) :
    underAll p parent best cs = best ∨
      ∃ c ∈ cs, c.isBefore p = false ∧ p.lt c.start.point = false ∧
        underAll p parent best cs = under p parent best c := by
  induction cs with
  | nil => exact Or.inl rfl
  | cons c cs ih =>
    rw [underAll]
    split
    · obtain hbest | ⟨d, hd, hpast, hstart, hunder⟩ := ih
      · exact Or.inl hbest
      · exact Or.inr ⟨d, List.mem_cons_of_mem _ hd, hpast, hstart, hunder⟩
    · rename_i hpast
      split
      · exact Or.inl rfl
      · rename_i hstart
        exact Or.inr ⟨c, List.mem_cons_self, by simpa using hpast, by simpa using hstart, rfl⟩

/-- The nodes that a search goes through on its way down, each with the node that it is a child of. -/
inductive Visits (root : Node) (p : Point) : Node → Option Node → Prop
  | root : Visits root p root none
  | child {n c : Node} {parent : Option Node} : Visits root p n parent → c ∈ n.children → c.isBefore p = false →
      p.lt c.start.point = false → Visits root p c (some n)

theorem Visits.mem_nodes (h : Visits root p n parent) : n ∈ root.nodes := by
  induction h with
  | root => exact mem_reach_self root
  | child _ hc _ _ ih => exact nodes_trans ih (Node.mem_nodes.mpr (Or.inr ⟨_, hc, mem_reach_self _⟩))

theorem Visits.under (h : Visits root p n parent) (best : Node × Option Node) :
    Node.under p parent best n = best ∨
      (Visits root p (Node.under p parent best n).1 (Node.under p parent best n).2 ∧
        (Node.under p parent best n).1.named = true) := by
  induction n using induction_children generalizing parent best with
  | step n ih =>
    rw [under_eq]
    generalize hbest : (if n.named = true then (n, parent) else best) = best'
    have hself : best' = best ∨ (Visits root p best'.1 best'.2 ∧ best'.1.named = true) := by
      by_cases hnamed : n.named = true
      · rw [← hbest, if_pos hnamed]
        exact Or.inr ⟨h, hnamed⟩
      · rw [← hbest, if_neg hnamed]
        exact Or.inl rfl
    rcases underAll_cases n.children with hall | ⟨c, hc, hpast, hstart, hunder⟩
    · rw [hall]
      exact hself
    · rw [hunder]
      rcases ih c hc (h.child hc hpast hstart) best' with hsame | hfound
      · rw [hsame]
        exact hself
      · exact Or.inr hfound

/-- What a search finds it visits, and unless it is the root it is named. -/
theorem descendantAt_visits (root : Node) (p : Point) :
    Visits root p (root.descendantAt p).1 (root.descendantAt p).2 ∧
      ((root.descendantAt p).1 = root ∨ (root.descendantAt p).1.named = true) := by
  rcases Visits.root.under (root, none) with hroot | ⟨hvisits, hnamed⟩
  · rw [descendantAt, hroot]
    exact ⟨Visits.root, Or.inl rfl⟩
  · exact ⟨hvisits, Or.inr hnamed⟩

theorem isBefore_iff (hstart : n.start.IsIn source) (hstop : n.stop.IsIn source) (hle : n.start.byte ≤ n.stop.byte)
    (hq : q.IsIn source) :
    n.isBefore q.point = true ↔
      n.stop.byte < q.byte ∨ (n.start.byte < n.stop.byte ∧ n.stop.byte ≤ q.byte) := by
  by_cases hempty : n.start.byte = n.stop.byte
  · rw [isBefore, if_pos ((hstart.point_eq_iff hstop).mpr hempty), hstop.point_lt_iff hq]
    omega
  · have hpast : (!q.point.lt n.stop.point) = true ↔ n.stop.byte ≤ q.byte := by
      rw [Bool.not_eq_true', Bool.eq_false_iff, ne_eq, hq.point_lt_iff hstop]
      omega
    rw [isBefore, if_neg (mt (hstart.point_eq_iff hstop).mp hempty), hpast]
    omega

theorem IsNodeOf.isBefore_iff (h : n.IsNodeOf source) (hq : q.IsIn source) :
    n.isBefore q.point = true ↔
      n.stop.byte < q.byte ∨ (n.start.byte < n.stop.byte ∧ n.stop.byte ≤ q.byte) :=
  Node.isBefore_iff h.start h.stop h.le hq

/-- No node without extent stands at a place. -/
def Clear (root : Node) (b : Nat) : Prop :=
  ∀ e ∈ root.nodes, e.start.byte = e.stop.byte → e.start.byte ≠ b

instance (root : Node) (b : Nat) : Decidable (root.Clear b) :=
  inferInstanceAs (Decidable (∀ e ∈ root.nodes, _ → _))

theorem Clear.of_mem {b : Nat} (h : root.Clear b) (hn : n ∈ root.nodes) : n.Clear b :=
  fun e he => h e (nodes_trans hn he)

/-- A search at a place inside of a child enters that child. -/
theorem IsTreeOf.underAll_children (h : n.IsTreeOf source) (hq : q.IsIn source) (hclear : n.Clear q.byte)
    (hc : c ∈ n.children) (hlo : c.start.byte ≤ q.byte) (hhi : q.byte < c.stop.byte) :
    underAll q.point parent best n.children = under q.point parent best c := by
  have hnode : ∀ d ∈ n.children, d.IsNodeOf source := fun d hd => (h.child hd).self
  have happart := h.self.apart
  obtain ⟨before, after, hsplit⟩ := List.append_of_mem hc
  rw [hsplit, List.pairwise_append] at happart
  -- The children in front of it end at or before the place, and none of them is without extent there.
  have hbefore : ∀ b ∈ before, b.isBefore q.point = true := by
    intro b hb
    have hmem : b ∈ n.children := by simp [hsplit, hb]
    have hstop := happart.2.2 b hb c List.mem_cons_self
    have hempty := hclear b (mem_nodes.mpr (Or.inr ⟨b, hmem, mem_reach_self b⟩))
    have hle := (hnode b hmem).le
    rw [(hnode b hmem).isBefore_iff hq]
    omega
  have hpast : c.isBefore q.point = false := by
    rw [Bool.eq_false_iff, ne_eq, (hnode c hc).isBefore_iff hq]
    omega
  have hstart : q.point.lt c.start.point = false := by
    rw [Bool.eq_false_iff, ne_eq, hq.point_lt_iff (hnode c hc).start]
    omega
  rw [hsplit]
  exact underAll_enter hbefore hpast hstart

theorem IsTreeOf.under_of_mem (h : root.IsTreeOf source) (hq : q.IsIn source) (hclear : root.Clear q.byte)
    (hn : n ∈ root.nodes) (hlo : n.start.byte ≤ q.byte) (hhi : q.byte < n.stop.byte) (parent : Option Node)
    (best : Node × Option Node) :
    ∃ parent' best', under q.point parent best root = under q.point parent' best' n ∧
      ((n = root ∧ parent' = parent ∧ best' = best) ∨ ∃ m ∈ root.nodes, n ∈ m.children ∧ parent' = some m) := by
  induction root using induction_children generalizing parent best with
  | step root ih =>
    obtain rfl | ⟨c, hc, hnc⟩ := mem_nodes.mp hn
    · exact ⟨parent, best, rfl, Or.inl ⟨rfl, rfl, rfl⟩⟩
    · have hin := (h.child hc).inside hnc
      have hmem : c ∈ root.nodes := mem_nodes.mpr (Or.inr ⟨c, hc, mem_reach_self c⟩)
      rw [under_eq, h.underAll_children hq hclear hc (by omega) (by omega)]
      obtain ⟨parent', best', heq, hparent⟩ := ih c hc (h.child hc) (hclear.of_mem hmem) hnc (some root) _
      refine ⟨parent', best', heq, Or.inr ?_⟩
      obtain ⟨rfl, rfl, -⟩ | ⟨m, hm, hnm, rfl⟩ := hparent
      · exact ⟨root, mem_reach_self root, hc, rfl⟩
      · exact ⟨m, nodes_trans hmem hm, hnm, rfl⟩

/-- At a place inside of a named node, the search of a whole tree is the search of what is in that node. -/
theorem IsTreeOf.descendantAt_eq (h : root.IsTreeOf source) (hq : q.IsIn source) (hclear : root.Clear q.byte)
    (hn : n ∈ root.namedNodes) (hlo : n.start.byte ≤ q.byte) (hhi : q.byte < n.stop.byte) :
    ∃ parent, root.descendantAt q.point = underAll q.point (some n) (n, parent) n.children ∧
      ∀ m ∈ parent, m ∈ root.nodes ∧ n ∈ m.children := by
  rcases named_of_mem_namedNodes hn with rfl | hnamed
  · refine ⟨none, ?_, fun m hm => absurd hm (Option.not_mem_none m)⟩
    rw [descendantAt, under_eq, ite_self]
  · have hmem := (namedNodes_sublist root).mem hn
    rcases h.under_of_mem hq hclear hmem hlo hhi none (root, none) with ⟨parent, best, heq, hparent⟩
    refine ⟨parent, ?_, ?_⟩
    · rw [descendantAt, heq, under_eq, if_pos hnamed]
    · intro m hm
      rcases hparent with ⟨-, rfl, -⟩ | ⟨m', hm', hnm, rfl⟩
      · exact absurd hm (Option.not_mem_none m)
      · rw [← Option.mem_some_iff.mp hm]
        exact ⟨hm', hnm⟩

end ShellDecl.Shell.Node
