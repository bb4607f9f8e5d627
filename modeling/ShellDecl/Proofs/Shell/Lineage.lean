import ShellDecl.Proofs.Shell.Lowering

/-!
# A script tree beside its concrete tree

Both trees are listed in document order, each node with the nodes that it stands below. The script tree has one node for
each named node of the concrete tree that stands below no variable, in the same order and below the same nodes. What the
node is tells its shape.
-/

set_option autoImplicit false

namespace ShellDecl.Shell.Node

variable {source : String} {n : Node} {above : List Node} {node : List Node × Node}

mutual

/-- The nodes that are reached through named children, in document order, each with the nodes that it stands below. -/
def lineage (above : List Node) : Node → List (List Node × Node)
  | .mk kind named isName start stop children =>
    let n := Node.mk kind named isName start stop children
    (above, n) :: lineageAll (n :: above) children

def lineageAll (above : List Node) : List Node → List (List Node × Node)
  | [] => []
  | c :: cs => if c.named then lineage above c ++ lineageAll above cs else lineageAll above cs

end

def isOutside (node : List Node × Node) : Bool :=
  node.1.all (·.kind != "variable_name")

/-- The lineage of a tree, without the nodes that stand below a variable. -/
def kept (root : Node) : List (List Node × Node) :=
  (root.lineage []).filter isOutside

theorem lineageAll_eq (above ns : List Node) : lineageAll above ns = (ns.filter named).flatMap (lineage above) := by
  induction ns with
  | nil => rfl
  | cons n ns ih => by_cases h : n.named <;> simp [lineageAll, h, ih]

theorem lineage_eq (above : List Node) (n : Node) :
    n.lineage above = (above, n) :: n.namedChildren.flatMap (lineage (n :: above)) := by
  cases n
  rw [lineage, lineageAll_eq]
  rfl

theorem map_lineage (above : List Node) (n : Node) : (n.lineage above).map Prod.snd = n.namedNodes := by
  induction n using induction_children generalizing above with
  | step n ih =>
    rw [lineage_eq, namedNodes, reach_eq, List.map_cons, List.map_flatMap]
    congr 1
    exact List.flatMap_congr fun c hc => ih c (List.mem_filter.mp hc).1 (n :: above)

theorem suffix_of_mem_lineage (h : node ∈ n.lineage above) : above <:+ node.1 := by
  induction n using induction_children generalizing above with
  | step n ih =>
    rw [lineage_eq, List.mem_cons, List.mem_flatMap] at h
    rcases h with rfl | ⟨c, hc, hnode⟩
    · exact List.suffix_rfl
    · exact (List.suffix_cons n above).trans (ih c (List.mem_filter.mp hc).1 hnode)

theorem filter_lineage_of_variable (hn : n ∈ above) (hk : n.kind = "variable_name") (c : Node) :
    (c.lineage above).filter isOutside = [] := by
  rw [List.filter_eq_nil_iff]
  intro node hnode houtside
  have hmem := (suffix_of_mem_lineage hnode).subset hn
  have hkind := List.all_eq_true.mp houtside n hmem
  simp [hk] at hkind

/-- Below nodes of which none is a variable, lowering keeps what stands below no variable, node for node. -/
theorem lineage_lower (source : String) (habove : ∀ a ∈ above, a.kind ≠ "variable_name") (n : Node) :
    (n.lower source).lineage (above.map (lower source)) =
      ((n.lineage above).filter isOutside).map fun node => (node.1.map (lower source), node.2.lower source) := by
  induction n using induction_children generalizing above with
  | step n ih =>
    have hself : isOutside (above, n) = true := by simpa [isOutside] using habove
    rw [Script.lineage_eq, children_lower, lineage_eq, List.filter_cons_of_pos hself, List.map_cons, List.flatMap_map,
      List.filter_flatMap, List.map_flatMap]
    congr 1
    by_cases hk : n.kind = "variable_name"
    · -- A variable has no children in the script tree, and what is below it in the concrete tree is left out.
      have hleaf : n.children.filter (lowers n) = [] := by simp [lowers, hk]
      rw [hleaf, List.flatMap_nil]
      refine (List.flatMap_eq_nil_iff.mpr fun c _ => ?_).symm
      rw [filter_lineage_of_variable List.mem_cons_self hk, List.map_nil]
    · rw [lowers_eq_named hk]
      have hbelow : ∀ a ∈ n :: above, a.kind ≠ "variable_name" := List.forall_mem_cons.mpr ⟨hk, habove⟩
      exact List.flatMap_congr fun c hc => ih c (List.mem_filter.mp hc).1 hbelow

/-! ## The shape of a lowered node -/

theorem lower_function_iff {name : String} :
    (∃ e body, n.lower source = .function e name body) ↔
      n.kind = "function_definition" ∧ ∃ c ∈ n.nameChild?, c.text source = name := by
  rcases lower_cases n with ⟨hk, c, hc⟩ | hk | ⟨hd, hv⟩
  · simp [lower_definition source hk hc, hk, hc]
  · simp [lower_variable source hk, hk]
  · rw [lower_other source hd hv]
    refine iff_of_false (by simp) ?_
    rintro ⟨hk, c, hc, -⟩
    simp [hd hk] at hc

theorem lower_variableName_iff : (∃ e, n.lower source = .variableName e) ↔ n.kind = "variable_name" := by
  rcases lower_cases n with ⟨hk, c, hc⟩ | hk | ⟨hd, hv⟩
  · simp [lower_definition source hk hc, hk]
  · simp [lower_variable source hk, hk]
  · simp [lower_other source hd hv, hv]

theorem lower_other_iff {label : Option String} :
    (∃ e children, n.lower source = .other e label children) ↔
      label = some n.kind ∧ n.kind ≠ "variable_name" ∧ (n.kind = "function_definition" → n.nameChild? = none) := by
  rcases lower_cases n with ⟨hk, c, hc⟩ | hk | ⟨hd, hv⟩
  · simp [lower_definition source hk hc, hk, hc]
  · simp [lower_variable source hk, hk]
  · rw [lower_other source hd hv]
    constructor
    · rintro ⟨e, children, heq⟩
      cases heq
      exact ⟨rfl, hv, hd⟩
    · rintro ⟨rfl, -, -⟩
      exact ⟨_, _, rfl⟩

/-- The nodes of a script tree are those of its concrete tree that are reached through named children and stand below no
variable, one for one and in the same order. A node stands below what is lowered from the nodes above its own, so it is
at the same depth. It has the extent of its own node, and its shape and its label are told by the kind of that node and by
its name. -/
theorem lower_keeps (source : String) (root : Node) :
    (root.lineage []).map Prod.snd = root.namedNodes ∧
    (root.lower source).lineage [] =
      root.kept.map (fun node => (node.1.map (lower source), node.2.lower source)) ∧
    (root.lower source).preorder = root.kept.map (fun node => node.2.lower source) ∧
    (root.lower source).size = root.kept.length ∧
    ∀ n : Node,
      (n.lower source).extent = n.extent source ∧
      (∀ name, (∃ e body, n.lower source = .function e name body) ↔
        n.kind = "function_definition" ∧ ∃ c ∈ n.nameChild?, c.text source = name) ∧
      ((∃ e, n.lower source = .variableName e) ↔ n.kind = "variable_name") ∧
      ∀ label, (∃ e children, n.lower source = .other e label children) ↔
        label = some n.kind ∧ n.kind ≠ "variable_name" ∧ (n.kind = "function_definition" → n.nameChild? = none) := by
  have hlineage := lineage_lower source (fun a ha => absurd ha List.not_mem_nil) root
  have hpreorder : (root.lower source).preorder = root.kept.map (fun node => node.2.lower source) := by
    rw [← Script.map_lineage [] (root.lower source), ← List.map_nil, hlineage, List.map_map]
    rfl
  have hsize : (root.lower source).size = root.kept.length := by
    rw [← Script.length_preorder, hpreorder, List.length_map]
  refine ⟨map_lineage [] root, hlineage, hpreorder, hsize, fun n => ?_⟩
  exact ⟨extent_lower source n, fun name => lower_function_iff, lower_variableName_iff, fun label => lower_other_iff⟩

end ShellDecl.Shell.Node
