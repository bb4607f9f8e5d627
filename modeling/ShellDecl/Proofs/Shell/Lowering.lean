import ShellDecl.Proofs.Declaration.Name
import ShellDecl.Proofs.Script.Walk
import ShellDecl.Proofs.Shell.Tree

/-!
# What lowering keeps

Lowering keeps the named nodes in their order, each by itself, and what stands below a variable is left out. So the
nodes of a script tree, in document order, are those of its concrete tree. A definition holds its own name.
-/

set_option autoImplicit false

namespace ShellDecl

namespace Shell.Node

/-- The steps to a child that lowering follows. -/
def lowers (parent c : Node) : Bool :=
  c.named && parent.kind != "variable_name"

variable {source : String} {n c : Node}

theorem lowerAll_eq (source : String) (ns : List Node) :
    lowerAll source ns = (ns.filter named).map (lower source) := by
  induction ns with
  | nil => rfl
  | cons n ns ih => by_cases h : n.named <;> simp [lowerAll, h, ih]

theorem lower_definition (source : String) (hk : n.kind = "function_definition") (hc : n.nameChild? = some c) :
    n.lower source = .function (n.extent source) (c.text source) (n.namedChildren.map (lower source)) := by
  have hrole := roleOf?_functionDefinition.mpr hk
  cases n
  simp only [kind] at hrole
  simp only [lower, hrole, hc, lowerAll_eq]
  rfl

theorem lower_variable (source : String) (hk : n.kind = "variable_name") :
    n.lower source = .variableName (n.extent source) := by
  have hrole := roleOf?_variableName.mpr hk
  cases n
  simp only [kind] at hrole
  simp only [lower, hrole]

theorem lower_other (source : String) (hd : n.kind = "function_definition" → n.nameChild? = none)
    (hv : n.kind ≠ "variable_name") :
    n.lower source = .other (n.extent source) (some n.kind) (n.namedChildren.map (lower source)) := by
  have hdrole : roleOf? n.kind = some .functionDefinition → n.nameChild? = none :=
    fun h => hd (roleOf?_functionDefinition.mp h)
  have hvrole : roleOf? n.kind ≠ some .variableName := fun h => hv (roleOf?_variableName.mp h)
  cases n
  simp only [kind] at hdrole hvrole
  rw [lower]
  split
  · rename_i hrole
    simp only [hdrole hrole, lowerAll_eq]
    rfl
  · contradiction
  · rw [lowerAll_eq]
    rfl

/-- A node is lowered as a definition that has a name, as a variable, or as a node that declares nothing. -/
theorem lower_cases (n : Node) :
    (n.kind = "function_definition" ∧ ∃ c, n.nameChild? = some c) ∨ n.kind = "variable_name" ∨
      ((n.kind = "function_definition" → n.nameChild? = none) ∧ n.kind ≠ "variable_name") := by
  by_cases hv : n.kind = "variable_name"
  · exact Or.inr (Or.inl hv)
  · cases hc : n.nameChild? with
    | none => exact Or.inr (Or.inr ⟨fun _ => rfl, hv⟩)
    | some c =>
      by_cases hk : n.kind = "function_definition"
      · exact Or.inl ⟨hk, c, rfl⟩
      · exact Or.inr (Or.inr ⟨fun h => absurd h hk, hv⟩)

theorem lowers_eq_named (hv : n.kind ≠ "variable_name") : lowers n = named := by
  funext c
  simp [lowers, hv]

theorem children_lower (source : String) (n : Node) :
    (n.lower source).children = (n.children.filter (lowers n)).map (lower source) := by
  obtain ⟨hk, c, hc⟩ | hk | ⟨hd, hv⟩ := lower_cases n
  · rw [lower_definition source hk hc, lowers_eq_named (by simp [hk])]
    rfl
  · simp [lower_variable source hk, Script.children, lowers, hk]
  · rw [lower_other source hd hv, lowers_eq_named hv]
    rfl

theorem extent_lower (source : String) (n : Node) : (n.lower source).extent = n.extent source := by
  obtain ⟨hk, c, hc⟩ | hk | ⟨hd, hv⟩ := lower_cases n
  · rw [lower_definition source hk hc]; rfl
  · rw [lower_variable source hk]; rfl
  · rw [lower_other source hd hv]; rfl

/-- The nodes of the script tree are the nodes that lowering reaches, in the same order. -/
theorem preorder_lower (source : String) (n : Node) :
    (n.lower source).preorder = (n.reach lowers).map (lower source) := by
  induction n using induction_children with
  | step n ih =>
    rw [Script.preorder_eq, children_lower, List.flatMap_map, reach_eq, List.map_cons, List.map_flatMap]
    congr 1
    exact List.flatMap_congr fun c hc => ih c (List.mem_filter.mp hc).1

/-- Variables are leaves, so nothing is left out of a well-formed tree. -/
theorem IsTreeOf.reach_lowers {root : Node} (h : root.IsTreeOf source) : root.reach lowers = root.namedNodes := by
  refine reach_congr fun m hm c hc => ?_
  have hmem : m ∈ root.nodes := (reach_sublist (fun _ _ _ => rfl) root).mem hm
  by_cases hk : m.kind = "variable_name"
  · have hleaf := (h m hmem).leaf hk
    rw [namedChildren, List.filter_eq_nil_iff] at hleaf
    simpa [lowers] using fun hnamed => absurd hnamed (hleaf c hc)
  · simp [lowers, hk]

theorem Covers.infix_text {i j i' j' : Nat} (hn : n.Covers source.toList i j) (hc : c.Covers source.toList i' j')
    (hi : i ≤ i') (hj : j' ≤ j) : (c.text source).toList <:+: (n.text source).toList := by
  rw [hn.text_eq, hc.text_eq, String.toList_ofList, String.toList_ofList]
  have htake : source.toList.take j' <+: source.toList.take j := List.take_prefix_take_left hj
  have hdrop := (List.drop_suffix (i' - i) ((source.toList.take j).drop i)).isInfix
  rw [List.drop_drop, Nat.add_sub_cancel' hi] at hdrop
  exact (htake.drop i').isInfix.trans hdrop

/-- A definition of a well-formed tree is not malformed. -/
theorem IsTreeOf.namedIn (h : n.IsTreeOf source) (hk : n.kind = "function_definition")
    (hc : n.nameChild? = some c) : NamedIn (n.extent source) (c.text source) := by
  have hmem : c ∈ n.children := List.mem_of_find?_eq_some hc
  obtain ⟨i, j, hn⟩ := h.self.exists_covers
  obtain ⟨i', j', hcn⟩ := (h.child hmem).self.exists_covers
  have hin := h.self.inside c hmem
  have hi := (hn.start_le_iff hcn).mp hin.1
  have hj := (hcn.stop_le_iff hn).mp hin.2
  exact ⟨hcn.text_ne (h.self.name hk c hc), hn.infix_text hcn hi hj⟩

end Shell.Node

end ShellDecl
