import Mathlib.Data.List.Basic
import ShellDecl.Proofs.Shell.Range

/-!
# Trees of a source

What is assumed of a concrete tree is assumed node by node: ends on character boundaries, children inside and one after
the other, definitions that have a name, variables that are leaves. In document order, nodes then begin one after the
other.
-/

set_option autoImplicit false

namespace ShellDecl.Shell

theorem roleOf?_eq_some_iff {kind : String} {role : Role} : roleOf? kind = some role ↔ (kind, role) ∈ roles := by
  have hkeys : (roles.map Prod.fst).Nodup := by decide
  constructor
  · intro h
    obtain ⟨l₁, l₂, hsplit, -⟩ := List.lookup_eq_some_iff.mp h
    rw [hsplit]
    simp
  · intro h
    obtain ⟨l₁, l₂, hsplit⟩ := List.append_of_mem h
    refine List.lookup_eq_some_iff.mpr ⟨l₁, l₂, hsplit, ?_⟩
    intro p hp
    rw [hsplit, List.map_append, List.map_cons, List.nodup_append] at hkeys
    have hne := hkeys.2.2 p.1 (List.mem_map_of_mem hp) kind List.mem_cons_self
    simpa using hne.symm

theorem roleOf?_functionDefinition {kind : String} :
    roleOf? kind = some .functionDefinition ↔ kind = "function_definition" := by
  simp [roleOf?_eq_some_iff, roles]

theorem roleOf?_variableName {kind : String} : roleOf? kind = some .variableName ↔ kind = "variable_name" := by
  simp [roleOf?_eq_some_iff, roles]

theorem roleOf?_commandName {kind : String} : roleOf? kind = some .commandName ↔ kind = "command_name" := by
  simp [roleOf?_eq_some_iff, roles]

namespace Node

/-- To prove something of all nodes, prove it of a node whose children have it. -/
theorem induction_children {motive : Node → Prop} (step : ∀ n : Node, (∀ c ∈ n.children, motive c) → motive n) :
    (n : Node) → motive n
  | .mk kind named isName start stop children =>
    step _ fun c _ => induction_children step c
termination_by n => n
decreasing_by
  have := List.sizeOf_lt_of_mem ‹c ∈ children›
  simp
  omega

mutual

/-- The nodes that are reached by steps to a child that `follow` allows, in document order. -/
def reach (follow : Node → Node → Bool) : Node → List Node
  | .mk kind named isName start stop children =>
    let n := Node.mk kind named isName start stop children
    n :: reachAll follow n children

def reachAll (follow : Node → Node → Bool) (parent : Node) : List Node → List Node
  | [] => []
  | c :: cs => if follow parent c then reach follow c ++ reachAll follow parent cs else reachAll follow parent cs

end

def nodes (n : Node) : List Node :=
  n.reach fun _ _ => true

/-- The nodes of a tree that are reached through named children. -/
def namedNodes (n : Node) : List Node :=
  n.reach fun _ c => c.named

variable {follow : Node → Node → Bool}

theorem reachAll_eq (parent : Node) (ns : List Node) :
    reachAll follow parent ns = (ns.filter (follow parent)).flatMap (reach follow) := by
  induction ns with
  | nil => rfl
  | cons c cs ih => by_cases h : follow parent c <;> simp [reachAll, h, ih]

theorem reach_eq (n : Node) : n.reach follow = n :: (n.children.filter (follow n)).flatMap (reach follow) := by
  cases n
  rw [reach, reachAll_eq]
  rfl

theorem mem_reach_self (n : Node) : n ∈ n.reach follow := by
  rw [reach_eq]
  exact List.mem_cons_self

theorem mem_reach {n m : Node} :
    m ∈ n.reach follow ↔ m = n ∨ ∃ c ∈ n.children, follow n c = true ∧ m ∈ c.reach follow := by
  rw [reach_eq]
  simp [and_assoc]

theorem reach_sublist {more : Node → Node → Bool} (h : ∀ n c, follow n c = true → more n c = true) (n : Node) :
    (n.reach follow).Sublist (n.reach more) := by
  induction n using induction_children with
  | step n ih =>
    rw [reach_eq, reach_eq]
    refine List.Sublist.cons_cons n ?_
    generalize n.children = cs at ih
    induction cs with
    | nil => exact List.Sublist.refl _
    | cons c cs ihcs =>
      have hc := ih c List.mem_cons_self
      have hcs := ihcs fun c hc => ih c (List.mem_cons_of_mem _ hc)
      by_cases hf : follow n c
      · simpa [hf, h n c hf] using hc.append hcs
      · by_cases hm : more n c
        · simpa [hf, hm] using hcs.trans (List.sublist_append_right _ _)
        · simpa [hf, hm] using hcs

theorem namedNodes_sublist (n : Node) : n.namedNodes.Sublist n.nodes :=
  reach_sublist (fun _ _ _ => rfl) n

theorem named_of_mem_namedNodes {root m : Node} (hm : m ∈ root.namedNodes) : m = root ∨ m.named = true := by
  induction root using induction_children with
  | step root ih =>
    rcases mem_reach.mp hm with rfl | ⟨c, hc, hnamed, hmem⟩
    · exact Or.inl rfl
    · rcases ih c hc hmem with rfl | hm
      · exact Or.inr hnamed
      · exact Or.inr hm

theorem reach_congr {other : Node → Node → Bool} {n : Node}
    (h : ∀ m ∈ n.reach follow, ∀ c ∈ m.children, follow m c = other m c) : n.reach follow = n.reach other := by
  induction n using induction_children with
  | step n ih =>
    have hchildren : n.children.filter (follow n) = n.children.filter (other n) :=
      List.filter_congr (h n (mem_reach_self n))
    rw [reach_eq, reach_eq, ← hchildren]
    congr 1
    refine List.flatMap_congr fun c hc => ?_
    obtain ⟨hmem, hfollow⟩ := List.mem_filter.mp hc
    exact ih c hmem fun m hm => h m (mem_reach.mpr (Or.inr ⟨c, hmem, hfollow, hm⟩))

/-- What is assumed of a node of a tree of `source`. -/
@[mk_iff]
structure IsNodeOf (source : String) (n : Node) : Prop where
  start : n.start.IsIn source
  stop : n.stop.IsIn source
  le : n.start.byte ≤ n.stop.byte
  fits : n.stop.byte + 1 < UInt32.size
  inside : ∀ c ∈ n.children, n.start.byte ≤ c.start.byte ∧ c.stop.byte ≤ n.stop.byte
  apart : n.children.Pairwise fun a b => a.stop.byte ≤ b.start.byte
  name : n.kind = "function_definition" → ∀ c ∈ n.nameChild?, c.start.byte < c.stop.byte
  leaf : n.kind = "variable_name" → n.namedChildren = []

instance (source : String) (n : Node) : Decidable (n.IsNodeOf source) :=
  decidable_of_iff' _ (isNodeOf_iff source n)

theorem IsNodeOf.exists_covers {source : String} {n : Node} (h : n.IsNodeOf source) :
    ∃ i j, n.Covers source.toList i j :=
  Node.exists_covers h.start h.stop.isValid h.le

/-- The extent of a node is made from its start and its text as any other extent is. -/
theorem IsNodeOf.extent_eq_ofText {source : String} {n : Node} (h : n.IsNodeOf source) :
    n.extent source = .ofText (n.extent source).start (n.extent source).text := by
  obtain ⟨i, j, hn⟩ := h.exists_covers
  have hfits : (Position.first.advance (source.toList.take j)).Fits := by
    obtain ⟨hline, hcolumn⟩ := Position.first_advance_le (source.toList.take j)
    have hj := hn.le_stop
    have hbyte := h.fits
    rw [List.length_take_of_le hn.length] at hline hcolumn
    exact ⟨by omega, by omega⟩
  have hstop : (n.extent source).stop.wrap = (n.extent source).stop := by
    rw [hn.extent_eq, Position.wrap_of_fits hfits]
  exact congrArg (Extent.mk _ · _) hstop.symm

/-- A well-formed tree of a source. -/
def IsTreeOf (source : String) (root : Node) : Prop :=
  ∀ n ∈ root.nodes, n.IsNodeOf source

instance (source : String) (root : Node) : Decidable (root.IsTreeOf source) :=
  inferInstanceAs (Decidable (∀ n ∈ root.nodes, n.IsNodeOf source))

theorem mem_nodes {n m : Node} : m ∈ n.nodes ↔ m = n ∨ ∃ c ∈ n.children, m ∈ c.nodes := by
  rw [nodes, mem_reach]
  simp [nodes]

theorem nodes_trans {n m root : Node} (hn : n ∈ root.nodes) (hm : m ∈ n.nodes) : m ∈ root.nodes := by
  induction root using induction_children with
  | step root ih =>
    obtain rfl | ⟨c, hc, hnc⟩ := mem_nodes.mp hn
    · exact hm
    · exact mem_nodes.mpr (Or.inr ⟨c, hc, ih c hc hnc⟩)

/-- Where unnamed nodes are leaves, all named nodes are reached through named children. -/
theorem mem_namedNodes_iff {root m : Node} (h : ∀ n ∈ root.nodes, n.named = false → n.children = []) :
    m ∈ root.namedNodes ↔ m = root ∨ m ∈ root.nodes ∧ m.named = true := by
  induction root using induction_children with
  | step root ih =>
    have hchild : ∀ c ∈ root.children, c ∈ root.nodes := fun c hc => mem_nodes.mpr (Or.inr ⟨c, hc, mem_reach_self c⟩)
    rw [namedNodes, mem_reach, mem_nodes]
    constructor
    · rintro (rfl | ⟨c, hc, hnamed, hm⟩)
      · exact Or.inl rfl
      · obtain rfl | ⟨hmem, hm⟩ := (ih c hc fun n hn => h n (nodes_trans (hchild c hc) hn)).mp hm
        · exact Or.inr ⟨Or.inr ⟨m, hc, mem_reach_self m⟩, hnamed⟩
        · exact Or.inr ⟨Or.inr ⟨c, hc, hmem⟩, hm⟩
    · rintro (rfl | ⟨rfl | ⟨c, hc, hmem⟩, hm⟩)
      · exact Or.inl rfl
      · exact Or.inl rfl
      · refine Or.inr ⟨c, hc, ?_, (ih c hc fun n hn => h n (nodes_trans (hchild c hc) hn)).mpr (Or.inr ⟨hmem, hm⟩)⟩
        by_contra hnamed
        have hleaf := h c (hchild c hc) (by simpa using hnamed)
        rw [mem_nodes, hleaf] at hmem
        obtain rfl | ⟨d, hd, -⟩ := hmem
        · exact hnamed hm
        · exact absurd hd List.not_mem_nil

namespace IsTreeOf

variable {source : String} {root n m c : Node}

theorem self (h : n.IsTreeOf source) : n.IsNodeOf source :=
  h n (mem_reach_self n)

theorem of_mem (h : root.IsTreeOf source) (hn : n ∈ root.nodes) : n.IsTreeOf source :=
  fun m hm => h m (nodes_trans hn hm)

theorem child (h : n.IsTreeOf source) (hc : c ∈ n.children) : c.IsTreeOf source :=
  h.of_mem (mem_nodes.mpr (Or.inr ⟨c, hc, mem_reach_self c⟩))

theorem inside (h : root.IsTreeOf source) (hn : n ∈ root.nodes) :
    root.start.byte ≤ n.start.byte ∧ n.stop.byte ≤ root.stop.byte := by
  induction root using induction_children with
  | step root ih =>
    obtain rfl | ⟨c, hc, hnc⟩ := mem_nodes.mp hn
    · exact ⟨Nat.le_refl _, Nat.le_refl _⟩
    · have hchild := h.self.inside c hc
      have hin := ih c hc (h.child hc) hnc
      omega

/-- Document order is the order in which nodes begin. -/
theorem pairwise_start (h : root.IsTreeOf source) :
    root.nodes.Pairwise fun a b => a.start.byte ≤ b.start.byte := by
  induction root using induction_children with
  | step root ih =>
    have hself : ∀ b ∈ root.nodes, root.start.byte ≤ b.start.byte := fun b hb => (h.inside hb).1
    rw [nodes, reach_eq] at hself ⊢
    rw [List.filter_true] at hself ⊢
    rw [List.pairwise_cons]
    refine ⟨fun b hb => hself b (List.mem_cons_of_mem _ hb), ?_⟩
    rw [List.pairwise_flatMap]
    -- Of two children, all nodes of the first end before the second begins.
    refine ⟨fun c hc => ih c hc (h.child hc), ?_⟩
    refine h.self.apart.imp_of_mem fun {c d} hc hd hapart a ha b hb => ?_
    have hac := (h.child hc).inside ha
    have hbd := (h.child hd).inside hb
    have hle := (((h.child hc).of_mem ha).self).le
    omega

end IsTreeOf

end Node

end ShellDecl.Shell
