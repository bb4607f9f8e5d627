import Mathlib.Data.List.Basic
import ShellDecl.Script

/-!
# What a walk visits

A walk reads the nodes in document order, leaves out those that stand below a node it skipped, and ends at the first one
that stops it. So a visitor that lets every node pass sees each of them once.
-/

set_option autoImplicit false

namespace ShellDecl.Script

variable {α : Type}

/-- To prove something of all nodes, prove it of a node whose children have it. -/
theorem induction_children {motive : Script → Prop} (step : ∀ t : Script, (∀ c ∈ t.children, motive c) → motive t) :
    (t : Script) → motive t
  | .function _ _ body => step _ fun c _ => induction_children step c
  | .variableName _ => step _ fun c hc => absurd hc List.not_mem_nil
  | .other _ _ children => step _ fun c _ => induction_children step c
termination_by t => t
decreasing_by
  all_goals
    have := List.sizeOf_lt_of_mem ‹c ∈ _›
    simp [Script.children] at this ⊢
    omega

/-! ## The hooks -/

theorem visit_function (v : Visitor α) (e : Extent) (name : String) (body : List Script) :
    v.visit (.function e name body) = v.onFunction (.function e name body) name := rfl

theorem visit_variableName (v : Visitor α) (e : Extent) : v.visit (.variableName e) = v.onVariable (.variableName e) :=
  rfl

theorem visit_other (v : Visitor α) (e : Extent) (label : Option String) (children : List Script) :
    v.visit (.other e label children) = v.onOther (.other e label children) := rfl

/-! ## The nodes in document order -/

theorem preorderAll_eq (ts : List Script) : preorderAll ts = ts.flatMap preorder := by
  induction ts with
  | nil => rfl
  | cons t ts ih => rw [preorderAll, ih, List.flatMap_cons]

theorem preorder_eq (t : Script) : t.preorder = t :: t.children.flatMap preorder := by
  cases t with
  | function e name body => rw [preorder, preorderAll_eq]; rfl
  | variableName e => rfl
  | other e label children => rw [preorder, preorderAll_eq]; rfl

theorem mem_preorder {t u : Script} : u ∈ t.preorder ↔ u = t ∨ ∃ c ∈ t.children, u ∈ c.preorder := by
  rw [preorder_eq]
  simp

theorem length_preorderAll {ts : List Script} (h : ∀ t ∈ ts, (preorder t).length = size t) :
    (preorderAll ts).length = sizeAll ts := by
  induction ts with
  | nil => rfl
  | cons t ts ih =>
    obtain ⟨hhead, htail⟩ := List.forall_mem_cons.mp h
    rw [preorderAll, sizeAll, List.length_append, hhead, ih htail]

theorem length_preorder (t : Script) : t.preorder.length = t.size := by
  induction t using induction_children with
  | step t ih =>
    cases t with
    | function e name body =>
      have hbody : (preorderAll body).length = sizeAll body := length_preorderAll ih
      rw [preorder, size, List.length_cons, hbody, Nat.add_comm]
    | variableName e => rfl
    | other e label children =>
      have hchildren : (preorderAll children).length = sizeAll children := length_preorderAll ih
      rw [preorder, size, List.length_cons, hchildren, Nat.add_comm]

mutual

/-- The nodes in document order, each with the nodes that it stands below. -/
def lineage (above : List Script) : Script → List (List Script × Script)
  | .function e name body => (above, .function e name body) :: lineageAll (.function e name body :: above) body
  | .variableName e => [(above, .variableName e)]
  | .other e label children => (above, .other e label children) :: lineageAll (.other e label children :: above) children

def lineageAll (above : List Script) : List Script → List (List Script × Script)
  | [] => []
  | t :: ts => lineage above t ++ lineageAll above ts

end

theorem lineageAll_eq (above ts : List Script) : lineageAll above ts = ts.flatMap (lineage above) := by
  induction ts with
  | nil => rfl
  | cons t ts ih => rw [lineageAll, ih, List.flatMap_cons]

theorem lineage_eq (above : List Script) (t : Script) :
    t.lineage above = (above, t) :: t.children.flatMap (lineage (t :: above)) := by
  cases t with
  | function e name body => rw [lineage, lineageAll_eq]; rfl
  | variableName e => rfl
  | other e label children => rw [lineage, lineageAll_eq]; rfl

theorem map_lineage (above : List Script) (t : Script) : (t.lineage above).map Prod.snd = t.preorder := by
  induction t using induction_children generalizing above with
  | step t ih =>
    rw [lineage_eq, preorder_eq, List.map_cons, List.map_flatMap]
    congr 1
    exact List.flatMap_congr fun c hc => ih c hc (t :: above)

/-! ## What a walk leaves out -/

namespace Visitor

def skips (v : Visitor α) (t : Script) : Bool :=
  match v.visit t with
  | .skip => true
  | _ => false

/-- The nodes of a lineage that stand below no node that is skipped. -/
def keep (v : Visitor α) (nodes : List (List Script × Script)) : List Script :=
  (nodes.filter fun node => !node.1.any v.skips).map Prod.snd

/-- The nodes in document order, without those that stand below a node that is skipped. -/
def reached (v : Visitor α) (t : Script) : List Script :=
  v.keep (t.lineage [])

theorem keep_flatMap (v : Visitor α) (f : Script → List (List Script × Script)) (ts : List Script) :
    v.keep (ts.flatMap f) = ts.flatMap fun t => v.keep (f t) := by
  simp [keep, List.filter_flatMap, List.map_flatMap]

theorem keep_lineage (v : Visitor α) (above : List Script) (t : Script) :
    v.keep (t.lineage above) =
      (if above.any v.skips then [] else [t]) ++ t.children.flatMap fun c => v.keep (c.lineage (t :: above)) := by
  rw [lineage_eq, ← v.keep_flatMap]
  by_cases h : above.any v.skips <;> simp [keep, h]

/-- Nothing is kept of what stands below a node that is skipped. -/
theorem keep_lineage_of_skips (v : Visitor α) {above : List Script} (h : above.any v.skips = true) (t : Script) :
    v.keep (t.lineage above) = [] := by
  induction t using induction_children generalizing above with
  | step t ih =>
    have hbelow : (t :: above).any v.skips = true := by simp [h]
    rw [keep_lineage, if_pos h, List.nil_append, List.flatMap_eq_nil_iff]
    exact fun c hc => ih c hc hbelow

theorem keep_lineage_of_not_skips (v : Visitor α) {above : List Script} {t : Script}
    (habove : above.any v.skips = false) (h : ∀ u ∈ t.preorder, v.skips u = false) :
    v.keep (t.lineage above) = t.preorder := by
  induction t using induction_children generalizing above with
  | step t ih =>
    have ht : v.skips t = false := h t (mem_preorder.mpr (Or.inl rfl))
    have hbelow : (t :: above).any v.skips = false := by simp [ht, habove]
    rw [keep_lineage, habove, preorder_eq]
    simp only [Bool.false_eq_true, if_false, List.singleton_append]
    congr 1
    apply List.flatMap_congr
    intro c hc
    apply ih c hc hbelow
    exact fun u hu => h u (mem_preorder.mpr (Or.inr ⟨c, hc, hu⟩))

theorem reached_sublist (v : Visitor α) (t : Script) : (v.reached t).Sublist t.preorder := by
  rw [← map_lineage [] t]
  exact List.filter_sublist.map Prod.snd

/-! ## Where a walk ends -/

def upToStop (v : Visitor α) : List Script → List Script × Option α
  | [] => ([], none)
  | t :: ts =>
    match v.visit t with
    | .stop result => ([t], some result)
    | _ => (t :: (v.upToStop ts).1, (v.upToStop ts).2)

theorem upToStop_append (v : Visitor α) (a b : List Script) :
    v.upToStop (a ++ b) =
      match v.upToStop a with
      | (seen, some result) => (seen, some result)
      | (seen, none) => (seen ++ (v.upToStop b).1, (v.upToStop b).2) := by
  induction a with
  | nil => rfl
  | cons t a ih =>
    rw [List.cons_append, upToStop, upToStop, ih]
    cases v.visit t with
    | stop result => rfl
    | skip => rcases v.upToStop a with ⟨seen, none | result⟩ <;> rfl
    | proceed => rcases v.upToStop a with ⟨seen, none | result⟩ <;> rfl

/-- Either no node stops the walk and all are seen, or the first one that does is the last one seen. -/
theorem upToStop_cases (v : Visitor α) (ts : List Script) :
    ((∀ t ∈ ts, ∀ result, v.visit t ≠ .stop result) ∧ v.upToStop ts = (ts, none)) ∨
      ∃ before t after result, ts = before ++ t :: after ∧ (∀ u ∈ before, ∀ r, v.visit u ≠ .stop r) ∧
        v.visit t = .stop result ∧ v.upToStop ts = (before ++ [t], some result) := by
  induction ts with
  | nil => exact Or.inl ⟨fun t ht => absurd ht List.not_mem_nil, rfl⟩
  | cons t ts ih =>
    by_cases hstop : ∃ result, v.visit t = .stop result
    · obtain ⟨result, hvisit⟩ := hstop
      refine Or.inr ⟨[], t, ts, result, rfl, fun u hu => absurd hu List.not_mem_nil, hvisit, ?_⟩
      simp [upToStop, hvisit]
    · rw [not_exists] at hstop
      have hcons : v.upToStop (t :: ts) = (t :: (v.upToStop ts).1, (v.upToStop ts).2) := by
        rw [upToStop]
        split
        · exact absurd ‹_› (hstop _)
        · rfl
      rcases ih with ⟨hnone, hall⟩ | ⟨before, u, after, result, rfl, hbefore, hvisit, hall⟩
      · left
        rw [hcons, hall]
        exact ⟨List.forall_mem_cons.mpr ⟨hstop, hnone⟩, rfl⟩
      · right
        rw [hcons, hall]
        exact ⟨t :: before, u, after, result, rfl, List.forall_mem_cons.mpr ⟨hstop, hbefore⟩, hvisit, rfl⟩

end Visitor

/-! ## A walk as a search -/

theorem explore_eq (v : Visitor α) (t : Script) :
    explore v t =
      match v.visit t with
      | .stop result => ([t], some result)
      | .skip => ([t], none)
      | .proceed => (t :: (exploreAll v t.children).1, (exploreAll v t.children).2) := by
  cases t with
  | function e name body => rw [explore]; rfl
  | variableName e =>
    rw [explore]
    cases v.visit (.variableName e) <;> rfl
  | other e label children => rw [explore]; rfl

theorem walk_eq (v : Visitor α) (t : Script) :
    walk v t =
      match v.visit t with
      | .stop result => some result
      | .skip => none
      | .proceed => walkAll v t.children := by
  cases t with
  | function e name body => rw [walk]; rfl
  | variableName e =>
    rw [walk]
    cases v.visit (.variableName e) <;> rfl
  | other e label children => rw [walk]; rfl

theorem walkAll_of_walk (v : Visitor α) {ts : List Script} (h : ∀ t ∈ ts, walk v t = (explore v t).2) :
    walkAll v ts = (exploreAll v ts).2 := by
  induction ts with
  | nil => rfl
  | cons t ts ih =>
    obtain ⟨hhead, htail⟩ := List.forall_mem_cons.mp h
    rw [walkAll, exploreAll, hhead]
    rcases explore v t with ⟨seen, none | result⟩
    · exact ih htail
    · rfl

theorem walk_eq_explore (v : Visitor α) (t : Script) : walk v t = (explore v t).2 := by
  induction t using induction_children with
  | step t ih =>
    rw [walk_eq, explore_eq]
    cases v.visit t with
    | proceed => exact walkAll_of_walk v ih
    | skip => rfl
    | stop result => rfl

theorem exploreAll_of_explore (v : Visitor α) {above ts : List Script}
    (h : ∀ t ∈ ts, explore v t = v.upToStop (v.keep (t.lineage above))) :
    exploreAll v ts = v.upToStop (ts.flatMap fun t => v.keep (t.lineage above)) := by
  induction ts with
  | nil => rfl
  | cons t ts ih =>
    obtain ⟨hhead, htail⟩ := List.forall_mem_cons.mp h
    have hmore := ih htail
    rw [exploreAll, List.flatMap_cons, v.upToStop_append, hhead]
    rcases v.upToStop (v.keep (t.lineage above)) with ⟨seen, none | result⟩
    · exact congrArg (fun more => (seen ++ more.1, more.2)) hmore
    · rfl

/-- Below nodes that are not skipped, a walk sees what is kept, up to the first node that stops it. -/
theorem explore_eq_upToStop (v : Visitor α) {above : List Script} (habove : above.any v.skips = false) (t : Script) :
    explore v t = v.upToStop (v.keep (t.lineage above)) := by
  -- What stands above a node only grows on the way down, and a walk that goes down has skipped none of it.
  induction t using induction_children generalizing above with
  | step t ih =>
    rw [explore_eq, v.keep_lineage, habove]
    simp only [Bool.false_eq_true, if_false, List.singleton_append, Visitor.upToStop]
    cases hvisit : v.visit t with
    | stop result => rfl
    | skip =>
      have hskips : (t :: above).any v.skips = true := by simp [Visitor.skips, hvisit]
      have hnone : (t.children.flatMap fun c => v.keep (c.lineage (t :: above))) = [] :=
        List.flatMap_eq_nil_iff.mpr fun c _ => v.keep_lineage_of_skips hskips c
      rw [hnone]
      rfl
    | proceed =>
      have hpasses : (t :: above).any v.skips = false := by simp [Visitor.skips, hvisit, habove]
      rw [exploreAll_of_explore v fun c hc => ih c hc hpasses]

theorem explore_eq_reached (v : Visitor α) (t : Script) : explore v t = v.upToStop (v.reached t) :=
  explore_eq_upToStop v rfl t

/-- A walk visits the nodes in document order, but none that stands below a node it skipped, and none after the first one
that stops it and whose result it gives. A hook that is left out lets the walk proceed, and if all nodes do, as many are
visited as there are. -/
theorem walk_visits (v : Visitor α) (t : Script) :
    (v.reached t).Sublist t.preorder ∧
    (((∀ u ∈ v.reached t, ∀ r, v.visit u ≠ .stop r) ∧ explore v t = (v.reached t, none) ∧ walk v t = none) ∨
      ∃ before u after result, v.reached t = before ++ u :: after ∧ (∀ w ∈ before, ∀ r, v.visit w ≠ .stop r) ∧
        v.visit u = .stop result ∧ explore v t = (before ++ [u], some result) ∧ walk v t = some result) ∧
    (∀ u, ({} : Visitor α).visit u = .proceed) ∧
    ((∀ u ∈ t.preorder, v.visit u = .proceed) →
      explore v t = (t.preorder, none) ∧ (explore v t).1.length = t.size) := by
  have hexplore := explore_eq_reached v t
  have hwalk := walk_eq_explore v t
  have hcases := v.upToStop_cases (v.reached t)
  rw [← hexplore] at hcases
  refine ⟨v.reached_sublist t, ?_, fun u => by cases u <;> rfl, fun hpass => ?_⟩
  · rcases hcases with ⟨hnone, hall⟩ | ⟨before, u, after, result, hsplit, hbefore, hvisit, hall⟩
    · rw [hall] at hwalk
      exact Or.inl ⟨hnone, hall, hwalk⟩
    · rw [hall] at hwalk
      exact Or.inr ⟨before, u, after, result, hsplit, hbefore, hvisit, hall, hwalk⟩
  · have hreached : v.reached t = t.preorder := by
      apply v.keep_lineage_of_not_skips rfl
      intro u hu
      rw [Visitor.skips, hpass u hu]
    rw [hreached] at hcases
    rcases hcases with ⟨-, hall⟩ | ⟨before, u, after, result, hsplit, -, hvisit, -⟩
    · rw [hall]
      exact ⟨rfl, length_preorder t⟩
    · -- No node of the tree stops this walk.
      have hu : u ∈ t.preorder := by simp [hsplit]
      rw [hpass u hu] at hvisit
      contradiction

def sample : Script :=
  let leaf (text : String) : Script := .variableName (.ofText ⟨1, 1⟩ text)
  .other (.ofText ⟨1, 1⟩ "root") none [
    .function (.ofText ⟨1, 1⟩ "f") "f" [leaf "a", leaf "b"],
    .other (.ofText ⟨1, 1⟩ "g") none [leaf "c"],
    leaf "d"]

def stopsAt (text : String) : Visitor String where
  onVariable t := if t.extent.text = text then .stop text else .proceed

/-- A walk that skips the function and stops in the group. -/
example :
    let v : Visitor String := { stopsAt "c" with onFunction := fun _ _ => .skip }
    ((explore v sample).1.map (·.extent.text), walk v sample) = (["root", "f", "g", "c"], some "c") := by
  decide

theorem walk_visits_sample :
    (∀ u ∈ sample.preorder, (stopsAt "e").visit u = .proceed) ∧
    explore (stopsAt "e") sample = (sample.preorder, none) ∧
    (explore (stopsAt "e") sample).1.length = sample.size := by
  have hpass : ∀ u ∈ sample.preorder, (stopsAt "e").visit u = .proceed := by
    simp [sample, preorder, preorderAll, Visitor.visit, stopsAt, extent, Extent.ofText]
  exact ⟨hpass, (walk_visits (stopsAt "e") sample).2.2.2 hpass⟩

end ShellDecl.Script
