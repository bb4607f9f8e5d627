import Mathlib.Data.List.Induction
import ShellDecl.Proofs.Disk.Following

/-!
# Disks as trees

On a disk every entry is in a directory. Where each step back of a path leaves a directory, the path is found exactly
if something is at the address that its components lead to. Then making directories adds nothing but directories on
the way to this address.
-/

set_option autoImplicit false

namespace ShellDecl

open ShellDecl.Path Address

namespace Disk

/-- Every entry is in a directory, under a name that a path can have. -/
structure IsTree (d : Disk) : Prop where
  parent : ∀ a name, d.entry (a ++ [name]) ≠ none → d.entry a = some .directory
  named : ∀ a name, d.entry (a ++ [name]) ≠ none → name.utf8ByteSize ≤ nameLimit ∧ '\x00' ∉ name.toList

/-- Whatever is left by a component that is no name is a directory. -/
def Straight (d : Disk) (here : Address) : List Component → Prop
  | [] => True
  | c :: cs => ((∀ s, c ≠ .name s) → d.entry here = some .directory) ∧ Straight d (move here c) cs

variable {d d' : Disk} {here a b : Address} {cs : List Component} {path : String} {e : Entry}

theorem IsTree.directory_of_prefix (h : d.IsTree) (ha : d.entry a ≠ none) (hb : b <+: a) (hne : b ≠ a) :
    d.entry b = some .directory := by
  obtain ⟨rest, rfl⟩ := hb
  induction rest using List.reverseRecOn with
  | nil => simp at hne
  | append_singleton rest name ih =>
    rw [← List.append_assoc] at ha
    have hparent := h.parent _ _ ha
    cases rest with
    | nil => simpa using hparent
    | cons m rest => exact ih (by simp [hparent]) (by simp)

/-- A component that is no name leads from a directory to a directory. -/
theorem IsTree.directory_of_move (h : d.IsTree) (hhere : d.entry here = some .directory) {c : Component}
    (hc : ∀ s, c ≠ .name s) : d.entry (move here c) = some .directory := by
  have habove : ∀ b, b <+: here → d.entry b = some .directory := by
    intro b hb
    by_cases hne : b = here
    · rw [hne, hhere]
    · exact h.directory_of_prefix (by simp [hhere]) hb hne
  cases c with
  | root => exact habove [] List.nil_prefix
  | here => exact hhere
  | parent => exact habove _ (List.dropLast_prefix here)
  | name s => exact absurd rfl (hc s)

theorem Straight.mono (hdir : ∀ b, d.entry b = some .directory → d'.entry b = some .directory)
    (h : d.Straight here cs) : d'.Straight here cs := by
  induction cs generalizing here with
  | nil => trivial
  | cons c cs ih => exact ⟨fun hc => hdir here (h.1 hc), ih h.2⟩

theorem straight_concat (s : List Char) : d.Straight here (cs ++ [.name s]) ↔ d.Straight here cs := by
  induction cs generalizing here with
  | nil => simp [Straight]
  | cons c cs ih => simp only [List.cons_append, Straight, ih]

/-! ## What is found -/

theorem IsTree.follow_of_entry (h : d.IsTree) (hcs : d.Straight here cs) (ha : d.entry (along here cs) ≠ none) :
    d.follow here cs = .ok (along here cs) ∧ d.entry here ≠ none ∧ ∀ s, .name s ∈ cs → '\x00' ∉ s := by
  induction cs generalizing here with
  | nil => exact ⟨rfl, ha, by simp⟩
  | cons c cs ih =>
    obtain ⟨hfollow, hnext, hzero⟩ := ih hcs.2 ha
    by_cases hname : ∃ s, c = .name s
    · obtain ⟨s, rfl⟩ := hname
      have hhere := h.parent _ _ hnext
      obtain ⟨hsize, hs⟩ := h.named _ _ hnext
      have hstep := step_eq_ok here (c := .name s) fun t ht => Component.name.inj ht ▸ hsize
      refine ⟨follow_cons_eq_ok.mpr ⟨hhere, _, hstep, hfollow⟩, by simp [hhere], ?_⟩
      intro t ht
      obtain heq | ht := List.mem_cons.mp ht
      · obtain rfl := Component.name.inj heq
        simpa using hs
      · exact hzero t ht
    · have hc : ∀ s, c ≠ .name s := fun s hs => hname ⟨s, hs⟩
      have hhere := hcs.1 hc
      have hstep := step_eq_ok here fun s hs => absurd hs (hc s)
      refine ⟨follow_cons_eq_ok.mpr ⟨hhere, _, hstep, hfollow⟩, by simp [hhere], ?_⟩
      intro t ht
      obtain heq | ht := List.mem_cons.mp ht
      · exact absurd heq.symm (hc t)
      · exact hzero t ht

/-- A path to a file or a directory finds what is at its address. -/
theorem IsTree.find_eq (h : d.IsTree) (hcs : d.Straight here (components path)) (hempty : path ≠ "")
    (hname : namesDirectory path = false) :
    (d.find here path).toOption = (d.entry (along here (components path))).map (along here (components path), ·) := by
  cases hentry : d.entry (along here (components path)) with
  | some e =>
    obtain ⟨hfollow, -, hzero⟩ := h.follow_of_entry hcs (by simp [hentry])
    have hnozero : '\x00' ∉ path.toList := by
      intro hmem
      obtain ⟨s, hs, hmem⟩ := exists_name_of_zero hmem
      exact hzero s hs hmem
    have hfind := find_eq_ok.mpr ⟨locate_eq_ok.mpr ⟨hempty, hnozero, hfollow⟩, hentry, .inr hname⟩
    rw [hfind]
    rfl
  | none =>
    cases hfind : d.find here path with
    | error f => rfl
    | ok found =>
      obtain ⟨a, e⟩ := found
      obtain ⟨hlocate, ha, -⟩ := find_eq_ok.mp hfind
      rw [follow_eq (locate_eq_ok.mp hlocate).2.2, hentry] at ha
      cases ha

/-! ## What is made -/

theorem IsTree.set (h : d.IsTree) {name : String} (ha : d.entry a = some .directory)
    (hname : name.utf8ByteSize ≤ nameLimit ∧ '\x00' ∉ name.toList)
    (hkind : d.entry (a ++ [name]) = some .directory → e = .directory) : (d.set (a ++ [name]) e).IsTree := by
  have hentry : ∀ b m, (d.set (a ++ [name]) e).entry (b ++ [m]) ≠ none →
      (b = a ∧ m = name) ∨ d.entry (b ++ [m]) ≠ none := by
    intro b m hb
    by_cases heq : b ++ [m] = a ++ [name]
    · exact .inl (by simpa using List.append_inj' heq rfl)
    · rw [entry_set_of_ne heq] at hb
      exact .inr hb
  constructor
  · intro b m hb
    have hdir : d.entry b = some .directory := by
      obtain ⟨rfl, -⟩ | hb := hentry b m hb
      · exact ha
      · exact h.parent b m hb
    by_cases heq : b = a ++ [name]
    · subst heq
      rw [entry_set_self, hkind hdir]
    · rw [entry_set_of_ne heq, hdir]
  · intro b m hb
    obtain ⟨-, rfl⟩ | hb := hentry b m hb
    · exact hname
    · exact h.named b m hb

/-- From a place that is no directory components lead only further down. -/
theorem IsTree.prefix_along (h : d.IsTree) (hcs : d.Straight here cs) (hhere : d.entry here ≠ some .directory) :
    here <+: along here cs := by
  induction cs generalizing here with
  | nil => exact List.prefix_refl _
  | cons c cs ih =>
    by_cases hname : ∃ s, c = .name s
    · obtain ⟨s, rfl⟩ := hname
      have hnext : d.entry (move here (.name s)) ≠ some .directory := by
        intro hdir
        have hsome : d.entry (here ++ [String.ofList s]) ≠ none := by
          rw [show here ++ [String.ofList s] = move here (.name s) from rfl, hdir]
          exact Option.some_ne_none _
        exact hhere (h.parent _ _ hsome)
      exact (List.prefix_append here [String.ofList s]).trans (ih hcs.2 hnext)
    · exact absurd (hcs.1 fun s hs => hname ⟨s, hs⟩) hhere

/-- The second disk has all that the first has, and otherwise only directories on the way to an address. -/
def AddsWay (d d' : Disk) (a : Address) : Prop :=
  ∀ b, d'.entry b = d.entry b ∨ (d.entry b = none ∧ d'.entry b = some .directory ∧ b <+: a)

theorem AddsWay.refl (d : Disk) (a : Address) : AddsWay d d a :=
  fun _ => .inl rfl

theorem AddsWay.mono (h : AddsWay d d' a) (hb : d.entry b = some .directory) : d'.entry b = some .directory := by
  obtain heq | ⟨hnone, hdir, -⟩ := h b
  · rw [heq, hb]
  · exact hdir

theorem AddsWay.entry_eq (h : AddsWay d d' a) (hb : ¬b <+: a) : d'.entry b = d.entry b := by
  obtain heq | ⟨-, -, hprefix⟩ := h b
  · exact heq
  · exact absurd hprefix hb

theorem IsTree.makeAlong (h : d.IsTree) (hhere : d.entry here = some .directory) (hcs : d.Straight here cs)
    (hzero : ∀ s, .name s ∈ cs → '\x00' ∉ s) :
    (d.makeAlong here cs).2.IsTree ∧ AddsWay d (d.makeAlong here cs).2 (along here cs) := by
  induction cs generalizing d here with
  | nil => exact ⟨h, AddsWay.refl d _⟩
  | cons c cs ih =>
    have hzero' : ∀ s, .name s ∈ cs → '\x00' ∉ s := fun s hs => hzero s (List.mem_cons_of_mem _ hs)
    cases hstep : step here c with
    | error f =>
      simp only [Disk.makeAlong, hstep]
      exact ⟨h, AddsWay.refl d _⟩
    | ok there =>
      obtain rfl := step_eq hstep
      cases hentry : d.entry (move here c) with
      | none =>
        -- Only a name leads to where nothing is.
        obtain ⟨s, rfl⟩ : ∃ s, c = .name s := by
          by_contra hname
          rw [h.directory_of_move hhere fun s hs => hname ⟨s, hs⟩] at hentry
          cases hentry
        have hnot : d.entry (move here (.name s)) ≠ some .directory := by simp [hentry]
        have hnext : (d.set (move here (.name s)) .directory).IsTree :=
          h.set hhere ⟨size_of_step hstep, by simpa using hzero s List.mem_cons_self⟩ fun _ => rfl
        obtain ⟨htree, hadds⟩ := ih hnext (entry_set_self _ _) (hcs.2.mono fun b => set_mono hnot _) hzero'
        simp only [Disk.makeAlong, hstep, hentry]
        refine ⟨htree, fun b => ?_⟩
        by_cases hb : b = move here (.name s)
        · subst hb
          exact .inr ⟨hentry, hadds.mono (entry_set_self _ _), h.prefix_along hcs.2 hnot⟩
        · have hadd := hadds b
          rwa [entry_set_of_ne hb] at hadd
      | some e =>
        cases e with
        | directory =>
          simp only [Disk.makeAlong, hstep, hentry]
          exact ih h hentry hcs.2 hzero'
        | text content =>
          simp only [Disk.makeAlong, hstep, hentry]
          exact ⟨h, AddsWay.refl d _⟩
        | bytes size =>
          simp only [Disk.makeAlong, hstep, hentry]
          exact ⟨h, AddsWay.refl d _⟩

end Disk

end ShellDecl
