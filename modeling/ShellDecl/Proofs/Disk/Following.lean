import ShellDecl.Disk
import ShellDecl.Proofs.Path.Components

/-!
# Following paths on a disk

Components lead to an address, whether or not anything is there. Following them on a disk leads to this address or
fails, and whatever makes no directory less lets everything be followed that could be followed before. So a file that
was written is found again.
-/

set_option autoImplicit false

namespace ShellDecl

open ShellDecl.Path

namespace Address

def move (here : Address) : Component → Address
  | .root => []
  | .here => here
  | .parent => here.dropLast
  | .name s => here ++ [String.ofList s]

def along (here : Address) (cs : List Component) : Address :=
  cs.foldl move here

@[simp] theorem along_nil (here : Address) : along here [] = here := rfl

@[simp] theorem along_cons (here : Address) (c : Component) (cs : List Component) :
    along here (c :: cs) = along (move here c) cs := rfl

theorem along_concat (here : Address) (cs : List Component) (c : Component) :
    along here (cs ++ [c]) = move (along here cs) c := by
  simp [along]

end Address

open Address

namespace Disk

theorem step_eq {here there : Address} {c : Component} (h : step here c = .ok there) : there = move here c := by
  cases c with
  | name s =>
    simp only [step] at h
    split at h
    · cases h
    · exact (Except.ok.inj h).symm
  | root => exact (Except.ok.inj h).symm
  | here => exact (Except.ok.inj h).symm
  | parent => exact (Except.ok.inj h).symm

theorem size_of_step {here there : Address} {s : List Char} (h : step here (.name s) = .ok there) :
    (String.ofList s).utf8ByteSize ≤ nameLimit := by
  simp only [step] at h
  split at h
  · cases h
  · rename_i hsize
    exact Nat.not_lt.mp hsize

theorem step_eq_ok (here : Address) {c : Component}
    (h : ∀ s, c = .name s → (String.ofList s).utf8ByteSize ≤ nameLimit) : step here c = .ok (move here c) := by
  cases c with
  | name s => simp only [step, if_neg (Nat.not_lt.mpr (h s rfl))]; rfl
  | root => rfl
  | here => rfl
  | parent => rfl

variable {d d' : Disk} {here a : Address} {cs : List Component} {path : String} {e : Entry}

theorem follow_cons_eq_ok {c : Component} :
    d.follow here (c :: cs) = .ok a ↔
      d.entry here = some .directory ∧ ∃ there, step here c = .ok there ∧ d.follow there cs = .ok a := by
  rw [follow]
  cases hentry : d.entry here with
  | none => simp
  | some e =>
    cases e with
    | directory => cases hstep : step here c <;> simp
    | text content => simp
    | bytes size => simp

theorem follow_eq (h : d.follow here cs = .ok a) : a = along here cs := by
  induction cs generalizing here with
  | nil => exact (Except.ok.inj h).symm
  | cons c cs ih =>
    obtain ⟨-, there, hstep, hrest⟩ := follow_cons_eq_ok.mp h
    rw [along_cons, ← step_eq hstep]
    exact ih hrest

theorem follow_concat {c : Component} (h : d.follow here (cs ++ [c]) = .ok a) :
    d.entry (along here cs) = some .directory ∧ step (along here cs) c = .ok a := by
  induction cs generalizing here with
  | nil =>
    obtain ⟨hhere, there, hstep, hrest⟩ := follow_cons_eq_ok.mp h
    exact ⟨hhere, hstep.trans hrest⟩
  | cons c' cs ih =>
    obtain ⟨-, there, hstep, hrest⟩ := follow_cons_eq_ok.mp h
    rw [along_cons, ← step_eq hstep]
    exact ih hrest

/-- What is followed passes through directories only. -/
theorem follow_mono (hdir : ∀ b, d.entry b = some .directory → d'.entry b = some .directory)
    (h : d.follow here cs = .ok a) : d'.follow here cs = .ok a := by
  induction cs generalizing here with
  | nil => exact h
  | cons c cs ih =>
    obtain ⟨hhere, there, hstep, hrest⟩ := follow_cons_eq_ok.mp h
    exact follow_cons_eq_ok.mpr ⟨hdir here hhere, there, hstep, ih hrest⟩

theorem locate_eq_ok :
    d.locate here path = .ok a ↔
      path ≠ "" ∧ '\x00' ∉ path.toList ∧ d.follow here (components path) = .ok a := by
  unfold locate
  split
  · simp_all
  · split <;> simp_all

theorem locate_mono (hdir : ∀ b, d.entry b = some .directory → d'.entry b = some .directory)
    (h : d.locate here path = .ok a) : d'.locate here path = .ok a := by
  rw [locate_eq_ok] at h ⊢
  exact ⟨h.1, h.2.1, follow_mono hdir h.2.2⟩

theorem find_eq_ok :
    d.find here path = .ok (a, e) ↔
      d.locate here path = .ok a ∧ d.entry a = some e ∧ (e = .directory ∨ namesDirectory path = false) := by
  constructor
  · intro h
    unfold find at h
    split at h
    · cases h
    · rename_i b hlocate
      split at h
      · cases h
      · rename_i hentry
        obtain ⟨rfl, rfl⟩ := Prod.mk.inj (Except.ok.inj h)
        exact ⟨hlocate, hentry, .inl rfl⟩
      · rename_i e' hdir hentry
        split at h
        · cases h
        · rename_i hname
          obtain ⟨rfl, rfl⟩ := Prod.mk.inj (Except.ok.inj h)
          exact ⟨hlocate, hentry, .inr (by simpa using hname)⟩
  · rintro ⟨hlocate, hentry, hkind⟩
    simp only [find, hlocate, hentry]
    split
    · rename_i hnone
      cases hnone
    · rename_i hdir
      rw [Option.some.inj hdir]
    · rename_i e' hdir hsome
      obtain rfl := Option.some.inj hsome
      obtain rfl | hname := hkind
      · exact absurd rfl hdir
      · rw [hname, if_neg Bool.false_ne_true]

/-! ## Writing -/

@[simp] theorem entry_set_self (a : Address) (e : Entry) : (d.set a e).entry a = some e := by
  simp [set]

theorem entry_set_of_ne {b : Address} (h : b ≠ a) (e : Entry) : (d.set a e).entry b = d.entry b := by
  simp [set, h]

theorem set_mono (ha : d.entry a ≠ some .directory) (e : Entry) {b : Address} (h : d.entry b = some .directory) :
    (d.set a e).entry b = some .directory := by
  have hne : b ≠ a := by
    rintro rfl
    exact ha h
  rw [entry_set_of_ne hne, h]

/-- Writing changes one entry that is no directory, or nothing. -/
theorem write_cases (d : Disk) (here : Address) (path : String) (file : Entry) :
    (∃ f, d.write here path file = (.error f, d)) ∨
      ∃ a, d.locate here path = .ok a ∧ d.entry a ≠ some .directory ∧ namesDirectory path = false ∧
        d.write here path file = (.ok (), d.set a file) := by
  cases hlocate : d.locate here path with
  | error f => exact .inl ⟨f, by simp only [write, hlocate]⟩
  | ok a =>
    by_cases hdir : d.entry a = some .directory
    · exact .inl ⟨.isDirectory, by simp only [write, hlocate, hdir]⟩
    · cases hname : namesDirectory path with
      | true =>
        refine .inl ?_
        simp only [write, hlocate, hname, if_true]
        split
        · exact ⟨_, rfl⟩
        · exact ⟨_, rfl⟩
        · exact ⟨_, rfl⟩
      | false =>
        refine .inr ⟨a, rfl, hdir, rfl, ?_⟩
        simp only [write, hlocate, hname, Bool.false_eq_true, if_false]
        split
        · rename_i hentry
          exact absurd hentry hdir
        · rfl
        · rfl

theorem find_write {file : Entry} (h : d.write here path file = (.ok (), d')) :
    ∃ a, d'.find here path = .ok (a, file) := by
  obtain ⟨f, hf⟩ | ⟨a, hlocate, hentry, hname, hok⟩ := d.write_cases here path file
  · rw [hf] at h
    cases h
  · rw [hok] at h
    obtain rfl : d.set a file = d' := (Prod.mk.inj h).2
    exact ⟨a, find_eq_ok.mpr ⟨locate_mono (fun b => set_mono hentry file) hlocate, entry_set_self a file, .inr hname⟩⟩

end Disk

end ShellDecl
