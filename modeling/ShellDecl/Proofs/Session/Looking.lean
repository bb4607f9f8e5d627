import ShellDecl.Disk
import ShellDecl.Lookup
import ShellDecl.Config.Store
import ShellDecl.Session

/-!
# Looking at a disk

An action that only looks at a disk leaves it as it is, and so does any chain of such actions. Reading scripts and
configurations is of this kind.
-/

set_option autoImplicit false

namespace ShellDecl

open Shell

/-- The action leaves every disk as it is. -/
def Looks {α : Type} (x : OnDisk α) : Prop :=
  ∀ disk : Disk, (x.run disk).2 = disk

namespace Looks

variable {α β ε ε' : Type}

theorem run_eq {x : OnDisk α} (h : Looks x) (disk : Disk) : x.run disk = ((x.run disk).1, disk) :=
  Prod.ext rfl (h disk)

theorem pure (a : α) : Looks (Pure.pure a) := fun _ => rfl

theorem bind {x : OnDisk α} {f : α → OnDisk β} (hx : Looks x) (hf : ∀ a, Looks (f a)) : Looks (x >>= f) := by
  intro disk
  have hrun : (x >>= f).run disk = (f (x.run disk).1).run (x.run disk).2 := rfl
  rw [hrun, hf, hx]

theorem bindExcept {x : ExceptT ε OnDisk α} {f : α → ExceptT ε OnDisk β} (hx : Looks x.run)
    (hf : ∀ a, Looks (f a).run) : Looks (x >>= f).run := by
  rw [ExceptT.run_bind]
  apply Looks.bind hx
  intro r
  cases r with
  | ok a => exact hf a
  | error e => exact Looks.pure _

theorem adapt {x : ExceptT ε OnDisk α} (hx : Looks x.run) (f : ε → ε') : Looks (x.adapt f).run :=
  Looks.bind hx fun _ => Looks.pure _

theorem lift {x : OnDisk α} (hx : Looks x) : Looks (ExceptT.lift x : ExceptT ε OnDisk α).run :=
  Looks.bind hx fun _ => Looks.pure _

theorem asking (f : Disk → Except FileError α) : Looks (Surroundings.asking f).run := fun _ => rfl

end Looks

theorem eq_ok_of_toOption {ε α : Type} {r : Except ε α} {a : α} (h : r.toOption = some a) : r = .ok a := by
  cases r with
  | error e => cases h
  | ok b => exact congrArg _ (Option.some.inj h)

theorem bind_run_of_ok {α β ε : Type} {x : ExceptT ε OnDisk α} {a : α} {disk disk' : Disk}
    (hx : x.run.run disk = (.ok a, disk')) (f : α → ExceptT ε OnDisk β) :
    (x >>= f).run.run disk = (f a).run.run disk' := by
  rw [ExceptT.run_bind, StateT.run_bind, hx]
  rfl

theorem bind_run_of_error {α β ε : Type} {x : ExceptT ε OnDisk α} {e : ε} {disk disk' : Disk}
    (hx : x.run.run disk = (.error e, disk')) (f : α → ExceptT ε OnDisk β) :
    (x >>= f).run.run disk = (.error e, disk') := by
  rw [ExceptT.run_bind, StateT.run_bind, hx]
  rfl

theorem bindExcept_run {α β ε : Type} (x : ExceptT ε OnDisk α) (f : α → ExceptT ε OnDisk β) (disk : Disk) :
    (x >>= f).run.run disk =
      match x.run.run disk with
      | (.ok a, disk') => (f a).run.run disk'
      | (.error e, disk') => (.error e, disk') := by
  rw [ExceptT.run_bind, StateT.run_bind]
  obtain ⟨r, disk'⟩ := x.run.run disk
  cases r <;> rfl

theorem adapt_run {α ε ε' : Type} (x : ExceptT ε OnDisk α) (f : ε → ε') (disk : Disk) :
    (x.adapt f).run.run disk = ((x.run.run disk).1.mapError f, (x.run.run disk).2) := rfl

theorem mapError_eq_ok {α ε ε' : Type} {r : Except ε α} {f : ε → ε'} {a : α} : r.mapError f = .ok a ↔ r = .ok a := by
  cases r with
  | ok b => exact ⟨fun h => congrArg _ (Except.ok.inj h), fun h => congrArg _ (Except.ok.inj h)⟩
  | error e => exact iff_of_false nofun nofun

/-- Behind an action that looks, a chain goes on with the same disk. -/
theorem Looks.bindExcept_run {α β ε : Type} {x : ExceptT ε OnDisk α} (hx : Looks x.run) (f : α → ExceptT ε OnDisk β)
    (disk : Disk) :
    (x >>= f).run.run disk =
      match (x.run.run disk).1 with
      | .ok a => (f a).run.run disk
      | .error e => (.error e, disk) := by
  rw [ExceptT.run_bind, StateT.run_bind, hx.run_eq disk]
  cases (x.run.run disk).1 <;> rfl

namespace Surroundings

variable (w : Surroundings)

theorem looks_readDocument (limit : Nat) (path : String) : Looks (readDocument w.host limit path).run := by
  refine Looks.bindExcept ?_ fun _ => Looks.pure _
  refine Looks.bindExcept (Looks.adapt (Looks.asking _) _) fun size => ?_
  split
  · exact Looks.bindExcept (Looks.pure _) fun _ => Looks.adapt (Looks.asking _) _
  · exact Looks.adapt (Looks.asking _) _

theorem looks_readLayer {α : Type} (decode : Toml.Decoder α) (path : String) :
    Looks (Config.readLayer w.host decode path).run := by
  have hthere : Looks (w.host.isThere path) := fun _ => rfl
  refine Looks.bindExcept (Looks.lift hthere) fun there => ?_
  split
  · refine Looks.bindExcept (Looks.adapt (Looks.asking _) _) fun text => ?_
    split <;> exact Looks.pure _
  · exact Looks.pure _

theorem looks_load (places : ConfigPlaces) (level : ConfigLevel) : Looks (Config.load w.host places level).run := by
  have hshared : Looks (Config.loadShared w.host places).run :=
    Looks.bindExcept (w.looks_readLayer _ _) fun _ => Looks.pure _
  have hvariable : ∀ name, Looks (w.host.environment name) := fun _ _ => rfl
  cases level with
  | shared => exact hshared
  | project =>
    refine Looks.bindExcept hshared fun base => ?_
    refine Looks.bindExcept (w.looks_readLayer _ _) fun layer => ?_
    refine Looks.bindExcept (Looks.lift (hvariable _)) fun format => ?_
    exact Looks.bindExcept (Looks.lift (hvariable _)) fun size => Looks.pure _

theorem looks_start : Looks (Session.start w.host) := by
  have hvariable : ∀ name, Looks (w.host.environment name) := fun _ _ => rfl
  have hdirectory : Looks w.host.currentDirectory := fun _ => rfl
  refine Looks.bind hdirectory fun root => Looks.bind (hvariable _) fun configHome => ?_
  refine Looks.bind (hvariable _) fun home => Looks.bind (w.looks_load _ _) fun loaded => ?_
  cases loaded <;> exact Looks.pure _

end Surroundings

end ShellDecl
