import ShellDecl.Proofs.Config.Layers
import ShellDecl.Proofs.Disk.Following

/-!
# Making a configuration file

What is seen at the path of the file decides whether the file may be made. If it may, its directories are made first,
and then the defaults are written.
-/

set_option autoImplicit false

namespace ShellDecl

namespace Surroundings

variable (w : Surroundings) (places : ConfigPlaces)

def create (level : ConfigLevel) (force : Bool) (d : Disk) : Except ConfigError String × Disk :=
  (Config.create w.host places level force).run.run d

variable {w places} {level : ConfigLevel} {force : Bool} {d : Disk}

theorem seen_eq_none :
    places.seen w.here level d = none ↔ (d.find w.here (places.path level)).toBool = false := by
  rw [ConfigPlaces.seen]
  cases d.find w.here (places.path level) <;> simp [Except.toBool, Except.toOption]

theorem create_refused (hseen : places.seen w.here level d ≠ none) (hforce : force = false) :
    w.create places level force d = (.error (.alreadyThere (places.path level)), d) := by
  have hthere : ((d.find w.here (places.path level)).toBool && !force) = true := by
    simpa [hforce] using seen_eq_none.not.mp hseen
  unfold create Config.create
  rw [bindExcept_run]
  exact (congrArg (fun x => StateT.run (ExceptT.run x) d) (if_pos hthere)).trans rfl

/-- Where making a file is not refused, its directories are made first, and then the file is written. -/
theorem create_eq (h : places.seen w.here level d = none ∨ force = true) :
    w.create places level force d =
      match d.makeDirectories w.here (places.directory level) with
      | (.error e, made) => (.error (.file e), made)
      | (.ok (), made) =>
        match made.write w.here (places.path level) (.text (Toml.written {})) with
        | (.error e, d') => (.error (.file e), d')
        | (.ok (), d') => (.ok (places.path level), d') := by
  have hthere : ¬((d.find w.here (places.path level)).toBool && !force) = true := by
    obtain hnone | hforce := h
    · simp [seen_eq_none.mp hnone]
    · simp [hforce]
  unfold create Config.create
  rw [bindExcept_run]
  refine (congrArg (fun x => StateT.run (ExceptT.run x) d) (if_neg hthere)).trans ?_
  refine (bindExcept_run _ _ d).trans ?_
  have hmake : (w.host.makeDirectories (places.directory level)).run.run d =
      d.makeDirectories w.here (places.directory level) := rfl
  rw [adapt_run, hmake]
  obtain ⟨r, made⟩ := d.makeDirectories w.here (places.directory level)
  cases r with
  | error e => rfl
  | ok =>
    refine (bindExcept_run _ _ made).trans ?_
    have hwrite : (w.host.write (places.path level) (Toml.written {})).run.run made =
        made.write w.here (places.path level) (.text (Toml.written {})) := rfl
    rw [adapt_run, hwrite]
    cases hdone : made.write w.here (places.path level) (.text (Toml.written {})) with
    | mk r' d' => cases r' <;> simp only [hdone] <;> rfl

theorem seen_of_create {path : String} (h : (w.create places level force d).1 = .ok path) :
    places.seen w.here level (w.create places level force d).2 = some (.text (Toml.written {})) := by
  by_cases hfree : places.seen w.here level d = none ∨ force = true
  · rw [create_eq hfree] at h ⊢
    cases hmake : d.makeDirectories w.here (places.directory level) with
    | mk r made =>
      rw [hmake] at h
      cases r with
      | error e => cases h
      | ok =>
        cases hwrite : made.write w.here (places.path level) (.text (Toml.written {})) with
        | mk r' d' =>
          dsimp only at h ⊢
          rw [hwrite] at h ⊢
          cases r' with
          | error e => cases h
          | ok =>
            obtain ⟨a, hfind⟩ := Disk.find_write hwrite
            rw [ConfigPlaces.seen, hfind]
            rfl
  · obtain ⟨hseen, hforce⟩ := not_or.mp hfree
    rw [create_refused hseen (by simpa using hforce)] at h
    cases h

end Surroundings

end ShellDecl
