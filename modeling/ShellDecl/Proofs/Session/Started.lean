import ShellDecl.Proofs.Config.Layers
import ShellDecl.Proofs.Session.Agreement
import ShellDecl.Proofs.Text.Word

/-!
# The configuration of a session

A session works with the configuration of the project, in which the environment has the last word. Where a file of the
configuration is seen and cannot be read or decoded, it works with the defaults instead, and then the environment has no
word at all.
-/

set_option autoImplicit false

namespace ShellDecl

namespace Config

variable (w : Surroundings) (places : ConfigPlaces) (d : Disk)

/-- The configuration of the project is set by the two variables, unless a file has a fault. -/
theorem load_project_cases :
    (∃ level e, faultAt? w places d level = some e ∧ (load w.host places .project).run.run d = (.error e, d)) ∨
      (∀ level, faultAt? w places d level = none) ∧ ∃ base : Config, (load w.host places .project).run.run d =
        (.ok (base.override (w.environment.lookup formatVariable) (w.environment.lookup sizeVariable)), d) := by
  unfold load loadProject
  obtain ⟨e, hfault, hrun⟩ | ⟨hshared, hrun⟩ := loadShared_cases w places d
  · exact .inl ⟨.shared, e, hfault, bind_run_of_error hrun _⟩
  · rw [bind_run_of_ok hrun]
    generalize overlay {} (((rootAt? w places d .shared).map ConfigLayer.ofItem).getD {}) = shared
    have hlayer := readLayer_run w (ConfigLayer.decode Toml.format) (places.path .project) d
    obtain ⟨e, hfault, hread⟩ | ⟨hproject, found, hread, -⟩ :=
      layer_cases (ConfigLayer.decode Toml.format) (places.path .project) (places.seen w.here .project d)
    · exact .inl ⟨.project, e, hfault, bind_run_of_error (hlayer.trans (congrArg (·, d) hread)) _⟩
    · rw [bind_run_of_ok (hlayer.trans (congrArg (·, d) hread))]
      refine .inr ⟨fun level => ?_, shared.overlay (found.getD {}), ?_⟩
      · cases level with
        | shared => exact hshared
        | project => exact hproject
      · rfl

end Config

namespace Surroundings

variable (w : Surroundings) (d : Disk)

def places : ConfigPlaces :=
  .ofEnvironment w.directory (w.environment.lookup "XDG_CONFIG_HOME")
    ((w.environment.lookup "HOME").filter (!·.isEmpty))

/-- The configuration that a session works with: the one of the project, or the defaults. -/
theorem session_config :
    (w.session d).config = ((Config.load w.host w.places .project).run.run d).1.toOption.getD {} := by
  have hdirectory : w.host.currentDirectory.run d = pure (w.directory, d) := rfl
  have hvariable : ∀ name, (w.host.environment name).run d = pure (w.environment.lookup name, d) :=
    fun _ => rfl
  unfold session Session.start
  simp only [StateT.run_bind, hdirectory, hvariable, pure_bind]
  rw [← places]
  generalize (Config.load w.host w.places .project).run.run d = loaded
  obtain ⟨_ | _, _⟩ := loaded <;> rfl

/-- The environment has the last word on the configuration of a session, unless a file has a fault. Then the session
works with the defaults, whatever the environment holds. -/
theorem session_overridden :
    ((∀ level, Config.faultAt? w w.places d level = none) →
      (∀ (text : String) (n : Nat), w.environment.lookup Config.sizeVariable = some text →
        Text.WritesWord text.toList n → (w.session d).config.parser.maxFileSizeMb.toNat = n) ∧
      ∀ text : String, w.environment.lookup Config.formatVariable = some text →
        (w.session d).config.output.format = text) ∧
    ∀ (level : ConfigLevel) (e : ConfigError), Config.faultAt? w w.places d level = some e →
      (w.session d).config = {} := by
  rw [session_config]
  obtain ⟨level, e, hfault, hrun⟩ | ⟨hnone, base, hrun⟩ := Config.load_project_cases w w.places d
  · rw [hrun]
    exact ⟨fun hall => by simp [hall level] at hfault, fun _ _ _ => rfl⟩
  · rw [hrun, Except.toOption, Option.getD_some]
    refine ⟨fun _ => ⟨fun text n hsize hword => ?_, fun text hformat => ?_⟩, fun level e hfault => ?_⟩
    · rw [Config.parser_override, hsize, Option.bind_some, Text.word?_eq_some_iff.mpr hword]
      exact UInt32.toNat_ofNat_of_lt' hword.lt
    · rw [Config.output_override, hformat, Option.getD_some]
    · simp [hnone level] at hfault

def overriding : Surroundings where
  directory := "/w"
  environment := [("XDG_CONFIG_HOME", "/c"), (Config.sizeVariable, "+07"), (Config.formatVariable, "compact")]

def decided : Disk :=
  Config.twoFiles "[parser]\nmax_file_size_mb = 2\n" "[output]\nformat = 'json'\n"

def cutShort : Disk :=
  Config.twoFiles "[parser]\nmax_file_size_mb = 2\n" "[output"

theorem writesWord_seven : Text.WritesWord "+07".toList 7 :=
  ⟨"07".toList, .inr (by decide), by decide, by decide, by decide⟩

/-- The variables go before what both files say, but not where one of them is cut short. -/
theorem session_overridden_cutShort :
    (overriding.session decided).config.parser.maxFileSizeMb.toNat = 7 ∧
      (overriding.session decided).config.output.format = "compact" ∧ (overriding.session cutShort).config = {} := by
  have hdecided : ∀ level, Config.faultAt? overriding overriding.places decided level = none := by
    intro level
    cases level <;> decide +kernel
  have hfault : (Config.faultAt? overriding overriding.places cutShort .project).isSome := by decide +kernel
  obtain ⟨e, he⟩ := Option.isSome_iff_exists.mp hfault
  obtain ⟨hsize, hformat⟩ := (session_overridden overriding decided).1 hdecided
  exact ⟨hsize "+07" 7 (by decide +kernel) writesWord_seven, hformat "compact" (by decide +kernel),
    (session_overridden overriding cutShort).2 .project e he⟩

/-- The environment does not have the last word in every session. -/
theorem not_always_overridden :
    (¬∀ (w : Surroundings) (d : Disk) (text : String) (n : Nat), w.environment.lookup Config.sizeVariable = some text →
      Text.WritesWord text.toList n → (w.session d).config.parser.maxFileSizeMb.toNat = n) ∧
    ¬∀ (w : Surroundings) (d : Disk) (text : String), w.environment.lookup Config.formatVariable = some text →
      (w.session d).config.output.format = text := by
  have hdefaults : (overriding.session cutShort).config = {} := by decide +kernel
  constructor
  · intro h
    have hsize := h overriding cutShort "+07" 7 (by decide +kernel) writesWord_seven
    rw [hdefaults] at hsize
    exact absurd hsize (by decide)
  · intro h
    have hformat := h overriding cutShort "compact" (by decide +kernel)
    rw [hdefaults] at hformat
    exact absurd hformat (by decide)

end Surroundings

end ShellDecl
