import ShellDecl.Proofs.Config.Create
import ShellDecl.Proofs.Disk.Tree

/-!
# Configuration files are kept

Whatever is asked of the two configuration files, in any order, what is stored in one of them changes only when this
very file is made, and an existing file is replaced only by force. This holds where each step back of a path leaves a
directory. Elsewhere it does not: that a file is there is not seen as long as the way to it has a gap, and making its
directories closes the gap.
-/

set_option autoImplicit false

namespace ShellDecl

open ShellDecl.Path Address

namespace ConfigPlaces

variable (p : ConfigPlaces) (here : Address) (level : ConfigLevel)

/-- The address of the file of a level, whether or not it is there. -/
def address : Address :=
  along here (components (p.path level))

/-- The two files are not the same, and neither is on the way to the other. -/
def Apart : Prop :=
  ¬p.address here .project <+: p.address here .shared ∧ ¬p.address here .shared <+: p.address here .project

def held (d : Disk) : Option Entry :=
  d.entry (p.address here level)

theorem components_path :
    components (p.path level) = components (p.directory level) ++ [.name "config.toml".toList] :=
  components_join _ (by decide) (by decide)

theorem address_eq : p.address here level = along here (components (p.directory level)) ++ ["config.toml"] := by
  rw [address, components_path, along_concat]
  rfl

theorem toList_path : ∃ text, (p.path level).toList = text ++ ['l'] := by
  have hname : "config.toml".toList = "config.tom".toList ++ ['l'] := by decide
  have hrelative : isAbsolute "config.toml" = false := by decide
  obtain ⟨-, h⟩ | ⟨text, -, h⟩ | ⟨-, h⟩ := toList_join (p.directory level) hrelative
  · exact ⟨_, h.trans hname⟩
  · exact ⟨text ++ '/' :: "config.tom".toList, by rw [path, h, hname]; simp⟩
  · exact ⟨(p.directory level).toList ++ '/' :: "config.tom".toList, by rw [path, h, hname]; simp⟩

theorem path_ne_empty : p.path level ≠ "" := by
  obtain ⟨text, h⟩ := p.toList_path level
  intro hempty
  rw [hempty] at h
  simp at h

theorem namesDirectory_path : namesDirectory (p.path level) = false := by
  obtain ⟨text, h⟩ := p.toList_path level
  simp [namesDirectory, h]

variable {p here level}

theorem Apart.not_prefix (h : p.Apart here) {other : ConfigLevel} (hne : other ≠ level) :
    ¬p.address here other <+: p.address here level := by
  cases other <;> cases level
  · exact absurd rfl hne
  · exact h.1
  · exact h.2
  · exact absurd rfl hne

end ConfigPlaces

/-- A disk on which each step back of the two paths leaves a directory. -/
structure Surroundings.Ready (w : Surroundings) (places : ConfigPlaces) (d : Disk) : Prop where
  tree : d.IsTree
  current : d.entry w.here = some .directory
  straight : ∀ level, d.Straight w.here (components (places.path level))

namespace Surroundings.Ready

variable {w : Surroundings} {places : ConfigPlaces} {d d' : Disk}

theorem seen_eq (h : w.Ready places d) (level : ConfigLevel) :
    places.seen w.here level d = places.held w.here level d := by
  have hfind := h.tree.find_eq (h.straight level) (places.path_ne_empty level) (places.namesDirectory_path level)
  rw [ConfigPlaces.seen, hfind, Option.map_map, ConfigPlaces.held, ConfigPlaces.address]
  exact congrFun Option.map_id _

theorem mono (h : w.Ready places d) (htree : d'.IsTree)
    (hdir : ∀ b, d.entry b = some .directory → d'.entry b = some .directory) : w.Ready places d' :=
  ⟨htree, hdir _ h.current, fun level => (h.straight level).mono hdir⟩

theorem makeDirectories (h : w.Ready places d) (level : ConfigLevel) :
    let made := (d.makeDirectories w.here (places.directory level)).2
    w.Ready places made ∧ Disk.AddsWay d made (along w.here (components (places.directory level))) := by
  unfold Disk.makeDirectories
  split
  · exact ⟨h, Disk.AddsWay.refl d _⟩
  · rename_i hzero
    have hstraight : d.Straight w.here (components (places.directory level)) := by
      have hpath := h.straight level
      rwa [places.components_path, Disk.straight_concat] at hpath
    have hnames : ∀ s, .name s ∈ components (places.directory level) → '\x00' ∉ s := by
      intro s hs hmem
      exact hzero (by simpa using mem_of_mem_name hs hmem)
    obtain ⟨htree, hadds⟩ := h.tree.makeAlong h.current hstraight hnames
    exact ⟨h.mono htree fun b => hadds.mono, hadds⟩

/-- Writing a file changes nothing but this file. -/
theorem write (h : w.Ready places d) {level : ConfigLevel} {file : Entry}
    (hwrite : d.write w.here (places.path level) file = (.ok (), d')) :
    w.Ready places d' ∧ d'.entry (places.address w.here level) = some file ∧
      ∀ b, b ≠ places.address w.here level → d'.entry b = d.entry b := by
  obtain ⟨f, hf⟩ | ⟨a, hlocate, hentry, -, hok⟩ := d.write_cases w.here (places.path level) file
  · rw [hf] at hwrite
    cases hwrite
  · rw [hok] at hwrite
    obtain rfl : d.set a file = d' := (Prod.mk.inj hwrite).2
    have hfollow := (Disk.locate_eq_ok.mp hlocate).2.2
    obtain rfl : a = places.address w.here level := Disk.follow_eq hfollow
    rw [places.components_path] at hfollow
    obtain ⟨hdir, -⟩ := Disk.follow_concat hfollow
    refine ⟨h.mono ?_ fun b => Disk.set_mono hentry file, Disk.entry_set_self _ file, fun b hb =>
      Disk.entry_set_of_ne hb file⟩
    rw [places.address_eq] at hentry ⊢
    exact h.tree.set hdir (by decide) fun heq => absurd heq hentry

theorem held_makeDirectories (h : w.Ready places d) (hapart : places.Apart w.here) (level other : ConfigLevel) :
    places.held w.here other (d.makeDirectories w.here (places.directory level)).2 = places.held w.here other d := by
  obtain ⟨-, hadds⟩ := h.makeDirectories level
  refine hadds.entry_eq fun hway => ?_
  have hpath : along w.here (components (places.directory level)) <+: places.address w.here level := by
    rw [places.address_eq]
    exact List.prefix_append _ _
  by_cases hother : other = level
  · subst hother
    rw [places.address_eq] at hway
    have hlong := hway.length_le
    simp only [List.length_append, List.length_singleton] at hlong
    omega
  · exact hapart.not_prefix hother (hway.trans hpath)

/-- Making a file fails and leaves both files, or it leaves the other one and puts the defaults in this one. -/
theorem create (h : w.Ready places d) (hapart : places.Apart w.here) (level : ConfigLevel) (force : Bool) :
    w.Ready places (w.create places level force d).2 ∧
      ((∃ e, (w.create places level force d).1 = .error e ∧
          ∀ other, places.held w.here other (w.create places level force d).2 = places.held w.here other d) ∨
        (w.create places level force d).1 = .ok (places.path level) ∧
          (places.held w.here level d = none ∨ force = true) ∧
          places.held w.here level (w.create places level force d).2 = some (.text (Toml.written {})) ∧
          ∀ other, other ≠ level →
            places.held w.here other (w.create places level force d).2 = places.held w.here other d) := by
  by_cases hfree : places.seen w.here level d = none ∨ force = true
  · obtain ⟨hmade, -⟩ := h.makeDirectories level
    have hheld := h.held_makeDirectories hapart level
    rw [Surroundings.create_eq hfree]
    cases hmake : d.makeDirectories w.here (places.directory level) with
    | mk r made =>
      rw [hmake] at hmade hheld
      cases r with
      | error e => exact ⟨hmade, .inl ⟨_, rfl, hheld⟩⟩
      | ok =>
        cases hwrite : made.write w.here (places.path level) (.text (Toml.written {})) with
        | mk r' d' =>
          cases r' with
          | error e =>
            obtain ⟨f, hf⟩ | ⟨a, -, -, -, hok⟩ :=
              made.write_cases w.here (places.path level) (.text (Toml.written {}))
            · obtain rfl : made = d' := (Prod.mk.inj (hf.symm.trans hwrite)).2
              dsimp only
              rw [hwrite]
              exact ⟨hmade, .inl ⟨_, rfl, hheld⟩⟩
            · cases hok.symm.trans hwrite
          | ok =>
            obtain ⟨hready, hfile, hother⟩ := hmade.write hwrite
            dsimp only
            rw [hwrite]
            rw [h.seen_eq] at hfree
            refine ⟨hready, .inr ⟨rfl, hfree, hfile, fun other hne => ?_⟩⟩
            have hne' : places.address w.here other ≠ places.address w.here level := by
              intro heq
              exact hapart.not_prefix hne (heq ▸ List.prefix_refl _)
            exact (hother _ hne').trans (hheld other)
  · obtain ⟨hseen, hforce⟩ := not_or.mp hfree
    rw [Surroundings.create_refused hseen (by simpa using hforce)]
    exact ⟨h, .inl ⟨_, rfl, fun _ => rfl⟩⟩

end Surroundings.Ready

/-! ## Runs -/

inductive ConfigCall where
  | load (level : ConfigLevel)
  | path (level : ConfigLevel)
  | create (level : ConfigLevel) (force : Bool)
  deriving DecidableEq, Repr

def ConfigCall.after (w : Surroundings) (places : ConfigPlaces) (d : Disk) : ConfigCall → Disk
  | .load level => ((Config.load w.host places level).run.run d).2
  | .path _ => d
  | .create level force => (w.create places level force d).2

/-- Files, looked at in some way, are treated with care by every call on a disk. -/
structure Careful (look : ConfigLevel → Disk → Option Entry) (w : Surroundings) (places : ConfigPlaces)
    (d : Disk) : Prop where
  changed : ∀ (call : ConfigCall) (level : ConfigLevel), look level (call.after w places d) ≠ look level d →
    ∃ force, call = .create level force ∧ (w.create places level force d).1 = .ok (places.path level)
  allowed : ∀ (level : ConfigLevel) (force : Bool) (path : String), (w.create places level force d).1 = .ok path →
    look level d = none ∨ force = true
  written : ∀ (level : ConfigLevel) (force : Bool) (path : String), (w.create places level force d).1 = .ok path →
    look level (w.create places level force d).2 = some (.text (Toml.written {}))
  failed : ∀ (level other : ConfigLevel) (force : Bool) (e : ConfigError),
    (w.create places level force d).1 = .error e → look other (w.create places level force d).2 = look other d
  refused : ∀ level : ConfigLevel, look level d ≠ none →
    (w.create places level false d).1 = .error (.alreadyThere (places.path level))

namespace Surroundings.Ready

variable {w : Surroundings} {places : ConfigPlaces} {d : Disk}

theorem after (h : w.Ready places d) (hapart : places.Apart w.here) (call : ConfigCall) :
    w.Ready places (call.after w places d) := by
  cases call with
  | load level =>
    rw [ConfigCall.after, w.looks_load places level d]
    exact h
  | path level => exact h
  | create level force => exact (h.create hapart level force).1

theorem run (h : w.Ready places d) (hapart : places.Apart w.here) (calls : List ConfigCall) :
    w.Ready places (calls.foldl (ConfigCall.after w places) d) := by
  induction calls generalizing d with
  | nil => exact h
  | cons call calls ih => exact ih (h.after hapart call)

theorem careful_held (h : w.Ready places d) (hapart : places.Apart w.here) :
    Careful (places.held w.here) w places d where
  changed call level hne := by
    cases call with
    | load l =>
      rw [ConfigCall.after, w.looks_load places l d] at hne
      exact absurd rfl hne
    | path l => exact absurd rfl hne
    | create l force =>
      obtain ⟨-, ⟨e, -, hsame⟩ | ⟨hok, -, -, hsame⟩⟩ := h.create hapart l force
      · exact absurd (hsame level) hne
      · by_cases hlevel : level = l
        · subst hlevel
          exact ⟨force, rfl, hok⟩
        · exact absurd (hsame level hlevel) hne
  allowed level force path hok := by
    obtain ⟨-, ⟨e, herror, -⟩ | ⟨-, hfree, -⟩⟩ := h.create hapart level force
    · rw [herror] at hok
      cases hok
    · exact hfree
  written level force path hok := by
    obtain ⟨-, ⟨e, herror, -⟩ | ⟨-, -, hfile, -⟩⟩ := h.create hapart level force
    · rw [herror] at hok
      cases hok
    · exact hfile
  failed level other force e herror := by
    obtain ⟨-, ⟨e, -, hsame⟩ | ⟨hok, -⟩⟩ := h.create hapart level force
    · exact hsame other
    · rw [herror] at hok
      cases hok
  refused level hthere := by
    rw [← h.seen_eq] at hthere
    rw [Surroundings.create_refused hthere rfl]

theorem careful_seen (h : w.Ready places d) (hapart : places.Apart w.here) :
    Careful (places.seen w.here) w places d := by
  have hheld := h.careful_held hapart
  refine ⟨?_, ?_, ?_, ?_, ?_⟩
  · intro call level hne
    rw [h.seen_eq, (h.after hapart call).seen_eq] at hne
    exact hheld.changed call level hne
  · intro level force path hok
    rw [h.seen_eq]
    exact hheld.allowed level force path hok
  · intro level force path hok
    rw [(h.create hapart level force).1.seen_eq]
    exact hheld.written level force path hok
  · intro level other force e herror
    rw [h.seen_eq, (h.create hapart level force).1.seen_eq]
    exact hheld.failed level other force e herror
  · intro level hthere
    rw [h.seen_eq] at hthere
    exact hheld.refused level hthere

end Surroundings.Ready

/-- After any calls both files, as they are stored and as they are seen, are treated with care by the next call. -/
theorem Config.files_kept (w : Surroundings) (places : ConfigPlaces) (d : Disk) (h : w.Ready places d)
    (hapart : places.Apart w.here) (calls : List ConfigCall) :
    Careful (places.held w.here) w places (calls.foldl (ConfigCall.after w places) d) ∧
      Careful (places.seen w.here) w places (calls.foldl (ConfigCall.after w places) d) :=
  ⟨(h.run hapart calls).careful_held hapart, (h.run hapart calls).careful_seen hapart⟩

/-! ## A gap on the way -/

namespace Config

def oneFile : Disk :=
  (((Disk.empty.set ["w"] .directory).set ["w", "c"] .directory).set ["w", "c", "scriptnav"] .directory).set
    ["w", "c", "scriptnav", "config.toml"] (.text "x = 1\n")

theorem oneFile_isTree : oneFile.IsTree := by
  have hempty : Disk.empty.IsTree := by
    constructor <;> simp [Disk.empty]
  have hw : (Disk.empty.set ["w"] .directory).IsTree :=
    hempty.set (a := []) rfl (by decide) fun _ => rfl
  have hc : ((Disk.empty.set ["w"] .directory).set ["w", "c"] .directory).IsTree :=
    hw.set (a := ["w"]) rfl (by decide) fun _ => rfl
  have hscriptnav : (((Disk.empty.set ["w"] .directory).set ["w", "c"] .directory).set ["w", "c", "scriptnav"]
      .directory).IsTree := hc.set (a := ["w", "c"]) rfl (by decide) fun _ => rfl
  exact hscriptnav.set (a := ["w", "c", "scriptnav"]) rfl (by decide) (by decide)

def placesBy (base : String) : ConfigPlaces :=
  .ofEnvironment "/w" (some base) none

theorem files_kept_stepping_back :
    Careful ((placesBy "/w/c/../c").held ["w"]) ⟨"/w", []⟩ (placesBy "/w/c/../c")
      ([.create .project false, .create .shared false, .load .project].foldl
        (ConfigCall.after ⟨"/w", []⟩ (placesBy "/w/c/../c")) oneFile) := by
  have hproject : components ((placesBy "/w/c/../c").path .project) =
      [.root, .name ['w'], .name ".scriptnav".toList, .name "config.toml".toList] := by decide +kernel
  have hshared : components ((placesBy "/w/c/../c").path .shared) =
      [.root, .name ['w'], .name ['c'], .parent, .name ['c'], .name "scriptnav".toList,
        .name "config.toml".toList] := by decide +kernel
  have hready : Surroundings.Ready ⟨"/w", []⟩ (placesBy "/w/c/../c") oneFile := by
    have hcurrent : oneFile.entry (Surroundings.here ⟨"/w", []⟩) = some .directory := by decide +kernel
    refine ⟨oneFile_isTree, hcurrent, fun level => ?_⟩
    cases level with
    | project =>
      rw [hproject]
      simpa [Disk.Straight] using hcurrent
    | shared =>
      rw [hshared]
      have hback : oneFile.entry (move (move (move (Surroundings.here ⟨"/w", []⟩) .root) (.name ['w'])) (.name ['c'])) =
          some .directory := by decide +kernel
      simpa [Disk.Straight] using ⟨hcurrent, hback⟩
  have hapart : (placesBy "/w/c/../c").Apart ["w"] := by
    unfold ConfigPlaces.Apart
    decide +kernel
  exact (files_kept ⟨"/w", []⟩ (placesBy "/w/c/../c") oneFile hready hapart _).1

/-- What the path leads to does not count as being there while the way to it has a gap. So it is overwritten without
force. -/
theorem not_always_kept :
    (¬∀ (w : Surroundings) (places : ConfigPlaces) (d : Disk), d.IsTree → d.entry w.here = some .directory →
        places.Apart w.here → ∀ calls : List ConfigCall,
          Careful (places.held w.here) w places (calls.foldl (ConfigCall.after w places) d)) ∧
      ¬∀ (w : Surroundings) (places : ConfigPlaces) (d : Disk), d.IsTree → d.entry w.here = some .directory →
        places.Apart w.here → ∀ calls : List ConfigCall,
          Careful (places.seen w.here) w places (calls.foldl (ConfigCall.after w places) d) := by
  have hcurrent : oneFile.entry (Surroundings.here ⟨"/w", []⟩) = some .directory := by decide +kernel
  have hapart : (placesBy "/w/.scriptnav/../c").Apart (Surroundings.here ⟨"/w", []⟩) := by
    unfold ConfigPlaces.Apart
    decide +kernel
  constructor
  · intro hall
    have hcareful := hall ⟨"/w", []⟩ (placesBy "/w/.scriptnav/../c") oneFile oneFile_isTree hcurrent hapart []
    have hok : (Surroundings.create ⟨"/w", []⟩ (placesBy "/w/.scriptnav/../c") .shared false oneFile).1 =
        .ok ((placesBy "/w/.scriptnav/../c").path .shared) := eq_ok_of_toOption (by decide +kernel)
    have hallowed := hcareful.allowed .shared false _ hok
    revert hallowed
    decide +kernel
  · intro hall
    have hcareful := hall ⟨"/w", []⟩ (placesBy "/w/.scriptnav/../c") oneFile oneFile_isTree hcurrent hapart []
    have hne : (placesBy "/w/.scriptnav/../c").seen ["w"] .shared
        ((ConfigCall.create .project false).after ⟨"/w", []⟩ (placesBy "/w/.scriptnav/../c") oneFile) ≠
          (placesBy "/w/.scriptnav/../c").seen ["w"] .shared oneFile := by decide +kernel
    obtain ⟨force, hcall, -⟩ := hcareful.changed (.create .project false) .shared hne
    cases hcall

end Config

end ShellDecl
