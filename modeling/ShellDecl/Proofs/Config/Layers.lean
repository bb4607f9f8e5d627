import ShellDecl.Proofs.Session.Looking
import ShellDecl.Proofs.Text.Word
import ShellDecl.Proofs.Toml.Record

/-!
# The layers of a configuration

A configuration is made of what is seen at the two paths and of two variables. Loading it fails exactly where one of
the files is seen and cannot be read or decoded, and the fault of the file for all projects goes first. Otherwise every
field has its value from the topmost layer that decides on it. A section of the project decides on each of its fields,
also on those that it leaves out.
-/

set_option autoImplicit false

namespace ShellDecl

open Toml Decoder

def ConfigPlaces.seen (p : ConfigPlaces) (here : Address) (level : ConfigLevel) (d : Disk) : Option Entry :=
  (d.find here (p.path level)).toOption.map (·.2)

/-! ## Sections -/

namespace ConfigLayer

def ofItem (v : Item) : ConfigLayer where
  parser := (v.field? ["parser"] 0).map ParserConfig.ofItem
  output := (v.field? ["output"] 1).map OutputConfig.ofItem
  settings := (v.field? ["settings"] 2).map ServerSettings.ofItem

variable {α : Type} {s : Shape Config.Gathered α Item Fault}

theorem tomlColumns (hfields : s.fields = Config.fields Toml.format) (hempty : s.empty = {}) :
    Column s 0 ["parser"] Config.Gathered.parser (ParserConfig.decode Toml.format) ∧
      Column s 1 ["output"] Config.Gathered.output (OutputConfig.decode Toml.format) ∧
      Column s 2 ["settings"] Config.Gathered.settings (ServerSettings.decode Toml.format) := by
  have hfresh : s.empty.parser = none ∧ s.empty.output = none ∧ s.empty.settings = none := by
    rw [hempty]
    exact ⟨rfl, rfl, rfl⟩
  refine ⟨Column.between [] [_, _] hfields (fun _ _ => rfl) ?_ hfresh.1,
    Column.between [_] [_] hfields (fun _ _ => rfl) ?_ hfresh.2.1,
    Column.between [_, _] [] hfields (fun _ _ => rfl) ?_ hfresh.2.2⟩ <;>
    exact List.forall_mem_cons.mpr ⟨aside_defaulted (by decide) fun _ _ => rfl,
      List.forall_mem_singleton.mpr (aside_defaulted (by decide) fun _ _ => rfl)⟩

/-- The sections are found by any record that has them. -/
theorem gathered_eq (hfields : s.fields = Config.fields Toml.format) (hempty : s.empty = {}) {v : Item} {a : α}
    (h : record s v = .ok a) :
    s.finish ⟨(ofItem v).parser, (ofItem v).output, (ofItem v).settings⟩ = .ok a := by
  obtain ⟨y, hy, hread⟩ := record_eq_ok h
  obtain ⟨hparser, houtput, hsettings⟩ := tomlColumns hfields hempty
  rw [ofItem, ← (hread hparser).eq_map fun _ _ => ParserConfig.eq_ofItem,
    ← (hread houtput).eq_map fun _ _ => OutputConfig.eq_ofItem,
    ← (hread hsettings).eq_map fun _ _ => ServerSettings.eq_ofItem]
  exact hy

theorem eq_ofItem {v : Item} {l : ConfigLayer} (h : decode Toml.format v = .ok l) : l = ofItem v :=
  (Except.ok.inj (gathered_eq rfl rfl h)).symm

end ConfigLayer

theorem Config.eq_overlay {v : Item} {c : Config} (h : decode Toml.format v = .ok c) :
    c = overlay {} (ConfigLayer.ofItem v) := by
  rw [← Except.ok.inj (ConfigLayer.gathered_eq rfl rfl h), overlay]
  cases (ConfigLayer.ofItem v).settings <;> rfl

namespace Config

/-! ## One file -/

/-- Why what is seen at a path cannot be loaded. -/
def fault? {α : Type} (decode : Decoder α) (path : String) : Option Entry → Option ConfigError
  | none => none
  | some e =>
    match e.read with
    | .error f => some (.file f)
    | .ok text =>
      match decode.ofText text with
      | .error f => some (.toml path text f)
      | .ok _ => none

def root? : Option Entry → Option Item
  | some (.text content) => (Table.ofText? content).map .table
  | _ => none

def layer {α : Type} (decode : Decoder α) (path : String) : Option Entry → Except ConfigError (Option α)
  | none => .ok none
  | some e =>
    match e.read with
    | .error f => .error (.file f)
    | .ok text =>
      match decode.ofText text with
      | .error f => .error (.toml path text f)
      | .ok a => .ok (some a)

theorem layer_cases {α : Type} (decode : Decoder α) (path : String) (seen : Option Entry) :
    (∃ e, fault? decode path seen = some e ∧ layer decode path seen = .error e) ∨
      fault? decode path seen = none ∧
        ∃ found, layer decode path seen = .ok found ∧ Reads decode (root? seen) found := by
  cases seen with
  | none => exact .inr ⟨rfl, none, rfl, rfl⟩
  | some e =>
    cases e with
    | directory => exact .inl ⟨_, rfl, rfl⟩
    | bytes size => exact .inl ⟨_, rfl, rfl⟩
    | text content =>
      simp only [fault?, layer, Entry.read, root?]
      cases hdecode : decode.ofText content with
      | error f => exact .inl ⟨_, rfl, rfl⟩
      | ok a =>
        refine .inr ⟨rfl, some a, rfl, ?_⟩
        unfold ofText at hdecode
        cases htable : Table.ofText? content with
        | none =>
          rw [htable] at hdecode
          cases hdecode
        | some t =>
          simp only [htable] at hdecode
          cases hitem : decode (.table t) with
          | error f =>
            rw [hitem] at hdecode
            cases hdecode
          | ok b =>
            rw [hitem] at hdecode
            exact ⟨b, hitem, congrArg some (Except.ok.inj hdecode).symm⟩

theorem readLayer_run {α : Type} (w : Surroundings) (decode : Decoder α) (path : String) (d : Disk) :
    (readLayer w.host decode path).run.run d =
      (layer decode path ((d.find w.here path).toOption.map (·.2)), d) := by
  have hthere : (liftM (w.host.isThere path) : ExceptT ConfigError OnDisk Bool).run.run d =
      (.ok (d.find w.here path).toBool, d) := rfl
  unfold readLayer
  rw [bind_run_of_ok hthere]
  cases hfind : d.find w.here path with
  | error f => rfl
  | ok found =>
    obtain ⟨a, e⟩ := found
    have hread : ((w.host.read path).adapt ConfigError.file).run.run d = (e.read.mapError .file, d) := by
      have hfound : (w.host.read path).run.run d = ((d.find w.here path).bind (·.2.read), d) := rfl
      rw [adapt_run, hfound, hfind]
      rfl
    cases e with
    | directory => exact bind_run_of_error hread _
    | bytes size => exact bind_run_of_error hread _
    | text content =>
      refine (bind_run_of_ok hread _).trans ?_
      simp only [layer, Entry.read, Except.toOption, Option.map_some]
      cases decode.ofText content <;> rfl

/-! ## All layers -/

/-- The largest script that the `parser` section of a file allows; a section without it allows the default. -/
def sizeIn? (root? : Option Item) : Option UInt32 :=
  (root?.bind (·.field? ["parser"] 0)).map fun v => (ParserConfig.ofItem v).maxFileSizeMb

def formatIn? (root? : Option Item) : Option String :=
  (root?.bind (·.field? ["output"] 1)).map fun v => (OutputConfig.ofItem v).format

def settingsIn? (root? : Option Item) : Option ServerSettings :=
  (root?.bind (·.field? ["settings"] 2)).map ServerSettings.ofItem

/-- The size that a variable sets: the number of 32 bits that its text writes, if it is set and writes one. -/
def Says (text? : Option String) (size : Option UInt32) : Prop :=
  ∀ n : UInt32, size = some n ↔ ∃ text ∈ text?, Text.WritesWord text.toList n.toNat

theorem says_word? (text? : Option String) :
    Says text? (text?.bind fun text => (Text.word? text.toList).map Nat.toUInt32) := by
  intro n
  simp only [Option.bind_eq_some_iff, Option.map_eq_some_iff, Option.mem_def, Text.word?_eq_some_iff]
  refine exists_congr fun text => and_congr_right fun _ => ⟨?_, fun h => ⟨n.toNat, h, by simp⟩⟩
  rintro ⟨m, hm, rfl⟩
  rwa [Nat.toUInt32_eq, UInt32.toNat_ofNat_of_lt' hm.lt]

theorem Says.eq_none {text? : Option String} {size : Option UInt32} (h : Says text? size)
    (hnone : ∀ text ∈ text?, Text.word? text.toList = none) : size = none := by
  rw [Option.eq_none_iff_forall_ne_some]
  intro n hn
  obtain ⟨text, htext, hwrites⟩ := (h n).mp hn
  rw [← Text.word?_eq_some_iff, hnone text htext] at hwrites
  contradiction

/-- The configuration of two files, a format and a size, field by field. -/
def resolved (shared project : Option Item) (format : Option String) (size : Option UInt32) : Config where
  parser.maxFileSizeMb := (size <|> sizeIn? project <|> sizeIn? shared).getD 5
  output.format := (format <|> formatIn? project <|> formatIn? shared).getD "json"
  settings := (settingsIn? project <|> settingsIn? shared).getD {}

theorem sections_eq (root? : Option Item) :
    (root?.map ConfigLayer.ofItem).getD {} =
      ⟨(sizeIn? root?).map .mk, (formatIn? root?).map .mk, settingsIn? root?⟩ := by
  cases root? with
  | none => rfl
  | some v => simp [ConfigLayer.ofItem, sizeIn?, formatIn?, settingsIn?, Option.map_map, Function.comp_def]

theorem parser_override (c : Config) (format size : Option String) :
    (c.override format size).parser =
      ⟨(size.bind fun text => (Text.word? text.toList).map Nat.toUInt32).getD c.parser.maxFileSizeMb⟩ := by
  cases size with
  | none => rfl
  | some text =>
    unfold override
    simp only [Option.bind_some]
    cases Text.word? text.toList <;> rfl

theorem output_override (c : Config) (format size : Option String) :
    (c.override format size).output = ⟨format.getD c.output.format⟩ := by
  cases format <;> rfl

theorem override_overlay_eq_resolved (shared project : Option Item) (format size : Option String) :
    ((overlay {} ((shared.map ConfigLayer.ofItem).getD {})).overlay
      ((project.map ConfigLayer.ofItem).getD {})).override format size =
      resolved shared project format (size.bind fun text => (Text.word? text.toList).map Nat.toUInt32) := by
  rw [sections_eq, sections_eq, resolved]
  generalize sizeIn? shared = size₁, sizeIn? project = size₂, formatIn? shared = format₁, formatIn? project = format₂,
    settingsIn? shared = settings₁, settingsIn? project = settings₂
  refine congr (congr (congrArg Config.mk ?_) ?_) ?_
  · refine (parser_override _ format size).trans ?_
    cases size.bind fun text => (Text.word? text.toList).map Nat.toUInt32 <;> cases size₂ <;> cases size₁ <;> rfl
  · refine (output_override _ format size).trans ?_
    cases format <;> cases format₂ <;> cases format₁ <;> rfl
  · cases settings₂ <;> cases settings₁ <;> rfl

variable (w : Surroundings) (places : ConfigPlaces) (d : Disk)

/-- The fault of a file, as the record of its level meets it. -/
def faultAt? : ConfigLevel → Option ConfigError
  | .shared => fault? (Config.decode Toml.format) (places.path .shared) (places.seen w.here .shared d)
  | .project => fault? (ConfigLayer.decode Toml.format) (places.path .project) (places.seen w.here .project d)

def rootAt? (level : ConfigLevel) : Option Item :=
  root? (places.seen w.here level d)

theorem loadShared_cases :
    (∃ e, faultAt? w places d .shared = some e ∧ (loadShared w.host places).run.run d = (.error e, d)) ∨
      faultAt? w places d .shared = none ∧ (loadShared w.host places).run.run d =
        (.ok (overlay {} (((rootAt? w places d .shared).map ConfigLayer.ofItem).getD {})), d) := by
  have hrun := readLayer_run w (Config.decode Toml.format) (places.path .shared) d
  unfold loadShared
  obtain ⟨e, hfault, hlayer⟩ | ⟨hfault, found, hlayer, hread⟩ :=
    layer_cases (Config.decode Toml.format) (places.path .shared) (places.seen w.here .shared d)
  · refine .inl ⟨e, hfault, ?_⟩
    exact bind_run_of_error (hrun.trans (congrArg (·, d) hlayer)) _
  · refine .inr ⟨hfault, ?_⟩
    rw [bind_run_of_ok (hrun.trans (congrArg (·, d) hlayer)), hread.eq_map fun _ _ => Config.eq_overlay]
    unfold rootAt?
    cases root? (places.seen w.here .shared d) <;> rfl

/-- A configuration is resolved field by field, unless one of its files is seen and cannot be read or decoded; then it
has the fault of the first such file. The shared configuration comes from the shared file alone. Nothing is changed. -/
theorem load_resolves_fields :
    (∃ size, Says (w.environment.lookup sizeVariable) size ∧
      (load w.host places .project).run.run d =
        (match faultAt? w places d .shared <|> faultAt? w places d .project with
          | some e => .error e
          | none => .ok (resolved (rootAt? w places d .shared) (rootAt? w places d .project)
              (w.environment.lookup formatVariable) size), d)) ∧
      (load w.host places .shared).run.run d =
        (match faultAt? w places d .shared with
          | some e => .error e
          | none => .ok (resolved (rootAt? w places d .shared) none none none), d) ∧
      ∀ (w' : Surroundings) (d' : Disk), places.seen w'.here .shared d' = places.seen w.here .shared d →
        ((load w'.host places .shared).run.run d').1 = ((load w.host places .shared).run.run d).1 := by
  have hshared : ∀ (w : Surroundings) (d : Disk), (load w.host places .shared).run.run d =
      (match faultAt? w places d .shared with
        | some e => .error e
        | none => .ok (resolved (rootAt? w places d .shared) none none none), d) := by
    intro w d
    unfold load
    obtain ⟨e, hfault, hrun⟩ | ⟨hfault, hrun⟩ := loadShared_cases w places d
    · rw [hrun, hfault]
    · rw [hrun, hfault]
      exact congrArg (Except.ok ·, d) (override_overlay_eq_resolved (rootAt? w places d .shared) none none none)
  refine ⟨⟨_, says_word? _, ?_⟩, hshared w d, fun w' d' hseen => ?_⟩
  · unfold load loadProject
    obtain ⟨e, hfault, hrun⟩ | ⟨hfault, hrun⟩ := loadShared_cases w places d
    · rw [bind_run_of_error hrun, hfault]
      rfl
    · rw [bind_run_of_ok hrun, hfault]
      have hlayer := readLayer_run w (ConfigLayer.decode Toml.format) (places.path .project) d
      obtain ⟨e, hfault', hcases⟩ | ⟨hfault', found, hcases, hread⟩ :=
        layer_cases (ConfigLayer.decode Toml.format) (places.path .project) (places.seen w.here .project d)
      · rw [bind_run_of_error (hlayer.trans (congrArg (·, d) hcases)), faultAt?, hfault']
        rfl
      · rw [bind_run_of_ok (hlayer.trans (congrArg (·, d) hcases)), faultAt?, hfault',
          hread.eq_map fun _ _ => ConfigLayer.eq_ofItem, ← override_overlay_eq_resolved]
        rfl
  · rw [hshared, hshared]
    unfold faultAt? rootAt?
    rw [hseen]

def twoFiles (shared project : String) : Disk :=
  (((((Disk.empty.set ["w"] .directory).set ["w", ".scriptnav"] .directory).set ["w", ".scriptnav", "config.toml"]
    (.text project)).set ["c"] .directory).set ["c", "scriptnav"] .directory).set ["c", "scriptnav", "config.toml"]
      (.text shared)

/-- A section of the project without its field has the default in place of the shared value, and what is no size is
passed over. A malformed file of the project is not seen from the shared configuration. -/
theorem load_resolves_fields_partly :
    ((load (Surroundings.host ⟨"/w", [(sizeVariable, "many")]⟩) ⟨"/w/.scriptnav", "/c/scriptnav"⟩ .project).run.run
        (twoFiles "[parser]\nmax_file_size_mb = 7\n[output]\nformat = 'compact'\n" "[parser]\n")).1.toOption =
      some ⟨⟨5⟩, ⟨"compact"⟩, {}⟩ ∧
    ((load (Surroundings.host ⟨"/w", [(formatVariable, "json")]⟩) ⟨"/w/.scriptnav", "/c/scriptnav"⟩ .shared).run.run
        (twoFiles "[parser]\nmax_file_size_mb = 7\n" "[parser")).1 =
      ((load (Surroundings.host ⟨"/w", []⟩) ⟨"/w/.scriptnav", "/c/scriptnav"⟩ .shared).run.run
        (twoFiles "[parser]\nmax_file_size_mb = 7\n" "")).1 := by
  constructor
  · obtain ⟨size, hsize, hload⟩ := (load_resolves_fields (Surroundings.mk "/w" [(sizeVariable, "many")])
      ⟨"/w/.scriptnav", "/c/scriptnav"⟩
      (twoFiles "[parser]\nmax_file_size_mb = 7\n[output]\nformat = 'compact'\n" "[parser]\n")).1
    obtain rfl : size = none := hsize.eq_none (by decide)
    rw [hload]
    decide +kernel
  · exact (load_resolves_fields _ _ _).2.2 _ _ (by decide +kernel)

end Config

end ShellDecl
