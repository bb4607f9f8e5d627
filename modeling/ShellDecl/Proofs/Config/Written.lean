import ShellDecl.Proofs.Config.Create
import ShellDecl.Proofs.Toml.Statement
import ShellDecl.Toml.Written

/-!
# Written configurations are read back

The text of a configuration holds all of its sections, so as a configuration and as a layer it is decoded to what was
written, and no lower layer is seen through it. An absent `enabled` is written as nothing, but the section that it is
missing from is there.
-/

set_option autoImplicit false

namespace ShellDecl

open Toml Decoder

namespace Toml

/-! ## The lines -/

theorem toList_line (key : String) (value rest : List Char) :
    (line key value).toList ++ rest = key.toList ++ ' ' :: '=' :: ' ' :: (value ++ '\n' :: rest) := by
  have hmark : " = ".toList = [' ', '=', ' '] := by decide
  have hend : "\n".toList = ['\n'] := by decide
  simp [line, hmark, hend]

theorem lines_line (key : String) (hkey : Bare key.toList) {value rest : List Char} {v : Scalar}
    {statements : List Statement} (hvalue : Denotes value v) (h : Lines rest statements) :
    ∃ keySpan span, Lines ((line key value).toList ++ rest)
      (.pair ⟨[], ⟨key, keySpan⟩, .scalar span v⟩ :: statements) := by
  have hpair := Lines.pair hkey hvalue h
  rw [String.ofList_toList] at hpair
  rwa [toList_line]

theorem lines_optionalLine {α : Type} (key : String) (hkey : Bare key.toList) {write : α → List Char}
    {value : α → Scalar} (hvalue : ∀ a, Denotes (write a) (value a)) (a? : Option α) {rest : List Char}
    {statements : List Statement} (h : Lines rest statements) :
    ∃ keySpan span, Lines ((optionalLine key write a?).toList ++ rest)
      ((a?.toList.map fun a => .pair ⟨[], ⟨key, keySpan⟩, .scalar span (value a)⟩) ++ statements) := by
  cases a? with
  | none => exact ⟨⟨0, 0⟩, ⟨0, 0⟩, h⟩
  | some a => exact lines_line key hkey (hvalue a) h

def statementsAt (place : Nat → Span) (c : Config) : List Statement :=
  .header [] ⟨"parser", place 0⟩ (place 1) ::
    .pair ⟨[], ⟨"max_file_size_mb", place 2⟩, .scalar (place 3) (.integer c.parser.maxFileSizeMb.toNat)⟩ ::
    .header [] ⟨"output", place 4⟩ (place 5) ::
    .pair ⟨[], ⟨"format", place 6⟩, .scalar (place 7) (.string c.output.format)⟩ ::
    .header [⟨"settings", place 8⟩] ⟨"analysis", place 9⟩ (place 10) ::
    ((c.settings.analysis.enabled.toList.map fun b =>
        .pair ⟨[], ⟨"enabled", place 11⟩, .scalar (place 12) (.boolean b)⟩) ++
      c.settings.analysis.settingsPath.toList.map fun p =>
        .pair ⟨[], ⟨"settingsPath", place 13⟩, .scalar (place 14) (.string p)⟩)

theorem readStatements_written (c : Config) :
    ∃ place, readStatements (written c).toList = some (statementsAt place c) := by
  obtain ⟨s₁₃, s₁₄, hpath⟩ := lines_optionalLine "settingsPath" (bare_of_all (by decide))
    (fun s => String.ofList_toList (s := s) ▸ denotes_quote s.toList) c.settings.analysis.settingsPath Lines.nil
  obtain ⟨s₁₁, s₁₂, henabled⟩ := lines_optionalLine "enabled" (bare_of_all (by decide)) denotes_boolean
    c.settings.analysis.enabled hpath
  have hsettingsKey : Bare "settings".toList := bare_of_all (by decide)
  have hanalysisKey : Bare "analysis".toList := bare_of_all (by decide)
  obtain ⟨s₈, s₉, s₁₀, hanalysis⟩ := Lines.inner hsettingsKey hanalysisKey henabled
  obtain ⟨s₆, s₇, hformat⟩ := lines_line "format" (bare_of_all (by decide)) (denotes_quote c.output.format.toList)
    hanalysis.empty
  obtain ⟨s₄, s₅, houtput⟩ := Lines.outer (bare_of_all (by decide) : Bare "output".toList) hformat
  obtain ⟨s₂, s₃, hsize⟩ := lines_line "max_file_size_mb" (bare_of_all (by decide))
    (denotes_number c.parser.maxFileSizeMb.toNat_lt) houtput.empty
  obtain ⟨s₀, s₁, hparser⟩ := Lines.outer (bare_of_all (by decide) : Bare "parser".toList) hsize
  refine ⟨fun i => [s₀, s₁, s₂, s₃, s₄, s₅, s₆, s₇, s₈, s₉, s₁₀, s₁₁, s₁₂, s₁₃, s₁₄].getD i ⟨0, 0⟩, ?_⟩
  have hread := hparser.readStatements (by simp)
  have htext : (written c).toList = '[' :: ("parser".toList ++ ']' :: '\n' ::
      ((line "max_file_size_mb" (toString c.parser.maxFileSizeMb.toNat).toList).toList ++ '\n' ::
        '[' :: ("output".toList ++ ']' :: '\n' :: ((line "format" (quote c.output.format.toList)).toList ++ '\n' ::
          '[' :: ("settings".toList ++ '.' :: ("analysis".toList ++ ']' :: '\n' ::
            ((optionalLine "enabled" boolean c.settings.analysis.enabled).toList ++
              ((optionalLine "settingsPath" (fun (s : String) => quote s.toList)
                c.settings.analysis.settingsPath).toList ++ [])))))))) := by
    have hparserText : "[parser]\n".toList = '[' :: ("parser".toList ++ [']', '\n']) := by decide
    have houtputText : "\n[output]\n".toList = '\n' :: '[' :: ("output".toList ++ [']', '\n']) := by decide
    have hanalysisText : "\n[settings.analysis]\n".toList =
        '\n' :: '[' :: ("settings".toList ++ '.' :: ("analysis".toList ++ [']', '\n'])) := by decide
    rw [written]
    simp only [String.toList_append, hparserText, houtputText, hanalysisText, List.append_assoc, List.cons_append,
      List.nil_append, List.append_nil]
  rw [htext, hread]
  simp only [String.ofList_toList, List.append_nil]
  rfl

/-! ## The table -/

def analysisEntries (place : Nat → Span) (s : AnalysisSettings) : List (Key × Item) :=
  (s.enabled.toList.map fun b => (⟨"enabled", place 11⟩, .scalar (place 12) (.boolean b))) ++
    s.settingsPath.toList.map fun p => (⟨"settingsPath", place 13⟩, .scalar (place 14) (.string p))

def tableAt (place : Nat → Span) (parserSpan outputSpan analysisSpan : Option Span) (c : Config) : Table :=
  .mk .header none [
    (⟨"parser", place 0⟩, .table (.mk .header parserSpan
      [(⟨"max_file_size_mb", place 2⟩, .scalar (place 3) (.integer c.parser.maxFileSizeMb.toNat))])),
    (⟨"output", place 4⟩, .table (.mk .header outputSpan
      [(⟨"format", place 6⟩, .scalar (place 7) (.string c.output.format))])),
    (⟨"settings", place 8⟩, .table (.mk .implied none
      [(⟨"analysis", place 9⟩, .table (.mk .header analysisSpan (analysisEntries place c.settings.analysis)))]))]

theorem ofText?_written (c : Config) :
    ∃ place parserSpan outputSpan analysisSpan,
      Table.ofText? (written c) = some (tableAt place parserSpan outputSpan analysisSpan c) := by
  obtain ⟨place, hread⟩ := readStatements_written c
  have htable : ∃ parserSpan outputSpan analysisSpan,
      Table.ofStatements (statementsAt place c) = some (tableAt place parserSpan outputSpan analysisSpan c) := by
    obtain ⟨parser, output, ⟨⟨enabled, path⟩⟩⟩ := c
    cases enabled <;> cases path <;> exact ⟨_, _, _, rfl⟩
  rw [Table.ofText?, hread]
  exact ⟨place, htable⟩

end Toml

/-! ## What the table is decoded to -/

theorem ParserConfig.decode_entry (c : ParserConfig) (origin : Origin) (s : Option Span) (k v : Span) :
    decode Toml.format (.table (.mk origin s [(⟨"max_file_size_mb", k⟩, .scalar v (.integer c.maxFileSizeMb.toNat))])) =
      .ok c := by
  have hword : Decoder.word (.scalar v (.integer c.maxFileSizeMb.toNat)) = .ok c.maxFileSizeMb.toNat := by
    have hlt := c.maxFileSizeMb.toNat_lt
    rw [Decoder.word, if_pos ⟨by omega, by exact_mod_cast hlt⟩]
    rfl
  have hfinish : (⟨c.maxFileSizeMb.toNat.toUInt32⟩ : ParserConfig) = c := by simp
  have hentries : ofEntries (shape Toml.format) {}
      [(⟨"max_file_size_mb", k⟩, .scalar v (.integer c.maxFileSizeMb.toNat))] = .ok c := by
    refine (ofEntries_cons rfl rfl (decode_defaulted_of_ok hword _)).trans ?_
    exact congrArg Except.ok hfinish
  rw [show ParserConfig.decode Toml.format = record (shape Toml.format) from rfl]
  exact record_table hentries

theorem OutputConfig.decode_entry (c : OutputConfig) (origin : Origin) (s : Option Span) (k v : Span) :
    decode Toml.format (.table (.mk origin s [(⟨"format", k⟩, .scalar v (.string c.format))])) = .ok c :=
  rfl

theorem ServerSettings.decode_entry (s : ServerSettings) (origin inner : Origin) (span span' : Option Span) (k : Span)
    (place : Nat → Span) :
    decode Toml.format (.table (.mk origin span
      [(⟨"analysis", k⟩, .table (.mk inner span' (Toml.analysisEntries place s.analysis)))])) = .ok s := by
  obtain ⟨⟨enabled, path⟩⟩ := s
  cases enabled <;> cases path <;> rfl

theorem ofEntries_tableAt {α : Type} {s : Shape Config.Gathered α Item Fault}
    (hfields : s.fields = Config.fields Toml.format) (place : Nat → Span)
    (parserSpan outputSpan analysisSpan : Option Span) (c : Config) :
    ofEntries s {} (tableAt place parserSpan outputSpan analysisSpan c).entries =
      conclude s ⟨some c.parser, some c.output, some c.settings⟩ := by
  have hparser := c.parser.decode_entry .header parserSpan (place 2) (place 3)
  have houtput := c.output.decode_entry .header outputSpan (place 6) (place 7)
  have hsettings := c.settings.decode_entry .implied .header none analysisSpan (place 9) place
  have hfield : ∀ k, s.field? k = (Config.fields Toml.format).find? fun f => f.names.contains k := by
    intro k
    rw [Shape.field?, hfields]
  refine (ofEntries_cons (hfield "parser") rfl (decode_defaulted_of_ok hparser _)).trans ?_
  refine (ofEntries_cons (hfield "output") rfl (decode_defaulted_of_ok houtput _)).trans ?_
  exact ofEntries_cons (hfield "settings") rfl (decode_defaulted_of_ok hsettings _)

/-- The table of a configuration holds every section, so nothing is left to a default or to a lower layer. -/
theorem decode_tableAt (place : Nat → Span) (parserSpan outputSpan analysisSpan : Option Span) (c : Config) :
    Config.decode Toml.format (.table (tableAt place parserSpan outputSpan analysisSpan c)) = .ok c ∧
      ConfigLayer.decode Toml.format (.table (tableAt place parserSpan outputSpan analysisSpan c)) =
        .ok ⟨some c.parser, some c.output, some c.settings⟩ := by
  rw [show Config.decode Toml.format = record (Config.shape Toml.format) from rfl,
    show ConfigLayer.decode Toml.format = record (ConfigLayer.shape Toml.format) from rfl]
  exact ⟨record_table (ofEntries_tableAt rfl place parserSpan outputSpan analysisSpan c),
    record_table (ofEntries_tableAt rfl place parserSpan outputSpan analysisSpan c)⟩

theorem decode_written (c : Config) :
    ofText (Config.decode Toml.format) (Toml.written c) = .ok c ∧
      ofText (ConfigLayer.decode Toml.format) (Toml.written c) =
        .ok ⟨some c.parser, some c.output, some c.settings⟩ := by
  obtain ⟨place, parserSpan, outputSpan, analysisSpan, htable⟩ := ofText?_written c
  obtain ⟨hconfig, hlayer⟩ := decode_tableAt place parserSpan outputSpan analysisSpan c
  rw [ofText, ofText, htable]
  simp only [hconfig, hlayer]
  exact ⟨rfl, rfl⟩

namespace Config

/-! ## Loading -/

def Unset (w : Surroundings) : Prop :=
  w.environment.lookup formatVariable = none ∧ w.environment.lookup sizeVariable = none

variable {w : Surroundings} {places : ConfigPlaces} {d : Disk} {base : Config}

theorem load_project_written (c : Config) (hunset : Unset w)
    (hshared : ((load w.host places .shared).run.run d).1 = .ok base)
    (hproject : places.seen w.here .project d = some (.text (Toml.written c))) :
    (load w.host places .project).run.run d = (.ok c, d) := by
  have hbase : (loadShared w.host places).run.run d = (.ok base, d) :=
    ((w.looks_load places .shared).run_eq d).trans (congrArg (·, d) hshared)
  have hlayer := readLayer_run w (ConfigLayer.decode Toml.format) (places.path .project) d
  obtain ⟨-, hdecode⟩ := decode_written c
  unfold ConfigPlaces.seen at hproject
  rw [hproject] at hlayer
  simp only [layer, Entry.read, hdecode] at hlayer
  have hall : (base.overlay ⟨some c.parser, some c.output, some c.settings⟩).override
      (w.environment.lookup formatVariable) (w.environment.lookup sizeVariable) = c := by
    rw [hunset.1, hunset.2]
    rfl
  unfold load loadProject
  rw [bind_run_of_ok hbase, bind_run_of_ok hlayer]
  exact congrArg (fun c => (Except.ok c, d)) hall

/-- The text of a configuration is decoded to this configuration. As the file of a project it hides whatever can be
loaded below it, and so a project whose file was made has the defaults. -/
theorem load_written :
    (∀ c : Config, ofText (Config.decode Toml.format) (Toml.written c) = .ok c) ∧
      (∀ (c : Config) (w : Surroundings) (places : ConfigPlaces) (d : Disk) (base : Config), Unset w →
        ((load w.host places .shared).run.run d).1 = .ok base →
        places.seen w.here .project d = some (.text (Toml.written c)) →
        (load w.host places .project).run.run d = (.ok c, d)) ∧
      ∀ (w : Surroundings) (places : ConfigPlaces) (d : Disk) (base : Config) (force : Bool) (path : String), Unset w →
        (w.create places .project force d).1 = .ok path →
        ((load w.host places .shared).run.run (w.create places .project force d).2).1 = .ok base →
        ((load w.host places .project).run.run (w.create places .project force d).2).1 = .ok {} := by
  refine ⟨fun c => (decode_written c).1, fun c w places d base hunset hshared hproject => ?_, ?_⟩
  · exact load_project_written c hunset hshared hproject
  · intro w places d base force path hunset hok hshared
    rw [load_project_written {} hunset hshared (Surroundings.seen_of_create hok)]

def quoted : Config :=
  ⟨⟨0⟩, ⟨"'a\"\n"⟩, ⟨⟨none, some "b"⟩⟩⟩

/-- It hides the format of the file for all projects, and is hidden itself once the file is made anew. -/
theorem load_written_quoted :
    let w : Surroundings := ⟨"/w", []⟩
    let places : ConfigPlaces := ⟨"/w/.scriptnav", "/c/scriptnav"⟩
    let d := twoFiles "[output]\nformat = 'compact'\n" (Toml.written quoted)
    ofText (Config.decode Toml.format) (Toml.written quoted) = .ok quoted ∧
      (load w.host places .project).run.run d = (.ok quoted, d) ∧
      ((load w.host places .project).run.run (w.create places .project true d).2).1 = .ok {} := by
  intro w places d
  refine ⟨load_written.1 quoted, ?_, ?_⟩
  · exact load_written.2.1 quoted w places d ⟨{}, ⟨"compact"⟩, {}⟩ ⟨rfl, rfl⟩
      (eq_ok_of_toOption (by decide +kernel)) (by decide +kernel)
  · exact load_written.2.2 w places d ⟨{}, ⟨"compact"⟩, {}⟩ true (places.path .project) ⟨rfl, rfl⟩
      (eq_ok_of_toOption (by decide +kernel)) (eq_ok_of_toOption (by decide +kernel))

end Config

end ShellDecl
