import ShellDecl.Proofs.Declaration.Search
import ShellDecl.Proofs.Session.CommandLine
import ShellDecl.Proofs.Session.Looking
import ShellDecl.Proofs.Shell.Referent

/-!
# Lookups by cursor and by name

A symbol under a cursor is looked up by its kind and its text alone. So a lookup by name gives what the cursor gives, in
a document, in a file and on the command line, whatever path the file is named by.
-/

set_option autoImplicit false

namespace ShellDecl

open Shell

def Json.get? : Json → String → Option Json
  | .obj members, key => members.lookup key
  | _, _ => none

/-- Two answers to lookups say the same: what was found, or why nothing could be looked up. -/
def Json.SameLookup (a b : Json) : Prop :=
  (∃ found, a.get? "found" = some (.bool found) ∧ b.get? "found" = some (.bool found) ∧
    a.get? "declaration" = b.get? "declaration") ∨
  (∃ message, a.get? "error" = some (.str message) ∧ b.get? "error" = some (.str message))

theorem Symbol.sought_named (kind : SymbolKind) (name : String) : (Symbol.named kind name).sought = name := by
  rw [Symbol.sought]
  exact ite_self _

theorem SymbolKind.ofText?_name (k : SymbolKind) : SymbolKind.ofText? k.name = some k := by
  cases k <;> decide

namespace Shell

theorem symbolAt?_displayName {source : String} {root : Node} {line column : Nat} {query : Symbol}
    (h : symbolAt? source root line column = some query) : query.displayName = query.extent.text := by
  rcases symbolAt?_eq_some h with ⟨p, kind, n, -, -, rfl⟩
  rfl

namespace Document

variable {d : Document} {line column : Nat} {query : Symbol}

theorem name_of_symbolAt? (h : d.symbolAt? line column = some query) : query.name = query.extent.text := by
  have hdisplay := symbolAt?_displayName h
  rw [Symbol.name]
  split
  · rfl
  · exact hdisplay

theorem sought_of_symbolAt? (h : d.symbolAt? line column = some query) : query.sought = query.extent.text := by
  have hdisplay := symbolAt?_displayName h
  rw [Symbol.sought]
  split
  · exact hdisplay
  · rfl

/-- A cursor leads where the kind and the text of the symbol under it lead. -/
theorem definitionAt_eq_named (h : d.symbolAt? line column = some query) :
    d.definitionAt line column =
      (d.declarationOf (.named query.kind query.extent.text)).map (⟨some query, ·⟩) := by
  have hsought : query.sought = (Symbol.named query.kind query.extent.text).sought := by
    rw [sought_of_symbolAt? h, Symbol.sought_named]
  have hsame : d.declarationOf query = d.declarationOf (.named query.kind query.extent.text) :=
    @findDeclaration_congr query (.named query.kind query.extent.text) rfl hsought d.script
  simp only [definitionAt, h, hsame]

end Document

end Shell

namespace Surroundings

variable (w : Surroundings)

def documentAt (limit : Nat) (path : String) (disk : Disk) : Except SourceError Document :=
  ((readDocument w.host limit path).run.run disk).1

def resolved (path : String) (disk : Disk) : Except FileError String :=
  ((w.host.resolve path).run.run disk).1

def session (disk : Disk) : Session :=
  ((Session.start w.host).run disk).1

variable {w} {disk : Disk} {limit : Nat} {path file : String}

theorem inFile_run {α : Type} (ask : Document → Except FinderError α) :
    (Lookup.inFile w.host limit path ask).run.run disk =
      ((match w.documentAt limit path disk with
        | .ok d => (ask d).mapError .finder
        | .error e => .error (.source e)), disk) := by
  rw [Lookup.inFile, Looks.bindExcept_run ((w.looks_readDocument limit path).adapt _), adapt_run, documentAt]
  cases ((readDocument w.host limit path).run.run disk).1 <;> rfl

/-- From a cursor on a symbol of a script, and by the kind and the text of that symbol, the same comes of a file. -/
theorem lookups_agree {d : Document} {line column : Nat} {query : Symbol}
    (hdoc : w.documentAt limit path disk = .ok d) (hquery : d.symbolAt? line column = some query) :
    ∃ r : Except LookupError (Option Symbol),
      (Lookup.definitionAt w.host limit path line column).run.run disk = (r.map (⟨some query, ·⟩), disk) ∧
      (Lookup.declarationOf w.host limit path (.named query.kind query.extent.text)).run.run disk = (r, disk) := by
  refine ⟨(d.declarationOf (.named query.kind query.extent.text)).mapError .finder, ?_, ?_⟩
  · rw [Lookup.definitionAt, inFile_run, hdoc]
    simp only [Document.definitionAt_eq_named hquery]
    cases d.declarationOf (.named query.kind query.extent.text) <;> rfl
  · rw [Lookup.declarationOf, inFile_run, hdoc]

theorem looks_definitionAt (limit : Nat) (path : String) (line column : Nat) :
    Looks (Lookup.definitionAt w.host limit path line column).run :=
  Looks.bindExcept ((w.looks_readDocument limit path).adapt _) fun _ => Looks.pure _

theorem looks_declarationOf (limit : Nat) (path : String) (query : Symbol) :
    Looks (Lookup.declarationOf w.host limit path query).run :=
  Looks.bindExcept ((w.looks_readDocument limit path).adapt _) fun _ => Looks.pure _

theorem resolve_run (hpath : w.resolved path disk = .ok file) :
    (w.host.resolve path).run.run disk = (.ok file, disk) := by
  have hlooks : Looks (w.host.resolve path).run := Looks.asking _
  rw [hlooks.run_eq disk]
  exact congrArg (·, disk) hpath

theorem definition_run (s : Session) {location : String} {place : Location}
    (hplace : Location.ofText location = .ok place)
    (hpath : w.resolved (Path.join w.directory place.file) disk = .ok path) :
    (s.definition w.host location).run.run disk =
      (.ok (Session.settled LookupError.message
        (fun l => (DeclarationReport.ofLookup l (s.shown path) place.line place.column).members)
        ((Lookup.definitionAt w.host s.limit path place.line place.column).run.run disk).1), disk) := by
  have hread : ((ExceptT.mk (pure (Location.ofText location)) : ExceptT LocationError OnDisk Location).adapt
      LocationError.message).run.run disk = (.ok place, disk) := by
    rw [hplace]
    rfl
  have hresolve : ((place.resolve w.host).adapt LocationError.message).run.run disk =
      (.ok { place with file := path }, disk) := by
    have hfile : ((w.host.resolve (Path.join w.directory place.file)).adapt
        fun _ => LocationError.fileNotFound place.file).run.run disk = (.ok path, disk) := by
      rw [adapt_run, resolve_run hpath]
      rfl
    have hhere : (liftM w.host.currentDirectory : ExceptT LocationError OnDisk String).run.run disk =
        (.ok w.directory, disk) := rfl
    rw [adapt_run, Location.resolve, bind_run_of_ok hhere, bind_run_of_ok hfile]
    rfl
  have hlook : (liftM (Lookup.definitionAt w.host s.limit path place.line place.column).run :
      ExceptT String OnDisk (Except LookupError Lookup)).run.run disk =
      (.ok ((Lookup.definitionAt w.host s.limit path place.line place.column).run.run disk).1, disk) :=
    (Looks.lift (looks_definitionAt s.limit path place.line place.column)).run_eq disk
  rw [Session.definition, bind_run_of_ok hread, bind_run_of_ok hresolve, bind_run_of_ok hlook]
  rfl

theorem declaration_run (s : Session) {name kindText : String} {kind : SymbolKind}
    (hkind : SymbolKind.ofText? kindText = some kind) (hpath : w.resolved file disk = .ok path) :
    (s.declaration w.host file name kindText).run.run disk =
      (.ok (Session.settled LookupError.message
        (fun d => (DeclarationReport.ofDeclaration d kind name (s.shown path)).members)
        ((Lookup.declarationOf w.host s.limit path (.named kind name)).run.run disk).1), disk) := by
  have hfile : ((w.host.resolve file).adapt fun _ => (LocationError.fileNotFound file).message).run.run disk =
      (.ok path, disk) := by
    rw [adapt_run, resolve_run hpath]
    rfl
  have hlook : (liftM (Lookup.declarationOf w.host s.limit path (.named kind name)).run :
      ExceptT String OnDisk (Except LookupError (Option Symbol))).run.run disk =
      (.ok ((Lookup.declarationOf w.host s.limit path (.named kind name)).run.run disk).1, disk) :=
    (Looks.lift (looks_declarationOf s.limit path _)).run_eq disk
  rw [Session.declaration, hkind]
  simp only
  rw [bind_run_of_ok hfile, bind_run_of_ok hlook]
  rfl

theorem sameLookup_of_found (query : Symbol) (found : Option Symbol) (name shown : String) (line column : Nat) :
    (Answer.toJson (.success (DeclarationReport.ofLookup ⟨some query, found⟩ shown line column).members)).SameLookup
      (Answer.toJson (.success (DeclarationReport.ofDeclaration found query.kind name shown).members)) := by
  left
  refine ⟨found.isSome, ?_⟩
  cases found <;>
    simp [Answer.toJson, Json.get?, DeclarationReport.members, DeclarationReport.found, DeclarationReport.ofLookup,
      DeclarationReport.ofDeclaration, Json.member, List.lookup_cons]

theorem sameLookup_of_refusal (message : String) :
    (Answer.toJson (.refusal message)).SameLookup (Answer.toJson (.refusal message)) :=
  Or.inr ⟨message, by simp [Answer.toJson, Json.get?, List.lookup_cons]⟩

/-- In one session, the answer from a cursor on a symbol and the answer by the name of that symbol say the same. -/
theorem answers_agree (s : Session) {location file path : String} {place : Location} {query : Symbol}
    (hplace : Location.ofText location = .ok place)
    (hpath : w.resolved (Path.join w.directory place.file) disk = .ok path) (hfile : w.resolved file disk = .ok path)
    (hquery : ∀ d, w.documentAt s.limit path disk = .ok d → d.symbolAt? place.line place.column = some query) :
    ∃ a b, (s.answer w.host (.definition location)).run.run disk = (.ok a, disk) ∧
      (s.answer w.host (.declaration file query.name query.kind.name)).run.run disk = (.ok b, disk) ∧
      a.toJson.SameLookup b.toJson := by
  refine ⟨_, _, definition_run s hplace hpath, declaration_run s (SymbolKind.ofText?_name query.kind) hfile, ?_⟩
  cases hdoc : w.documentAt s.limit path disk with
  | error e =>
    simp only [Lookup.definitionAt, Lookup.declarationOf, inFile_run, hdoc]
    exact sameLookup_of_refusal _
  | ok d =>
    have hsymbol := hquery d hdoc
    rcases lookups_agree hdoc hsymbol with ⟨r, hcursor, hname⟩
    rw [Document.name_of_symbolAt? hsymbol, hcursor, hname]
    cases r with
    | error e => exact sameLookup_of_refusal _
    | ok found => exact sameLookup_of_found query found _ _ _ _

theorem finish_run {s : Session} {r : Request} {format : Option String} {a : Answer}
    (ha : (s.answer w.host r).run.run disk = (.ok a, disk)) :
    (Invocation.run.finish w.host ⟨r, format⟩ s).run disk = (.answered s.format a, disk) := by
  rw [Invocation.run.finish, StateT.run_bind, ha]
  rfl

/-- Runs agree if the answers of their session do, whatever format is asked for. -/
theorem runs_agree {s : Session} {r r' : Request} (hstart : (Session.start w.host).run disk = (s, disk))
    (h : ∀ f : OutputFormat, ∃ a b, (({ s with format := f } : Session).answer w.host r).run.run disk = (.ok a, disk) ∧
      (({ s with format := f } : Session).answer w.host r').run.run disk = (.ok b, disk) ∧
      a.toJson.SameLookup b.toJson) (format : Option String) :
    ∃ o o', (Invocation.run w.host ⟨r, format⟩).run disk = (o, disk) ∧
      (Invocation.run w.host ⟨r', format⟩).run disk = (o', disk) ∧
      o.exitCode = o'.exitCode ∧ o.format = o'.format ∧ o.printed.SameLookup o'.printed := by
  have hfinish : ∀ f : OutputFormat, ∃ o o',
      (Invocation.run.finish w.host ⟨r, format⟩ { s with format := f }).run disk = (o, disk) ∧
      (Invocation.run.finish w.host ⟨r', format⟩ { s with format := f }).run disk = (o', disk) ∧
      o.exitCode = o'.exitCode ∧ o.format = o'.format ∧ o.printed.SameLookup o'.printed := by
    intro f
    rcases h f with ⟨a, b, ha, hb, hsame⟩
    exact ⟨_, _, finish_run ha, finish_run hb, rfl, rfl, hsame⟩
  rw [Invocation.run, Invocation.run, StateT.run_bind, StateT.run_bind, hstart]
  cases format with
  | none => exact hfinish s.format
  | some text =>
    cases hread : OutputFormat.ofText? text with
    | none =>
      simp only [Option.map_some, hread]
      exact ⟨_, _, rfl, rfl, rfl, rfl, sameLookup_of_refusal _⟩
    | some f =>
      simp only [Option.map_some, hread]
      exact hfinish f

end Surroundings

/-- What a command line leads to. -/
def Surroundings.command (w : Surroundings) (args : List String) (disk : Disk) : Except Stop (Outcome × Disk) :=
  (Invocation.ofArguments args).map fun i => (i.run w.host).run disk

theorem Surroundings.command_eq_ok {w : Surroundings} {args : List String} {i : Invocation} {disk : Disk} {o : Outcome}
    (hargs : Invocation.ofArguments args = .ok i) (hrun : (i.run w.host).run disk = (o, disk)) :
    w.command args disk = .ok (o, disk) := by
  rw [command, hargs, ← hrun]
  rfl

/-- Lookups from a cursor and lookups by name agree: a lookup depends on the kind and the sought text of a query alone,
so a script gives for the symbol under a cursor what it gives for a query by the kind and the text of that symbol, and
the two commands print the same declaration or the same error for any paths that lead to one file. The command lines may
have any form that is read as the two requests. A name that begins with a dash has to be attached to its switch. -/
theorem cursor_agrees_with_name :
    (∀ (root : Script) (query other : Symbol), query.kind = other.kind → query.sought = other.sought →
      findDeclaration root query = findDeclaration root other) ∧
    (∀ (w : Surroundings) (disk : Disk) (limit : Nat) (path : String) (d : Document) (line column : Nat)
      (query : Symbol), w.documentAt limit path disk = .ok d → d.symbolAt? line column = some query →
      ∃ r : Except LookupError (Option Symbol),
        (Lookup.definitionAt w.host limit path line column).run.run disk = (r.map (⟨some query, ·⟩), disk) ∧
        (Lookup.declarationOf w.host limit path (.named query.kind query.extent.text)).run.run disk = (r, disk)) ∧
    ∀ (w : Surroundings) (disk : Disk) (location file path : String) (place : Location) (query : Symbol),
      Location.ofText location = .ok place →
      w.resolved (Path.join w.directory place.file) disk = .ok path → w.resolved file disk = .ok path →
      (∀ d, w.documentAt (w.session disk).limit path disk = .ok d → d.symbolAt? place.line place.column = some query) →
      (∀ (args args' : List String) (format : Option String),
        Invocation.ofArguments args = .ok ⟨.definition location, format⟩ →
        Invocation.ofArguments args' = .ok ⟨.declaration file query.name query.kind.name, format⟩ →
        ∃ o o', w.command args disk = .ok (o, disk) ∧ w.command args' disk = .ok (o', disk) ∧
          o.exitCode = o'.exitCode ∧ o.format = o'.format ∧ o.printed.SameLookup o'.printed) ∧
      (isPlain location = true → isPlain file = true →
        ∃ o o', w.command ["def", location] disk = .ok (o, disk) ∧
          w.command ["decl", file, "--kind", query.kind.name, "--name=" ++ query.name] disk = .ok (o', disk) ∧
          w.command ["decl", file, "--kind", query.kind.name, "--name", query.name] disk =
            (if isPlain query.name then .ok (o', disk) else .error .misuse) ∧
          o.exitCode = o'.exitCode ∧ o.format = o'.format ∧ o.printed.SameLookup o'.printed) := by
  refine ⟨fun root query other hkind hsought => findDeclaration_congr hkind hsought root, ?_, ?_⟩
  · intro w disk limit path d line column query hdoc hquery
    exact Surroundings.lookups_agree hdoc hquery
  · intro w disk location file path place query hplace hpath hfile hquery
    have hagree : ∀ format, ∃ o o', (Invocation.run w.host ⟨.definition location, format⟩).run disk = (o, disk) ∧
        (Invocation.run w.host ⟨.declaration file query.name query.kind.name, format⟩).run disk = (o', disk) ∧
        o.exitCode = o'.exitCode ∧ o.format = o'.format ∧ o.printed.SameLookup o'.printed := by
      have hstart : (Session.start w.host).run disk = (w.session disk, disk) := w.looks_start.run_eq disk
      generalize w.session disk = s at hstart hquery
      exact Surroundings.runs_agree hstart fun f => Surroundings.answers_agree _ hplace hpath hfile hquery
    constructor
    · intro args args' format hargs hargs'
      rcases hagree format with ⟨o, o', ho, ho', hsame⟩
      exact ⟨o, o', Surroundings.command_eq_ok hargs ho, Surroundings.command_eq_ok hargs' ho', hsame⟩
    · intro hlocation hspelled
      rcases hagree none with ⟨o, o', ho, ho', hsame⟩
      have hkind : isPlain query.kind.name = true := by cases query.kind <;> decide
      have hdecl := Invocation.ofArguments_decl_attached hspelled hkind query.name
      refine ⟨o, o', Surroundings.command_eq_ok (Invocation.ofArguments_def hlocation) ho,
        Surroundings.command_eq_ok hdecl ho', ?_, hsame⟩
      have hseparate := Invocation.ofArguments_decl hspelled hkind query.name
      by_cases hname : isPlain query.name = true
      · rw [if_pos hname] at hseparate ⊢
        exact Surroundings.command_eq_ok hseparate ho'
      · rw [if_neg hname] at hseparate ⊢
        rw [Surroundings.command, hseparate]
        rfl

def oneScript : Disk :=
  (Disk.empty.set ["work"] .directory).set ["work", "a.sh"] (.text "x=1\n")

/-- `def a.sh:1:1` and `decl /work//a.sh --kind variable --name x` print the same. -/
theorem cursor_agrees_with_name_oneScript :
    let w : Surroundings := { directory := "/work" }
    Location.ofText "a.sh:1:1" = .ok ⟨"a.sh", 1, 1⟩ ∧
    w.resolved (Path.join w.directory "a.sh") oneScript = .ok "/work/a.sh" ∧
    w.resolved "/work//a.sh" oneScript = .ok "/work/a.sh" ∧
    ∃ o o', w.command ["def", "a.sh:1:1"] oneScript = .ok (o, oneScript) ∧
      w.command ["decl", "/work//a.sh", "--kind", "variable", "--name", "x"] oneScript = .ok (o', oneScript) ∧
      o.printed.SameLookup o'.printed := by
  intro w
  have hplace : Location.ofText "a.sh:1:1" = .ok ⟨"a.sh", 1, 1⟩ := by decide +kernel
  have hpath : w.resolved (Path.join w.directory "a.sh") oneScript = .ok "/work/a.sh" := by decide +kernel
  have hfile : w.resolved "/work//a.sh" oneScript = .ok "/work/a.sh" := by decide +kernel
  have hquery : ∀ d, w.documentAt (w.session oneScript).limit "/work/a.sh" oneScript = .ok d →
      d.symbolAt? 1 1 = some ⟨.var, ⟨⟨1, 1⟩, ⟨1, 2⟩, "x"⟩, "x"⟩ := by
    intro d hd
    have hsymbol : (w.documentAt (w.session oneScript).limit "/work/a.sh" oneScript).map (·.symbolAt? 1 1) =
        .ok (some ⟨.var, ⟨⟨1, 1⟩, ⟨1, 2⟩, "x"⟩, "x"⟩) := by decide +kernel
    rw [hd] at hsymbol
    exact Except.ok.inj hsymbol
  rcases (cursor_agrees_with_name.2.2 w oneScript "a.sh:1:1" "/work//a.sh" "/work/a.sh" ⟨"a.sh", 1, 1⟩ _ hplace
    hpath hfile hquery).2 (by decide) (by decide) with ⟨o, o', ho, -, ho', -, -, hsame⟩
  exact ⟨hplace, hpath, hfile, o, o', ho, ho', hsame⟩

def dashedScript : Disk :=
  (Disk.empty.set ["work"] .directory).set ["work", "a.sh"] (.text "-x\n")

/-- Not every symbol under a cursor can be asked for by `--name` and its name. -/
theorem not_always_agrees_with_name :
    ¬ ∀ (w : Surroundings) (disk : Disk) (location file path : String) (place : Location) (query : Symbol),
      isPlain location = true → isPlain file = true → Location.ofText location = .ok place →
      w.resolved (Path.join w.directory place.file) disk = .ok path → w.resolved file disk = .ok path →
      (∀ d, w.documentAt (w.session disk).limit path disk = .ok d → d.symbolAt? place.line place.column = some query) →
      ∃ o o', w.command ["def", location] disk = .ok (o, disk) ∧
        w.command ["decl", file, "--kind", query.kind.name, "--name", query.name] disk = .ok (o', disk) ∧
        o.printed.SameLookup o'.printed := by
  intro hall
  let w : Surroundings := { directory := "/work" }
  let query : Symbol := ⟨.function, ⟨⟨1, 1⟩, ⟨1, 3⟩, "-x"⟩, "-x"⟩
  have hpath : w.resolved (Path.join w.directory "a.sh") dashedScript = .ok "/work/a.sh" := by decide +kernel
  have hfile : w.resolved "a.sh" dashedScript = .ok "/work/a.sh" := by decide +kernel
  have hquery : ∀ d, w.documentAt (w.session dashedScript).limit "/work/a.sh" dashedScript = .ok d →
      d.symbolAt? 1 1 = some query := by
    intro d hd
    have hsymbol : (w.documentAt (w.session dashedScript).limit "/work/a.sh" dashedScript).map (·.symbolAt? 1 1) =
        .ok (some query) := by decide +kernel
    rw [hd] at hsymbol
    exact Except.ok.inj hsymbol
  have hrefused : Invocation.ofArguments ["decl", "a.sh", "--kind", "function", "--name", "-x"] = .error .misuse :=
    Invocation.ofArguments_decl rfl rfl "-x"
  rcases hall w dashedScript "a.sh:1:1" "a.sh" "/work/a.sh" ⟨"a.sh", 1, 1⟩ query rfl rfl (by decide +kernel) hpath hfile
    hquery with ⟨o, o', -, hdecl, -⟩
  have hname : query.name = "-x" ∧ query.kind.name = "function" := by decide
  rw [hname.1, hname.2, Surroundings.command, hrefused] at hdecl
  contradiction

end ShellDecl
