import ShellDecl.Proofs.Session.Ending

/-!
# Answers to lookups

An answer is put together from two parts that may be missing, the symbol and its declaration. The flag and the message
of an answer follow from them. A declaration has no name of its own, so that it is shown by its text, and this is the
text that was looked for: the name of the symbol under the cursor, or the name that was asked for.
-/

set_option autoImplicit false

namespace ShellDecl

open Shell

/-- An object shows a symbol of a file: its kind and its name, and the lines and columns of its extent. -/
structure Json.Shows (file : String) (o : Json) (s : Symbol) : Prop where
  kind : o.get? "kind" = some (.str s.kind.name)
  name : o.get? "name" = some (.str s.name)
  file : o.get? "file" = some (.str file)
  line : o.get? "line" = some (.nat s.extent.start.line)
  column : o.get? "column" = some (.nat s.extent.start.column)
  endLine : o.get? "end_line" = some (.nat s.extent.stop.line)
  endColumn : o.get? "end_column" = some (.nat s.extent.stop.column)

/-- The parts of an object fit together: it is flagged as found exactly if it holds a declaration, and exactly if it
holds no message. -/
structure Json.Coherent (o : Json) : Prop where
  flag : ∃ found, o.get? "found" = some (.bool found)
  declaration : o.get? "found" = some (.bool true) ↔ (o.get? "declaration").isSome = true
  message : o.get? "found" = some (.bool true) ↔ o.get? "message" = none

/-- A coherent object tells what a lookup was about and what it found, as far as there is something to show. -/
structure Json.Tells (file : String) (o : Json) (symbol found : Option Symbol) : Prop where
  coherent : o.Coherent
  symbol : Option.Rel (Json.Shows file) (o.get? "symbol") symbol
  declaration : Option.Rel (Json.Shows file) (o.get? "declaration") found

/-- A symbol answers a query for a kind and a name: it is of the kind and has the name, though not as a display name. -/
structure Symbol.Answers (kind : SymbolKind) (name : String) (s : Symbol) : Prop where
  kind : s.kind = kind
  name : s.name = name
  unnamed : s.displayName = ""

/-! ## Members in the order of their keys -/

namespace Json

theorem lookup_cons (k : String) (v : Json) (ms : List (String × Json)) (key : String) :
    ((k, v) :: ms).lookup key = if key = k then some v else ms.lookup key := by
  rw [List.lookup_cons]
  by_cases hkey : key = k
  · simp [hkey]
  · simp [hkey, beq_eq_false_iff_ne.mpr hkey]

theorem lookup_member {α : Type} (k : String) (write : α → Json) (a : Option α) (key : String) :
    (Json.member k write a).lookup key = if key = k then a.map write else none := by
  cases a with
  | none => simp [Json.member]
  | some a => exact lookup_cons k (write a) [] key

theorem lookup_insertMember (k : String) (v : Json) (ms : List (String × Json)) (key : String) :
    (insertMember k v ms).lookup key = if key = k then some v else ms.lookup key := by
  induction ms with
  | nil => exact lookup_cons k v [] key
  | cons m ms ih =>
    rcases m with ⟨k', v'⟩
    rw [insertMember]
    by_cases hlt : k < k'
    · rw [if_pos hlt, lookup_cons]
    · by_cases heq : k = k'
      · rw [if_neg hlt, if_pos heq, lookup_cons, lookup_cons, ← heq]
        by_cases hkey : key = k <;> simp [hkey]
      · rw [if_neg hlt, if_neg heq, lookup_cons, lookup_cons, ih]
        by_cases hkey : key = k
        · simp [hkey, heq]
        · simp [hkey]

theorem lookup_sortedMembers (ms : List (String × Json)) (key : String) :
    (sortedMembers ms).lookup key = (ms.lookup key).map sorted := by
  induction ms with
  | nil => rfl
  | cons m ms ih =>
    rcases m with ⟨k, v⟩
    rw [sortedMembers, lookup_insertMember, lookup_cons, ih]
    by_cases hkey : key = k <;> simp [hkey]

/-- An object holds the same for a key when its members are put in order. -/
theorem get?_sorted (o : Json) (key : String) : o.sorted.get? key = (o.get? key).map sorted := by
  cases o with
  | obj members => exact lookup_sortedMembers members key
  | null => rfl
  | bool b => rfl
  | number digits => rfl
  | str s => rfl
  | arr items => rfl

end Json

/-! ## Reports -/

def SymbolReport.printed (r : SymbolReport) : Json :=
  r.toJson.sorted

theorem SymbolReport.shows (s : Symbol) (file : String) : (ofSymbol s file).printed.Shows file s := by
  constructor <;> rw [printed, Json.get?_sorted] <;>
    simp [ofSymbol, toJson, Json.get?, Json.lookup_cons, Json.sorted, Json.nat]

theorem SymbolReport.rel_shows (s : Option Symbol) (file : String) :
    Option.Rel (Json.Shows file) ((s.map (ofSymbol · file)).map printed) s := by
  cases s with
  | none => exact .none
  | some s => exact .some (shows s file)

theorem Json.exists_symbol {file : String} {o : Option Json} {s : Option Symbol} (h : Option.Rel (Json.Shows file) o s)
    {shown : Json} (hshown : shown ∈ o) : ∃ x ∈ s, shown.Shows file x := by
  cases h with
  | some hshows =>
    obtain rfl := Option.mem_some.mp hshown
    exact ⟨_, rfl, hshows⟩
  | none => cases hshown

theorem Json.exists_shown {file : String} {o : Option Json} {s : Option Symbol} (h : Option.Rel (Json.Shows file) o s)
    {x : Symbol} (hx : x ∈ s) : ∃ shown ∈ o, shown.Shows file x := by
  cases h with
  | some hshows =>
    obtain rfl := Option.mem_some.mp hx
    exact ⟨_, rfl, hshows⟩
  | none => cases hx

namespace DeclarationReport

variable (r : DeclarationReport)

def printed : Json :=
  (Answer.success r.members).toJson.sorted

theorem get?_printed :
    r.printed.get? "symbol" = r.symbol.map SymbolReport.printed ∧
      r.printed.get? "found" = some (.bool r.found) ∧
      r.printed.get? "declaration" = r.declaration.map SymbolReport.printed ∧
      r.printed.get? "message" = r.message.map Json.str := by
  have hprinted : SymbolReport.printed = Json.sorted ∘ SymbolReport.toJson := rfl
  have hmessage : Json.sorted ∘ Json.str = Json.str := funext fun _ => rfl
  simp only [printed, Json.get?_sorted]
  simp [Answer.toJson, members, Json.get?, List.lookup_append, Json.lookup_member, Json.lookup_cons, Json.sorted,
    hprinted, hmessage]

variable {r}

/-- A report is coherent if it has a message exactly where it has no declaration. -/
theorem coherent (h : r.message = none ↔ r.declaration.isSome = true) : r.printed.Coherent := by
  rcases r.get?_printed with ⟨-, hfound, hdeclaration, hmessage⟩
  have htrue : r.printed.get? "found" = some (.bool true) ↔ r.declaration.isSome = true := by
    rw [hfound, found]
    simp
  constructor
  · exact ⟨r.found, hfound⟩
  · rw [htrue, hdeclaration, Option.isSome_map]
  · rw [htrue, hmessage, Option.map_eq_none_iff, h]

end DeclarationReport

/-! ## Lookups in a document -/

theorem Symbol.name_of_unnamed {s : Symbol} (h : s.displayName = "") : s.name = s.extent.text := by
  rw [Symbol.name, h]
  rfl

theorem Symbol.name_named (kind : SymbolKind) (name : String) : (Symbol.named kind name).name = name := by
  rw [Symbol.name]
  exact ite_self _

namespace Shell.Document

variable {d : Document} {line column : Nat} {query found : Symbol}

theorem answers_of_declarationOf (hname : query.sought = query.name)
    (h : d.declarationOf query = .ok (some found)) : found.Answers query.kind query.name := by
  rcases findDeclaration_eq_some h with ⟨hkind, htext, hunnamed⟩
  exact ⟨hkind, by rw [Symbol.name_of_unnamed hunnamed, htext, hname], hunnamed⟩

/-- From a cursor, a declaration is found for a symbol only, and it answers this symbol. -/
theorem answers_of_definitionAt {looked : Lookup} (h : d.definitionAt line column = .ok looked) :
    ∀ found ∈ looked.declaration, ∃ query ∈ looked.query, found.Answers query.kind query.name := by
  intro found hfound
  rcases definitionAt_eq_ok h with rfl | ⟨query, _, hquery, hdecl, rfl⟩
  · cases hfound
  · obtain rfl := hfound
    have hname : query.sought = query.name := by rw [sought_of_symbolAt? hquery, name_of_symbolAt? hquery]
    exact ⟨query, rfl, answers_of_declarationOf hname hdecl⟩

theorem ofLookup_tells {looked : Lookup} (h : d.definitionAt line column = .ok looked) (file : String) :
    (DeclarationReport.ofLookup looked file line column).printed.Tells file looked.query looked.declaration := by
  have hmessage : (DeclarationReport.ofLookup looked file line column).message = none ↔
      looked.declaration.isSome = true := by
    rcases definitionAt_eq_ok h with rfl | ⟨query, found, -, -, rfl⟩
    · simp [DeclarationReport.ofLookup]
    · cases found <;> simp [DeclarationReport.ofLookup]
  rcases (DeclarationReport.ofLookup looked file line column).get?_printed with ⟨hsymbol, -, hdeclaration, -⟩
  constructor
  · apply DeclarationReport.coherent
    rw [hmessage, DeclarationReport.ofLookup, Option.isSome_map]
  · rw [hsymbol]
    exact SymbolReport.rel_shows looked.query file
  · rw [hdeclaration]
    exact SymbolReport.rel_shows looked.declaration file

end Shell.Document

theorem DeclarationReport.ofDeclaration_tells (found : Option Symbol) (kind : SymbolKind) (name file : String) :
    (ofDeclaration found kind name file).printed.Tells file none found := by
  rcases (ofDeclaration found kind name file).get?_printed with ⟨hsymbol, -, hdeclaration, -⟩
  constructor
  · apply coherent
    cases found <;> simp [ofDeclaration]
  · rw [hsymbol]
    exact .none
  · rw [hdeclaration]
    exact SymbolReport.rel_shows found file

/-! ## Runs -/

theorem Ending.ofService_eq_success {ε α : Type} {r : Except ε α} : ofService r = .success ↔ ∃ a, r = .ok a := by
  cases r <;> simp [ofService]

namespace Surroundings

variable {w : Surroundings} {disk : Disk} {request : Request} {format : Option String}

/-- The object that a run prints for a request, with its members in the order in which they are printed. -/
def printed (w : Surroundings) (disk : Disk) (request : Request) (format : Option String) : Json :=
  ((Invocation.run w.host ⟨request, format⟩).run disk).1.printed.sorted

theorem inFile_of_success {α : Type} {limit : Nat} {path : String} {ask : Document → Except FinderError α}
    (h : Ending.ofService ((Lookup.inFile w.host limit path ask).run.run disk).1 = .success) :
    ∃ document a, w.documentAt limit path disk = .ok document ∧ ask document = .ok a ∧
      ((Lookup.inFile w.host limit path ask).run.run disk).1 = .ok a := by
  rcases Ending.ofService_eq_success.mp h with ⟨a, ha⟩
  have hrun := ha
  rw [inFile_run] at hrun
  cases hdocument : w.documentAt limit path disk with
  | error e => simp [hdocument] at hrun
  | ok document =>
    simp only [hdocument] at hrun
    exact ⟨document, a, rfl, mapError_eq_ok.mp hrun, ha⟩

theorem printed_success_iff :
    (w.printed disk request format).get? "success" = some (.bool true) ↔
      Invocation.ending w disk ⟨request, format⟩ = .success := by
  rw [printed, Json.get?_sorted, (Invocation.run_ends w disk ⟨request, format⟩).1]
  simp [Json.sorted]

/-- A run that prints a success prints the answer of its session. -/
theorem printed_of_success (h : (w.printed disk request format).get? "success" = some (.bool true)) :
    (w.session disk).ending w disk request = .success ∧
      ∃ f, w.printed disk request format = (Outcome.of f
        ((({ w.session disk with format := f } : Session).answer w.host request).run.run disk).1).printed.sorted := by
  rw [printed_success_iff] at h
  rcases @Invocation.run_cases w disk ⟨request, format⟩ with ⟨hending, -⟩ | ⟨hending, f, hrun⟩
  · rw [h] at hending
    cases hending
  · exact ⟨hending.symm.trans h, f, congrArg (·.printed.sorted) hrun⟩

theorem definition_printed {location : String}
    (h : (w.printed disk (.definition location) format).get? "success" = some (.bool true)) :
    ∃ place path document looked, Location.ofText location = .ok place ∧
      w.resolved (Path.join w.directory place.file) disk = .ok path ∧
      w.documentAt (w.session disk).limit path disk = .ok document ∧
      document.definitionAt place.line place.column = .ok looked ∧
      w.printed disk (.definition location) format =
        (DeclarationReport.ofLookup looked ((w.session disk).shown path) place.line place.column).printed := by
  rcases printed_of_success h with ⟨hending, f, hprinted⟩
  generalize w.session disk = s at hending hprinted ⊢
  rw [Session.ending] at hending
  cases hplace : Location.ofText location with
  | error e => simp [hplace] at hending
  | ok place =>
    cases hpath : w.resolved (Path.join w.directory place.file) disk with
    | error e => simp [hplace, hpath] at hending
    | ok path =>
      simp only [hplace, hpath] at hending
      rcases inFile_of_success hending with ⟨document, looked, hdocument, hasked, hlooked⟩
      refine ⟨place, path, document, looked, rfl, hpath, hdocument, hasked, ?_⟩
      have hrun := definition_run { s with format := f } hplace hpath
      have hlimit : ({ s with format := f } : Session).limit = s.limit := rfl
      rw [hprinted, Session.answer, hrun, hlimit, Lookup.definitionAt, hlooked]
      rfl

theorem declaration_printed {file name kindText : String}
    (h : (w.printed disk (.declaration file name kindText) format).get? "success" = some (.bool true)) :
    ∃ kind path document found, SymbolKind.ofText? kindText = some kind ∧ w.resolved file disk = .ok path ∧
      w.documentAt (w.session disk).limit path disk = .ok document ∧
      document.declarationOf (.named kind name) = .ok found ∧
      w.printed disk (.declaration file name kindText) format =
        (DeclarationReport.ofDeclaration found kind name ((w.session disk).shown path)).printed := by
  rcases printed_of_success h with ⟨hending, f, hprinted⟩
  generalize w.session disk = s at hending hprinted ⊢
  rw [Session.ending] at hending
  cases hkind : SymbolKind.ofText? kindText with
  | none => simp [hkind] at hending
  | some kind =>
    cases hpath : w.resolved file disk with
    | error e => simp [hkind, hpath] at hending
    | ok path =>
      simp only [hkind, hpath] at hending
      rcases inFile_of_success hending with ⟨document, found, hdocument, hasked, hfound⟩
      refine ⟨kind, path, document, found, rfl, rfl, hdocument, hasked, ?_⟩
      have hrun : (({ s with format := f } : Session).declaration w.host file name kindText).run.run disk = _ :=
        declaration_run _ hkind hpath
      have hlimit : ({ s with format := f } : Session).limit = s.limit := rfl
      rw [hprinted, Session.answer, hrun, hlimit, Lookup.declarationOf, hfound]
      rfl

end Surroundings

/-- Every success that is printed for a lookup is coherent: it is flagged as found exactly if it holds a declaration and
exactly if it holds no message, it shows the extents of the symbol and of the declaration that the script gives, and the
declaration is of the kind and has the name of the symbol it was looked up for, or of the kind and the name that were
asked for, though it has no display name. -/
theorem lookups_coherent (w : Surroundings) (disk : Disk) (format : Option String) :
    (∀ location, let o := w.printed disk (.definition location) format
      o.get? "success" = some (.bool true) →
      ∃ place path document looked, Location.ofText location = .ok place ∧
        w.resolved (Path.join w.directory place.file) disk = .ok path ∧
        w.documentAt (w.session disk).limit path disk = .ok document ∧
        document.definitionAt place.line place.column = .ok looked ∧
        o.Tells ((w.session disk).shown path) looked.query looked.declaration ∧
        (∀ found ∈ looked.declaration, ∃ query ∈ looked.query, found.Answers query.kind query.name) ∧
        ∀ shown ∈ o.get? "declaration", ∃ symbol ∈ o.get? "symbol",
          shown.get? "kind" = symbol.get? "kind" ∧ shown.get? "name" = symbol.get? "name") ∧
    (∀ file name kindText, let o := w.printed disk (.declaration file name kindText) format
      o.get? "success" = some (.bool true) →
      ∃ kind path document found, SymbolKind.ofText? kindText = some kind ∧ w.resolved file disk = .ok path ∧
        w.documentAt (w.session disk).limit path disk = .ok document ∧
        document.declarationOf (.named kind name) = .ok found ∧
        o.Tells ((w.session disk).shown path) none found ∧
        (∀ d ∈ found, d.Answers kind name) ∧
        ∀ shown ∈ o.get? "declaration",
          shown.get? "kind" = some (.str kind.name) ∧ shown.get? "name" = some (.str name)) := by
  constructor
  · intro location o hsuccess
    rcases Surroundings.definition_printed hsuccess with
      ⟨place, path, document, looked, hplace, hpath, hdocument, hlooked, hprinted⟩
    have htells := Document.ofLookup_tells hlooked ((w.session disk).shown path)
    have hanswers := Document.answers_of_definitionAt hlooked
    rw [← hprinted] at htells
    refine ⟨place, path, document, looked, hplace, hpath, hdocument, hlooked, htells, hanswers, ?_⟩
    intro shown hshown
    rcases Json.exists_symbol htells.declaration hshown with ⟨found, hfound, hshows⟩
    rcases hanswers found hfound with ⟨query, hquery, hanswer⟩
    rcases Json.exists_shown htells.symbol hquery with ⟨symbol, hsymbol, hqueried⟩
    refine ⟨symbol, hsymbol, ?_, ?_⟩
    · rw [hshows.kind, hqueried.kind, hanswer.kind]
    · rw [hshows.name, hqueried.name, hanswer.name]
  · intro file name kindText o hsuccess
    rcases Surroundings.declaration_printed hsuccess with
      ⟨kind, path, document, found, hkind, hpath, hdocument, hfound, hprinted⟩
    have htells := DeclarationReport.ofDeclaration_tells found kind name ((w.session disk).shown path)
    have hanswers : ∀ d ∈ found, d.Answers kind name := by
      rintro d rfl
      have hname : (Symbol.named kind name).sought = (Symbol.named kind name).name := by
        rw [Symbol.sought_named, Symbol.name_named]
      have hanswer := Document.answers_of_declarationOf hname hfound
      rw [Symbol.name_named] at hanswer
      exact hanswer
    rw [← hprinted] at htells
    refine ⟨kind, path, document, found, hkind, hpath, hdocument, hfound, htells, hanswers, ?_⟩
    intro shown hshown
    rcases Json.exists_symbol htells.declaration hshown with ⟨d, hd, hshows⟩
    rw [hshows.kind, hshows.name, (hanswers d hd).kind, (hanswers d hd).name]
    exact ⟨rfl, rfl⟩

def setTwice : Disk :=
  (Disk.empty.set ["work"] .directory).set ["work", "a.sh"] (.text "x=1\nx=2\n")

/-- `def a.sh:2:1` shows the variable of the second line and where it is set first, and
`decl a.sh --kind function --name x` has a message in place of a declaration. -/
theorem lookups_coherent_setTwice :
    let w : Surroundings := { directory := "/work" }
    let o := w.printed setTwice (.definition "a.sh:2:1") none
    let o' := w.printed setTwice (.declaration "a.sh" "x" "function") none
    (o.get? "success" = some (.bool true) ∧ o.Coherent ∧
      ∃ shown symbol, o.get? "declaration" = some shown ∧ o.get? "symbol" = some symbol ∧
        shown.get? "name" = symbol.get? "name" ∧ shown.get? "line" = some (.nat 1) ∧
        symbol.get? "line" = some (.nat 2)) ∧
    o'.get? "success" = some (.bool true) ∧ o'.Coherent ∧ o'.get? "declaration" = none := by
  intro w o o'
  have hcursor : o.get? "success" = some (.bool true) := Surroundings.printed_success_iff.mpr (by decide +kernel)
  have hname : o'.get? "success" = some (.bool true) := Surroundings.printed_success_iff.mpr (by decide +kernel)
  have hread : Location.ofText "a.sh:2:1" = .ok ⟨"a.sh", 2, 1⟩ := by decide +kernel
  have hfile : w.resolved "a.sh" setTwice = .ok "/work/a.sh" := by decide +kernel
  have hjoined : w.resolved (Path.join w.directory "a.sh") setTwice = .ok "/work/a.sh" := by decide +kernel
  have hlooked : (w.documentAt (w.session setTwice).limit "/work/a.sh" setTwice).map (·.definitionAt 2 1) =
      .ok (.ok ⟨some ⟨.var, ⟨⟨2, 1⟩, ⟨2, 2⟩, "x"⟩, "x"⟩, some ⟨.var, ⟨⟨1, 1⟩, ⟨1, 2⟩, "x"⟩, ""⟩⟩) := by
    decide +kernel
  have hfound : (w.documentAt (w.session setTwice).limit "/work/a.sh" setTwice).map
      (·.declarationOf (.named .function "x")) = .ok (.ok none) := by decide +kernel
  constructor
  · rcases (lookups_coherent w setTwice none).1 "a.sh:2:1" hcursor with
      ⟨place, path, document, looked, hplace, hpath, hdocument, hasked, htells, -, hsame⟩
    obtain rfl := Except.ok.inj (hread.symm.trans hplace)
    obtain rfl := Except.ok.inj (hjoined.symm.trans hpath)
    rw [hdocument] at hlooked
    obtain rfl := Except.ok.inj (hasked.symm.trans (Except.ok.inj hlooked))
    rcases Json.exists_shown htells.declaration rfl with ⟨shown, hshown, hshows⟩
    rcases hsame shown hshown with ⟨symbol, hsymbol, -, hname⟩
    rcases Json.exists_symbol htells.symbol hsymbol with ⟨query, hquery, hqueried⟩
    obtain rfl := Option.some.inj hquery
    exact ⟨hcursor, htells.coherent, shown, symbol, hshown, hsymbol, hname, hshows.line, hqueried.line⟩
  · rcases (lookups_coherent w setTwice none).2 "a.sh" "x" "function" hname with
      ⟨kind, path, document, found, hkind, hpath, hdocument, hasked, htells, -⟩
    obtain rfl := Option.some.inj (hkind.symm.trans (SymbolKind.ofText?_name .function))
    obtain rfl := Except.ok.inj (hfile.symm.trans hpath)
    rw [hdocument] at hfound
    obtain rfl := Except.ok.inj (hasked.symm.trans (Except.ok.inj hfound))
    refine ⟨hname, htells.coherent, Option.eq_none_iff_forall_not_mem.mpr ?_⟩
    intro shown hshown
    rcases Json.exists_symbol htells.declaration hshown with ⟨d, hd, -⟩
    cases hd

end ShellDecl
