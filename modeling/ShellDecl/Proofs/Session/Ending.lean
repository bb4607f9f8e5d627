import ShellDecl.Proofs.Config.Create
import ShellDecl.Proofs.Session.Agreement

/-!
# How a run ends

Every run prints one object, with a flag in it that tells whether the request was answered. The exit code tells less. It
is that of a failure where it cannot be made out what the request speaks of, but where a service cannot do what it is
asked for, the refusal is printed in place of the answer and the run exits as after an answer.
-/

set_option autoImplicit false

namespace ShellDecl

inductive Ending where
  | success
  | refusal
  | failure
  deriving DecidableEq, Repr

def Ending.ofService {ε α : Type} : Except ε α → Ending
  | .ok _ => .success
  | .error _ => .refusal

theorem Ending.ofService_map {ε α β : Type} (f : α → β) (r : Except ε α) : ofService (r.map f) = ofService r := by
  cases r <;> rfl

/-- The way in which an answer, or the message of a failure, ends a run. The members of an answer leave the key of the
flag free. -/
inductive Ends : Except String Answer → Ending → Prop
  | success {members : List (String × Json)} :
    (∀ m ∈ members, m.1 ≠ "success") → Ends (.ok (.success members)) .success
  | refusal (message : String) : Ends (.ok (.refusal message)) .refusal
  | failure (message : String) : Ends (.error message) .failure

theorem Ends.settled {ε α : Type} {message : ε → String} {members : α → List (String × Json)}
    (h : ∀ a, ∀ m ∈ members a, m.1 ≠ "success") (r : Except ε α) :
    Ends (.ok (Session.settled message members r)) (.ofService r) := by
  cases r with
  | ok a => exact .success (h a)
  | error e => exact .refusal (message e)

/-! ## Members -/

theorem Json.mem_member {α : Type} {key : String} {write : α → Json} {a : Option α} {m : String × Json}
    (h : m ∈ Json.member key write a) : m.1 = key := by
  cases a with
  | none => cases h
  | some a => exact congrArg Prod.fst (List.mem_singleton.mp h)

theorem DeclarationReport.not_flag (r : DeclarationReport) : ∀ m ∈ r.members, m.1 ≠ "success" := by
  intro m hm
  simp only [DeclarationReport.members, List.mem_append, List.mem_singleton] at hm
  rcases hm with ((h | rfl) | h) | h
  · simp [Json.mem_member h]
  · simp
  · simp [Json.mem_member h]
  · simp [Json.mem_member h]

theorem ServerSettings.not_flag (s : ServerSettings) : ∀ m ∈ s.members, m.1 ≠ "success" := by
  intro m hm
  simp only [ServerSettings.members, List.mem_append, List.mem_singleton] at hm
  rcases hm with (rfl | h) | rfl
  · simp
  · simp [Json.mem_member h]
  · simp

/-! ## Requests -/

namespace Session

variable (w : Surroundings) (d : Disk) (s : Session)

/-- How a request ends. It fails where the location, the file, the kind or the text of the notice that it speaks of
cannot be made out; what comes of a service behind that is no failure. -/
def ending : Request → Ending
  | .definition location =>
    match Location.ofText location with
    | .error _ => .failure
    | .ok place =>
      match w.resolved (Path.join w.directory place.file) d with
      | .error _ => .failure
      | .ok path => .ofService ((Lookup.definitionAt w.host s.limit path place.line place.column).run.run d).1
  | .declaration file name kindText =>
    match SymbolKind.ofText? kindText, w.resolved file d with
    | some kind, .ok path => .ofService ((Lookup.declarationOf w.host s.limit path (.named kind name)).run.run d).1
    | _, _ => .failure
  | .notify source =>
    match ((noticeText w.host source).run.run d).1 with
    | .error _ => .failure
    | .ok text => .ofService (ServerSettings.ofNotice text)
  | .configInit level force => .ofService (w.create s.places level force d).1
  | .configShow .shared => .ofService ((Config.load w.host s.places .shared).run.run d).1
  | .settings | .configShow .project | .configPath _ => .success

variable {w d}

/-- The format of the answers has no part in how a request ends. -/
theorem ending_format (format : OutputFormat) (r : Request) :
    ({ s with format := format } : Session).ending w d r = s.ending w d r := by
  unfold ending limit
  rfl

theorem resolve_run_eq (path : String) : (w.host.resolve path).run.run d = (w.resolved path d, d) :=
  (Looks.asking _ : Looks (w.host.resolve path).run).run_eq d

theorem place_resolve_run {place : Location} {e : FileError}
    (h : w.resolved (Path.join w.directory place.file) d = .error e) :
    (place.resolve w.host).run.run d = (.error (.fileNotFound place.file), d) := by
  have hhere : (liftM w.host.currentDirectory : ExceptT LocationError OnDisk String).run.run d =
      (.ok w.directory, d) := rfl
  have hfile : ((w.host.resolve (Path.join w.directory place.file)).adapt
      fun _ => LocationError.fileNotFound place.file).run.run d = (.error (.fileNotFound place.file), d) := by
    rw [adapt_run, resolve_run_eq, h]
    rfl
  rw [Location.resolve, bind_run_of_ok hhere, bind_run_of_error hfile]

theorem definition_ends (location : String) :
    Ends ((s.definition w.host location).run.run d).1 (s.ending w d (.definition location)) := by
  have hread : ((ExceptT.mk (pure (Location.ofText location)) : ExceptT LocationError OnDisk Location).adapt
      LocationError.message).run.run d = ((Location.ofText location).mapError LocationError.message, d) := rfl
  cases hplace : Location.ofText location with
  | error e =>
    rw [hplace] at hread
    rw [Session.definition, hplace, bind_run_of_error hread]
    simp only [ending, hplace]
    exact .failure _
  | ok place =>
    cases hpath : w.resolved (Path.join w.directory place.file) d with
    | error e =>
      rw [hplace] at hread
      have hresolve : ((place.resolve w.host).adapt LocationError.message).run.run d =
          (.error (LocationError.fileNotFound place.file).message, d) := by
        rw [adapt_run, place_resolve_run hpath]
        rfl
      rw [Session.definition, hplace, bind_run_of_ok hread, bind_run_of_error hresolve]
      simp only [ending, hplace, hpath]
      exact .failure _
    | ok path =>
      rw [Surroundings.definition_run s hplace hpath]
      simp only [ending, hplace, hpath]
      exact .settled (fun _ => DeclarationReport.not_flag _) _

theorem declaration_ends (file name kindText : String) :
    Ends ((s.declaration w.host file name kindText).run.run d).1 (s.ending w d (.declaration file name kindText)) := by
  cases hkind : SymbolKind.ofText? kindText with
  | none =>
    simp only [Session.declaration, ending, hkind]
    exact .failure _
  | some kind =>
    cases hpath : w.resolved file d with
    | error e =>
      have hfile : ((w.host.resolve file).adapt fun _ => (LocationError.fileNotFound file).message).run.run d =
          (.error (LocationError.fileNotFound file).message, d) := by
        rw [adapt_run, resolve_run_eq, hpath]
        rfl
      simp only [Session.declaration, ending, hkind, hpath]
      rw [bind_run_of_error hfile]
      exact .failure _
    | ok path =>
      rw [Surroundings.declaration_run s hkind hpath]
      simp only [ending, hkind, hpath]
      exact .settled (fun _ => DeclarationReport.not_flag _) _

theorem notify_ends (source : NoticeSource) :
    Ends ((s.notify w.host source).run.run d).1 (s.ending w d (.notify source)) := by
  rw [Session.notify, bindExcept_run, ending]
  obtain ⟨r, d'⟩ := (noticeText w.host source).run.run d
  cases r with
  | error e => exact .failure e
  | ok text =>
    have hservice : Ending.ofService (s.config.settings.notify text) = .ofService (ServerSettings.ofNotice text) :=
      Ending.ofService_map _ _
    simp only [← hservice]
    exact .settled ServerSettings.not_flag _

theorem answer_ends (r : Request) : Ends ((s.answer w.host r).run.run d).1 (s.ending w d r) := by
  cases r with
  | definition location => exact s.definition_ends location
  | declaration file name kindText => exact s.declaration_ends file name kindText
  | settings => exact .success s.config.settings.not_flag
  | notify source => exact s.notify_ends source
  | configInit level force => exact Ends.settled (by simp) (w.create s.places level force d).1
  | configShow level =>
    cases level with
    | project => exact .success (by simp [configMembers])
    | shared => exact Ends.settled (by simp [configMembers]) ((Config.load w.host s.places .shared).run.run d).1
  | configPath level => exact .success (by simp)

end Session

/-! ## Runs -/

def Outcome.of (format : OutputFormat) : Except String Answer → Outcome
  | .ok a => .answered format a
  | .error message => .failed message

theorem Ends.flag {r : Except String Answer} {e : Ending} (h : Ends r e) (format : OutputFormat) :
    (Outcome.of format r).printed.get? "success" = some (.bool (e == .success)) := by
  cases h with
  | @success members h =>
    have hnone : members.lookup "success" = none := List.lookup_eq_none_iff.mpr fun m hm => by simpa using (h m hm).symm
    change (members ++ [("success", Json.bool true)]).lookup "success" = _
    rw [List.lookup_append, hnone]
    rfl
  | refusal message => rfl
  | failure message => rfl

theorem Ends.exitCode {r : Except String Answer} {e : Ending} (h : Ends r e) (format : OutputFormat) :
    (Outcome.of format r).exitCode = if e = .failure then 1 else 0 := by
  cases h <;> rfl

namespace Invocation

variable (w : Surroundings) (d : Disk) (i : Invocation)

/-- How a run ends. It fails before its request is looked at if the format it asks for is not known. -/
def ending : Ending :=
  match i.format.map OutputFormat.ofText? with
  | some none => .failure
  | _ => (w.session d).ending w d i.request

variable {w d i}

theorem finish_eq (s : Session) :
    ((run.finish w.host i s).run d).1 = .of s.format ((s.answer w.host i.request).run.run d).1 := by
  rw [run.finish, StateT.run_bind]
  obtain ⟨r, d'⟩ := (s.answer w.host i.request).run.run d
  cases r <;> rfl

/-- A run fails over the format it asks for, or it leaves behind what its session answers in some format. -/
theorem run_cases :
    (i.ending w d = .failure ∧ ∃ message, ((i.run w.host).run d).1 = .failed message) ∨
      (i.ending w d = (w.session d).ending w d i.request ∧
        ∃ f, ((i.run w.host).run d).1 =
          .of f ((({ w.session d with format := f } : Session).answer w.host i.request).run.run d).1) := by
  obtain ⟨request, format⟩ := i
  have hstart : (Session.start w.host).run d = pure (w.session d, d) := w.looks_start.run_eq d
  rw [Invocation.run, StateT.run_bind, hstart, pure_bind, ending]
  generalize w.session d = s
  cases format with
  | none =>
    simp only [Option.map_none]
    exact .inr ⟨trivial, s.format, finish_eq s⟩
  | some text =>
    cases hread : OutputFormat.ofText? text with
    | none =>
      simp only [Option.map_some, hread]
      exact .inl ⟨trivial, _, rfl⟩
    | some f =>
      simp only [Option.map_some, hread]
      exact .inr ⟨trivial, f, finish_eq _⟩

theorem run_eq : ∃ format r, ((i.run w.host).run d).1 = .of format r ∧ Ends r (i.ending w d) := by
  rcases @run_cases w d i with ⟨hending, message, hrun⟩ | ⟨hending, f, hrun⟩
  · rw [hending]
    exact ⟨.json, .error message, hrun, .failure message⟩
  · rw [hending, ← Session.ending_format (w.session d) f]
    exact ⟨f, _, hrun, Session.answer_ends _ i.request⟩

variable (w d i)

/-- A run prints one object that tells by its flag whether the request was answered, and exits with 1 on a failure and
with 0 otherwise. -/
theorem run_ends :
    ((i.run w.host).run d).1.printed.get? "success" = some (.bool (i.ending w d == .success)) ∧
      ((i.run w.host).run d).1.exitCode = if i.ending w d = .failure then 1 else 0 := by
  obtain ⟨format, r, hrun, hends⟩ := @run_eq w d i
  rw [hrun]
  exact ⟨hends.flag format, hends.exitCode format⟩

/-- The exit code and the flag agree in all runs but those that are refused. -/
theorem exitCode_agrees_iff :
    (((i.run w.host).run d).1.exitCode = 0 ↔ ((i.run w.host).run d).1.printed.get? "success" = some (.bool true)) ↔
      i.ending w d ≠ .refusal := by
  obtain ⟨hflag, hcode⟩ := run_ends w d i
  rw [hflag, hcode]
  cases i.ending w d <;> simp

/-- A notice that is cut short is refused. -/
example : (Invocation.ofArguments ["settings", "apply", "\x7b"]).toOption.map (ending { directory := "/" } .empty) =
    some .refusal := by
  decide +kernel

end Invocation

end ShellDecl
