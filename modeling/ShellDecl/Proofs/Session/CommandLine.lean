import ShellDecl.Invocation

/-!
# Words of a command line

A word that begins with a dash is taken for a switch, a lone dash apart. Any other word is an operand, or the value of
the switch in front of it. A value that is attached to its switch can be any text.
-/

set_option autoImplicit false

namespace ShellDecl

/-- A word that is not taken for a switch. -/
def isPlain (word : String) : Bool :=
  match word.toList with
  | '-' :: _ :: _ => false
  | _ => true

namespace Scan

variable {s s' : Scan} {text : String} {rest : List String}

theorem word_operand (hclosed : s.closed = false) (hawaiting : s.awaiting? = none) (h : isPlain text = true) :
    s.word text = s.operand text := by
  rw [isPlain] at h
  rw [word, if_neg (by simp [hclosed]), hawaiting]
  split <;> simp_all

theorem word_value {w : Switch} (hclosed : s.closed = false) (hawaiting : s.awaiting? = some w)
    (h : isPlain text = true) : s.word text = .ok { s with pending := some (w, some text) } := by
  rw [isPlain] at h
  rw [word, if_neg (by simp [hclosed]), hawaiting]
  split <;> simp_all

theorem word_attached (name : String) (hclosed : s.closed = false) (hawaiting : s.awaiting? = none) :
    s.word ("--name=" ++ name) = s.long "name" (some name) := by
  have hword : ("--name=" ++ name).toList = '-' :: '-' :: 'n' :: 'a' :: 'm' :: 'e' :: '=' :: name.toList := by
    rw [String.toList_append]
    rfl
  rw [word, if_neg (by simp [hclosed]), hawaiting, hword]
  simp [String.ofList_toList]

theorem word_refused {w : Switch} (hclosed : s.closed = false) (hawaiting : s.awaiting? = some w)
    (h : isPlain text = false) : s.word text = .error .misuse := by
  rw [isPlain] at h
  rw [word, if_neg (by simp [hclosed]), hawaiting]
  split <;> simp_all

theorem run_word (hparts : s.topic.parts.isEmpty = true) (hword : s.word text = .ok s') :
    s.run (text :: rest) = s'.run rest := by
  rw [run, if_pos (by simp [hparts]), hword]
  rfl

theorem run_word_error {e : Stop} (hparts : s.topic.parts.isEmpty = true) (hword : s.word text = .error e) :
    s.run (text :: rest) = .error e := by
  rw [run, if_pos (by simp [hparts]), hword]
  rfl

end Scan

namespace Invocation

theorem ofArguments_def {location : String} (h : isPlain location = true) :
    ofArguments ["def", location] = .ok ⟨.definition location, none⟩ := by
  have hrun : Scan.run {} ["def", location] = .ok { topic := .definition, operands := [location] } :=
    calc Scan.run {} ["def", location]
        = Scan.run { topic := .definition } [location] := rfl
      _ = Scan.run { topic := .definition, operands := [location] } [] :=
          Scan.run_word rfl (Scan.word_operand rfl rfl h)
      _ = .ok { topic := .definition, operands := [location] } := rfl
  rw [ofArguments, hrun]
  rfl

variable {file kind name : String}

theorem run_decl (hfile : isPlain file = true) (hkind : isPlain kind = true) (rest : List String) :
    Scan.run {} ("decl" :: file :: "--kind" :: kind :: rest) =
      Scan.run { topic := .declaration, operands := [file], pending := some (.kind, some kind) } rest :=
  calc Scan.run {} ("decl" :: file :: "--kind" :: kind :: rest)
      = Scan.run { topic := .declaration } (file :: "--kind" :: kind :: rest) := rfl
    _ = Scan.run { topic := .declaration, operands := [file] } ("--kind" :: kind :: rest) :=
        Scan.run_word rfl (Scan.word_operand rfl rfl hfile)
    _ = Scan.run { topic := .declaration, operands := [file], pending := some (.kind, none) } (kind :: rest) :=
        Scan.run_word rfl rfl
    _ = Scan.run { topic := .declaration, operands := [file], pending := some (.kind, some kind) } rest :=
        Scan.run_word rfl (Scan.word_value rfl rfl hkind)

/-- Behind its switch a name that begins with a dash is taken for a switch itself. -/
theorem ofArguments_decl (hfile : isPlain file = true) (hkind : isPlain kind = true) (name : String) :
    ofArguments ["decl", file, "--kind", kind, "--name", name] =
      if isPlain name then .ok ⟨.declaration file name kind, none⟩ else .error .misuse := by
  let read : Scan := { topic := .declaration, operands := [file], given := [(.kind, kind)] }
  have hrun : Scan.run {} ["decl", file, "--kind", kind, "--name", name] =
      Scan.run { read with pending := some (.name, none) } [name] :=
    calc Scan.run {} ["decl", file, "--kind", kind, "--name", name]
        = Scan.run { read with given := [], pending := some (.kind, some kind) } ["--name", name] :=
          run_decl hfile hkind _
      _ = Scan.run { read with pending := some (.name, none) } [name] := Scan.run_word rfl rfl
  rw [ofArguments, hrun]
  by_cases hname : isPlain name = true
  · rw [Scan.run_word rfl (Scan.word_value rfl rfl hname), if_pos hname]
    rfl
  · rw [Scan.run_word_error rfl (Scan.word_refused rfl rfl (by simpa using hname)), if_neg hname]
    rfl

/-- Attached to its switch a name can be any text. -/
theorem ofArguments_decl_attached (hfile : isPlain file = true) (hkind : isPlain kind = true) (name : String) :
    ofArguments ["decl", file, "--kind", kind, "--name=" ++ name] = .ok ⟨.declaration file name kind, none⟩ := by
  let read : Scan := { topic := .declaration, operands := [file], given := [(.name, name), (.kind, kind)] }
  have hrun : Scan.run {} ["decl", file, "--kind", kind, "--name=" ++ name] = .ok read :=
    calc Scan.run {} ["decl", file, "--kind", kind, "--name=" ++ name]
        = Scan.run { read with given := [], pending := some (.kind, some kind) } ["--name=" ++ name] :=
          run_decl hfile hkind _
      _ = Scan.run read [] := Scan.run_word rfl (Scan.word_attached name rfl rfl)
      _ = .ok read := rfl
  rw [ofArguments, hrun]
  rfl

end Invocation

end ShellDecl
