import ShellDecl.Session

/-!
# The command line

Runs a command line on the files of the machine.
-/

set_option autoImplicit false

namespace ShellDecl

/-- The number that the operating system gives to a fault tells what it is. It may come with a minus sign. -/
def FileError.ofIO (e : IO.Error) : FileError :=
  match e with
  | .noFileOrDirectory _ _ _ => .missing
  | .alreadyExists _ code text => ofCode code text
  | .inappropriateType _ code text => ofCode code text
  | .invalidArgument _ code text => ofCode code text
  | .permissionDenied _ code text => ofCode code text
  | .resourceExhausted _ code text => ofCode code text
  | .otherError code text => ofCode code text
  | e => .other (toString e)
where
  ofCode (code : UInt32) (text : String) : FileError :=
    match code.toInt32.toInt.natAbs with
    | 17 => .alreadyThere
    | 20 => .notDirectory
    | 21 => .isDirectory
    | 36 => .nameTooLong
    | n => .other (numbered text n)

def Host.attempt {α : Type} (action : IO α) : ExceptT FileError IO α :=
  ExceptT.mk do
    match ← action.toBaseIO with
    | .ok a => return .ok a
    | .error e => return .error (.ofIO e)

def Host.machine : Host IO where
  size path := return (← attempt do (← IO.FS.realPath path).metadata).byteSize.toNat
  read path := do
    match String.fromUTF8? (← attempt (IO.FS.readBinFile path)) with
    | some text => return text
    | none => throw .notText
  isThere path := return (← (attempt (IO.FS.realPath path)).run).isOk
  resolve path := return (← attempt (IO.FS.realPath path)).toString
  makeDirectories path := attempt (IO.FS.createDirAll path)
  write path text := attempt (IO.FS.writeFile path text)
  currentDirectory := return (← IO.currentDir).toString
  environment name := IO.getEnv name

def Topic.helpText (t : Topic) : String :=
  "Usage: " ++ " ".intercalate ("scriptnav" :: t.words) ++ "\n"
    ++ String.join (t.parts.map fun (word, _) => "  " ++ word ++ "\n")
    ++ String.join (t.switches.map fun w => "  --" ++ w.long ++ "\n")

end ShellDecl

open ShellDecl in
def main (args : List String) : IO UInt32 := do
  match Invocation.ofArguments args with
  | .ok i =>
    let o ← i.run Host.machine
    IO.print o.text
    return o.exitCode.toUInt32
  | .error (.version t) =>
    IO.print t.versionText
    return 0
  | .error (.help t) =>
    IO.print t.helpText
    return 0
  | .error .misuse =>
    IO.eprint (Topic.helpText .program)
    return 2
