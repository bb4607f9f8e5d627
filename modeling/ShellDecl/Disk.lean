import ShellDecl.Host
import ShellDecl.Path

/-!
# Files in memory

A disk says of every address what is there. A path is followed from address to address, and what it passes through
has to be a directory. No operation changes the disk if it fails, apart from the directories that it made on its way.
-/

set_option autoImplicit false

namespace ShellDecl

inductive Entry where
  | directory
  | text (content : String)
  /-- Bytes that are no text are known by their number alone. -/
  | bytes (size : Nat)
  deriving DecidableEq, Repr

namespace Entry

/-- The number of bytes that are reported for a directory, whatever is in it. -/
def directorySize : Nat := 4096

def size : Entry → Nat
  | .directory => directorySize
  | .text content => content.utf8ByteSize
  | .bytes size => size

def read : Entry → Except FileError String
  | .directory => .error .isDirectory
  | .text content => .ok content
  | .bytes _ => .error .notText

end Entry

abbrev Address := List String

def Address.path (a : Address) : String :=
  "/" ++ "/".intercalate a

structure Disk where
  entry : Address → Option Entry

namespace Disk

def empty : Disk where
  entry a := if a = [] then some .directory else none

def set (d : Disk) (a : Address) (e : Entry) : Disk where
  entry b := if b = a then some e else d.entry b

def erase (d : Disk) (a : Address) : Disk where
  entry b := if b = a then none else d.entry b

def nameLimit : Nat := 255

def step (here : Address) : Path.Component → Except FileError Address
  | .root => .ok []
  | .here => .ok here
  | .parent => .ok here.dropLast
  | .name s =>
    let name := String.ofList s
    if nameLimit < name.utf8ByteSize then .error .nameTooLong else .ok (here ++ [name])

/-- Follows components from a place. Each place that is left has to be a directory. -/
def follow (d : Disk) (here : Address) : List Path.Component → Except FileError Address
  | [] => .ok here
  | c :: cs =>
    match d.entry here with
    | none => .error .missing
    | some .directory =>
      match step here c with
      | .ok there => d.follow there cs
      | .error e => .error e
    | some _ => .error .notDirectory

def locate (d : Disk) (here : Address) (path : String) : Except FileError Address :=
  if path.isEmpty then .error .missing
  else if path.toList.contains '\x00' then .error .zeroInName
  else d.follow here (Path.components path)

/-- What a path leads to. A path that ends in a slash or a dot leads to a directory only. -/
def find (d : Disk) (here : Address) (path : String) : Except FileError (Address × Entry) :=
  match d.locate here path with
  | .error e => .error e
  | .ok a =>
    match d.entry a with
    | none => .error .missing
    | some .directory => .ok (a, .directory)
    | some e => if Path.namesDirectory path then .error .notDirectory else .ok (a, e)

def makeAlong (d : Disk) (here : Address) : List Path.Component → Except FileError Unit × Disk
  | [] => (.ok (), d)
  | c :: cs =>
    match step here c with
    | .error e => (.error e, d)
    | .ok there =>
      match d.entry there with
      | none => (d.set there .directory).makeAlong there cs
      | some .directory => d.makeAlong there cs
      | some _ => (.error (if cs.isEmpty then .alreadyThere else .notDirectory), d)

def makeDirectories (d : Disk) (here : Address) (path : String) : Except FileError Unit × Disk :=
  if path.toList.contains '\x00' then (.error .zeroInName, d)
  else d.makeAlong here (Path.components path)

def write (d : Disk) (here : Address) (path : String) (file : Entry) : Except FileError Unit × Disk :=
  match d.locate here path with
  | .error e => (.error e, d)
  | .ok a =>
    match d.entry a with
    | some .directory => (.error .isDirectory, d)
    | some _ => if Path.namesDirectory path then (.error .notDirectory, d) else (.ok (), d.set a file)
    | none => if Path.namesDirectory path then (.error .isDirectory, d) else (.ok (), d.set a file)

def remove (d : Disk) (here : Address) (path : String) : Except FileError Unit × Disk :=
  match d.find here path with
  | .error e => (.error e, d)
  | .ok (_, .directory) => (.error .isDirectory, d)
  | .ok (a, _) => (.ok (), d.erase a)

end Disk

/-- What a run sees apart from the files: the directory it starts in, and the environment variables. -/
structure Surroundings where
  directory : String
  environment : List (String × String) := []
  deriving Repr

abbrev OnDisk := StateM Disk

namespace Surroundings

def here (s : Surroundings) : Address :=
  (Path.components s.directory).filterMap fun
    | .name n => some (String.ofList n)
    | _ => none

def asking {α : Type} (f : Disk → Except FileError α) : ExceptT FileError OnDisk α :=
  ExceptT.mk (do return f (← get))

def changing {α : Type} (f : Disk → Except FileError α × Disk) : ExceptT FileError OnDisk α :=
  ExceptT.mk (modifyGet f)

def host (s : Surroundings) : Host OnDisk where
  size path := asking fun d => (d.find s.here path).map (·.2.size)
  read path := asking fun d => do (← d.find s.here path).2.read
  isThere path := do return (← get).find s.here path |>.toBool
  resolve path := asking fun d => (d.find s.here path).map (·.1.path)
  makeDirectories path := changing (·.makeDirectories s.here path)
  write path text := changing (·.write s.here path (.text text))
  currentDirectory := return s.directory
  environment name := return s.environment.lookup name

end Surroundings

end ShellDecl
