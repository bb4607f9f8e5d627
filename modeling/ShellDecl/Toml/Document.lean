import ShellDecl.Toml.Statement

/-!
# TOML documents

The table that a list of statements makes. The pairs behind a header belong to its table, which is put into its place
when the next header begins. A table has one header at most, and a header may take over a table that was only implied.
-/

set_option autoImplicit false

namespace ShellDecl.Toml

/-- Where the table that is being filled belongs. -/
inductive Target where
  | root
  | table (path : List Key) (key : Key)
  | element (path : List Key) (key : Key)

structure Progress where
  root : Table
  current : Table
  target : Target

namespace Progress

def start : Progress :=
  ⟨.mk .header none [], .mk .header none [], .root⟩

def close (p : Progress) : Option Table :=
  match p.target with
  | .root => some p.current
  | .table path k =>
    p.root.update false (fun parent =>
      if (parent.find? k.name).isSome then none else some (parent.push k (.table p.current))) path
  | .element path k =>
    p.root.update false (fun parent =>
      match parent.find? k.name with
      | none => some (parent.push k (.tables [p.current]))
      | some (.tables elements) => some (parent.replace k.name (.tables (elements ++ [p.current])))
      | some _ => none) path

/-- The value that a path leads to, through the last of repeated tables. -/
def lookup? (name : String) : List Key → Table → Option Item
  | [], t => t.find? name
  | k :: path, t =>
    match t.find? k.name with
    | some (.table inner) => lookup? name path inner
    | some (.tables elements) =>
      match elements.getLast? with
      | some last => lookup? name path last
      | none => none
    | _ => none

/-- The span of a table with a header grows up to the value of its last pair. -/
def grow (t : Table) (v : Item) : Table :=
  match t.span, v.span with
  | some s, some e => .mk t.origin (some (s.through e)) t.entries
  | _, _ => t

def step (p : Progress) : Statement → Option Progress
  | .pair pair => do
    let filled ← (grow p.current pair.value).insert pair.path pair.key pair.value
    return { p with current := filled }
  | .header path k span => do
    let root ← p.close
    match lookup? k.name path root with
    | some (.table taken) =>
      if taken.origin = .implied then
        let root ← root.update false (fun parent => some (parent.remove k.name)) path
        return ⟨root, .mk .header (some span) taken.entries, .table path k⟩
      else none
    | some _ => none
    | none =>
      let root ← root.update false some path
      return ⟨root, .mk .header (some span) [], .table path k⟩
  | .element path k span => do
    let root ← p.close
    return ⟨root, .mk .header (some span) [], .element path k⟩

end Progress

def Table.ofStatements (statements : List Statement) : Option Table := do
  (← statements.foldlM Progress.step .start).close

def Table.ofText? (text : String) : Option Table := do
  Table.ofStatements (← readStatements text.toList)

end ShellDecl.Toml
