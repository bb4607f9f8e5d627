import ShellDecl.Declaration
import ShellDecl.Disk
import ShellDecl.Json.Decode
import ShellDecl.Main
import ShellDecl.Proofs.Declaration.Name
import ShellDecl.Proofs.Declaration.Narrowed
import ShellDecl.Proofs.Script.Walk
import ShellDecl.Proofs.Declaration.Search
import ShellDecl.Proofs.Extent.Reading
import ShellDecl.Proofs.Extent.Partition
import ShellDecl.Proofs.Shell.Place
import ShellDecl.Proofs.Shell.Range
import ShellDecl.Proofs.Shell.PointAt
import ShellDecl.Proofs.Shell.Tree
import ShellDecl.Proofs.Shell.Lowering
import ShellDecl.Proofs.Shell.Lineage
import ShellDecl.Proofs.Declaration.Order
import ShellDecl.Proofs.Shell.Cursor
import ShellDecl.Proofs.Shell.Referent
import ShellDecl.Proofs.Declaration.Jump
import ShellDecl.Proofs.Declaration.Found
import ShellDecl.Proofs.Session.Looking
import ShellDecl.Proofs.Session.Agreement
import ShellDecl.Proofs.Json.Draft
import ShellDecl.Proofs.Json.Written
import ShellDecl.Proofs.Json.Gather
import ShellDecl.Proofs.Json.Decode
import ShellDecl.Proofs.Json.Tree
import ShellDecl.Proofs.Json.Doubled
import ShellDecl.Proofs.Json.RoundTrip
import ShellDecl.Proofs.Json.AnySpelling
import ShellDecl.Proofs.Settings.Run
import ShellDecl.Proofs.Toml.Quoted
import ShellDecl.Proofs.Toml.Number
import ShellDecl.Proofs.Toml.Statement
import ShellDecl.Proofs.Toml.Record
import ShellDecl.Proofs.Config.Layers
import ShellDecl.Proofs.Path.Components
import ShellDecl.Proofs.Path.Relative
import ShellDecl.Proofs.Path.Shown
import ShellDecl.Proofs.Disk.Following
import ShellDecl.Proofs.Disk.Tree
import ShellDecl.Proofs.Config.Kept
import ShellDecl.Proofs.Config.Create
import ShellDecl.Proofs.Config.Written
import ShellDecl.Proofs.Location.Written
import ShellDecl.Proofs.Location.Signed
import ShellDecl.Proofs.Session.Started
import ShellDecl.Proofs.Session.Ending
import ShellDecl.Proofs.Session.Coherent
