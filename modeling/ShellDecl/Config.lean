import ShellDecl.Settings

/-!
# Configuration

What is configured before a run: the largest script that is read, the form of answers, and the settings a server
starts from.
-/

set_option autoImplicit false

namespace ShellDecl

structure ParserConfig where
  /-- Zero stands for no limit. -/
  maxFileSizeMb : UInt32 := 5
  deriving DecidableEq, Repr

/-- The limit in bytes; without a limit it is the largest number of 64 bits. -/
def ParserConfig.maxFileSizeBytes (c : ParserConfig) : Nat :=
  if c.maxFileSizeMb = 0 then UInt64.size - 1 else c.maxFileSizeMb.toNat * 1024 * 1024

structure OutputConfig where
  format : String := "json"
  deriving DecidableEq, Repr

structure Config where
  parser : ParserConfig := {}
  output : OutputConfig := {}
  settings : ServerSettings := {}
  deriving DecidableEq, Repr

structure ConfigLayer where
  parser : Option ParserConfig := none
  output : Option OutputConfig := none
  settings : Option ServerSettings := none
  deriving DecidableEq, Repr

/-- A section that is present takes the place of the whole section below it. -/
def Config.overlay (base : Config) (layer : ConfigLayer) : Config where
  parser := layer.parser.getD base.parser
  output := layer.output.getD base.output
  settings := base.settings.update layer.settings

end ShellDecl
