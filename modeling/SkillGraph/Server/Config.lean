import SkillGraph.Compiler
import SkillGraph.Registry.Standard
import SkillGraph.Text.Classes

/-! Settings of the server, read from environment variables. -/
namespace SkillGraph.Server

structure Config where
  /-- A file with a table of atoms, in place of the standard library. -/
  registryPath : Option String := none
  fold : Bool := false
  deriving DecidableEq, Repr

def isOn (text : String) : Bool := (Text.trim text).toLower ∈ ["1", "true", "yes", "on"]

namespace Config

/-- The settings that two variables make, as far as they are set. A blank path counts as none. -/
def ofVariables (registryPath fold : Option String) : Config where
  registryPath := registryPath.filter (Text.trim · ≠ "")
  fold := fold.any isOn

def reduction (config : Config) : Reduction := if config.fold then .constant else .none

def compiler (config : Config) (contents : Option String) : Except RegistryError Compiler := do
  let registry ← match config.registryPath, contents with
    | none, _ => pure .standard
    | some _, some text => Registry.read text
    | some _, none => throw .unreadableFile
  return { registry, reduction := config.reduction }

end Config

end SkillGraph.Server
