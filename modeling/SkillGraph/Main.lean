import SkillGraph.Server.Config
import SkillGraph.Server.Loop

/-! The server as a program. It answers the lines of standard input on standard output. The variable
`ATOMGRAPH_REGISTRY` names a file with a table of atoms, and `ATOMGRAPH_FOLD` switches the folding of
constants on. -/
namespace SkillGraph.Server

def fileText? (path : String) : IO (Option String) := do
  try return String.fromUTF8? (← IO.FS.readBinFile path)
  catch _ => return none

/-- Answers each line as soon as it has ended, where `line` was collected before. -/
partial def run (c : Compiler) (input output : IO.FS.Stream) (line : ByteArray) : IO Unit := do
  let next ← input.read 1
  if next.toList = [10] || (next.isEmpty && !line.isEmpty) then
    match react c line with
    | .stop => return
    | .silence => pure ()
    | .reply text =>
      output.putStrLn text
      output.flush
    unless next.isEmpty do run c input output .empty
  else unless next.isEmpty do run c input output (line ++ next)

/-- Ends with 1 if the registry cannot be loaded, and with 0 once the input ends or fails. -/
def start : IO UInt32 := do
  let config := Config.ofVariables (← IO.getEnv "ATOMGRAPH_REGISTRY") (← IO.getEnv "ATOMGRAPH_FOLD")
  let contents ← match config.registryPath with
    | some path => fileText? path
    | none => pure none
  match config.compiler contents with
  | .error _ => return 1
  | .ok c =>
    try run c (← IO.getStdin) (← IO.getStdout) .empty
    catch _ => pure ()
    return 0

end SkillGraph.Server

def main : IO UInt32 := SkillGraph.Server.start
