import SkillGraph.Compiler

/-! The registry that a whole process shares. One is installed at a time, and graphs are parsed and
spelled over the one that is. -/
namespace SkillGraph

structure Holder where
  installed : Option Registry := none

namespace Holder

/-- Installs a registry in place of any other. -/
def set (_ : Holder) (r : Registry) : Holder := ⟨some r⟩

def isSet (h : Holder) : Bool := h.installed.isSome

def get (h : Holder) : Except Diagnostic Registry :=
  match h.installed with
  | some r => .ok r
  | none => .error Cause.registryNotInitialized.diagnostic

def clear (h : Holder) : Option Registry × Holder := (h.installed, {})

def parse (h : Holder) (text : String) : Except Diagnostic Value := do
  let r ← h.get
  Compiler.parse { registry := r } text

def parseGraph (h : Holder) (text : String) : Except Diagnostic Node := do
  let r ← h.get
  Compiler.parseGraph { registry := r } text

def spell (h : Holder) (n : Node) : Except Diagnostic String := do
  return n.spell (← h.get)

end Holder

end SkillGraph
