import SkillGraph.Lexeme
import SkillGraph.Machine

/-! Compilers: expressions to graphs and back, over one registry and with one way of reducing. -/
namespace SkillGraph

structure Compiler where
  registry : Registry
  reduction : Reduction := .none

namespace Compiler

/-- The value of an expression, with the bare cause of a failure. -/
def eval (c : Compiler) (text : String) : Except Cause Value := do
  let words ← lexemes text
  let program ← Program.ofTokens c.registry (words.map Token.ofLexeme)
  program.run c.registry c.reduction

def lexemes (_ : Compiler) (text : String) : Except Diagnostic (List String) :=
  (SkillGraph.lexemes text).mapError (·.diagnostic.inExpression text)

def parse (c : Compiler) (text : String) : Except Diagnostic Value :=
  (c.eval text).mapError (·.diagnostic.inExpression text)

/-- The graph of an expression, which must be more than a bare value. -/
def parseGraph (c : Compiler) (text : String) : Except Diagnostic Node := do
  match ← c.parse text with
  | .node n => return n
  | bare => throw ((Cause.notANode bare.brief).diagnostic.inExpression text)

def spell (c : Compiler) (v : Value) : String := v.spell c.registry

def spellGraph (c : Compiler) (n : Node) : String := n.spell c.registry

end Compiler

end SkillGraph
