import SkillGraph.Proofs.Infix.Conversion
import SkillGraph.Registry.Standard

/-! The run of the program of an expression. Where no minus sign stands directly behind another
prefix operator, the machine pushes what the recursive evaluation of the expression returns. -/
namespace SkillGraph

namespace Machine

variable {r : Registry} {red : Reduction}

theorem exec_append (first second : Program) (stack : Stack) :
    exec r red (first ++ second) stack = exec r red first stack >>= exec r red second :=
  List.foldlM_append

theorem exec_cons (i : Instruction) (program : Program) (stack : Stack) :
    exec r red (i :: program) stack = step r red stack i >>= exec r red program := rfl

def push (stack : Stack) (v : Except Cause Value) : Except Cause Stack :=
  v.map fun v => .value v :: stack

@[simp] theorem push_ok (stack : Stack) (v : Value) :
    push stack (.ok v) = .ok (.value v :: stack) := rfl

@[simp] theorem push_error (stack : Stack) (c : Cause) : push stack (.error c) = .error c := rfl

theorem step_unary (op : Unary) (v : Value) (stack : Stack) :
    step r red (.value v :: stack) (.operator op.operator) =
      push stack (Infix.applyUnary red op v) := by
  cases op <;> cases v <;> rfl

theorem step_binary (op : BinaryOp) (a b : Value) (stack : Stack) :
    step r red (.value b :: .value a :: stack) (.operator (.binary op)) =
      push stack (Infix.applyBinary red op a b) := by
  cases a <;> cases b <;> rfl

def items (vs : List Value) : Stack := vs.reverse.map .value

theorem takeArguments_map (upper taken : List Value) (stack : Stack) :
    takeArguments taken (upper.map .value ++ .marker :: stack) =
      some (upper.reverse ++ taken, stack) := by
  induction upper generalizing taken with
  | nil => rfl
  | cons v rest ih => simpa [takeArguments] using ih (v :: taken)

theorem takeArguments_items (vs : List Value) (stack : Stack) :
    takeArguments [] (items vs ++ .marker :: stack) = some (vs, stack) := by
  simpa [items] using takeArguments_map vs.reverse [] stack

theorem step_call (name : String) (args : List Value) (stack : Stack) :
    step r red (items args ++ .marker :: stack) (.call name) =
      push stack (Infix.applyAtom r name args) := by
  simp only [step, applyCall, takeArguments_items, Infix.applyAtom]
  cases r.atomCalled? name with
  | none => rfl
  | some a =>
    simp only [bind, Except.bind]
    cases a.instantiate args <;> rfl

end Machine

theorem Compiler.parse_of_lexemes {c : Compiler} {text : String} {words : List String}
    (lexed : SkillGraph.lexemes text = .ok words) :
    c.parse text = (Program.ofTokens c.registry (words.map Token.ofLexeme) >>=
      Program.run c.registry c.reduction).mapError (·.diagnostic.inExpression text) := by
  simp only [Compiler.parse, Compiler.eval, lexed]
  rfl

namespace Infix

open Machine

variable {r : Registry} {red : Reduction}

/-- The value of prefix operators, the nearest first, on the value of their operand. -/
def applyAll (red : Reduction) (waiting : List Unary) (v : Value) : Except Cause Value :=
  waiting.foldlM (fun v op => applyUnary red op v) v

theorem exec_released (waiting : List Unary) (v : Value) (stack : Stack) :
    exec r red (released waiting) (.value v :: stack) = push stack (applyAll red waiting v) := by
  induction waiting generalizing v with
  | nil => rfl
  | cons op rest ih =>
    change exec r red (.operator op.operator :: released rest) _ = _
    rw [exec_cons, step_unary]
    cases applied : applyUnary red op v with
    | error c => simp [applyAll, applied, bind, Except.bind]
    | ok w => simpa [applyAll, applied, bind, Except.bind] using ih w

theorem push_released (waiting : List Unary) (v : Except Cause Value) (stack : Stack) :
    (push stack v >>= exec r red (released waiting)) = push stack (v >>= applyAll red waiting) := by
  cases v with
  | error c => rfl
  | ok v => exact exec_released waiting v stack

mutual

/-- The run of a program under prefix operators that wait for its value. -/
theorem exec_program (e : Infix) (waiting : List Unary) (stack : Stack)
    (single : e.doubles = false) (first : waiting ≠ [] → e.negates = false) :
    exec r red (e.program waiting) stack =
      push stack (e.evaluate r red >>= applyAll red waiting) := by
  match e with
  | .word text => exact exec_released waiting (Literal.value text) stack
  | .bare name =>
    change (step r red (items [] ++ .marker :: stack) (.call name) >>=
      exec r red (released waiting)) = _
    rw [step_call, push_released, evaluate]
  | .call name args =>
    have inside := exec_programs args (.marker :: stack) single
    rw [program, List.cons_append, exec_cons]
    change exec r red (programs args ++ _) (.marker :: stack) = _
    rw [exec_append, inside, evaluate]
    cases evaluateAll r red args with
    | error c => rfl
    | ok vs =>
      change (step r red (items vs ++ .marker :: stack) (.call name) >>=
        exec r red (released waiting)) = _
      rw [step_call, push_released]
      rfl
  | .group inner =>
    have inside := exec_program inner [] stack single (by simp)
    rw [program, exec_append, inside, push_released, evaluate, bind_assoc]
    rfl
  | .unary op operand =>
    obtain ⟨apart, fine⟩ : operand.negates = false ∧ operand.doubles = false := by
      simpa [doubles] using single
    cases op with
    | negate =>
      obtain rfl : waiting = [] := by
        by_cases none : waiting = []
        · exact none
        · exact absurd (first none) (by simp [negates])
      have inside := exec_program operand [.negate] stack fine (fun _ => apart)
      rw [program, evaluate, bind_assoc]
      exact inside
    | not =>
      have inside := exec_program operand (.not :: waiting) stack fine (fun _ => apart)
      rw [program, evaluate, bind_assoc]
      exact inside
  | .binary op left right =>
    obtain ⟨single, single'⟩ : left.doubles = false ∧ right.doubles = false := by
      simpa [doubles] using single
    have low := exec_program left [] stack single (by simp)
    rw [program, exec_append, exec_append, low, evaluate]
    cases left.evaluate r red with
    | error c => rfl
    | ok a =>
      have high := exec_program right [] (.value a :: stack) single' (by simp)
      change (exec r red (right.program []) (.value a :: stack) >>= _) = _
      rw [high]
      cases right.evaluate r red with
      | error c => rfl
      | ok b =>
        change (step r red (.value b :: .value a :: stack) (.operator (.binary op)) >>=
          exec r red (released waiting)) = _
        rw [step_binary, push_released]
        rfl

theorem exec_programs (args : List Infix) (stack : Stack) (single : anyDoubles args = false) :
    exec r red (programs args) stack =
      (evaluateAll r red args).map fun vs => items vs ++ stack := by
  match args with
  | [] => rfl
  | e :: rest =>
    obtain ⟨single, others⟩ : e.doubles = false ∧ anyDoubles rest = false := by
      simpa [anyDoubles] using single
    have first := exec_program e [] stack single (by simp)
    rw [programs, exec_append, first, evaluateAll]
    cases e.evaluate r red with
    | error c => rfl
    | ok v =>
      change exec r red (programs rest) (.value v :: stack) = _
      rw [exec_programs rest (.value v :: stack) others]
      cases evaluateAll r red rest with
      | error c => rfl
      | ok vs => simp [bind, Except.bind, Except.map, pure, Except.pure, items]

end

/-- A written expression without doubled signs compiles to the value of its evaluation. -/
theorem run_tokens (red : Reduction) {e : Infix} (written : e.written r = true)
    (single : e.doubles = false) :
    (Program.ofTokens r e.tokens >>= Program.run r red) = e.evaluate r red := by
  rw [ofTokens_tokens written]
  change (exec r red (e.program []) [] >>= result r) = _
  rw [exec_program e [] [] single (by simp)]
  cases e.evaluate r red <;> rfl

/-- A written expression without doubled signs converts, and its program returns the value of the
expression or its error, whatever becomes of the nodes that are built. -/
theorem run_program_eq_evaluate (r : Registry) (red : Reduction) (e : Infix)
    (written : e.written r = true) (single : e.doubles = false) :
    ∃ program, Program.ofTokens r (e.lexemes.map Token.ofLexeme) = .ok program ∧
      program.run r red = e.evaluate r red := by
  have converted := ofTokens_tokens written
  refine ⟨e.program [], converted, ?_⟩
  rw [← run_tokens red written single, converted]
  rfl

/-- In `Max(1, -2 * !true) >= Self` the sign binds to the number alone. -/
theorem run_program_eq_evaluate_max :
    let e : Infix := .binary (.comparison .ge)
      (.call "Max" [.word "1", .binary (.arithmetic .mul) (.unary .negate (.word "2"))
        (.unary .not (.word "true"))]) (.bare "Self")
    e.written .standard = true ∧ e.doubles = false ∧
      ∃ program, Program.ofTokens .standard (e.lexemes.map Token.ofLexeme) = .ok program ∧
        program.run .standard .constant = e.evaluate .standard .constant :=
  ⟨by decide +kernel, by decide +kernel, run_program_eq_evaluate .standard .constant _
    (by decide +kernel) (by decide +kernel)⟩

end Infix

end SkillGraph
