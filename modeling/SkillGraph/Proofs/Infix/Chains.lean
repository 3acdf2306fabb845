import SkillGraph.Proofs.Except
import SkillGraph.Proofs.Infix.Execution

/-! Chains of prefix operators. A minus sign releases the prefix operators that wait in front of it
before an operand of theirs is written, so they take whatever lies on the stack: the operand to
their left, or nothing. `read` says which graph comes of that, and `reach` tells it from the graph
that was meant. -/
namespace SkillGraph

namespace Node

def leaves : Node → Nat
  | .negate n | .not n => n.leaves
  | .operation _ _ left right => left.leaves + right.leaves
  | _ => 1

def signs : Node → Nat
  | .negate n | .not n => n.signs + 1
  | .operation _ _ left right => left.signs + right.signs
  | _ => 0

/-- The sum, over all prefix operators, of the leaves that are written behind them. -/
def reach : Node → Nat
  | .negate n | .not n => n.reach + n.leaves
  | .operation _ _ left right => left.reach + left.signs * right.leaves + right.reach
  | _ => 0

end Node

namespace Infix

open Machine

/-- A node under prefix operators, the nearest first. -/
def wrap (ops : List Unary) (n : Node) : Node := ops.foldl (fun n op => op.node n) n

def literalNode (text : String) : Node := (Literal.value text).node?.getD default

def callFree : Infix → Bool
  | .word _ => true
  | .bare _ | .call .. => false
  | .group inner => inner.callFree
  | .unary _ operand => operand.callFree
  | .binary _ left right => left.callFree && right.callFree

/-- Whether all operands are numbers, booleans and bound constants. -/
def literal : Infix → Bool
  | .word text => (Literal.value text).node?.isSome
  | .bare _ | .call .. => false
  | .group inner => inner.literal
  | .unary _ operand => operand.literal
  | .binary _ left right => left.literal && right.literal

/-- The graph that a literal expression means. -/
def tree : Infix → Node
  | .word text => literalNode text
  | .bare _ | .call .. => default
  | .group inner => inner.tree
  | .unary op operand => op.node operand.tree
  | .binary op left right => .binary op left.tree right.tree

/-- The graph that the machine builds of a literal expression behind waiting prefix operators, and
the operators that it releases before the first operand is written. -/
def read (waiting : List Unary) : Infix → List Unary × Node
  | .word text => ([], wrap waiting (literalNode text))
  | .bare _ | .call .. => ([], wrap waiting default)
  | .group inner =>
    let (out, n) := inner.read []
    (out, wrap waiting n)
  | .unary .negate operand =>
    let (out, n) := operand.read [.negate]
    (waiting ++ out, n)
  | .unary .not operand => operand.read (.not :: waiting)
  | .binary op left right =>
    let (out, a) := left.read []
    let (taken, b) := right.read []
    (out, wrap waiting (.binary op (wrap taken a) b))

def stumbles : Infix → Bool
  | .word _ | .bare _ | .call .. => false
  | .group inner => inner.stumbles
  | .unary _ operand => operand.negates || operand.stumbles
  | .binary _ left _ => left.stumbles

section

variable (ops waiting : List Unary) (n : Node) (e : Infix)

@[simp] theorem leaves_wrap : (wrap ops n).leaves = n.leaves := by
  induction ops generalizing n with
  | nil => rfl
  | cons op rest ih =>
    change (wrap rest (op.node n)).leaves = _
    rw [ih]
    cases op <;> rfl

@[simp] theorem signs_wrap : (wrap ops n).signs = ops.length + n.signs := by
  induction ops generalizing n with
  | nil => simp [wrap]
  | cons op rest ih =>
    change (wrap rest (op.node n)).signs = _
    rw [ih, List.length_cons]
    cases op <;> simp only [Unary.node, Node.signs] <;> omega

@[simp] theorem reach_wrap : (wrap ops n).reach = n.reach + ops.length * n.leaves := by
  induction ops generalizing n with
  | nil => simp [wrap]
  | cons op rest ih =>
    change (wrap rest (op.node n)).reach = _
    rw [ih, List.length_cons, Nat.succ_mul]
    cases op <;> simp only [Unary.node, Node.reach, Node.leaves] <;> omega

theorem weight_literalNode (text : String) :
    (literalNode text).leaves = 1 ∧ (literalNode text).signs = 0 ∧
      (literalNode text).reach = 0 := by
  unfold literalNode Literal.value
  split
  · exact ⟨rfl, rfl, rfl⟩
  split
  · exact ⟨rfl, rfl, rfl⟩
  split
  · exact ⟨rfl, rfl, rfl⟩
  split <;> exact ⟨rfl, rfl, rfl⟩

theorem leaves_pos : 0 < e.tree.leaves := by
  induction e using tree.induct with
  | case1 text => simp [tree, weight_literalNode]
  | case2 | case3 => exact Nat.one_pos
  | case4 inner ih => exact ih
  | case5 op operand ih => cases op <;> exact ih
  | case6 op left right ihl ihr => simp only [tree, Node.binary, Node.leaves]; omega

theorem leaves_read : (e.read waiting).2.leaves = e.tree.leaves := by
  induction waiting, e using read.induct with
  | case1 | case2 | case3 => simp [read, tree]
  | case4 waiting inner out n split ih => simpa [read, tree] using ih
  | case5 waiting operand out n split ih => simpa [read, tree, Unary.node, Node.leaves] using ih
  | case6 waiting operand ih => simpa [read, tree, Unary.node, Node.leaves] using ih
  | case7 waiting op left right out a split taken b split' ihl ihr =>
    simpa [read, tree, Node.binary, Node.leaves] using by rw [ihl, ihr]

/-- Operators that are released are not in the graph, all others are. -/
theorem signs_read :
    (e.read waiting).2.signs + (e.read waiting).1.length = waiting.length + e.tree.signs := by
  induction waiting, e using read.induct with
  | case1 | case2 | case3 => simp [read, tree]
  | case4 waiting inner out n split ih =>
    simp only [split, List.length_nil] at ih
    simp only [read, split, tree, signs_wrap]
    omega
  | case5 waiting operand out n split ih =>
    simp only [split, List.length_singleton] at ih
    simp only [read, split, tree, Unary.node, Node.signs, List.length_append]
    omega
  | case6 waiting operand ih =>
    simp only [List.length_cons] at ih
    simp only [read, tree, Unary.node, Node.signs]
    omega
  | case7 waiting op left right out a split taken b split' ihl ihr =>
    simp only [split, List.length_nil] at ihl
    simp only [split', List.length_nil] at ihr
    simp only [read, split, split', tree, signs_wrap, Node.binary, Node.signs]
    omega

/-- An operator that is taken by an operand on its left has more leaves behind it than it was meant
to have. -/
theorem reach_read :
    waiting.length * e.tree.leaves + e.tree.reach ≤
      (e.read waiting).2.reach + (e.read waiting).1.length * e.tree.leaves := by
  induction waiting, e using read.induct with
  | case1 waiting text => simp [read, tree, weight_literalNode]
  | case2 | case3 => simp [read, tree, default, Node.leaves, Node.reach]
  | case4 waiting inner out n split ih =>
    have same := leaves_read [] inner
    simp only [split, List.length_nil, Nat.zero_mul] at ih same
    simp only [read, split, tree, reach_wrap, same]
    omega
  | case5 waiting operand out n split ih =>
    simp only [split, List.length_singleton] at ih
    simp only [read, split, tree, Unary.node, Node.reach, Node.leaves, List.length_append,
      Nat.add_mul]
    omega
  | case6 waiting operand ih =>
    simp only [List.length_cons, Nat.add_mul] at ih
    simp only [read, tree, Unary.node, Node.reach, Node.leaves]
    omega
  | case7 waiting op left right out a split taken b split' ihl ihr =>
    have sameLeft := leaves_read [] left
    have sameRight := leaves_read [] right
    have count := signs_read [] left
    simp only [split, List.length_nil, Nat.zero_mul, Nat.zero_add] at ihl sameLeft count
    simp only [split', List.length_nil, Nat.zero_mul] at ihr sameRight
    simp only [read, split, split', tree, reach_wrap, signs_wrap, leaves_wrap, Node.binary,
      Node.reach, Node.leaves, sameLeft, sameRight, ← count, Nat.add_mul, Nat.mul_add]
    omega

/-- If the machine releases nothing in front of the expression, but a sign is doubled somewhere,
then some operator in between is taken by an operand on its left. -/
theorem reach_read_lt (plain : e.callFree = true) (kept : (e.read waiting).1 = [])
    (doubled : e.doubles = true ∨ waiting ≠ [] ∧ e.negates = true) :
    waiting.length * e.tree.leaves + e.tree.reach < (e.read waiting).2.reach := by
  induction waiting, e using read.induct with
  | case1 => simp [doubles, negates] at doubled
  | case2 | case3 => simp [callFree] at plain
  | case4 waiting inner out n split ih =>
    have same := leaves_read [] inner
    have less := ih plain (by simpa [read, split] using kept)
      (.inl (by simpa [doubles, negates] using doubled))
    simp only [split, List.length_nil, Nat.zero_mul] at less same
    simp only [read, split, tree, reach_wrap, same]
    omega
  | case5 waiting operand out n split ih =>
    obtain ⟨rfl, rfl⟩ : waiting = [] ∧ out = [] := by simpa [read, split] using kept
    have less := ih plain (by rw [split])
      (by simpa [doubles, or_comm] using doubled)
    simp only [split, List.length_singleton] at less
    simp only [read, split, tree, Unary.node, Node.reach, List.length_nil]
    omega
  | case6 waiting operand ih =>
    have less := ih plain kept (by simpa [doubles, negates, or_comm] using doubled)
    simp only [List.length_cons, Nat.add_mul] at less
    simp only [read, tree, Unary.node, Node.reach, Node.leaves]
    omega
  | case7 waiting op left right out a split taken b split' ihl ihr =>
    obtain ⟨plainLeft, plainRight⟩ : left.callFree = true ∧ right.callFree = true := by
      simpa [callFree] using plain
    obtain rfl : out = [] := by simpa [read, split] using kept
    have sides : left.doubles = true ∨ right.doubles = true := by
      simpa [doubles, negates] using doubled
    have sameLeft := leaves_read [] left
    have sameRight := leaves_read [] right
    have count := signs_read [] left
    have leLeft := reach_read [] left
    have leRight := reach_read [] right
    simp only [split, List.length_nil, Nat.zero_mul, Nat.zero_add, Nat.add_zero]
      at sameLeft count leLeft ihl
    simp only [split', List.length_nil, Nat.zero_mul, Nat.zero_add] at sameRight leRight ihr
    -- Either the right operand hands an operator to the left one, or one of them is misread itself.
    have gained : left.tree.reach + right.tree.reach <
        a.reach + b.reach + taken.length * left.tree.leaves + taken.length * right.tree.leaves := by
      cases taken with
      | cons op more =>
        have : 0 < (op :: more).length * left.tree.leaves :=
          Nat.mul_pos (Nat.succ_pos _) (leaves_pos left)
        omega
      | nil =>
        simp only [List.length_nil, Nat.zero_mul] at leRight ⊢
        rcases sides with doubledLeft | doubledRight
        · have := ihl plainLeft trivial (.inl doubledLeft)
          omega
        · have := ihr plainRight rfl (.inl doubledRight)
          omega
    simp only [read, split, split', tree, reach_wrap, signs_wrap, leaves_wrap, Node.binary,
      Node.reach, Node.leaves, sameLeft, sameRight, count, Nat.add_mul, Nat.mul_add]
    omega

/-- The machine releases something in front of an expression exactly if it stumbles there. -/
theorem read_fst_eq_nil_iff (plain : e.callFree = true) :
    (e.read waiting).1 = [] ↔ e.stumbles = false ∧ (waiting ≠ [] → e.negates = false) := by
  induction waiting, e using read.induct with
  | case1 => simp [read, stumbles, negates]
  | case2 | case3 => simp [callFree] at plain
  | case4 waiting inner out n split ih =>
    simpa [read, split, stumbles, negates] using ih plain
  | case5 waiting operand out n split ih =>
    have inside := ih plain
    have minus : (unary .negate operand).negates = true := rfl
    simp only [split] at inside
    simp only [read, split, stumbles, minus, List.append_eq_nil_iff, inside]
    cases operand.negates <;> cases operand.stumbles <;> simp
  | case6 waiting operand ih =>
    have inside := ih plain
    have noMinus : (unary .not operand).negates = false := rfl
    simp only [read, stumbles, noMinus, inside]
    cases operand.negates <;> cases operand.stumbles <;> simp
  | case7 waiting op left right out a split taken b split' ihl ihr =>
    have plainLeft : left.callFree = true := by
      simp only [callFree, Bool.and_eq_true] at plain
      exact plain.1
    simpa [read, split, stumbles, negates] using ihl plainLeft

end

section

variable {r : Registry}

theorem literalNode_of_literal {text : String} (h : (word text).literal = true) :
    Literal.value text = .node (literalNode text) := by
  obtain ⟨n, found⟩ := Option.isSome_iff_exists.1 h
  cases value : Literal.value text with
  | node n => simp [literalNode, value, Value.node?]
  | _ => simp [value, Value.node?] at found

theorem applyAll_node (waiting : List Unary) (n : Node) :
    applyAll .none waiting (.node n) = .ok (.node (wrap waiting n)) := by
  induction waiting generalizing n with
  | nil => rfl
  | cons op rest ih => exact ih (op.node n)

theorem exec_released_node (waiting : List Unary) (n : Node) (stack : Stack) :
    exec r .none (released waiting) (.value (.node n) :: stack) =
      .ok (.value (.node (wrap waiting n)) :: stack) := by
  rw [exec_released, applyAll_node, push_ok]

theorem released_append (first second : List Unary) :
    released (first ++ second) = released first ++ released second := List.map_append

/-- A literal expression hands what it releases first to the stack below and leaves its graph on
top. -/
theorem exec_literal (e : Infix) (waiting : List Unary) (stack : Stack)
    (literal : e.literal = true) :
    exec r .none (e.program waiting) stack =
      (exec r .none (released (e.read waiting).1) stack).map
        (.value (.node (e.read waiting).2) :: ·) := by
  induction waiting, e using read.induct generalizing stack with
  | case1 waiting text =>
    change exec r .none (released waiting) (.value (Literal.value text) :: stack) = _
    rw [literalNode_of_literal literal, exec_released_node]
    rfl
  | case2 | case3 => simp [Infix.literal] at literal
  | case4 waiting inner out n split ih =>
    simp only [split] at ih
    simp only [program, read, split, exec_append, ih stack literal]
    cases exec r .none (released out) stack with
    | error c => rfl
    | ok below => exact exec_released_node waiting n below
  | case5 waiting operand out n split ih =>
    simp only [split] at ih
    simp only [program, read, split, released_append, exec_append]
    cases exec r .none (released waiting) stack with
    | error c => rfl
    | ok below => exact ih below literal
  | case6 waiting operand ih => exact ih stack literal
  | case7 waiting op left right out a split taken b split' ihl ihr =>
    obtain ⟨literalLeft, literalRight⟩ : left.literal = true ∧ right.literal = true := by
      simpa [Infix.literal] using literal
    simp only [split] at ihl
    simp only [split'] at ihr
    simp only [program, read, split, split', exec_append, ihl stack literalLeft]
    cases exec r .none (released out) stack with
    | error c => rfl
    | ok below =>
      change ((exec r .none (right.program []) (.value (.node a) :: below)) >>= _) = _
      rw [ihr _ literalRight, exec_released_node]
      exact exec_released_node waiting _ below

/-- The result of a literal expression. Where nothing lies to the left of a released operator, it
has no operand. -/
theorem run_literal {e : Infix} (written : e.written r = true) (literal : e.literal = true) :
    (Program.ofTokens r e.tokens >>= Program.run r .none) = match e.read [] with
      | ([], n) => .ok (.node n)
      | (op :: _, _) => .error (.missingOperand op.operator.symbol) := by
  rw [ofTokens_tokens written]
  change (exec r .none (e.program []) [] >>= result r) = _
  rw [exec_literal e [] [] literal]
  rcases e.read [] with ⟨_ | ⟨op, rest⟩, n⟩
  · rfl
  · cases op <;> rfl

theorem evaluate_literal {e : Infix} (literal : e.literal = true) :
    e.evaluate r .none = .ok (.node e.tree) := by
  induction e using tree.induct with
  | case1 text => rw [evaluate, literalNode_of_literal literal, tree]
  | case2 | case3 => simp [Infix.literal] at literal
  | case4 inner ih => exact ih literal
  | case5 op operand ih =>
    rw [evaluate, ih literal]
    rfl
  | case6 op left right ihl ihr =>
    obtain ⟨literalLeft, literalRight⟩ : left.literal = true ∧ right.literal = true := by
      simpa [Infix.literal] using literal
    rw [evaluate, ihl literalLeft, ihr literalRight]
    rfl

theorem callFree_of_literal {e : Infix} (literal : e.literal = true) : e.callFree = true := by
  induction e using tree.induct with
  | case1 => rfl
  | case2 | case3 => simp [Infix.literal] at literal
  | case4 inner ih => exact ih literal
  | case5 op operand ih => exact ih literal
  | case6 op left right ihl ihr =>
    simp only [Infix.literal, callFree, Bool.and_eq_true] at literal ⊢
    exact ⟨ihl literal.1, ihr literal.2⟩

/-- A doubled sign that is not fatal changes the graph. -/
theorem run_literal_of_doubles {e : Infix} (written : e.written r = true)
    (literal : e.literal = true) (doubled : e.doubles = true) (steady : e.stumbles = false) :
    ∃ n, (Program.ofTokens r e.tokens >>= Program.run r .none) = .ok (.node n) ∧ n ≠ e.tree := by
  have plain := callFree_of_literal literal
  have kept : (e.read []).1 = [] := (read_fst_eq_nil_iff [] e plain).2 ⟨steady, by simp⟩
  have more := reach_read_lt [] e plain kept (.inl doubled)
  refine ⟨(e.read []).2, ?_, ?_⟩
  · rw [run_literal written literal]
    split <;> simp_all
  · intro same
    rw [same] at more
    simp at more

/-- What the machine releases in front of an expression comes first in the program. -/
theorem program_read (e : Infix) (waiting : List Unary) :
    ∃ rest, e.program waiting = released (e.read waiting).1 ++ rest := by
  induction waiting, e using read.induct with
  | case1 | case2 | case3 => exact ⟨_, rfl⟩
  | case4 waiting inner out n split ih =>
    obtain ⟨rest, whole⟩ := ih
    rw [split] at whole
    exact ⟨rest ++ released waiting, by simp [program, read, split, whole]⟩
  | case5 waiting operand out n split ih =>
    obtain ⟨rest, whole⟩ := ih
    rw [split] at whole
    exact ⟨rest, by simp [program, read, split, whole, released_append]⟩
  | case6 waiting operand ih => exact ih
  | case7 waiting op left right out a split taken b split' ihl ihr =>
    obtain ⟨rest, whole⟩ := ihl
    rw [split] at whole
    exact ⟨_, by rw [program, whole, read, split, split', List.append_assoc, List.append_assoc]⟩

theorem run_of_stumbles {e : Infix} (written : e.written r = true) (plain : e.callFree = true)
    (stumbled : e.stumbles = true) :
    ∃ op, (Program.ofTokens r e.tokens >>= Program.run r .none) = .error (.missingOperand op) := by
  obtain ⟨rest, whole⟩ := program_read e []
  cases first : (e.read []).1 with
  | nil => simp [stumbled, (read_fst_eq_nil_iff [] e plain)] at first
  | cons op more =>
    rw [ofTokens_tokens written, whole, first]
    exact ⟨op.operator.symbol, by cases op <;> rfl⟩

def onlyWord? : Infix → Option String
  | .word text => some text
  | .group inner => inner.onlyWord?
  | _ => none

theorem doubles_of_onlyWord? {e : Infix} {text : String} (only : e.onlyWord? = some text) :
    e.doubles = false := by
  induction e using onlyWord?.induct with
  | case1 => rfl
  | case2 inner ih => exact ih only
  | case3 e noWord noGroup => cases e <;> simp_all [onlyWord?]

theorem value_of_not_literal {text : String} (bare : (word text).literal = false) :
    ∃ s, Literal.value text = .text s := by
  have noNode : (Literal.value text).node? = none := by simpa [Infix.literal] using bare
  revert noNode
  unfold Literal.value
  repeat' split
  all_goals simp [Value.node?]

theorem exec_released_text (op : Unary) (more : List Unary) (s : String) (stack : Stack) :
    ∃ c, exec r .none (released (op :: more)) (.value (.text s) :: stack) = .error c := by
  rw [exec_released]
  cases op <;> exact ⟨_, rfl⟩

/-- A run on text fails, unless the text is the whole expression. -/
theorem exec_text (e : Infix) (waiting : List Unary) (stack : Stack) (plain : e.callFree = true)
    (bare : e.literal = false) :
    (∃ c, exec r .none (e.program waiting) stack = .error c) ∨
      waiting = [] ∧ (∃ text, e.onlyWord? = some text) ∧
        ∃ s, exec r .none (e.program []) stack = .ok (.value (.text s) :: stack) := by
  induction waiting, e using read.induct generalizing stack with
  | case1 waiting text =>
    obtain ⟨s, value⟩ := value_of_not_literal bare
    change (∃ c, exec r .none (released waiting) (.value (Literal.value text) :: stack) = _) ∨ _
    rw [value]
    cases waiting with
    | nil => exact .inr ⟨rfl, ⟨text, rfl⟩, s, by rw [← value]; rfl⟩
    | cons op more => exact .inl (exec_released_text op more s stack)
  | case2 | case3 => simp [callFree] at plain
  | case4 waiting inner out n split ih =>
    simp only [program, exec_append]
    rcases ih stack plain bare with ⟨c, failed⟩ | ⟨-, ⟨text, only⟩, s, ran⟩
    · exact .inl ⟨c, by rw [failed]; rfl⟩
    · rw [ran]
      cases waiting with
      | nil => exact .inr ⟨rfl, ⟨text, only⟩, s, rfl⟩
      | cons op more =>
        obtain ⟨c, failed⟩ := exec_released_text (r := r) op more s stack
        exact .inl ⟨c, failed⟩
  | case5 waiting operand out n split ih =>
    left
    rw [program, exec_append]
    cases exec r .none (released waiting) stack with
    | error c => exact ⟨c, rfl⟩
    | ok below =>
      rcases ih below plain bare with failed | ⟨empty, -⟩
      · exact failed
      · cases empty
  | case6 waiting operand ih =>
    rcases ih stack plain bare with failed | ⟨empty, -⟩
    · exact .inl failed
    · cases empty
  | case7 waiting op left right out a split taken b split' ihl ihr =>
    obtain ⟨plainLeft, plainRight⟩ : left.callFree = true ∧ right.callFree = true := by
      simpa [callFree] using plain
    left
    rw [program, exec_append, exec_append]
    cases kind : right.literal with
    | false =>
      cases exec r .none (left.program []) stack with
      | error c => exact ⟨c, rfl⟩
      | ok below =>
        change ∃ c, (exec r .none (right.program []) below >>= _) = .error c
        rcases ihr below plainRight kind with ⟨c, failed⟩ | ⟨-, -, s, ran⟩
        · exact ⟨c, by rw [failed]; rfl⟩
        · rw [ran]
          exact ⟨_, rfl⟩
    | true =>
      have bareLeft : left.literal = false := by simpa [Infix.literal, kind] using bare
      rcases ihl stack plainLeft bareLeft with ⟨c, failed⟩ | ⟨-, -, s, ran⟩
      · exact ⟨c, by rw [failed]; rfl⟩
      · rw [ran]
        change ∃ c, (exec r .none (right.program []) (.value (.text s) :: stack) >>= _) = .error c
        rw [exec_literal right [] _ kind]
        cases (right.read []).1 with
        | nil => exact ⟨_, rfl⟩
        | cons op more =>
          obtain ⟨c, failed⟩ := exec_released_text (r := r) op more s stack
          exact ⟨c, by rw [failed]; rfl⟩

/-- An expression with bare text in it yields what it means, or nothing. -/
theorem run_text {e : Infix} (written : e.written r = true) (plain : e.callFree = true)
    (bare : e.literal = false) :
    (∃ c, (Program.ofTokens r e.tokens >>= Program.run r .none) = .error c) ∨
      (Program.ofTokens r e.tokens >>= Program.run r .none) = e.evaluate r .none := by
  rcases exec_text e [] [] plain bare with ⟨c, failed⟩ | ⟨-, ⟨text, only⟩, -⟩
  · refine .inl ⟨c, ?_⟩
    rw [ofTokens_tokens written]
    change (exec r .none (e.program []) [] >>= result r) = _
    rw [failed]
    rfl
  · exact .inr (run_tokens .none written (doubles_of_onlyWord? only))

end

/-- What comes of chains of prefix operators. An expression without doubled signs reads as it is
meant. A sign that is doubled in front of the first operand lacks an operand. Any other doubled sign
makes a literal expression read as another graph, and nothing else does. -/
theorem parse_chain (r : Registry) (text : String) (e : Infix)
    (lexed : SkillGraph.lexemes text = .ok e.lexemes) (written : e.written r = true)
    (plain : e.callFree = true) :
    let c : Compiler := ⟨r, .none⟩
    let meant := (e.evaluate r .none).mapError (·.diagnostic.inExpression text)
    (e.doubles = false → c.parse text = meant) ∧
      (e.stumbles = true →
        ∃ d, c.parse text = .error d ∧ d.code = ErrorCode.missingOperand.text) ∧
      ((∃ v, c.parse text = .ok v ∧ meant ≠ .ok v) ↔
        e.doubles = true ∧ e.stumbles = false ∧ e.literal = true) := by
  intro c meant
  have parsed : c.parse text = (Program.ofTokens r e.tokens >>= Program.run r .none).mapError
      (·.diagnostic.inExpression text) := Compiler.parse_of_lexemes lexed
  have meets (single : e.doubles = false) : c.parse text = meant := by
    rw [parsed, run_tokens .none written single]
  have fails (stumbled : e.stumbles = true) :
      ∃ d, c.parse text = .error d ∧ d.code = ErrorCode.missingOperand.text := by
    obtain ⟨op, failed⟩ := run_of_stumbles written plain stumbled
    exact ⟨_, by rw [parsed, failed]; rfl, rfl⟩
  refine ⟨meets, fails, ?_, ?_⟩
  · rintro ⟨v, ok, other⟩
    refine ⟨?_, ?_, ?_⟩
    · by_contra single
      exact other ((meets (by simpa using single)) ▸ ok)
    · by_contra stumbled
      obtain ⟨d, failed, -⟩ := fails (by simpa using stumbled)
      rw [ok] at failed
      cases failed
    · by_contra bare
      rcases run_text written plain (by simpa using bare) with ⟨c, failed⟩ | same
      · rw [parsed, failed] at ok
        cases ok
      · exact other (by rw [← ok, parsed, same])
  · rintro ⟨doubled, steady, literal⟩
    obtain ⟨n, ran, other⟩ := run_literal_of_doubles written literal doubled steady
    refine ⟨.node n, by rw [parsed, ran]; rfl, fun same => other ?_⟩
    rw [mapError_eq_ok_iff, evaluate_literal literal] at same
    cases same
    rfl

/-- The second minus sign takes the operand to its left. -/
theorem parse_takes_left_operand :
    let e : Infix := .binary (.arithmetic .sub) (.word "1")
      (.unary .negate (.unary .negate (.word "5")))
    SkillGraph.lexemes "1 - - -5" = .ok e.lexemes ∧
      e.evaluate .empty .none = .ok (.node (.binary (.arithmetic .sub) (.literal 1.0)
        (.negate (.negate (.literal 5.0))))) ∧
      Compiler.parse ⟨.empty, .none⟩ "1 - - -5" = .ok (.node (.binary (.arithmetic .sub)
        (.negate (.literal 1.0)) (.negate (.literal 5.0)))) :=
  ⟨rfl, rfl, rfl⟩

/-- A doubled sign to the right of an operand, where it changes the graph. -/
theorem parse_chain_doubled :
    let e : Infix := .binary (.arithmetic .add) (.word "1")
      (.unary .not (.unary .negate (.word "5")))
    SkillGraph.lexemes "1 + !-5" = .ok e.lexemes ∧ e.written .empty = true ∧
      e.callFree = true ∧ ∃ v, Compiler.parse ⟨.empty, .none⟩ "1 + !-5" = .ok v ∧
        (e.evaluate .empty .none).mapError (·.diagnostic.inExpression "1 + !-5") ≠ .ok v := by
  refine ⟨rfl, by decide +kernel, rfl, ?_⟩
  exact (parse_chain .empty "1 + !-5" _ rfl (by decide +kernel) rfl).2.2.2
    ⟨rfl, rfl, by decide +kernel⟩

end Infix

end SkillGraph
