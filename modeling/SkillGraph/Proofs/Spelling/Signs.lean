import SkillGraph.Proofs.Spelling.Roundtrip

/-! Signs of numbers in spellings. The sign of a constant is spelled like a negation and reads back
as one, so that a tree of operations comes back as it was only if no constant in it has its sign
set. -/
namespace SkillGraph

namespace Node

/-- Whether the node is built by operators from booleans and from unbound numbers that are not
NaN. -/
def isLiteralTree : Node → Bool
  | .constant x key => key = "" && !x.isNaN
  | .boolean _ => true
  | .negate operand | .not operand => operand.isLiteralTree
  | .operation group code left right =>
    (group.operator? code).isSome && left.isLiteralTree && right.isLiteralTree
  | .call .. => false

def isUnsigned : Node → Bool
  | .constant x _ => Number.isUnsigned x
  | .negate operand | .not operand => operand.isUnsigned
  | .operation _ _ left right => left.isUnsigned && right.isUnsigned
  | .boolean _ | .call .. => true

/-- The node with each sign of a constant turned into a negation of the opposite constant. -/
def detached : Node → Node
  | .constant x key =>
    if Number.isUnsigned x then .constant x key else .negate (.constant (-x) key)
  | .negate operand => .negate operand.detached
  | .not operand => .not operand.detached
  | .operation group code left right => .operation group code left.detached right.detached
  | n => n

end Node

def Form.literals : Form where
  literal x := x.isNaN = false
  number _ := False
  text _ := False
  operation _ := True

namespace Node

theorem of_isLiteralTree_operation {group : OpGroup} {code : UInt8} {left right : Node}
    (tree : (Node.operation group code left right).isLiteralTree = true) :
    (group.operator? code).isSome = true ∧ left.isLiteralTree = true ∧
      right.isLiteralTree = true := by
  simpa [isLiteralTree, and_assoc] using tree

theorem has_of_isLiteralTree (r : Registry) (n : Node) (tree : n.isLiteralTree = true) :
    n.Has r .literals := by
  match n with
  | .constant x key =>
    obtain ⟨rfl, notNaN⟩ : key = "" ∧ x.isNaN = false := by simpa [isLiteralTree] using tree
    exact .literal notNaN
  | .boolean b => trivial
  | .negate operand | .not operand => exact ⟨trivial, operand.has_of_isLiteralTree r tree⟩
  | .operation group code left right =>
    obtain ⟨known, low, high⟩ := of_isLiteralTree_operation tree
    exact ⟨trivial, known, left.has_of_isLiteralTree r low, right.has_of_isLiteralTree r high⟩

/-- The expression of a tree evaluates to the tree with its signs turned into negations. -/
theorem evaluate_expression_eq_detached (r : Registry) (n : Node)
    (tree : n.isLiteralTree = true) :
    (n.expression r).evaluate r .none = .ok (.node n.detached) := by
  match n with
  | .constant x key =>
    obtain ⟨rfl, notNaN⟩ : key = "" ∧ x.isNaN = false := by simpa [isLiteralTree] using tree
    change (Infix.numeral r x).evaluate r .none = _
    rw [Infix.evaluate_numeral .none notNaN]
    rfl
  | .boolean b => exact congrArg Except.ok (Literal.Spells.boolean (r := r) b).value
  | .negate operand | .not operand =>
    have inside := operand.evaluate_expression_eq_detached r tree
    exact Infix.evaluate_unary_eq_ok_iff.2 ⟨operand.detached, inside, rfl⟩
  | .operation group code left right =>
    obtain ⟨known, low, high⟩ := of_isLiteralTree_operation tree
    obtain ⟨op, found⟩ := Option.isSome_iff_exists.1 known
    obtain ⟨rfl, rfl⟩ := OpGroup.of_operator? found
    have first := left.evaluate_expression_eq_detached r low
    have second := right.evaluate_expression_eq_detached r high
    simp only [Node.expression, found]
    exact Infix.evaluate_binary_eq_ok_iff.2
      ⟨left.detached, right.detached, first, second, rfl⟩

theorem detached_eq_self (n : Node) (unsigned : n.isUnsigned = true) : n.detached = n := by
  match n with
  | .constant x key => exact if_pos unsigned
  | .boolean _ | .call .. => rfl
  | .negate operand => exact congrArg Node.negate (operand.detached_eq_self unsigned)
  | .not operand => exact congrArg Node.not (operand.detached_eq_self unsigned)
  | .operation group code left right =>
    obtain ⟨low, high⟩ : left.isUnsigned = true ∧ right.isUnsigned = true := by
      simpa [isUnsigned] using unsigned
    rw [detached, left.detached_eq_self low, right.detached_eq_self high]

/-- A tree equals the one with its signs turned into negations only if there are none. -/
theorem same_detached (n : Node) (tree : n.isLiteralTree = true) :
    n.same n.detached = n.isUnsigned := by
  match n with
  | .constant x key =>
    obtain ⟨rfl, notNaN⟩ : key = "" ∧ x.isNaN = false := by simpa [isLiteralTree] using tree
    cases unsigned : Number.isUnsigned x with
    | true => simp [detached, isUnsigned, unsigned, same, Number.beq_self notNaN]
    | false => simp [detached, isUnsigned, unsigned, same]
  | .boolean b => simp [detached, isUnsigned, same]
  | .negate operand | .not operand =>
    simpa [detached, isUnsigned, same] using operand.same_detached tree
  | .operation group code left right =>
    obtain ⟨-, low, high⟩ := of_isLiteralTree_operation tree
    simp [detached, isUnsigned, same, left.same_detached low, right.same_detached high]

end Node

/-- Without folding, the spelling of a tree parses to the tree with its signs turned into negations,
which equals the tree if no constant has its sign set, and only then. -/
theorem parseGraph_spellGraph_detached (r : Registry) (n : Node) (tree : n.isLiteralTree = true) :
    let c : Compiler := ⟨r, .none⟩
    c.parseGraph (c.spellGraph n) = .ok n.detached ∧
      (n == n.detached) = n.isUnsigned ∧ (n.isUnsigned = true → n.detached = n) := by
  intro c
  refine ⟨?_, n.same_detached tree, n.detached_eq_self⟩
  apply Compiler.parseGraph_eq_ok_iff.2
  have parsed := parse_spell (r := r) (F := .literals) (fun _ => False.elim) .none
    (n.has_of_isLiteralTree r tree)
  rw [n.evaluate_expression_eq_detached r tree] at parsed
  exact parsed

/-- A constant below zero, as a record holds it, comes back as a negation. -/
theorem parseGraph_spellGraph_below_zero :
    let c : Compiler := ⟨.empty, .none⟩
    let record : Json := .object [("_ClassName", .string "NumberConst"),
      ("Constant", .number (.integer (-5))), ("ConstantKey", .string "")]
    Node.ofJson record = .ok (.literal (-5.0)) ∧ c.spellGraph (.literal (-5.0)) = "-5" ∧
      c.parseGraph "-5" = .ok (.negate (.literal 5.0)) ∧
      (Node.literal (-5.0) == .negate (.literal 5.0)) = false := by
  have whole : Float.ofInt (-5) = -5.0 := by decide +kernel
  refine ⟨?_, by decide +kernel, rfl, by decide +kernel⟩
  exact congrArg (fun x => Except.ok (Node.literal x)) whole

/-- Signs at the start, behind an operator and inside of parentheses, also that of zero. -/
theorem parseGraph_spellGraph_detached_signs :
    let n : Node := .not (.operation .comparison 2 (.literal (-2.5))
      (.operation .arithmetic 1 (.negate (.literal (-0.0))) (.literal (-1.0 / 0.0))))
    let c : Compiler := ⟨.standard, .none⟩
    n.isLiteralTree = true ∧ c.parseGraph (c.spellGraph n) = .ok n.detached ∧
      (n == n.detached) = false := by
  intro n c
  have tree : n.isLiteralTree = true := by decide +kernel
  obtain ⟨parsed, same, -⟩ := parseGraph_spellGraph_detached .standard n tree
  exact ⟨tree, parsed, same.trans (by decide +kernel)⟩

end SkillGraph
