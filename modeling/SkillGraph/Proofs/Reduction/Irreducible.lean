import SkillGraph.Proofs.Nodes
import SkillGraph.Proofs.Spelling.Folding
import SkillGraph.Proofs.Spelling.Texts

/-! What folding leaves. An operation is folded as soon as it is built, from operands in which
nothing folds any more, and a field that stores an argument builds no operation, so nothing in a
result folds. An operation on two literals stays only where it has no result. -/
namespace SkillGraph

/-- Operations on two literals that have no result. -/
inductive BinaryOp.Undefined : BinaryOp → Node → Node → Prop where
  | byZero {op : Arithmetic} (divides : op = .div ∨ op = .mod) (x : Float) {y : Float}
      (zero : (y == 0.0) = true) : Undefined (.arithmetic op) (.literal x) (.literal y)
  | order {op : Comparison} (ordering : op ≠ .eq ∧ op ≠ .ne) (a b : Bool) :
      Undefined (.comparison op) (.boolean a) (.boolean b)
  | arithmeticOfBooleans (op : Arithmetic) (a b : Bool) :
      Undefined (.arithmetic op) (.boolean a) (.boolean b)
  | logicOfNumbers (op : Logic) (x y : Float) : Undefined (.logic op) (.literal x) (.literal y)
  | numberFirst (op : BinaryOp) (x : Float) (b : Bool) : Undefined op (.literal x) (.boolean b)
  | booleanFirst (op : BinaryOp) (a : Bool) (y : Float) : Undefined op (.boolean a) (.literal y)

@[simp] theorem Node.plainNumber?_literal (x : Float) : (literal x).plainNumber? = some x := by
  simp [literal, plainNumber?]

@[simp] theorem Node.plainBool?_literal (x : Float) : (literal x).plainBool? = none := rfl

@[simp] theorem Node.plainNumber?_boolean (b : Bool) : (boolean b).plainNumber? = none := rfl

@[simp] theorem Node.plainBool?_boolean (b : Bool) : (boolean b).plainBool? = some b := rfl

theorem Arithmetic.compute?_eq_none_iff {op : Arithmetic} {x y : Float} :
    op.compute? x y = none ↔ (op = .div ∨ op = .mod) ∧ (y == 0.0) = true := by
  cases op <;> simp [compute?, bne]

theorem Comparison.holdsOfBools?_eq_none_iff {op : Comparison} {a b : Bool} :
    op.holdsOfBools? a b = none ↔ op ≠ .eq ∧ op ≠ .ne := by
  cases op <;> simp [holdsOfBools?]

/-- Two literals are folded except where the operation has no result on them. -/
theorem BinaryOp.fold?_eq_none_iff {op : BinaryOp} {left right : Node} (low : left.IsLiteral)
    (high : right.IsLiteral) : op.fold? left right = none ↔ op.Undefined left right := by
  constructor
  · intro unfolded
    cases low with
    | number x =>
      cases high with
      | number y =>
        cases op with
        | arithmetic op =>
          obtain ⟨divides, zero⟩ := Arithmetic.compute?_eq_none_iff.1
            (show op.compute? x y = none by simpa [fold?] using unfolded)
          exact .byZero divides x zero
        | logic op => exact .logicOfNumbers op x y
        | comparison op => simp [fold?] at unfolded
      | boolean b => exact .numberFirst op x b
    | boolean a =>
      cases high with
      | number y => exact .booleanFirst op a y
      | boolean b =>
        cases op with
        | arithmetic op => exact .arithmeticOfBooleans op a b
        | logic op => simp [fold?] at unfolded
        | comparison op =>
          exact .order (Comparison.holdsOfBools?_eq_none_iff.1
            (show op.holdsOfBools? a b = none by simpa [fold?] using unfolded)) a b
  · intro undefined
    cases undefined with
    | byZero divides x zero =>
      simp [fold?, Arithmetic.compute?_eq_none_iff.2 ⟨divides, zero⟩]
    | order ordering a b =>
      simp [fold?, Comparison.holdsOfBools?_eq_none_iff.2 ordering]
    | arithmeticOfBooleans | logicOfNumbers => simp [fold?]
    | numberFirst op | booleanFirst op => cases op <;> simp [fold?]

variable {r : Registry} {F : Form}

mutual

theorem Node.Has.of_mem_nodes (n : Node) (has : n.Has r F) {m : Node} (inner : m ∈ n.nodes) :
    m.Has r F := by
  match n with
  | .constant .. | .boolean _ =>
    obtain rfl := List.mem_singleton.1 inner
    exact has
  | .negate operand | .not operand =>
    rcases List.mem_cons.1 inner with rfl | inner
    · exact has
    · exact Node.Has.of_mem_nodes operand has.2 inner
  | .operation group code left right =>
    rcases List.mem_cons.1 inner with rfl | inner
    · exact has
    · obtain ⟨-, -, low, high⟩ := has
      rcases List.mem_append.1 inner with inner | inner
      · exact Node.Has.of_mem_nodes left low inner
      · exact Node.Has.of_mem_nodes right high inner
  | .call tag fields =>
    rcases List.mem_cons.1 inner with rfl | inner
    · exact has
    · obtain ⟨a, -, -, inside⟩ := has
      exact has_of_mem_fieldNodes a.fields fields inside inner

theorem Value.Has.of_mem_nodes (kind : Kind) (v : Value) (has : v.Has r F kind) {m : Node}
    (inner : m ∈ v.nodes) : m.Has r F := by
  match v with
  | .number _ | .bool _ | .text _ => cases inner
  | .node n => exact Node.Has.of_mem_nodes n has.1 inner
  | .list items => exact has.elim

theorem has_of_mem_itemNodes (kind : Kind) (items : List Value) (have' : ItemsHave r F kind items)
    {m : Node} (inner : m ∈ itemNodes items) : m.Has r F := by
  match items with
  | [] => cases inner
  | item :: rest =>
    rcases List.mem_append.1 inner with inner | inner
    · exact Value.Has.of_mem_nodes kind item have'.1 inner
    · exact has_of_mem_itemNodes kind rest have'.2 inner

theorem has_of_mem_fieldNodes (fs : List Field) (fields : List (String × Value))
    (have' : FieldsHave r F fs fields) {m : Node} (inner : m ∈ fieldNodes fields) : m.Has r F := by
  match fs, fields with
  | _, [] => cases inner
  | [], _ :: _ => exact have'.elim
  | f :: rest, (key, v) :: more =>
    obtain ⟨-, kept, later⟩ := fieldsHave_cons_cons.1 have'
    rcases List.mem_append.1 inner with inner | inner
    · rcases kept.cases with ⟨items, rfl, -, -, inside⟩ | ⟨-, inside⟩
      · exact has_of_mem_itemNodes f.kind items inside inner
      · exact Value.Has.of_mem_nodes f.kind v inside inner
    · exact has_of_mem_fieldNodes rest more later inner

end

theorem Value.Loose.of_mem_nodes {v : Value} (loose : v.Loose r F) {m : Node}
    (inner : m ∈ v.nodes) : m.Has r F := by
  cases v with
  | node n => exact Node.Has.of_mem_nodes n loose inner
  | text s => cases inner
  | _ => exact loose.elim

/-- Calls and literals do not fold, and operations of the form are those that do not. -/
theorem Node.fold?_eq_none_of_has {n : Node} (has : n.Has r (Form.reduced .constant).freed) :
    n.fold? = none := by
  cases n with
  | negate operand | not operand | operation group code left right => exact has.1
  | _ => rfl

/-- Nothing in the result of parsing with folding can be folded, at whatever depth. So an operation
on two literals is one that has no result on them, and an operator before a literal is one for the
other kind of literal. -/
theorem parse_irreducible (r : Registry) (text : String) (v : Value)
    (parsed : Compiler.parse ⟨r, .constant⟩ text = .ok v) :
    (∀ n ∈ v.nodes, Reduction.constant.reduce? n = none) ∧
    (∀ group code left right, .operation group code left right ∈ v.nodes →
      left.IsLiteral → right.IsLiteral →
        ∃ op, group.operator? code = some op ∧ op.Undefined left right) ∧
    (∀ operand, .negate operand ∈ v.nodes → operand.IsLiteral → ∃ b, operand = .boolean b) ∧
    ∀ operand, .not operand ∈ v.nodes → operand.IsLiteral → ∃ x, operand = .literal x := by
  obtain ⟨words, lexed⟩ := Compiler.lexemes_of_parse parsed
  have closed : (Form.reduced .constant).freed.Closed r .constant :=
    Form.closed_constant r (fun _ => trivial) (fun _ => trivial) (fun _ _ => trivial)
      fun _ unfolded => unfolded
  have loose := loose_of_parse closed lexed (fun _ => trivial) parsed
  have unfolded {n : Node} (inner : n ∈ v.nodes) : n.fold? = none :=
    Node.fold?_eq_none_of_has (loose.of_mem_nodes inner)
  refine ⟨fun n inner => unfolded inner, ?_, ?_, ?_⟩
  · intro group code left right inner low high
    obtain ⟨-, known, -⟩ := loose.of_mem_nodes inner
    obtain ⟨op, found⟩ := Option.isSome_iff_exists.1 known
    have stays : op.fold? left right = none := by simpa [Node.fold?, found] using unfolded inner
    exact ⟨op, found, (BinaryOp.fold?_eq_none_iff low high).1 stays⟩
  · intro operand inner literal
    cases literal with
    | number x => simpa [Node.fold?] using unfolded inner
    | boolean b => exact ⟨b, rfl⟩
  · intro operand inner literal
    cases literal with
    | number x => exact ⟨x, rfl⟩
    | boolean b => simpa [Node.fold?] using unfolded inner

/-- A division by negative zero and the sum of a number and a boolean stay, inside nested calls. -/
theorem parse_irreducible_undefined :
    let text := "Sum(2 * 3 - 1, Max(1 / -0, 4 + true)) > -5"
    ∃ v, Compiler.parse ⟨.standard, .constant⟩ text = .ok v ∧
      Compiler.spell ⟨.standard, .constant⟩ v = "(Sum(5, Max((1 / -0), (4 + true))) > -5)" ∧
      v.nodes.length = 11 ∧ ∀ n ∈ v.nodes, Reduction.constant.reduce? n = none := by
  intro text
  obtain ⟨v, parsed, shown⟩ := map_eq_ok_iff.1
    (show (Compiler.parse ⟨.standard, .constant⟩ text).map
        (fun v => (Compiler.spell ⟨.standard, .constant⟩ v, v.nodes.length)) =
      .ok ("(Sum(5, Max((1 / -0), (4 + true))) > -5)", 11) by decide +kernel)
  obtain ⟨spelled, size⟩ := Prod.mk.inj shown
  exact ⟨v, parsed, spelled, size, (parse_irreducible .standard text v parsed).1⟩

end SkillGraph
