import SkillGraph.Proofs.Reduction.Meaning
import SkillGraph.Proofs.Spelling.Results

/-! Spelling and reading back with folding. What folding leaves is folded no further, and a minus
sign before a numeral folds into the number, so a folded graph comes back unless it holds NaN. NaN
has no numeral: its word is read as a text or as the name of an atom, and no graph with NaN
comes back. -/
namespace SkillGraph

/-- What graphs hold that the reduction leaves alone. Numbers may have any sign, be infinite or be
NaN. -/
def Form.reduced (red : Reduction) : Form where
  literal _ := True
  number _ := True
  text s := Lexeme.Quotable s.toList
  operation n := red.reduce? n = none

inductive Node.IsLiteral : Node → Prop where
  | number (x : Float) : IsLiteral (.literal x)
  | boolean (b : Bool) : IsLiteral (.boolean b)

theorem Node.isLiteral_of_fold? {n m : Node} (folded : n.fold? = some m) : m.IsLiteral := by
  cases n with
  | negate operand =>
    obtain ⟨x, -, rfl⟩ := Option.map_eq_some_iff.1 folded
    exact .number (-x)
  | not operand =>
    obtain ⟨b, -, rfl⟩ := Option.map_eq_some_iff.1 folded
    exact .boolean (!b)
  | operation group code left right =>
    obtain ⟨op, -, folded⟩ := Option.bind_eq_some_iff.1 folded
    cases BinaryOp.folds_of_fold? folded with
    | @arithmetic _ _ _ z => exact .number z
    | @booleans _ _ _ c => exact .boolean c
    | logic | numbers => exact .boolean _
  | _ => cases folded

/-- What becomes of an operation: a literal, or the operation itself if it does not fold. -/
theorem Node.cases_apply_constant (n : Node) :
    (Reduction.constant.apply n).IsLiteral ∨
      n.fold? = none ∧ Reduction.constant.apply n = n := by
  cases folded : n.fold? with
  | none => exact .inr ⟨rfl, by simp [Reduction.apply, Reduction.constant, folded]⟩
  | some m =>
    have applied : Reduction.constant.apply n = m := by
      simp [Reduction.apply, Reduction.constant, folded]
    exact .inl (applied ▸ Node.isLiteral_of_fold? folded)

variable {r : Registry} {F : Form}

theorem Form.has_apply_constant {n : Node} (literal : ∀ x, F.literal x)
    (has : n.fold? = none → n.Has r F) : (Reduction.constant.apply n).Has r F := by
  rcases n.cases_apply_constant with folded | ⟨unfolded, same⟩
  · generalize Reduction.constant.apply n = m at folded
    cases folded with
    | number x => exact .literal (literal x)
    | boolean b => trivial
  · rw [same]
    exact has unfolded

/-- With folding, a form that allows every number is closed if it allows the operations that do not
fold. -/
theorem Form.closed_constant (r : Registry) (literal : ∀ x, F.literal x)
    (number : ∀ x, F.number x) (text : ∀ s, Lexeme.Quotable s.toList → F.text s)
    (operation : ∀ n : Node, n.fold? = none → F.operation n) : F.Closed r .constant where
  literal x _ := literal x
  number x _ := ⟨number x, number (-x)⟩
  text := text
  unary op n has := has_apply_constant literal fun unfolded => by
    cases op <;> exact ⟨operation _ unfolded, has⟩
  binary op left right low high := has_apply_constant literal fun unfolded =>
    ⟨operation _ unfolded, by simp [BinaryOp.operator?_code], low, high⟩

theorem Form.reduced_closed (r : Registry) : (reduced .constant).Closed r .constant :=
  Form.closed_constant r (fun _ => trivial) (fun _ => trivial) (fun _ quotable => quotable)
    fun _ unfolded => unfolded

theorem Form.reduced_returns : (reduced .constant).Returns .constant where
  text _ quotable := quotable
  literal x _ _ _ := congrArg Node.literal (Number.neg_neg x)
  number x := congrArg Value.number (Number.neg_neg x)
  operation n unfolded := by
    have same : n.fold? = none := unfolded
    simp [Reduction.apply, Reduction.constant, same]

/-- What is no literal agrees with the outcome of an operation only if nothing was folded. -/
theorem Node.agrees_of_agrees_apply {n m : Node} (noNumber : n.plainNumber? = none)
    (noBool : n.plainBool? = none) (agrees : n.agrees (Reduction.constant.apply m) = true) :
    n.agrees m = true := by
  rcases m.cases_apply_constant with folded | ⟨-, same⟩
  · generalize Reduction.constant.apply m = literal at folded agrees
    cases folded with
    | number x => cases n <;> simp_all [Node.agrees, Node.literal, Node.plainNumber?]
    | boolean b => cases n <;> simp_all [Node.agrees, Node.plainBool?]
  · rwa [same] at agrees

theorem Field.eq_of_store_node {f : Field} {n m : Node} (stored : f.store (.node n) = .node m) :
    n = m := by
  rcases store_eq_iff.1 stored with converts | ⟨same, -⟩
  · cases converts
  · exact (Value.node.inj same).symm

namespace Infix

variable {red : Reduction}

/-- The word for NaN stands for a text or for a call. -/
theorem evaluate_nan {v : Value} (evaluated : (numeral r Float.nan).evaluate r red = .ok v) :
    (∃ s, v = .text s) ∨ ∃ tag fields, v = .node (.call tag fields) := by
  have spelled : spellNumber Float.nan = "NaN" := by decide +kernel
  rw [numeral, if_pos (by decide +kernel), spelled, name] at evaluated
  split at evaluated
  · obtain ⟨a, -, -, n, built, rfl⟩ := applyAtom_eq_ok_iff.1 evaluated
    obtain ⟨-, fields, -, rfl⟩ := Atom.instantiate_eq_ok_iff.1 built
    exact .inr ⟨a.tag, fields, rfl⟩
  · have text : Literal.value "NaN" = .text (Literal.text "NaN") := by
      have head : "NaN".toList = 'N' :: ['a', 'N'] := rfl
      exact Literal.value_of_head head (by decide) (by decide)
    rw [evaluate, text] at evaluated
    exact .inl ⟨_, (Except.ok.inj evaluated).symm⟩

theorem cases_of_evaluate {e : Infix} {v : Value} (evaluated : e.evaluate r red = .ok v) :
    (∃ n, v = .node n) ∨ ∃ s, v = .text s := by
  match e with
  | .word w =>
    obtain rfl := Except.ok.inj evaluated
    exact Literal.cases_value w
  | .bare name =>
    obtain ⟨a, -, -, n, -, rfl⟩ := applyAtom_eq_ok_iff.1 evaluated
    exact .inl ⟨n, rfl⟩
  | .call name args =>
    obtain ⟨vs, -, a, -, -, n, -, rfl⟩ := evaluate_call_eq_ok_iff.1 evaluated
    exact .inl ⟨n, rfl⟩
  | .group inner => exact cases_of_evaluate (e := inner) evaluated
  | .unary op operand =>
    obtain ⟨n, -, rfl⟩ := evaluate_unary_eq_ok_iff.1 evaluated
    exact .inl ⟨_, rfl⟩
  | .binary op left right =>
    obtain ⟨n, m, -, -, rfl⟩ := evaluate_binary_eq_ok_iff.1 evaluated
    exact .inl ⟨_, rfl⟩

end Infix

/-- No field stores NaN for the word that it is spelled with. -/
theorem Field.agrees_store_nan {f : Field} (kind : f.kind = .number) {v : Value}
    (evaluated : (Infix.numeral r Float.nan).evaluate r .constant = .ok v) :
    (Value.number Float.nan).agrees (f.store v) = false := by
  rcases Infix.evaluate_nan evaluated with ⟨s, rfl⟩ | ⟨tag, fields, rfl⟩
  · rw [store_text]
    simp [Value.agrees]
  · have kept : f.kind.keeps (.call tag fields) = true := by rw [kind]; rfl
    rw [store_node kept]
    simp [Value.agrees]

mutual

/-- If the spelling of a graph evaluates to the graph again, counting two NaN as equal, then there
was no NaN. -/
theorem Node.same_of_agrees (n : Node) (has : n.Has r F) {w : Value}
    (evaluated : (n.expression r).evaluate r .constant = .ok w)
    (agrees : (Value.node n).agrees w = true) : n.same n = true := by
  match n with
  | .constant x key =>
    rcases Node.cases_of_has_constant has with ⟨rfl, -⟩ | ⟨bound, rfl, -⟩
    · by_cases undefined : x.isNaN = true
      · obtain rfl : x = Float.nan := by simpa using undefined
        rcases Infix.evaluate_nan evaluated with ⟨s, rfl⟩ | ⟨tag, fields, rfl⟩ <;>
          simp [Value.agrees, Node.agrees] at agrees
      · simpa [Node.same] using undefined
    · have zero : ((0.0 : Float) == 0.0) = true := by decide +kernel
      simp [Node.same, zero]
  | .boolean b => simp [Node.same]
  | .negate operand | .not operand =>
    obtain ⟨m, inside, rfl⟩ := Infix.evaluate_unary_eq_ok_iff.1 evaluated
    rw [Value.agrees] at agrees
    have agrees : operand.agrees m = true := by
      simpa [Unary.node, Node.agrees] using Node.agrees_of_agrees_apply rfl rfl agrees
    have same := operand.same_of_agrees has.2 inside (by rwa [Value.agrees])
    simpa [Node.same] using same
  | .operation group code left right =>
    obtain ⟨-, known, low, high⟩ := has
    obtain ⟨op, found⟩ := Option.isSome_iff_exists.1 known
    obtain ⟨rfl, rfl⟩ := OpGroup.of_operator? found
    simp only [Node.expression, found] at evaluated
    obtain ⟨a, b, first, second, rfl⟩ := Infix.evaluate_binary_eq_ok_iff.1 evaluated
    rw [Value.agrees] at agrees
    obtain ⟨agrees, agrees'⟩ : left.agrees a = true ∧ right.agrees b = true := by
      simpa [Node.binary, Node.agrees] using Node.agrees_of_agrees_apply rfl rfl agrees
    have same := left.same_of_agrees low first (by rwa [Value.agrees])
    have same' := right.same_of_agrees high second (by rwa [Value.agrees])
    simp [Node.same, same, same']
  | .call tag fields =>
    obtain ⟨a, member, rfl, found, -, inside⟩ := Node.of_has_call has
    obtain ⟨held, absent, split, hold, next⟩ := exists_hold_of_fieldsHave inside
    have layout := r.layout member
    simp only [Node.expression, found] at evaluated
    obtain ⟨args, evaluatedAll, a', member', named, n, built, rfl⟩ :=
      Infix.evaluate_call_eq_ok_iff.1 evaluated
    obtain rfl : a = a' := eq_of_mem_of_map_eq r.sound.callNames member member' named.symm
    obtain ⟨-, fields', filled, rfl⟩ := Atom.instantiate_eq_ok_iff.1 built
    obtain ⟨stored, stores, same⟩ :=
      same_of_fieldsAgree held fields (split ▸ layout) hold evaluatedAll
    rw [split, stores.fillFields a.name (split ▸ layout) next] at filled
    obtain rfl := Except.ok.inj filled
    have agree : fieldsAgree fields stored = true := by
      simpa [Value.agrees, Node.agrees] using agrees
    simpa [Node.same] using same agree

theorem Value.same_of_agrees (f : Field) (v : Value) (has : v.Has r F f.kind) {arg : Value}
    (evaluated : (v.expression r).evaluate r .constant = .ok arg)
    (agrees : v.agrees (f.store arg) = true) : v.same v = true := by
  match v with
  | .number x =>
    by_cases undefined : x.isNaN = true
    · obtain rfl : x = Float.nan := by simpa using undefined
      rw [Field.agrees_store_nan has.1 evaluated] at agrees
      cases agrees
    · simpa [Value.same] using undefined
  | .bool _ | .text _ => simp [Value.same]
  | .node n =>
    rcases Infix.cases_of_evaluate evaluated with ⟨m, rfl⟩ | ⟨s, rfl⟩
    · cases stored : f.store (.node m) with
      | node m' =>
        obtain rfl := Field.eq_of_store_node stored
        rw [stored] at agrees
        simpa [Value.same] using n.same_of_agrees has.1 evaluated agrees
      | _ => simp [stored, Value.agrees] at agrees
    · rw [Field.store_text] at agrees
      simp [Value.agrees] at agrees
  | .list items => exact has.elim

theorem same_of_itemsAgree (f : Field) (items : List Value) (have' : ItemsHave r F f.kind items)
    {args : List Value}
    (evaluated : Infix.evaluateAll r .constant (itemExpressions r items) = .ok args)
    (agree : itemsAgree items (args.map f.store) = true) : sameItems items items = true := by
  match items with
  | [] => simp [sameItems]
  | item :: rest =>
    obtain ⟨arg, others, first, later, rfl⟩ := Infix.evaluateAll_cons_eq_ok_iff.1 evaluated
    obtain ⟨agrees, agree⟩ : item.agrees (f.store arg) = true ∧
        itemsAgree rest (others.map f.store) = true := by
      simpa [itemsAgree] using agree
    simp [sameItems, item.same_of_agrees f have'.1 first agrees,
      same_of_itemsAgree f rest have'.2 later agree]

theorem same_of_fieldsAgree (held : List Field) (fields : List (String × Value))
    {absent : List Field} (layout : Layout (held ++ absent)) (hold : Hold r F held fields)
    {args : List Value}
    (evaluated : Infix.evaluateAll r .constant (fieldExpressions r fields) = .ok args) :
    ∃ stored, Stores held args stored ∧
      (fieldsAgree fields stored = true → sameFields fields fields = true) := by
  match held, fields, hold with
  | [], [], _ =>
    obtain rfl := Except.ok.inj evaluated
    exact ⟨[], .nil, fun _ => by simp [sameFields]⟩
  | f :: held, (key, v) :: more, .cons ⟨keyed, kept⟩ hold =>
    obtain rfl : key = f.key := keyed
    rw [fieldExpressions_cons] at evaluated
    cases layout with
    | cons _ last layout =>
      rcases kept.cases with ⟨items, rfl, array, some, inside⟩ | ⟨scalar, inside⟩
      · obtain rfl : held = [] := (List.append_eq_nil_iff.1 (last array)).1
        cases hold
        rw [fieldExpressions, List.append_nil] at evaluated
        have length := Infix.length_of_evaluateAll evaluated
        refine ⟨_, .items array ?_, ?_⟩
        · rw [← List.length_pos_iff] at some ⊢
          rwa [length, Value.expressions, length_itemExpressions]
        · intro agree
          have agree : itemsAgree items (args.map f.store) = true := by
            simpa [fieldsAgree, Value.agrees] using agree
          simpa [sameFields, Value.same] using same_of_itemsAgree f items inside evaluated agree
      · rw [inside.expressions, List.singleton_append] at evaluated
        obtain ⟨arg, others, first, later, rfl⟩ := Infix.evaluateAll_cons_eq_ok_iff.1 evaluated
        obtain ⟨stored, stores, same⟩ := same_of_fieldsAgree held more layout hold later
        refine ⟨_, .single scalar stores, ?_⟩
        intro agree
        obtain ⟨agrees, agree⟩ : v.agrees (f.store arg) = true ∧
            fieldsAgree more stored = true := by
          simpa [fieldsAgree] using agree
        simp [sameFields, v.same_of_agrees f inside first agrees, same agree]

end

/-- Folding twice. If folding leaves no NaN in the graph of an expression, then the spelling of the
graph folds to the graph again, with every number bit for bit. If it leaves NaN somewhere, then the
spelling is refused or stands for another graph, even where two NaN count as equal. -/
theorem parseGraph_spellGraph_constant (r : Registry) (text : String) (words : List String)
    (n : Node) (lexed : lexemes text = .ok words) (noEquals : "=" ∉ words)
    (parsed : Compiler.parseGraph ⟨r, .constant⟩ text = .ok n) :
    ((n == n) = true → Compiler.parseGraph ⟨r, .constant⟩
      (Compiler.spellGraph ⟨r, .constant⟩ n) = .ok n) ∧
    ((n == n) = false → ∀ m, Compiler.parseGraph ⟨r, .constant⟩
      (Compiler.spellGraph ⟨r, .constant⟩ n) = .ok m → n.agrees m = false) := by
  have has : n.Has r (.reduced .constant) :=
    loose_of_parse (Form.reduced_closed r) lexed (fun lone => absurd lone noEquals)
      (Compiler.parseGraph_eq_ok_iff.1 parsed)
  constructor
  · intro same
    exact Compiler.parseGraph_eq_ok_iff.2 (Form.reduced_returns.parse_spell has same)
  · intro undefined m again
    have evaluated := Compiler.parseGraph_eq_ok_iff.1 again
    rw [Compiler.spellGraph, parse_spell Form.reduced_returns.text .constant has,
      mapError_eq_ok_iff] at evaluated
    apply Bool.eq_false_iff.2
    intro agrees
    have same : n.same n = true := n.same_of_agrees has evaluated (by rwa [Value.agrees])
    exact absurd same (Bool.eq_false_iff.1 undefined)

/-- Negative numbers and a negative zero that only folding makes. -/
theorem parseGraph_spellGraph_constant_sum :
    let text := "{x} * -(2 + 3) + Max(1 - 2, 0 * -1)"
    let spelling := "(({x} * -5) + Max(-1, -0))"
    ∃ n, Compiler.parseGraph ⟨.standard, .constant⟩ text = .ok n ∧
      Compiler.spellGraph ⟨.standard, .constant⟩ n = spelling ∧
      Compiler.parseGraph ⟨.standard, .constant⟩ spelling = .ok n := by
  intro text spelling
  obtain ⟨n, parsed, shown⟩ := map_eq_ok_iff.1
    (show (Compiler.parseGraph ⟨.standard, .constant⟩ text).map
        (fun n => (Compiler.spellGraph ⟨.standard, .constant⟩ n, n == n)) = .ok (spelling, true) by
      decide +kernel)
  obtain ⟨spelled, same⟩ := Prod.mk.inj shown
  have words : lexemes text = .ok ["{x}", "*", "-", "(", "2", "+", "3", ")", "+", "Max", "(", "1",
      "-", "2", ",", "0", "*", "-", "1", ")"] := by
    decide +kernel
  have again := (parseGraph_spellGraph_constant .standard text _ n words (by decide) parsed).1 same
  exact ⟨n, parsed, spelled, spelled ▸ again⟩

/-- The difference of two infinities folds to NaN. Its spelling is a bare text, and in an argument
it is read as a text. -/
theorem parseGraph_spellGraph_constant_nan :
    lexemes "Infinity - Infinity" = .ok ["Infinity", "-", "Infinity"] ∧
    (∃ n, Compiler.parseGraph ⟨.standard, .constant⟩ "Infinity - Infinity" = .ok n ∧
      Compiler.spellGraph ⟨.standard, .constant⟩ n = "NaN" ∧
      ∀ m, Compiler.parseGraph ⟨.standard, .constant⟩ "NaN" ≠ .ok m) ∧
    ∃ n m, Compiler.parseGraph ⟨.standard, .constant⟩ "Max(Infinity - Infinity, 1)" = .ok n ∧
      Compiler.parseGraph ⟨.standard, .constant⟩
        (Compiler.spellGraph ⟨.standard, .constant⟩ n) = .ok m ∧
      n.texts = [] ∧ m.texts = ["NaN"] := by
  refine ⟨by decide +kernel, ?_, ?_⟩
  · obtain ⟨n, parsed, spelled⟩ := map_eq_ok_iff.1
      (show (Compiler.parseGraph ⟨.standard, .constant⟩ "Infinity - Infinity").map
        (Compiler.spellGraph ⟨.standard, .constant⟩) = .ok "NaN" by decide +kernel)
    refine ⟨n, parsed, spelled, ?_⟩
    intro m again
    have refused : (Compiler.parseGraph ⟨.standard, .constant⟩ "NaN").isOk = false := by
      decide +kernel
    rw [again] at refused
    cases refused
  · obtain ⟨n, parsed, shown⟩ := map_eq_ok_iff.1
      (show (Compiler.parseGraph ⟨.standard, .constant⟩ "Max(Infinity - Infinity, 1)").map
        (fun n => (Compiler.spellGraph ⟨.standard, .constant⟩ n, n.texts)) =
          .ok ("Max(NaN, 1)", []) by decide +kernel)
    obtain ⟨spelled, none⟩ := Prod.mk.inj shown
    obtain ⟨m, again, texts⟩ := map_eq_ok_iff.1
      (show (Compiler.parseGraph ⟨.standard, .constant⟩ "Max(NaN, 1)").map Node.texts =
        .ok ["NaN"] by decide +kernel)
    exact ⟨n, m, parsed, spelled ▸ again, none, texts⟩

end SkillGraph
