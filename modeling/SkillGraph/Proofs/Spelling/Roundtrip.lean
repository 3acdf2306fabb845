import SkillGraph.Proofs.Atom.Positions
import SkillGraph.Proofs.Except
import SkillGraph.Proofs.Record.Graphs
import SkillGraph.Proofs.Spelling.Expression

/-! Reading back what was spelled. The spelling of a graph is the text of its expression, so that
the parser evaluates the expression. That gives the graph itself, unless a reduction changes what
the graph holds or NaN stands somewhere in it. -/
namespace SkillGraph

def Value.spellings (r : Registry) : Value → List String
  | .list items => spellItems r items
  | v => [v.spell r]

variable {r : Registry} {F : Form}

theorem Value.Has.spellings {kind : Kind} {v : Value} (has : v.Has r F kind) :
    v.spellings r = [v.spell r] := by
  cases v with
  | list items => exact has.elim
  | _ => rfl

theorem spellFields_cons (key : String) (v : Value) (rest : List (String × Value)) :
    spellFields r ((key, v) :: rest) =
      (key, v.spell r, v.list?.map (spellItems r)) :: spellFields r rest := by
  cases v <;> rfl

theorem keys_spellFields (fields : List (String × Value)) :
    (spellFields r fields).map Prod.fst = fields.map Prod.fst := by
  induction fields with
  | nil => rfl
  | cons field rest ih => rw [spellFields_cons, List.map_cons, List.map_cons, ih]

theorem spelledArguments_cons_of_notMem {fs : List Field} {key : String}
    (other : key ∉ fs.map Field.key) (stored : String × Option (List String))
    (rest : List (String × String × Option (List String))) :
    spelledArguments fs ((key, stored) :: rest) = spelledArguments fs rest := by
  induction fs with
  | nil => rfl
  | cons f fs ih =>
    obtain ⟨apart, other⟩ : key ≠ f.key ∧ key ∉ fs.map Field.key := by
      simpa using other
    have unlike : (f.key == key) = false := by simpa using Ne.symm apart
    have later := ih other
    unfold spelledArguments at later ⊢
    rw [List.flatMap_cons, List.flatMap_cons, later, List.lookup_cons, unlike]

/-- The first field takes its value from the front, the others theirs from behind it. -/
theorem spelledArguments_cons {f : Field} {fs : List Field} (fresh : f.key ∉ fs.map Field.key)
    (stored : String × Option (List String))
    (rest : List (String × String × Option (List String))) :
    spelledArguments (f :: fs) ((f.key, stored) :: rest) =
      (match stored.2 with
        | some items => if f.kind.isArray then items else [stored.1]
        | none => [stored.1]) ++ spelledArguments fs rest := by
  rw [← spelledArguments_cons_of_notMem fresh stored rest]
  rcases stored with ⟨spelled, _ | items⟩ <;>
    simp only [spelledArguments, List.flatMap_cons, List.lookup_cons, beq_self_eq_true]

theorem spelledArguments_absent {f : Field} {stored : List (String × String × Option (List String))}
    (absent : f.key ∉ stored.map Prod.fst) (fs : List Field) :
    spelledArguments (f :: fs) stored = spelledArguments fs stored := by
  have none : stored.lookup f.key = none := by
    rw [List.lookup_eq_none_iff]
    intro p member
    have : f.key ≠ p.1 := fun same => absent (same ▸ List.mem_map_of_mem member)
    simpa using this
  simp [spelledArguments, none]

theorem Hold.keys {held : List Field} {fields : List (String × Value)}
    (hold : Hold r F held fields) : fields.map Prod.fst = held.map Field.key := by
  induction hold with
  | nil => rfl
  | cons kept _ ih => rw [List.map_cons, List.map_cons, kept.1, ih]

/-- Whichever fields are held, their values are spelled one after the other. -/
theorem spelledArguments_spellFields {held fs : List Field} {fields : List (String × Value)}
    (layout : Layout fs) (within : held.Sublist fs) (hold : Hold r F held fields) :
    spelledArguments fs (spellFields r fields) = fields.flatMap (·.2.spellings r) := by
  induction within generalizing fields with
  | slnil =>
    cases hold
    rfl
  | cons f within ih =>
    cases layout with
    | cons fresh _ others =>
      have absent : f.key ∉ (spellFields r fields).map Prod.fst := by
        rw [keys_spellFields, hold.keys]
        exact fun member => fresh ((within.map Field.key).subset member)
      rw [spelledArguments_absent absent, ih others hold]
  | cons_cons f within ih =>
    cases layout with
    | cons fresh _ others =>
      cases hold with
      | @cons _ field _ more kept hold =>
        obtain ⟨key, v⟩ := field
        obtain ⟨rfl, kept⟩ := kept
        rw [spellFields_cons, spelledArguments_cons fresh, ih others hold, List.flatMap_cons]
        congr 1
        rcases kept.cases with ⟨items, rfl, array, -, -⟩ | ⟨-, has⟩
        · simp [Value.list?, Value.spellings, array]
        · cases v with
          | list items => exact has.elim
          | _ => rfl

theorem Node.spell_call {a : Atom} {held : List Field} {fields : List (String × Value)}
    (member : a ∈ r.atoms) (within : held.Sublist a.fields) (hold : Hold r F held fields) :
    (Node.call a.tag fields).spell r =
      a.name ++ "(" ++ ", ".intercalate (fields.flatMap (·.2.spellings r)) ++ ")" := by
  have found : r.atomTagged? a.tag = some a := Registry.atomTagged?_eq_some_iff.2 ⟨member, rfl⟩
  have layout := r.layout member
  rw [Node.spell, spellCall, found, ← spelledArguments_spellFields layout within hold]

namespace Infix

theorem allTexts_append (es es' : List Infix) :
    allTexts (es ++ es') = allTexts es ++ allTexts es' := by
  induction es with
  | nil => rfl
  | cons e es ih => simp [allTexts, ih]

theorem text_numeral (x : Float) : (numeral r x).text = spellNumber x := by
  unfold numeral
  split
  · unfold name
    split <;> rfl
  case isFalse notNaN =>
    split
    · rfl
    case isFalse signed =>
      exact (Number.spellNumber_signed (by simpa using notNaN) (by simpa using signed)).symm

end Infix

mutual

/-- The text of the expression of a node is its spelling. -/
theorem Node.text_expression (n : Node) (has : n.Has r F) : (n.expression r).text = n.spell r := by
  match n with
  | .constant x key => by_cases unbound : key = "" <;>
      simp [Node.expression, Node.spell, unbound, Infix.text_numeral, Infix.text]
  | .boolean b => rfl
  | .negate operand =>
    have inside := operand.text_expression has.2
    have opened : "-(" = "-" ++ "(" := rfl
    simp only [Node.expression, Node.spell, Infix.text, Unary.operator, Operator.symbol, inside,
      opened, String.append_assoc]
  | .not operand =>
    have inside := operand.text_expression has.2
    have opened : "!(" = "!" ++ "(" := rfl
    simp only [Node.expression, Node.spell, Infix.text, Unary.operator, Operator.symbol, inside,
      opened, String.append_assoc]
  | .operation group code left right =>
    obtain ⟨-, known, low, high⟩ := has
    obtain ⟨op, found⟩ := Option.isSome_iff_exists.1 known
    have first := left.text_expression low
    have second := right.text_expression high
    simp [Node.expression, Node.spell, Infix.text, operatorSymbol, found, first, second,
      String.append_assoc]
  | .call tag fields =>
    obtain ⟨a, member, rfl, found, -, inside⟩ := Node.of_has_call has
    obtain ⟨held, absent, split, hold, -⟩ := exists_hold_of_fieldsHave inside
    have within : held.Sublist a.fields := split ▸ List.sublist_append_left held absent
    rw [Node.spell_call member within hold, ← texts_fieldExpressions held fields hold]
    simp [Node.expression, Infix.text, found]

theorem Value.text_expression (kind : Kind) (v : Value) (has : v.Has r F kind) :
    (v.expression r).text = v.spell r := by
  match v with
  | .number x => exact Infix.text_numeral x
  | .bool _ | .text _ => rfl
  | .node n => exact n.text_expression has.1
  | .list items => exact has.elim

theorem texts_itemExpressions (kind : Kind) (items : List Value)
    (have' : ItemsHave r F kind items) :
    Infix.allTexts (itemExpressions r items) = spellItems r items := by
  match items with
  | [] => rfl
  | item :: rest =>
    simp [itemExpressions, spellItems, Infix.allTexts, item.text_expression kind have'.1,
      texts_itemExpressions kind rest have'.2]

theorem texts_fieldExpressions (held : List Field) (fields : List (String × Value))
    (hold : Hold r F held fields) :
    Infix.allTexts (fieldExpressions r fields) = fields.flatMap (·.2.spellings r) := by
  match held, fields, hold with
  | [], [], _ => rfl
  | f :: held, (key, v) :: more, .cons ⟨_, kept⟩ hold =>
    have others := texts_fieldExpressions held more hold
    rw [fieldExpressions_cons, Infix.allTexts_append, others, List.flatMap_cons]
    congr 1
    rcases kept.cases with ⟨items, rfl, -, -, inside⟩ | ⟨-, inside⟩
    · exact texts_itemExpressions f.kind items inside
    · have text := v.text_expression f.kind inside
      rw [inside.expressions, inside.spellings, Infix.allTexts, Infix.allTexts, text]

end

/-- The parser evaluates the expression of the graph that was spelled. -/
theorem parse_spell (quotable : ∀ s, F.text s → Lexeme.Quotable s.toList) (red : Reduction)
    {n : Node} (has : n.Has r F) : Compiler.parse ⟨r, red⟩ (n.spell r) =
      ((n.expression r).evaluate r red).mapError (·.diagnostic.inExpression (n.spell r)) := by
  have parsed := (n.shown quotable has).parse red
  rwa [n.text_expression has] at parsed

/-- What a reduction must leave alone, and which minus signs it must fold, for graphs of the form to
come back as they are. -/
structure Form.Returns (F : Form) (red : Reduction) : Prop where
  text : ∀ s, F.text s → Lexeme.Quotable s.toList
  literal : ∀ x, F.literal x → x.isNaN = false → Number.isUnsigned x = false →
    red.apply (.negate (.literal (-x))) = .literal x
  number : ∀ x, (Value.node (red.apply (.negate (.literal (-x))))).bareNumber = .number x
  operation : ∀ n, F.operation n → red.apply n = n

theorem Form.spelled_returns : Form.spelled.Returns .none where
  text _ quotable := quotable
  literal x unsigned _ signed := by
    rw [Form.spelled_literal, signed] at unsigned
    cases unsigned
  number x := congrArg Value.number (Number.neg_neg x)
  operation n _ := rfl

namespace Infix

variable {red : Reduction}

theorem evaluate_numeral (red : Reduction) {x : Float} (notNaN : x.isNaN = false) :
    (numeral r x).evaluate r red = .ok (.node (if Number.isUnsigned x then .literal x
      else red.apply (.negate (.literal (-x))))) := by
  have word {y : Float} (unsigned : Number.isUnsigned y = true) :
      Literal.value (spellNumber y) = .node (.literal y) :=
    (Literal.Spells.number (r := r) unsigned).value
  rw [numeral, if_neg (Bool.eq_false_iff.1 notNaN)]
  cases unsigned : Number.isUnsigned x with
  | true =>
    rw [if_pos rfl, if_pos rfl, evaluate, word unsigned]
  | false =>
    have flipped : Number.isUnsigned (-x) = true := by
      simp [Number.isUnsigned_neg notNaN, unsigned]
    rw [if_neg Bool.false_ne_true, if_neg Bool.false_ne_true, evaluate, evaluate, word flipped]
    rfl

theorem operand_eq_ok_iff {op : Operator} {v : Value} {n : Node} :
    operand op v = .ok n ↔ v = .node n := by
  cases v <;> simp [operand]

theorem applyAtom_eq_ok_iff {name : String} {args : List Value} {v : Value} :
    applyAtom r name args = .ok v ↔
      ∃ a ∈ r.atoms, a.name = name ∧ ∃ n, a.instantiate args = .ok n ∧ .node n = v := by
  unfold applyAtom
  cases found : r.atomCalled? name with
  | none =>
    have none : ∀ a ∈ r.atoms, a.name ≠ name := by
      intro a member same
      rw [Registry.atomCalled?_eq_some_iff.2 ⟨member, same⟩] at found
      cases found
    simpa using fun a member same => absurd same (none a member)
  | some a =>
    obtain ⟨member, rfl⟩ := Registry.atomCalled?_eq_some_iff.1 found
    constructor
    · intro applied
      obtain ⟨n, built, same⟩ := bind_eq_ok_iff.1 applied
      exact ⟨a, member, rfl, n, built, Except.ok.inj same⟩
    · rintro ⟨a', member', same, n, built, rfl⟩
      rw [Registry.atomCalled?_eq_some_iff.2 ⟨member', same⟩] at found
      obtain rfl := Option.some.inj found
      exact bind_eq_ok_iff.2 ⟨n, built, rfl⟩

theorem evaluate_unary_eq_ok_iff {op : Unary} {e : Infix} {v : Value} :
    (Infix.unary op e).evaluate r red = .ok v ↔
      ∃ n, e.evaluate r red = .ok (.node n) ∧ .node (red.apply (op.node n)) = v := by
  simp [evaluate, applyUnary, bind_eq_ok_iff, operand_eq_ok_iff, pure, Except.pure]

theorem evaluate_binary_eq_ok_iff {op : BinaryOp} {left right : Infix} {v : Value} :
    (Infix.binary op left right).evaluate r red = .ok v ↔
      ∃ n m, left.evaluate r red = .ok (.node n) ∧ right.evaluate r red = .ok (.node m) ∧
        .node (red.apply (.binary op n m)) = v := by
  simp only [evaluate, applyBinary, bind_eq_ok_iff, operand_eq_ok_iff]
  constructor
  · rintro ⟨_, low, _, high, m, rfl, n, rfl, built⟩
    exact ⟨n, m, low, high, Except.ok.inj built⟩
  · rintro ⟨n, m, low, high, rfl⟩
    exact ⟨_, low, _, high, m, rfl, n, rfl, rfl⟩

theorem evaluate_call_eq_ok_iff {name : String} {es : List Infix} {v : Value} :
    (Infix.call name es).evaluate r red = .ok v ↔
      ∃ args, evaluateAll r red es = .ok args ∧
        ∃ a ∈ r.atoms, a.name = name ∧ ∃ n, a.instantiate args = .ok n ∧ .node n = v := by
  rw [evaluate, bind_eq_ok_iff]
  simp only [applyAtom_eq_ok_iff]

theorem evaluateAll_cons_eq_ok_iff {e : Infix} {es : List Infix} {vs : List Value} :
    evaluateAll r red (e :: es) = .ok vs ↔
      ∃ v others, e.evaluate r red = .ok v ∧ evaluateAll r red es = .ok others ∧
        v :: others = vs := by
  simp [evaluateAll, bind_eq_ok_iff, pure, Except.pure]

theorem length_of_evaluateAll {es : List Infix} {vs : List Value}
    (evaluated : evaluateAll r red es = .ok vs) : vs.length = es.length := by
  induction es generalizing vs with
  | nil => cases evaluated; rfl
  | cons e es ih =>
    obtain ⟨v, others, -, later, rfl⟩ := evaluateAll_cons_eq_ok_iff.1 evaluated
    rw [List.length_cons, List.length_cons, ih later]

end Infix

inductive Stores : List Field → List Value → List (String × Value) → Prop where
  | nil : Stores [] [] []
  | single {f : Field} {held : List Field} {arg : Value} {args : List Value}
      {fields : List (String × Value)} (scalar : f.kind.isArray = false)
      (later : Stores held args fields) :
      Stores (f :: held) (arg :: args) ((f.key, f.store arg) :: fields)
  | items {f : Field} {args : List Value} (array : f.kind.isArray = true) (some : args ≠ []) :
      Stores [f] args [(f.key, .list (args.map f.store))]

namespace Stores

variable {held : List Field} {args : List Value} {fields : List (String × Value)}

theorem length (stores : Stores held args fields) (hold : Hold r F held fields) :
    args.length = argumentCount fields := by
  induction stores with
  | nil => rfl
  | single scalar later ih =>
    cases hold with
    | cons kept hold =>
      rw [argumentCount_cons, List.length_cons, ih hold, kept.2.count scalar, Nat.add_comm]
  | items array some => simp [argumentCount, Value.count]

theorem fillFields (stores : Stores held args fields) (call : String) {absent : List Field}
    (layout : Layout (held ++ absent))
    (next : ∀ f ∈ absent.head?, f.kind.isArray = true → f.optional = true) :
    fillFields call (held ++ absent) args = .ok fields := by
  induction stores with
  | nil =>
    cases absent with
    | nil => rfl
    | cons f absent =>
      by_cases array : f.kind.isArray = true
      · cases layout with
        | cons _ last _ =>
          have optional := next f rfl array
          obtain rfl := last array
          simp [SkillGraph.fillFields, array, optional]
      · simp [SkillGraph.fillFields, array]
  | single scalar later ih =>
    cases layout with
    | cons _ _ others => simp [SkillGraph.fillFields, scalar, ih others, Except.map]
  | items array some =>
    cases layout with
    | cons _ last _ =>
      obtain rfl : absent = [] := last array
      simp [SkillGraph.fillFields, array, some, Except.map]

end Stores

mutual

/-- The expression of a graph without NaN evaluates to the graph. -/
theorem Node.evaluate_expression {red : Reduction} (returns : F.Returns red) (n : Node)
    (has : n.Has r F) (same : n.same n = true) :
    (n.expression r).evaluate r red = .ok (.node n) := by
  match n with
  | .constant x key =>
    rcases Node.cases_of_has_constant has with ⟨rfl, literal⟩ | ⟨bound, rfl, word⟩
    · have notNaN : x.isNaN = false := by simpa [Node.same] using same
      change (Infix.numeral r x).evaluate r red = _
      rw [Infix.evaluate_numeral red notNaN]
      cases unsigned : Number.isUnsigned x with
      | true => rfl
      | false =>
        rw [if_neg Bool.false_ne_true, returns.literal x literal notNaN unsigned]
        rfl
    · rw [Node.expression, if_neg bound, Infix.evaluate,
        (Literal.Spells.bound (r := r) bound word).value]
      rfl
  | .boolean b => rw [Node.expression, Infix.evaluate, (Literal.Spells.boolean (r := r) b).value]
  | .negate operand | .not operand =>
    have inside := operand.evaluate_expression returns has.2 (by simpa [Node.same] using same)
    exact Infix.evaluate_unary_eq_ok_iff.2
      ⟨operand, inside, congrArg Value.node (returns.operation _ has.1)⟩
  | .operation group code left right =>
    obtain ⟨unfolded, known, low, high⟩ := has
    obtain ⟨op, found⟩ := Option.isSome_iff_exists.1 known
    obtain ⟨rfl, rfl⟩ := OpGroup.of_operator? found
    obtain ⟨same, same'⟩ : left.same left = true ∧ right.same right = true := by
      simpa [Node.same] using same
    have first := left.evaluate_expression returns low same
    have second := right.evaluate_expression returns high same'
    simp only [Node.expression, found]
    exact Infix.evaluate_binary_eq_ok_iff.2
      ⟨left, right, first, second, congrArg Value.node (returns.operation _ unfolded)⟩
  | .call tag fields =>
    obtain ⟨a, member, rfl, found, enough, inside⟩ := Node.of_has_call has
    obtain ⟨held, absent, split, hold, next⟩ := exists_hold_of_fieldsHave inside
    have layout := r.layout member
    obtain ⟨args, evaluated, stores⟩ := evaluate_fieldExpressions returns held fields
      (split ▸ layout) hold (by simpa [Node.same] using same)
    have filled := stores.fillFields a.name (split ▸ layout) next
    rw [← split] at filled
    have built : a.instantiate args = .ok (.call a.tag fields) :=
      Atom.instantiate_eq_ok_iff.2 ⟨stores.length hold ▸ enough, fields, filled, rfl⟩
    simp only [Node.expression, found]
    exact Infix.evaluate_call_eq_ok_iff.2 ⟨args, evaluated, a, member, rfl, _, built, rfl⟩

theorem Value.evaluate_expression {red : Reduction} (returns : F.Returns red) (f : Field)
    (v : Value) (has : v.Has r F f.kind) (same : v.same v = true) :
    ∃ arg, (v.expression r).evaluate r red = .ok arg ∧ f.store arg = v := by
  match v with
  | .number x =>
    have notNaN : x.isNaN = false := by simpa [Value.same] using same
    refine ⟨_, Infix.evaluate_numeral red notNaN, ?_⟩
    rw [Field.store_number has.1]
    cases Number.isUnsigned x with
    | true => rfl
    | false => exact returns.number x
  | .bool b =>
    have word := (Literal.Spells.boolean (r := r) b).value
    exact ⟨_, congrArg Except.ok word, (Field.Converts.bool has b).store_eq⟩
  | .text s =>
    have word := (Literal.Spells.text (r := r) (returns.text s has)).value
    exact ⟨_, congrArg Except.ok word, f.store_text s⟩
  | .node n =>
    exact ⟨.node n, n.evaluate_expression returns has.1 (by simpa [Value.same] using same),
      Field.store_node has.2⟩
  | .list items => exact has.elim

theorem evaluate_itemExpressions {red : Reduction} (returns : F.Returns red) (f : Field)
    (items : List Value) (have' : ItemsHave r F f.kind items)
    (same : sameItems items items = true) :
    ∃ args, Infix.evaluateAll r red (itemExpressions r items) = .ok args ∧
      args.map f.store = items := by
  match items with
  | [] => exact ⟨[], rfl, rfl⟩
  | item :: rest =>
    obtain ⟨same, same'⟩ : item.same item = true ∧ sameItems rest rest = true := by
      simpa [sameItems] using same
    obtain ⟨arg, first, stored⟩ := item.evaluate_expression returns f have'.1 same
    obtain ⟨args, others, stored'⟩ := evaluate_itemExpressions returns f rest have'.2 same'
    exact ⟨arg :: args, Infix.evaluateAll_cons_eq_ok_iff.2 ⟨arg, args, first, others, rfl⟩,
      by rw [List.map_cons, stored, stored']⟩

theorem evaluate_fieldExpressions {red : Reduction} (returns : F.Returns red) (held : List Field)
    (fields : List (String × Value)) {absent : List Field} (layout : Layout (held ++ absent))
    (hold : Hold r F held fields) (same : sameFields fields fields = true) :
    ∃ args, Infix.evaluateAll r red (fieldExpressions r fields) = .ok args ∧
      Stores held args fields := by
  match held, fields, hold with
  | [], [], _ => exact ⟨[], rfl, .nil⟩
  | f :: held, (key, v) :: more, .cons ⟨keyed, kept⟩ hold =>
    obtain rfl : key = f.key := keyed
    obtain ⟨same, same'⟩ : v.same v = true ∧ sameFields more more = true := by
      simpa [sameFields] using same
    cases layout with
    | cons _ last layout =>
      rw [fieldExpressions_cons]
      rcases kept.cases with ⟨items, rfl, array, some, inside⟩ | ⟨scalar, inside⟩
      · obtain rfl : held = [] := (List.append_eq_nil_iff.1 (last array)).1
        cases hold
        have same : sameItems items items = true := by simpa [sameFields, Value.same] using same
        obtain ⟨args, evaluated, stored⟩ := evaluate_itemExpressions returns f items inside same
        refine ⟨args, ?_, ?_⟩
        · simpa [Value.expressions, fieldExpressions] using evaluated
        · rw [← stored]
          exact .items array (by simpa [← stored] using some)
      · obtain ⟨arg, first, stored⟩ := v.evaluate_expression returns f inside same
        obtain ⟨args, others, stores⟩ :=
          evaluate_fieldExpressions returns held more layout hold same'
        refine ⟨arg :: args, ?_, ?_⟩
        · rw [inside.expressions, List.singleton_append, Infix.evaluateAll_cons_eq_ok_iff]
          exact ⟨arg, args, first, others, rfl⟩
        · rw [← stored]
          exact .single scalar stores

end

theorem Form.Returns.parse_spell {red : Reduction} (returns : F.Returns red) {n : Node}
    (has : n.Has r F) (same : n.same n = true) :
    Compiler.parse ⟨r, red⟩ (n.spell r) = .ok (.node n) := by
  rw [SkillGraph.parse_spell returns.text red has, n.evaluate_expression returns has same]
  rfl

theorem Compiler.parseGraph_eq_ok_iff {c : Compiler} {text : String} {n : Node} :
    c.parseGraph text = .ok n ↔ c.parse text = .ok (.node n) := by
  constructor
  · intro parsed
    obtain ⟨v, value, built⟩ := bind_eq_ok_iff.1 parsed
    cases v with
    | node m =>
      obtain rfl := Except.ok.inj built
      exact value
    | _ => cases built
  · intro parsed
    rw [parseGraph, parsed]
    rfl

theorem parse_spell_node {n : Node} (fine : n.wellFormed r = true) :
    Compiler.parse ⟨r, .none⟩ (n.spell r) = .ok (.node n) :=
  Form.spelled_returns.parse_spell ((n.wellFormed_iff_has).1 fine) (n.same_self fine)

/-- Spelling a well-formed graph and parsing the text again, without folding, gives the same graph
back, with every number bit for bit. -/
theorem parseGraph_spellGraph (r : Registry) (n : Node) (fine : n.wellFormed r = true) :
    Compiler.parseGraph ⟨r, .none⟩ (Compiler.spellGraph ⟨r, .none⟩ n) = .ok n :=
  Compiler.parseGraph_eq_ok_iff.2 (parse_spell_node fine)

/-- The spelling is `Delay(-2.5, AddBuff(Self(), "a == b", {rate}))`. -/
theorem parseGraph_spellGraph_delay :
    let n : Node := .call "TaskDelay" [("Seconds", .number (-2.5)),
      ("Action", .node (.call "ActionAddBuff" [("Target", .node (.call "ActorSelf" [])),
        ("BuffId", .text "a == b"), ("Duration", .node (.bound "rate"))]))]
    n.wellFormed .standard = true ∧
      Compiler.parseGraph ⟨.standard, .none⟩ (Compiler.spellGraph ⟨.standard, .none⟩ n) = .ok n :=
  ⟨by decide +kernel, parseGraph_spellGraph .standard _ (by decide +kernel)⟩

end SkillGraph
