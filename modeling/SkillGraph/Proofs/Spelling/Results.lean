import SkillGraph.Proofs.Lexeme.Words
import SkillGraph.Proofs.Machine.Runs
import SkillGraph.Proofs.Program.Steps
import SkillGraph.Proofs.Spelling.Roundtrip
import SkillGraph.Server.Tool

/-! The results of parsing. Words stand for literals or for texts, and operators and calls build
graphs of a form from graphs of the same form. Without folding that form is the one that is spelled,
so every result can be spelled and read again. -/
namespace SkillGraph

/-- A value that may lie on the stack of the machine: a graph or a text of the form. -/
def Value.Loose (r : Registry) (F : Form) : Value → Prop
  | .node n => n.Has r F
  | .text s => F.text s
  | _ => False

/-- A form that the machine does not leave: it has every literal of an expression, and operators
keep it. -/
structure Form.Closed (F : Form) (r : Registry) (red : Reduction) : Prop where
  literal : ∀ x, Number.isUnsigned x = true → F.literal x
  number : ∀ x, F.literal x → F.number x ∧ F.number (-x)
  text : ∀ s, Lexeme.Quotable s.toList → F.text s
  unary : ∀ (op : Unary) n, n.Has r F → (red.apply (op.node n)).Has r F
  binary : ∀ op left right, left.Has r F → right.Has r F →
    (red.apply (.binary op left right)).Has r F

/-- Without folding, a form that allows every operation is closed. -/
theorem Form.closed_none {F : Form} {r : Registry}
    (literal : ∀ x, F.literal x ↔ Number.isUnsigned x = true)
    (number : ∀ x, x.isNaN = false → F.number x)
    (text : ∀ s, Lexeme.Quotable s.toList → F.text s) (operation : ∀ n, F.operation n) :
    F.Closed r .none where
  literal x := (literal x).2
  number x has := by
    have notNaN := Number.isNaN_of_isUnsigned ((literal x).1 has)
    exact ⟨number x notNaN, number (-x) (by rwa [Number.isNaN_neg])⟩
  text := text
  unary op n has := by cases op <;> exact ⟨operation _, has⟩
  binary op left right low high :=
    ⟨operation _, by simp [BinaryOp.operator?_code], low, high⟩

theorem Form.spelled_closed (r : Registry) : Form.spelled.Closed r .none :=
  Form.closed_none (fun _ => Iff.rfl) (fun _ notNaN => notNaN) (fun _ quotable => quotable)
    fun _ => trivial

variable {r : Registry} {red : Reduction} {F : Form}

namespace Literal

theorem quotable_of_plain {s : List Char} (plain : ∀ c ∈ s, Lexeme.isPlain c = true)
    (clean : ∀ c ∈ s, c ∉ Lexeme.forbidden) : Lexeme.Quotable s := by
  refine ⟨?_, clean, ?_⟩
  · intro member
    exact absurd (plain _ member) (by decide)
  · rw [← Lexeme.bareEquals_eq_false_iff]
    exact Lexeme.bareEquals_of_forall_ne _ fun c member =>
      Lexeme.ne_equals_of_isPlain (plain c member)

theorem has_of_boundKey? {cs key : List Char} (read : boundKey? cs = some key) :
    (Node.bound (String.ofList key)).Has r F := by
  unfold boundKey? at read
  split at read
  · simp only [Option.ite_none_right_eq_some, Option.some.injEq, Bool.and_eq_true] at read
    obtain ⟨⟨⟨-, some⟩, word⟩, rfl⟩ := read
    exact .bound (by simpa using some) (by simpa using word)
  · cases read

/-- A plain word stands for a literal or for text that can be quoted. -/
theorem loose_of_plain (closed : F.Closed r red) {w : String}
    (plain : ∀ c ∈ w.toList, Lexeme.isPlain c = true)
    (clean : ∀ c ∈ w.toList, c ∉ Lexeme.forbidden) : (value w).Loose r F := by
  have numeral : number? w.toList = unsigned? w.toList := by
    unfold number?
    split
    case h_1 rest spelled => exact absurd (plain '-' (by simp [spelled])) (by decide)
    case h_2 rest spelled => exact absurd (plain '+' (by simp [spelled])) (by decide)
    case h_3 => rfl
  unfold value
  split
  case h_1 key read => exact has_of_boundKey? (r := r) read
  split
  · exact Node.Has.literal (r := r) (closed.literal _ Number.isUnsigned_infinity)
  split
  case h_1 x read =>
    exact Node.Has.literal (r := r)
      (closed.literal x (Number.isUnsigned_of_unsigned? (numeral ▸ read)))
  split
  · trivial
  · exact closed.text _ (quotable_of_plain (fun c member => plain c (mem_of_mem_text member))
      fun c member => clean c (mem_of_mem_text member))

/-- What an operand stands for. The two halves of the logical operators are texts. -/
theorem loose_value (closed : F.Closed r red) {w : String}
    (word : Lexeme.Word w.toList ∨ w ∈ ["&", "|"]) : (value w).Loose r F := by
  rcases word with word | lone
  · generalize spelled : w.toList = cs at word
    cases word with
    | plain _ all clean => exact loose_of_plain closed (spelled ▸ all) (spelled ▸ clean)
    | quoted quotable =>
      rw [value_quoted spelled]
      exact closed.text _ (by simpa using quotable)
  · simp only [List.mem_cons, List.not_mem_nil, or_false] at lone
    rcases lone with rfl | rfl
    · exact closed.text "&" (by decide)
    · exact closed.text "|" (by decide)

end Literal

theorem Field.has_store (closed : F.Closed r red) {f : Field} {v : Value} (loose : v.Loose r F) :
    (f.store v).Has r F f.kind := by
  cases v with
  | text s =>
    rw [store_text]
    exact loose
  | node n =>
    have number {x : Float} (has : (Node.literal x).Has r F) : F.number x ∧ F.number (-x) :=
      closed.number x (by simpa [Node.literal, Node.Has] using has)
    rcases store_eq_iff.1 (rfl : f.store (.node n) = _) with converts | ⟨same, kept⟩
    · generalize f.store (.node n) = w at converts
      cases converts with
      | number kind x => exact ⟨kind, (number loose).1⟩
      | negated kind x => exact ⟨kind, (number loose.2).2⟩
      | bool kind b => exact kind
    · rw [same]
      exact ⟨loose, keeps_eq_true_iff.2 kept⟩
  | _ => exact loose.elim

theorem itemsHave_map_store (closed : F.Closed r red) {f : Field} {args : List Value}
    (loose : ∀ v ∈ args, v.Loose r F) : ItemsHave r F f.kind (args.map f.store) := by
  induction args with
  | nil => trivial
  | cons v rest ih =>
    exact ⟨Field.has_store closed (loose v List.mem_cons_self),
      ih fun w member => loose w (List.mem_cons_of_mem v member)⟩

/-- The fields that arguments fill are the first ones of the atom. Arguments are dropped only where
every field is filled. -/
theorem fieldsHave_of_fillFields (closed : F.Closed r red) {call : String} {fs : List Field}
    {args : List Value} {fields : List (String × Value)} (layout : Layout fs)
    (loose : ∀ v ∈ args, v.Loose r F) (filled : fillFields call fs args = .ok fields) :
    FieldsHave r F fs fields ∧
      (args.length ≤ argumentCount fields ∨ fs.length ≤ argumentCount fields) := by
  induction layout generalizing args fields with
  | nil =>
    obtain rfl := Except.ok.inj filled
    exact ⟨trivial, .inr (Nat.zero_le _)⟩
  | @cons f fs _ last _ ih =>
    unfold fillFields at filled
    split at filled
    case isTrue array =>
      split at filled
      case isTrue empty =>
        obtain rfl := List.isEmpty_iff.1 empty
        split at filled
        case isTrue optional =>
          obtain rfl := last array
          obtain rfl := Except.ok.inj filled
          exact ⟨fun _ => optional, .inl (Nat.le_refl 0)⟩
        case isFalse => cases filled
      case isFalse some =>
        obtain ⟨more, rest, rfl⟩ := map_eq_ok_iff.1 filled
        obtain ⟨have', -⟩ := ih (by simp) rest
        have kept := itemsHave_map_store closed (f := f) loose
        have some : args.map f.store ≠ [] := by simpa using some
        refine ⟨⟨rfl, ⟨array, some, kept⟩, have'⟩, .inl ?_⟩
        simp [argumentCount_cons, Value.count]
    case isFalse scalar =>
      have scalar : f.kind.isArray = false := by simpa using scalar
      cases args with
      | nil =>
        obtain rfl := Except.ok.inj filled
        exact ⟨fun array => absurd array (Bool.eq_false_iff.1 scalar), .inl (Nat.le_refl 0)⟩
      | cons v args =>
        obtain ⟨more, rest, rfl⟩ := map_eq_ok_iff.1 filled
        obtain ⟨have', count⟩ := ih (fun w member => loose w (List.mem_cons_of_mem v member)) rest
        have kept : (f.store v).KeptBy r F f :=
          .single scalar (Field.has_store closed (loose v List.mem_cons_self))
        refine ⟨fieldsHave_cons_cons.2 ⟨rfl, kept, have'⟩, ?_⟩
        simp only [argumentCount_cons, kept.count scalar, List.length_cons]
        omega

theorem Atom.has_of_instantiate (closed : F.Closed r red) {a : Atom} {args : List Value} {n : Node}
    (registered : a ∈ r.atoms) (loose : ∀ v ∈ args, v.Loose r F)
    (built : a.instantiate args = .ok n) : n.Has r F := by
  obtain ⟨enough, fields, filled, rfl⟩ := Atom.instantiate_eq_ok_iff.1 built
  have layout := r.layout registered
  obtain ⟨have', count⟩ := fieldsHave_of_fillFields closed layout loose filled
  have found := Registry.atomTagged?_eq_some_iff.2 ⟨registered, rfl⟩
  have least : a.leastArguments ≤ a.fields.length := List.countP_le_length
  have enough : a.leastArguments ≤ argumentCount fields := by omega
  exact ⟨a, found, enough, have'⟩

/-- A closed form keeps every value of a run, compared with the same run, in the form. -/
theorem Form.Closed.keeps (closed : F.Closed r red) :
    Machine.Keeps r red red fun v w => v = w ∧ v.Loose r F where
  kind same := congrArg Value.isNode same.1
  unary op n m := by
    rintro ⟨same, has⟩
    obtain rfl := Value.node.inj same
    exact ⟨rfl, closed.unary op n has⟩
  binary op a a' b b' := by
    rintro ⟨same, low⟩ ⟨same', high⟩
    obtain rfl := Value.node.inj same
    obtain rfl := Value.node.inj same'
    exact ⟨rfl, closed.binary op a b low high⟩
  call a registered args args' := by
    intro same
    obtain ⟨rfl, loose⟩ : args = args' ∧ ∀ v ∈ args, v.Loose r F := by
      induction same with
      | nil => simp
      | cons first _ ih =>
        obtain ⟨rfl, has⟩ := first
        obtain ⟨rfl, others⟩ := ih
        exact ⟨rfl, List.forall_mem_cons.2 ⟨has, others⟩⟩
    cases built : a.instantiate args with
    | error c => exact .error rfl
    | ok n => exact .ok ⟨rfl, Atom.has_of_instantiate closed registered loose built⟩

/-- What an expression parses to is of any closed form, if lone equals signs are texts of it. -/
theorem loose_of_parse (closed : F.Closed r red) {text : String} {words : List String} {v : Value}
    (lexed : lexemes text = .ok words) (equals : "=" ∈ words → F.text "=")
    (parsed : Compiler.parse ⟨r, red⟩ text = .ok v) : v.Loose r F := by
  rw [Compiler.parse_of_lexemes lexed, mapError_eq_ok_iff] at parsed
  obtain ⟨program, converted, ran⟩ := bind_eq_ok_iff.1 parsed
  have loose : ∀ w, .operand w ∈ program → (Literal.value w).Loose r F := by
    intro w member
    obtain ⟨u, inside, same⟩ := List.mem_map.1 (Program.word_mem_of_mem converted member)
    obtain rfl : u = w := by
      have := Token.lexeme_ofLexeme u
      rw [same] at this
      exact this.symm
    by_cases lone : u = "="
    · rw [lone]
      exact equals (lone ▸ inside)
    · refine Literal.loose_value closed ((Lexeme.word_of_lexemes lexed inside same).imp_right ?_)
      intro half
      simpa [lone] using half
  have kept := Machine.run_related closed.keeps
    (Program.related_self fun w member => ⟨rfl, loose w member⟩)
  rw [ran] at kept
  cases kept with
  | ok related => exact related.2

def Value.Spellable (r : Registry) : Value → Prop
  | .node n => n.wellFormed r = true
  | .text s => Lexeme.Quotable s.toList
  | _ => False

namespace Value

variable {v : Value}

theorem Loose.spellable (loose : v.Loose r .spelled) : v.Spellable r := by
  cases v with
  | node n => exact n.wellFormed_iff_has.2 loose
  | _ => exact loose

theorem Spellable.parse_spell (fine : v.Spellable r) :
    Compiler.parse ⟨r, .none⟩ (v.spell r) = .ok v := by
  cases v with
  | node n => exact parse_spell_node fine
  | text s =>
    have spells := Literal.Spells.text (r := r) fine
    have parsed := (Infix.Shown.word spells).parse .none
    rw [Infix.evaluate, spells.value] at parsed
    exact parsed
  | _ => cases fine

theorem Spellable.same_self (fine : v.Spellable r) : (v == v) = true := by
  cases v with
  | node n => simpa [BEq.beq, Value.same] using n.same_self fine
  | text s => simp [BEq.beq, Value.same]
  | _ => cases fine

end Value

/-- What an expression without lone equals signs parses to has an expression itself. -/
theorem spellable_of_parse {text : String} {words : List String} {v : Value}
    (lexed : lexemes text = .ok words) (noEquals : "=" ∉ words)
    (parsed : Compiler.parse ⟨r, .none⟩ text = .ok v) : v.Spellable r :=
  (loose_of_parse (Form.spelled_closed r) lexed (fun lone => absurd lone noEquals) parsed).spellable

/-- Whatever an expression without lone equals signs parses to, its spelling parses to the same
value, which holds no NaN. The server calls every such expression of a graph stable. -/
theorem parse_spell_of_parse (r : Registry) (text : String) (words : List String) (v : Value)
    (lexed : lexemes text = .ok words) (noEquals : "=" ∉ words)
    (parsed : Compiler.parse ⟨r, .none⟩ text = .ok v) :
    Compiler.parse ⟨r, .none⟩ (Compiler.spell ⟨r, .none⟩ v) = .ok v ∧ (v == v) = true ∧
      ∀ n, v = .node n → ∀ args, Server.stringArgument args "expression" = .ok text →
        Server.roundtrip ⟨r, .none⟩ args = .ok (.object [("node", n.toJson),
          ("expression", .string (Compiler.spellGraph ⟨r, .none⟩ n)), ("stable", .bool true)]) := by
  have fine := spellable_of_parse lexed noEquals parsed
  refine ⟨fine.parse_spell, fine.same_self, ?_⟩
  rintro n rfl args given
  have first := Compiler.parseGraph_eq_ok_iff.2 parsed
  have again : Compiler.parseGraph ⟨r, .none⟩ (Compiler.spellGraph ⟨r, .none⟩ n) = .ok n :=
    Compiler.parseGraph_eq_ok_iff.2 (parse_spell_node fine)
  have same : (n == n) = true := n.same_self fine
  simp [Server.roundtrip, Server.compiled, given, first, again, same, bind, Except.bind,
    Except.mapError, pure, Except.pure]

/-- Other quotes, spaces and digits than the spelling has. -/
theorem parse_spell_of_parse_sum :
    let text := "Sum(1, -2.50) > GetAttr('Hp')"
    let spelling := "(Sum(1, -(2.5)) > GetAttr(\"Hp\"))"
    ∃ v, Compiler.parse ⟨.standard, .none⟩ text = .ok v ∧
      Compiler.spell ⟨.standard, .none⟩ v = spelling ∧
      Compiler.parse ⟨.standard, .none⟩ spelling = .ok v := by
  intro text spelling
  obtain ⟨v, parsed, spelled⟩ := map_eq_ok_iff.1
    (show (Compiler.parse ⟨.standard, .none⟩ text).map (Compiler.spell ⟨.standard, .none⟩) =
      .ok spelling by decide +kernel)
  have words : lexemes text =
      .ok ["Sum", "(", "1", ",", "-", "2.50", ")", ">", "GetAttr", "(", "'Hp'", ")"] := by
    decide +kernel
  have again := (parse_spell_of_parse .standard text _ v words (by decide) parsed).1
  exact ⟨v, parsed, spelled, spelled ▸ again⟩

end SkillGraph
