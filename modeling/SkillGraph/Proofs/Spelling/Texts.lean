import SkillGraph.Proofs.Lexeme.Quotes
import SkillGraph.Proofs.Spelling.Results

/-! Graphs with arbitrary texts. A text stands between quotes in the spelling of its graph, and no
result of parsing holds a quote, so a graph comes back only if all its texts can be quoted. -/
namespace SkillGraph

open Lexeme (quote Quotable)

variable {r : Registry} {F : Form}

mutual

theorem Node.has_iff_freed (n : Node) : n.Has r F ↔ n.Has r F.freed ∧ ∀ s ∈ n.texts, F.text s := by
  match n with
  | .constant x key => simp [Node.Has, Node.texts, Form.freed]
  | .boolean b => simp [Node.Has, Node.texts]
  | .negate operand | .not operand =>
    simp [Node.Has, Node.texts, operand.has_iff_freed, Form.freed, and_assoc]
  | .operation group code left right =>
    rw [Node.Has, Node.Has, Node.texts, left.has_iff_freed, right.has_iff_freed,
      List.forall_mem_append]
    simp only [Form.freed]
    tauto
  | .call tag fields =>
    rw [Node.Has, Node.Has, Node.texts]
    constructor
    · rintro ⟨a, found, enough, inside⟩
      obtain ⟨inside, texts⟩ := (fieldsHave_iff_freed a.fields fields).1 inside
      exact ⟨⟨a, found, enough, inside⟩, texts⟩
    · rintro ⟨⟨a, found, enough, inside⟩, texts⟩
      exact ⟨a, found, enough, (fieldsHave_iff_freed a.fields fields).2 ⟨inside, texts⟩⟩

theorem Value.has_iff_freed (kind : Kind) (v : Value) :
    v.Has r F kind ↔ v.Has r F.freed kind ∧ ∀ s ∈ v.texts, F.text s := by
  match v with
  | .number x => simp [Value.Has, Value.texts, Form.freed]
  | .bool b => simp [Value.Has, Value.texts]
  | .text s => simp [Value.Has, Value.texts, Form.freed]
  | .node n =>
    rw [Value.Has, Value.Has, Value.texts, n.has_iff_freed]
    tauto
  | .list items => simp [Value.Has]

theorem itemsHave_iff_freed (kind : Kind) (items : List Value) :
    ItemsHave r F kind items ↔
      ItemsHave r F.freed kind items ∧ ∀ s ∈ itemTexts items, F.text s := by
  match items with
  | [] => simp [ItemsHave, itemTexts]
  | item :: rest =>
    rw [ItemsHave, ItemsHave, itemTexts, item.has_iff_freed kind, itemsHave_iff_freed kind rest,
      List.forall_mem_append]
    tauto

theorem fieldsHave_iff_freed (fs : List Field) (fields : List (String × Value)) :
    FieldsHave r F fs fields ↔
      FieldsHave r F.freed fs fields ∧ ∀ s ∈ fieldTexts fields, F.text s := by
  match fs, fields with
  | [], [] => simp [FieldsHave, fieldTexts]
  | f :: _, [] => simp [FieldsHave, fieldTexts]
  | [], _ :: _ => simp [FieldsHave]
  | f :: rest, (key, v) :: more =>
    have kept : v.KeptBy r F f ↔ v.KeptBy r F.freed f ∧ ∀ s ∈ v.texts, F.text s := by
      have single := v.has_iff_freed f.kind
      cases v with
      | list items =>
        have inside := itemsHave_iff_freed f.kind items
        simp only [Value.KeptBy, Value.texts]
        tauto
      | _ =>
        simp only [Value.KeptBy]
        tauto
    rw [fieldsHave_cons_cons, fieldsHave_cons_cons, fieldTexts, fieldsHave_iff_freed rest more,
      kept, List.forall_mem_append]
    tauto

end

theorem infix_intercalate {spellings : List String} {t : String} (member : t ∈ spellings) :
    t.toList <:+: (", ".intercalate spellings).toList := by
  induction spellings with
  | nil => cases member
  | cons first rest ih =>
    cases rest with
    | nil =>
      obtain rfl := List.mem_singleton.1 member
      simp
    | cons second rest =>
      rw [String.intercalate_cons_cons, String.toList_append, String.toList_append]
      rcases List.mem_cons.1 member with rfl | member
      · rw [List.append_assoc]
        exact (List.prefix_append _ _).isInfix
      · exact (ih member).trans (List.suffix_append _ _).isInfix

mutual

/-- Every text of a graph stands between quotes in the spelling. -/
theorem Node.quote_infix (n : Node) (has : n.Has r F) {s : String} (member : s ∈ n.texts) :
    quote s.toList <:+: (n.spell r).toList := by
  match n with
  | .constant .. | .boolean _ => simp [Node.texts] at member
  | .negate operand | .not operand =>
    have inside := operand.quote_infix has.2 (by simpa [Node.texts] using member)
    rw [Node.spell, String.toList_append, String.toList_append]
    exact inside.trans (List.infix_append _ _ _)
  | .operation group code left right =>
    obtain ⟨-, -, low, high⟩ := has
    rw [Node.texts] at member
    rcases List.mem_append.1 member with member | member
    · refine (left.quote_infix low member).trans ⟨['('], ?_, ?_⟩
      · exact (" " ++ operatorSymbol group code ++ " " ++ right.spell r ++ ")").toList
      · simp [Node.spell]
    · refine (right.quote_infix high member).trans ⟨?_, [')'], ?_⟩
      · exact ("(" ++ left.spell r ++ " " ++ operatorSymbol group code ++ " ").toList
      · simp [Node.spell]
  | .call tag fields =>
    obtain ⟨a, registered, rfl, -, -, inside⟩ := Node.of_has_call has
    obtain ⟨held, absent, split, hold, -⟩ := exists_hold_of_fieldsHave inside
    have within : held.Sublist a.fields := split ▸ List.sublist_append_left held absent
    obtain ⟨t, spelled, inside⟩ :=
      fields_quote_infix held fields hold (by simpa [Node.texts] using member)
    refine (inside.trans (infix_intercalate spelled)).trans ⟨(a.name ++ "(").toList, [')'], ?_⟩
    simp [Node.spell_call registered within hold]

theorem Value.quote_infix (kind : Kind) (v : Value) (has : v.Has r F kind) {s : String}
    (member : s ∈ v.texts) : quote s.toList <:+: (v.spell r).toList := by
  match v with
  | .number _ | .bool _ => simp [Value.texts] at member
  | .text t =>
    obtain rfl : s = t := by simpa [Value.texts] using member
    rw [Value.spell, Lexeme.toList_quote]
  | .node n => exact n.quote_infix has.1 (by simpa [Value.texts] using member)
  | .list items => exact has.elim

theorem items_quote_infix (kind : Kind) (items : List Value) (have' : ItemsHave r F kind items)
    {s : String} (member : s ∈ itemTexts items) :
    ∃ t ∈ spellItems r items, quote s.toList <:+: t.toList := by
  match items with
  | [] => simp [itemTexts] at member
  | item :: rest =>
    rw [itemTexts] at member
    rw [spellItems]
    rcases List.mem_append.1 member with member | member
    · exact ⟨_, List.mem_cons_self, item.quote_infix kind have'.1 member⟩
    · obtain ⟨t, inside, spelled⟩ := items_quote_infix kind rest have'.2 member
      exact ⟨t, List.mem_cons_of_mem _ inside, spelled⟩

theorem fields_quote_infix (held : List Field) (fields : List (String × Value))
    (hold : Hold r F held fields) {s : String} (member : s ∈ fieldTexts fields) :
    ∃ t ∈ fields.flatMap (·.2.spellings r), quote s.toList <:+: t.toList := by
  match held, fields, hold with
  | [], [], _ => simp [fieldTexts] at member
  | f :: held, (key, v) :: more, .cons ⟨_, kept⟩ hold =>
    rw [fieldTexts] at member
    rw [List.flatMap_cons]
    rcases List.mem_append.1 member with member | member
    · rcases kept.cases with ⟨items, rfl, -, -, inside⟩ | ⟨-, inside⟩
      · obtain ⟨t, spelled, quoted⟩ :=
          items_quote_infix f.kind items inside (by simpa [Value.texts] using member)
        exact ⟨t, List.mem_append_left _ spelled, quoted⟩
      · refine ⟨v.spell r, List.mem_append_left _ ?_, v.quote_infix f.kind inside member⟩
        rw [inside.spellings]
        exact List.mem_singleton_self _
    · obtain ⟨t, spelled, quoted⟩ := fields_quote_infix held more hold member
      exact ⟨t, List.mem_append_right _ spelled, quoted⟩

end

def Form.unquoted : Form := { Form.spelled with text := fun s => '"' ∉ s.toList }

theorem Form.unquoted_closed (r : Registry) : Form.unquoted.Closed r .none :=
  Form.closed_none (fun _ => Iff.rfl) (fun _ notNaN => notNaN) (fun _ quotable => quotable.noQuote)
    fun _ => trivial

theorem Compiler.lexemes_of_parse {c : Compiler} {text : String} {v : Value}
    (parsed : c.parse text = .ok v) : ∃ words, SkillGraph.lexemes text = .ok words := by
  obtain ⟨words, lexed, -⟩ := bind_eq_ok_iff.1 (mapError_eq_ok_iff.1 parsed)
  exact ⟨words, lexed⟩

theorem Value.loose_unquoted_of_parse {text : String} {v : Value}
    (parsed : Compiler.parse ⟨r, .none⟩ text = .ok v) : v.Loose r .unquoted := by
  obtain ⟨words, lexed⟩ := Compiler.lexemes_of_parse parsed
  have lone : Form.unquoted.text "=" := by
    change '"' ∉ "=".toList
    decide
  exact loose_of_parse (Form.unquoted_closed r) lexed (fun _ => lone) parsed

/-- Both checks of a spelling look into the texts of the graph. -/
theorem Lexeme.quotable_of_lexemes {words : List String} {text s : String}
    (lexed : SkillGraph.lexemes text = .ok words) (noQuote : '"' ∉ s.toList)
    (inside : quote s.toList <:+: text.toList) : Quotable s.toList := by
  obtain ⟨pieces, chars, -⟩ := map_eq_ok_iff.1 lexed
  obtain ⟨front, back, spelled⟩ := inside
  rw [← spelled, List.append_assoc] at chars
  exact quotable_of_ofChars noQuote chars

/-- A field value that comes back from its own spelling can be spelled. -/
theorem Value.has_of_parse_spell {f : Field} {v arg : Value}
    (parsed : Compiler.parse ⟨r, .none⟩ (v.spell r) = .ok arg) (stored : f.store arg = v) :
    v.Has r .spelled f.kind := by
  obtain ⟨words, lexed⟩ := Compiler.lexemes_of_parse parsed
  have has : v.Has r .unquoted f.kind := by
    rw [← stored]
    exact Field.has_store (Form.unquoted_closed r) (loose_unquoted_of_parse parsed)
  obtain ⟨shape, noQuotes⟩ := (v.has_iff_freed f.kind).1 has
  refine (v.has_iff_freed f.kind).2 ⟨shape, ?_⟩
  intro s member
  exact Lexeme.quotable_of_lexemes lexed (noQuotes s member) (v.quote_infix f.kind has member)

/-- Exactly the well-formed graphs come back from their spellings. -/
theorem Node.wellFormed_iff_parseGraph_spell (n : Node) :
    n.wellFormed r = true ↔ Compiler.parseGraph ⟨r, .none⟩ (n.spell r) = .ok n := by
  rw [Compiler.parseGraph_eq_ok_iff]
  constructor
  · exact parse_spell_node
  · intro parsed
    obtain ⟨words, lexed⟩ := Compiler.lexemes_of_parse parsed
    have has : n.Has r .unquoted := Value.loose_unquoted_of_parse parsed
    obtain ⟨shape, noQuotes⟩ := n.has_iff_freed.1 has
    refine n.wellFormed_iff_has.2 (n.has_iff_freed.2 ⟨shape, ?_⟩)
    intro s member
    exact Lexeme.quotable_of_lexemes lexed (noQuotes s member) (n.quote_infix has member)

/-- Texts without restriction. A graph that is well-formed up to its texts comes back from its
spelling exactly if every text can be quoted. As long as no text holds a quote, nothing else comes
back in its place. -/
theorem parseGraph_spellGraph_freed (r : Registry) (n : Node)
    (formed : n.Has r Form.spelled.freed) :
    (Compiler.parseGraph ⟨r, .none⟩ (Compiler.spellGraph ⟨r, .none⟩ n) = .ok n ↔
      ∀ s ∈ n.texts, Quotable s.toList) ∧
    ((∀ s ∈ n.texts, '"' ∉ s.toList) →
      Compiler.parseGraph ⟨r, .none⟩ (Compiler.spellGraph ⟨r, .none⟩ n) = .ok n ∨
        ∃ d, Compiler.parseGraph ⟨r, .none⟩ (Compiler.spellGraph ⟨r, .none⟩ n) = .error d) := by
  have stable : Compiler.parseGraph ⟨r, .none⟩ (Compiler.spellGraph ⟨r, .none⟩ n) = .ok n ↔
      ∀ s ∈ n.texts, Quotable s.toList := by
    rw [Compiler.spellGraph, ← n.wellFormed_iff_parseGraph_spell, n.wellFormed_iff_has,
      n.has_iff_freed]
    exact ⟨fun h => h.2, fun texts => ⟨formed, texts⟩⟩
  refine ⟨stable, ?_⟩
  intro noQuotes
  rw [stable]
  cases parsed : Compiler.parseGraph ⟨r, .none⟩ (Compiler.spellGraph ⟨r, .none⟩ n) with
  | error d => exact .inr ⟨d, rfl⟩
  | ok m =>
    obtain ⟨words, lexed⟩ := Compiler.lexemes_of_parse (Compiler.parseGraph_eq_ok_iff.1 parsed)
    refine .inl ?_
    intro s member
    exact Lexeme.quotable_of_lexemes lexed (noQuotes s member) (n.quote_infix formed member)

theorem Node.has_log {s : String} (text : F.text s) :
    (Node.call "ActionLog" [("Message", .text s)]).Has .standard F := by
  have found : Registry.standard.atomTagged? "ActionLog" =
      some ⟨"Log", "ActionLog", [⟨"Message", .string, none, false, false, ""⟩], "", "action"⟩ := by
    decide +kernel
  exact ⟨_, found, Nat.le_refl 1, rfl, ⟨rfl, text⟩, trivial⟩

/-- A full-width comma in a text is refused. -/
theorem parseGraph_spellGraph_freed_comma :
    let n : Node := .call "ActionLog" [("Message", .text "你好，世界")]
    n.Has .standard Form.spelled.freed ∧
      ∃ d, Compiler.parseGraph ⟨.standard, .none⟩
        (Compiler.spellGraph ⟨.standard, .none⟩ n) = .error d := by
  intro n
  have formed : n.Has .standard Form.spelled.freed := Node.has_log trivial
  have texts : n.texts = ["你好，世界"] := by decide +kernel
  obtain ⟨stable, safe⟩ := parseGraph_spellGraph_freed .standard n formed
  rw [texts, List.forall_mem_singleton] at stable safe
  refine ⟨formed, (safe (by decide)).resolve_left ?_⟩
  rw [stable]
  decide

/-- A text with quotes in it is read as two arguments, of which the second one is dropped. -/
theorem parseGraph_spellGraph_freed_surplus :
    let n : Node := .call "ActionLog" [("Message", .text "a\", \"b")]
    n.Has .standard Form.spelled.freed ∧
      Compiler.spellGraph ⟨.standard, .none⟩ n = "Log(\"a\", \"b\")" ∧
      ∃ m, Compiler.parseGraph ⟨.standard, .none⟩ (Compiler.spellGraph ⟨.standard, .none⟩ n) =
        .ok m ∧ m.texts = ["a"] ∧ m ≠ n := by
  intro n
  have spelled : Compiler.spellGraph ⟨.standard, .none⟩ n = "Log(\"a\", \"b\")" := by
    decide +kernel
  obtain ⟨m, parsed, texts⟩ := map_eq_ok_iff.1
    (show (Compiler.parseGraph ⟨.standard, .none⟩ "Log(\"a\", \"b\")").map Node.texts =
      .ok ["a"] by decide +kernel)
  refine ⟨Node.has_log trivial, spelled, m, spelled ▸ parsed, texts, ?_⟩
  rintro rfl
  exact absurd texts (by decide +kernel)

end SkillGraph
