import SkillGraph.Proofs.Spelling.Texts

/-! Quoted spans in expressions. Both checks of an expression look into its quoted spans, and a span
that passes them decides nothing more: the conversion treats every span as the same operand, and
the machine asks no value for more than whether it is a node. -/
namespace SkillGraph

open Lexeme (quote Quotable forbiddenIn bareEquals)

inductive Token.Related (r : Registry) (R : Value → Value → Prop) : Token → Token → Prop where
  | refl (token : Token) : Related r R token token
  | word {w w' : String} (free : r.isCallName w = false) (free' : r.isCallName w' = false)
    (related : R (Literal.value w) (Literal.value w')) : Related r R (.word w) (.word w')

section Conversion

variable {r : Registry} {R : Value → Value → Prop}

theorem Token.Related.opensOperand {token token' : Token}
    (related : Token.Related r R token token') :
    Program.opensOperand (some token) = Program.opensOperand (some token') := by
  cases related <;> rfl

namespace Program

/-- Only whether an operand can begin behind it matters of the token before. -/
theorem step_congr {previous previous' : Option Token}
    (same : opensOperand previous = opensOperand previous') (pending : List Pending)
    (token : Token) :
    step r previous pending token = step r previous' pending token := by
  cases token with
  | operator op =>
    have place : inPlace previous op = inPlace previous' op := by rw [inPlace, inPlace, same]
    simp only [step, place]
  | _ => rfl

/-- One token after another, tokens that differ only in words give programs that differ only in
words. -/
theorem convert_related (refl : ∀ v, R v v) {tokens tokens' : List Token}
    (related : List.Forall₂ (Token.Related r R) tokens tokens') {previous previous' : Option Token}
    (same : opensOperand previous = opensOperand previous') (pending : List Pending) :
    EndAlike (Program.Related R) (convert r previous pending tokens)
      (convert r previous' pending tokens') := by
  have self (program : Program) : Program.Related R program program :=
    Program.related_self fun w _ => refl (Literal.value w)
  induction related generalizing previous previous' pending with
  | nil => exact (EndAlike.refl (finish pending)).mono fun program _ same => same ▸ self program
  | @cons token token' tokens tokens' first _ ih =>
    have moved : EndAlike (fun p q => Program.Related R p.1 q.1 ∧ p.2 = q.2)
        (step r previous pending token) (step r previous' pending token') := by
      cases first with
      | refl =>
        rw [step_congr same]
        exact (EndAlike.refl _).mono fun p _ same => same ▸ ⟨self p.1, rfl⟩
      | word free free' related =>
        simp only [step, free, free', Bool.false_eq_true, if_false]
        exact .ok ⟨.cons (.operand related) .nil, rfl⟩
    refine moved.bind ?_
    rintro ⟨emitted, pending⟩ ⟨emitted', _⟩ ⟨emission, rfl⟩
    refine (ih first.opensOperand pending).bind ?_
    intro program program' later
    exact .ok (List.rel_append emission later)

theorem ofTokens_related (refl : ∀ v, R v v) {tokens tokens' : List Token}
    (related : List.Forall₂ (Token.Related r R) tokens tokens') :
    EndAlike (Program.Related R) (ofTokens r tokens) (ofTokens r tokens') :=
  convert_related refl related rfl []

end Program

end Conversion

/-- The machine asks a value only whether it is a node. -/
theorem Machine.keeps_kind (r : Registry) (red : Reduction) :
    Keeps r red red Value.SameKind where
  kind same := same
  unary _ _ _ _ := rfl
  binary _ _ _ _ _ _ _ := rfl
  call a _ args args' same := by
    have built := a.instantiate_related (S := fun _ _ => True) (fun _ _ _ _ => trivial)
      (fun _ _ _ _ => trivial) same
    refine built.mono ?_
    rintro _ _ ⟨fields, fields', rfl, rfl, -⟩
    rfl

def spanning (front s back : String) : String := front ++ "\"" ++ s ++ "\"" ++ back

theorem toList_spanning (front s back : String) :
    (spanning front s back).toList = front.toList ++ (quote s.toList ++ back.toList) := by
  simp [spanning, quote]

section

variable {front s s' back : String}

theorem lexemes_spanning_swap (even : Even (front.toList.count '"')) (quotable : Quotable s.toList)
    (quotable' : Quotable s'.toList) {words : List String}
    (lexed : lexemes (spanning front s back) = .ok words) :
    ∃ first others, words = first ++ ("\"" ++ s ++ "\"") :: others ∧
      lexemes (spanning front s' back) = .ok (first ++ ("\"" ++ s' ++ "\"") :: others) := by
  have quoted (t : String) : String.ofList (quote t.toList) = "\"" ++ t ++ "\"" := by
    rw [← Lexeme.toList_quote, String.ofList_toList]
  obtain ⟨pieces, chars, rfl⟩ := map_eq_ok_iff.1 lexed
  rw [toList_spanning] at chars
  obtain ⟨first, others, rfl, chars'⟩ := Lexeme.ofChars_swap even quotable quotable' chars
  refine ⟨first.map String.ofList, others.map String.ofList, by simp [quoted], ?_⟩
  rw [lexemes, toList_spanning, chars']
  simp [Except.map, quoted]

/-- Two spans that pass the checks have the same effect on whether an expression is accepted, and on
whether its value is a node. -/
theorem parse_spanning_swap (c : Compiler) (even : Even (front.toList.count '"'))
    (quotable : Quotable s.toList) (quotable' : Quotable s'.toList) {v : Value}
    (parsed : c.parse (spanning front s back) = .ok v) :
    ∃ w, c.parse (spanning front s' back) = .ok w ∧ v.SameKind w := by
  obtain ⟨words, lexed⟩ := Compiler.lexemes_of_parse parsed
  obtain ⟨first, others, rfl, lexed'⟩ := lexemes_spanning_swap even quotable quotable' lexed
  have spells := Literal.Spells.text (r := c.registry) quotable
  have spells' := Literal.Spells.text (r := c.registry) quotable'
  have span : Token.Related c.registry Value.SameKind (Token.ofLexeme ("\"" ++ s ++ "\""))
      (Token.ofLexeme ("\"" ++ s' ++ "\"")) := by
    rw [Token.ofLexeme_of_word spells.word, Token.ofLexeme_of_word spells'.word]
    exact .word spells.free spells'.free (by rw [spells.value, spells'.value]; rfl)
  have same (tokens : List Token) :
      List.Forall₂ (Token.Related c.registry Value.SameKind) tokens tokens :=
    List.forall₂_same.2 fun token _ => .refl token
  have tokens : List.Forall₂ (Token.Related c.registry Value.SameKind)
      ((first ++ ("\"" ++ s ++ "\"") :: others).map Token.ofLexeme)
      ((first ++ ("\"" ++ s' ++ "\"") :: others).map Token.ofLexeme) := by
    rw [List.map_append, List.map_append, List.map_cons, List.map_cons]
    exact List.rel_append (same _) (.cons span (same _))
  have runs := (Program.ofTokens_related Value.SameKind.refl tokens).bind
    fun _ _ => Machine.run_related (Machine.keeps_kind c.registry c.reduction)
  rw [Compiler.parse_of_lexemes lexed, mapError_eq_ok_iff] at parsed
  obtain ⟨w, ran, kind⟩ := runs.exists_of_ok parsed
  refine ⟨w, ?_, kind⟩
  rw [Compiler.parse_of_lexemes lexed', mapError_eq_ok_iff]
  exact ran

/-- A span decides whether an expression is accepted, and as what, through the two checks alone. -/
theorem parse_spanning_iff (c : Compiler) (even : Even (front.toList.count '"'))
    (noQuote : '"' ∉ s.toList) (P : Bool → Prop) :
    (∃ v, c.parse (spanning front s back) = .ok v ∧ P v.isNode) ↔
      (forbiddenIn s.toList = [] ∧ bareEquals none s.toList = false) ∧
        ∃ v, c.parse (spanning front "" back) = .ok v ∧ P v.isNode := by
  have empty : Quotable "".toList := by decide
  constructor
  · rintro ⟨v, parsed, accepted⟩
    obtain ⟨words, lexed⟩ := Compiler.lexemes_of_parse parsed
    obtain ⟨pieces, chars, -⟩ := map_eq_ok_iff.1 lexed
    rw [toList_spanning] at chars
    have quotable := Lexeme.quotable_of_ofChars noQuote chars
    obtain ⟨w, parsed', same⟩ := parse_spanning_swap c even quotable empty parsed
    exact ⟨((Lexeme.quotable_iff _).1 quotable).2, w, parsed', same ▸ accepted⟩
  · rintro ⟨checks, v, parsed, accepted⟩
    have quotable : Quotable s.toList := (Lexeme.quotable_iff _).2 ⟨noQuote, checks⟩
    obtain ⟨w, parsed', same⟩ := parse_spanning_swap c even empty quotable parsed
    exact ⟨w, parsed', same ▸ accepted⟩

theorem Compiler.parseGraph_of_refused {c : Compiler} {text : String} {e : Cause}
    (refused : Lexeme.ofChars text.toList = .error e) :
    c.parseGraph text = .error (e.diagnostic.inExpression text) := by
  have lexed : SkillGraph.lexemes text = .error e := by
    rw [SkillGraph.lexemes, refused]
    rfl
  simp [parseGraph, parse, eval, lexed, bind, Except.bind, Except.mapError]

theorem Compiler.exists_parseGraph_iff {c : Compiler} {text : String} :
    (∃ n, c.parseGraph text = .ok n) ↔ ∃ v, c.parse text = .ok v ∧ v.isNode = true := by
  simp only [Compiler.parseGraph_eq_ok_iff]
  constructor
  · rintro ⟨n, parsed⟩
    exact ⟨.node n, parsed, rfl⟩
  · rintro ⟨v, parsed, kind⟩
    cases v with
    | node n => exact ⟨n, parsed⟩
    | _ => cases kind

end

section

variable {r : Registry} {F : Form} {key s s' : String} {before after : List (String × Value)}

theorem fieldsHave_text {fs : List Field}
    (inside : FieldsHave r F fs (before ++ (key, .text s) :: after)) (text : F.text s') :
    FieldsHave r F fs (before ++ (key, .text s') :: after) := by
  induction before generalizing fs with
  | nil =>
    cases fs with
    | nil => exact inside.elim
    | cons f rest =>
      obtain ⟨keyed, ⟨scalar, -⟩, later⟩ := inside
      exact ⟨keyed, ⟨scalar, text⟩, later⟩
  | cons field before ih =>
    cases fs with
    | nil => exact inside.elim
    | cons f rest =>
      obtain ⟨keyed, kept, later⟩ := fieldsHave_cons_cons.1 inside
      exact fieldsHave_cons_cons.2 ⟨keyed, kept, ih later⟩

theorem Node.has_text {tag : String}
    (has : (Node.call tag (before ++ (key, .text s) :: after)).Has r F) (text : F.text s') :
    (Node.call tag (before ++ (key, .text s') :: after)).Has r F := by
  obtain ⟨a, found, enough, inside⟩ := has
  refine ⟨a, found, ?_, fieldsHave_text inside text⟩
  simpa [argumentCount, Value.count] using enough

theorem intercalate_around (before after : List String) : ∃ front back, ∀ t,
    ", ".intercalate (before ++ t :: after) = front ++ t ++ back := by
  induction before with
  | nil =>
    cases after with
    | nil => exact ⟨"", "", by simp⟩
    | cons next rest =>
      refine ⟨"", ", " ++ ", ".intercalate (next :: rest), fun t => ?_⟩
      rw [List.nil_append, String.intercalate_cons_cons, String.empty_append, String.append_assoc]
  | cons first before ih =>
    obtain ⟨front, back, spelled⟩ := ih
    refine ⟨first ++ ", " ++ front, back, fun t => ?_⟩
    obtain ⟨next, rest, same⟩ : ∃ next rest, before ++ t :: after = next :: rest :=
      List.exists_cons_of_ne_nil (by simp)
    rw [List.cons_append, same, String.intercalate_cons_cons, ← same, spelled]
    simp [String.append_assoc]

/-- The spelling around a text of a call does not depend on the text. -/
theorem Node.spell_around {tag : String}
    (has : (Node.call tag (before ++ (key, .text s) :: after)).Has r F) : ∃ front back, ∀ t,
      (Node.call tag (before ++ (key, .text t) :: after)).spell r = spanning front t back := by
  obtain ⟨front, back, spelled⟩ := intercalate_around (before.flatMap (·.2.spellings r))
    (after.flatMap (·.2.spellings r))
  obtain ⟨a, registered, rfl, -, -, inside⟩ := Node.of_has_call (Node.has_iff_freed _ |>.1 has).1
  refine ⟨a.name ++ "(" ++ front, back ++ ")", fun t => ?_⟩
  have inside : FieldsHave r F.freed a.fields (before ++ (key, .text t) :: after) :=
    fieldsHave_text inside trivial
  obtain ⟨held, absent, split, hold, -⟩ := exists_hold_of_fieldsHave inside
  have within : held.Sublist a.fields := split ▸ List.sublist_append_left held absent
  have one : (Value.text t).spellings r = ["\"" ++ t ++ "\""] := rfl
  rw [Node.spell_call registered within hold, List.flatMap_append, List.flatMap_cons, one,
    List.singleton_append, spelled]
  simp [spanning, String.append_assoc]

/-- Where an expression would be accepted with nothing between the quotes, a text in its place is
read back or refused by one of the checks. -/
theorem Node.parseGraph_spell_text {tag : String}
    (fine : (Node.call tag (before ++ (key, .text "") :: after)).wellFormed r = true)
    (noQuote : '"' ∉ s.toList) :
    let n : Node := .call tag (before ++ (key, .text s) :: after)
    Compiler.parseGraph ⟨r, .none⟩ (n.spell r) =
      if forbiddenIn s.toList ≠ [] then
        .error ((Cause.forbiddenChars (forbiddenIn s.toList)).diagnostic.inExpression (n.spell r))
      else if bareEquals none s.toList then
        .error (Cause.bareAssignment.diagnostic.inExpression (n.spell r))
      else .ok n := by
  intro n
  have has := (Node.wellFormed_iff_has _).1 fine
  by_cases quotable : Quotable s.toList
  · have fine' : n.wellFormed r = true := n.wellFormed_iff_has.2 (Node.has_text has quotable)
    obtain ⟨-, clean, paired⟩ := (Lexeme.quotable_iff _).1 quotable
    rw [n.wellFormed_iff_parseGraph_spell.1 fine']
    simp [clean, paired]
  · obtain ⟨front, back, spelled⟩ := Node.spell_around has
    obtain ⟨words, lexed⟩ := Compiler.lexemes_of_parse (parse_spell_node fine)
    obtain ⟨pieces, chars, -⟩ := map_eq_ok_iff.1 lexed
    rw [spelled "", toList_spanning] at chars
    have refused := Lexeme.ofChars_quote noQuote chars quotable
    rw [← toList_spanning, ← spelled s] at refused
    by_cases clean : forbiddenIn s.toList = []
    · have paired : bareEquals none s.toList = true := by
        by_contra settled
        exact quotable ((Lexeme.quotable_iff _).2 ⟨noQuote, clean, by simpa using settled⟩)
      rw [if_neg (not_not.2 clean)] at refused ⊢
      rw [if_pos paired, Compiler.parseGraph_of_refused refused]
    · rw [if_pos clean] at refused ⊢
      rw [Compiler.parseGraph_of_refused refused]

/-- Quoted text is opaque but for the two checks that look at all characters. In a call that is
well-formed otherwise, a text without quotes is read back unless one of them refuses it, and then
the text alone decides the error. A quoted span in any expression, folded or not, decides whether
the expression is accepted through these checks of its own characters alone. -/
theorem parse_quoted (r : Registry) (s : String) (noQuote : '"' ∉ s.toList) :
    (∀ (tag key : String) (before after : List (String × Value)),
      (Node.call tag (before ++ (key, .text "") :: after)).wellFormed r = true →
      let n : Node := .call tag (before ++ (key, .text s) :: after)
      let text := Compiler.spellGraph ⟨r, .none⟩ n
      Compiler.parseGraph ⟨r, .none⟩ text =
        if forbiddenIn s.toList ≠ [] then
          .error ((Cause.forbiddenChars (forbiddenIn s.toList)).diagnostic.inExpression text)
        else if bareEquals none s.toList then
          .error (Cause.bareAssignment.diagnostic.inExpression text)
        else .ok n) ∧
    ∀ (c : Compiler) (front back : String), Even (front.toList.count '"') →
      ((∃ v, c.parse (spanning front s back) = .ok v) ↔
        (forbiddenIn s.toList = [] ∧ bareEquals none s.toList = false) ∧
          ∃ v, c.parse (spanning front "" back) = .ok v) ∧
      ((∃ n, c.parseGraph (spanning front s back) = .ok n) ↔
        (forbiddenIn s.toList = [] ∧ bareEquals none s.toList = false) ∧
          ∃ n, c.parseGraph (spanning front "" back) = .ok n) := by
  refine ⟨fun tag key before after fine => Node.parseGraph_spell_text fine noQuote, ?_⟩
  intro c front back even
  refine ⟨?_, ?_⟩
  · simpa using parse_spanning_iff c even noQuote fun _ => True
  · rw [Compiler.exists_parseGraph_iff, Compiler.exists_parseGraph_iff]
    exact parse_spanning_iff c even noQuote (· = true)

/-- Operators, commas and parentheses between quotes. -/
theorem parse_quoted_operators :
    let n : Node := .call "ActionLog" [("Message", .text "x >= 1, (y != 2)")]
    Compiler.parseGraph ⟨.standard, .none⟩ (Compiler.spellGraph ⟨.standard, .none⟩ n) = .ok n ∧
      ∃ m, Compiler.parseGraph ⟨.standard, .constant⟩
        (spanning "Max(1, GetAttr(" "x >= 1, (y != 2)" ")) > 2") = .ok m := by
  intro n
  obtain ⟨stored, anywhere⟩ := parse_quoted .standard "x >= 1, (y != 2)" (by decide)
  have clean : forbiddenIn "x >= 1, (y != 2)".toList = [] := by decide
  have paired : bareEquals none "x >= 1, (y != 2)".toList = false := by decide
  constructor
  · have read := stored "ActionLog" "Message" [] [] (by decide +kernel)
    dsimp only at read
    rwa [if_neg (not_not.2 clean), paired] at read
  · refine (anywhere ⟨.standard, .constant⟩ _ _ (by decide)).2.2 ⟨⟨clean, paired⟩, ?_⟩
    have accepted : (Compiler.parseGraph ⟨.standard, .constant⟩
        (spanning "Max(1, GetAttr(" "" ")) > 2")).isOk = true := by decide +kernel
    cases parsed : Compiler.parseGraph ⟨.standard, .constant⟩
        (spanning "Max(1, GetAttr(" "" ")) > 2") with
    | ok m => exact ⟨m, rfl⟩
    | error d => simp [parsed, Except.isOk, Except.toBool] at accepted

/-- A lone equals sign or full-width punctuation in a text is refused like one outside of quotes. -/
theorem parse_quoted_refused :
    let n (s : String) : Node := .call "ActionLog" [("Message", .text s)]
    '"' ∉ "a = b".toList ∧ (n "").wellFormed .standard = true ∧
      (Compiler.parseGraph ⟨.standard, .none⟩
        (Compiler.spellGraph ⟨.standard, .none⟩ (n "a = b"))).isOk = false ∧
      '"' ∉ "你好，世界".toList ∧
      (Compiler.parseGraph ⟨.standard, .none⟩
        (Compiler.spellGraph ⟨.standard, .none⟩ (n "你好，世界"))).isOk = false := by
  decide +kernel

end

end SkillGraph
