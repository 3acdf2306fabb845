import SkillGraph.Proofs.Infix.Chains
import SkillGraph.Proofs.Machine.Steps
import SkillGraph.Proofs.Spelling.Literals

/-! Which lists of literals, operators and parentheses are expressions. The machine looks at the
height of its stack and at nothing else, so that all it demands of a list is balanced parentheses
and one more literal than binary operators. What tells the infix expressions among such lists is
that no operand stands directly behind another one. -/
namespace SkillGraph

namespace Token

/-- The tokens of expressions without calls: literals, operators and parentheses. -/
inductive Elementary : Token → Prop where
  | opening : Elementary .opening
  | closing : Elementary .closing
  | not : Elementary (.operator .not)
  | binary (op : BinaryOp) : Elementary (.operator (.binary op))
  | literal {w : String} (node : (Literal.value w).node?.isSome = true) : Elementary (.word w)

def begins : Token → Bool
  | .word _ | .opening | .operator .not => true
  | _ => false

/-- Whether an operand stands directly behind another one. -/
def abut : Option Token → List Token → Bool
  | _, [] => false
  | previous, token :: rest =>
    (!Program.opensOperand previous && token.begins) || abut (some token) rest

/-- What a token adds to the number of operands: a literal is one, and a binary operator makes one
of two. -/
def weight (previous : Option Token) : Token → Int
  | .word _ => 1
  | .operator op => 1 - (Program.inPlace previous op).arity
  | _ => 0

def excess : Option Token → List Token → Int
  | _, [] => 0
  | previous, token :: rest => token.weight previous + excess (some token) rest

variable {previous : Option Token} {tokens : List Token} {w : String}

theorem ofLexeme_of_literal (node : (Literal.value w).node?.isSome = true) :
    ofLexeme w = .word w := by
  have spelled := lexeme_ofLexeme w
  cases kind : ofLexeme w with
  | word text =>
    rw [kind] at spelled
    exact congrArg Token.word spelled
  | operator op =>
    rw [kind] at spelled
    rw [← spelled] at node
    rcases op with _ | _ | (op | op | op)
    all_goals first
      | cases node
      | cases op <;> cases node
  | _ =>
    rw [kind] at spelled
    rw [← spelled] at node
    cases node

theorem isCallName_eq_false_of_literal {r : Registry}
    (node : (Literal.value w).node?.isSome = true) : r.isCallName w = false := by
  apply Bool.eq_false_iff.2
  intro registered
  obtain ⟨named, free⟩ := Registry.of_isCallName registered
  rw [Literal.value_of_isName named free] at node
  cases node

theorem elementary_ofLexeme (plain : w = "(" ∨ w = ")" ∨
    (Operator.ofSymbol? w).isSome = true ∨ (Literal.value w).node?.isSome = true) :
    (ofLexeme w).Elementary := by
  rcases plain with rfl | rfl | symbol | node
  · exact .opening
  · exact .closing
  · obtain ⟨op, spelled⟩ := Option.isSome_iff_exists.1 symbol
    unfold Operator.ofSymbol? at spelled
    split at spelled
    · exact .not
    all_goals first
      | exact .binary _
      | cases spelled
  · rw [ofLexeme_of_literal node]
    exact .literal node

theorem abut_cons_eq_false_iff {token : Token} {rest : List Token} :
    abut previous (token :: rest) = false ↔
      (Program.opensOperand previous = false → token.begins = false) ∧
        abut (some token) rest = false := by
  simp [abut]

def room (previous : Option Token) : Int := if Program.opensOperand previous then 1 else 0

def beginsBehind (previous : Option Token) (token : Token) : Bool :=
  token.begins ||
    (Program.opensOperand previous && token = .operator (.binary (.arithmetic .sub)))

/-- A token that begins an operand fills the room for it or leaves it, and any other one uses up
what is there. -/
theorem weight_add_room (previous : Option Token) {token : Token} (kind : token.Elementary) :
    token.weight previous + room (some token) = if token.beginsBehind previous then 1 else 0 := by
  cases kind with
  | binary op =>
    by_cases sign : op = .arithmetic .sub ∧ Program.opensOperand previous = true
    · obtain ⟨rfl, place⟩ := sign
      simp [weight, Program.inPlace, beginsBehind, place]
      rfl
    · have same : Program.inPlace previous (.binary op) = .binary op := by
        simpa [Program.inPlace] using sign
      have other : (Token.operator (.binary op)).beginsBehind previous = false := by
        simpa [beginsBehind, begins, imp_not_comm] using sign
      rw [weight, same, other]
      rfl
  | _ => simp [weight, Program.inPlace, beginsBehind, begins, room, Program.opensOperand,
      Operator.arity, Operator.isUnary]

theorem beginsBehind_le_room {token : Token}
    (here : Program.opensOperand previous = false → token.begins = false) :
    (if token.beginsBehind previous then 1 else 0) ≤ room previous := by
  cases place : Program.opensOperand previous with
  | true =>
    rw [room, if_pos place]
    split <;> decide
  | false => simp [room, beginsBehind, place, here place]

/-- Where no operand abuts on another one, tokens leave no more operands than there is room for. -/
theorem excess_le_room (elementary : ∀ token ∈ tokens, token.Elementary)
    (apart : abut previous tokens = false) : excess previous tokens ≤ room previous := by
  induction tokens generalizing previous with
  | nil => cases place : Program.opensOperand previous <;> simp [excess, room, place]
  | cons token rest ih =>
    obtain ⟨here, later⟩ := abut_cons_eq_false_iff.1 apart
    obtain ⟨kind, others⟩ := List.forall_mem_cons.1 elementary
    calc excess previous (token :: rest)
        = token.weight previous + excess (some token) rest := rfl
      _ ≤ token.weight previous + room (some token) := Int.add_le_add_left (ih others later) _
      _ = if token.beginsBehind previous then 1 else 0 := weight_add_room previous kind
      _ ≤ room previous := beginsBehind_le_room here

end Token

namespace Infix

open Token

/-- What may stand behind an operand inside of `depth` open parentheses. -/
inductive Tail : Nat → List Token → Prop where
  | done : Tail 0 []
  | close {depth : Nat} {tokens : List Token} (rest : Tail depth tokens) :
    Tail (depth + 1) (.closing :: tokens)
  | more {depth : Nat} {tokens : List Token} (op : BinaryOp) {e : Infix}
    (literal : e.literal = true) (rest : Tail depth tokens) :
    Tail depth (.operator (.binary op) :: (e.tokens ++ tokens))

variable {depth : Nat} {previous : Option Token} {tokens : List Token}

/-- An operand takes in what stands behind it, up to the parenthesis around it. -/
theorem Tail.absorb (tail : Tail depth tokens) {e : Infix} (literal : e.literal = true) :
    ∃ whole : Infix, whole.literal = true ∧
      ((depth = 0 ∧ whole.tokens = e.tokens ++ tokens) ∨
        ∃ outer rest, depth = outer + 1 ∧ Tail outer rest ∧
          whole.tokens ++ .closing :: rest = e.tokens ++ tokens) := by
  induction tail generalizing e with
  | done => exact ⟨e, literal, .inl ⟨rfl, by simp⟩⟩
  | close rest => exact ⟨e, literal, .inr ⟨_, _, rfl, rest, rfl⟩⟩
  | @more depth tokens op f fine rest ih =>
    -- Any grouping will do: an expression does not show how its operators associate.
    have both : (binary op e f).literal = true := by simp [Infix.literal, literal, fine]
    have joined : (binary op e f).tokens ++ tokens =
        e.tokens ++ .operator (.binary op) :: (f.tokens ++ tokens) := by
      simp [tokens_binary]
    rw [← joined]
    exact ih both

/-- What the tokens behind `previous` are: an operand and what may follow it, or only the latter. -/
def Continues (previous : Option Token) (depth : Nat) (tokens : List Token) : Prop :=
  if Program.opensOperand previous then
    ∃ e : Infix, e.literal = true ∧ ∃ rest, tokens = e.tokens ++ rest ∧ Tail depth rest
  else Tail depth tokens

theorem continues_of_opensOperand {token : Token} (kind : token.Elementary)
    (place : Program.opensOperand previous = true) (begins : token.beginsBehind previous = true)
    (more : Continues (some token)
      (depth + [token].count .opening - [token].count .closing) tokens) :
    Continues previous depth (token :: tokens) := by
  rw [Continues, if_pos place]
  cases kind with
  | opening =>
    obtain ⟨e, literal, rest, rfl, tail⟩ := more
    obtain ⟨whole, literal, ⟨none, -⟩ | ⟨outer, rest, same, tail, joined⟩⟩ := tail.absorb literal
    · cases none
    · obtain rfl : depth = outer := Nat.succ.inj same
      refine ⟨.group whole, literal, rest, ?_, tail⟩
      rw [tokens_group, ← joined]
      simp
  | closing => simp [beginsBehind, Token.begins] at begins
  | not =>
    obtain ⟨e, literal, rest, rfl, tail⟩ := more
    exact ⟨.unary .not e, literal, rest, by simp, tail⟩
  | binary op =>
    obtain rfl : op = .arithmetic .sub := by simpa [beginsBehind, Token.begins, place] using begins
    obtain ⟨e, literal, rest, rfl, tail⟩ := more
    exact ⟨.unary .negate e, literal, rest, by simp, tail⟩
  | @literal w node =>
    refine ⟨.word w, node, tokens, ?_, more⟩
    simp [Infix.tokens, Infix.lexemes, ofLexeme_of_literal node]

theorem continues_of_not_opensOperand {token : Token} (kind : token.Elementary)
    (place : Program.opensOperand previous = false) (begins : token.begins = false)
    (opened : token = .closing → 0 < depth)
    (more : Continues (some token)
      (depth + [token].count .opening - [token].count .closing) tokens) :
    Continues previous depth (token :: tokens) := by
  rw [Continues, if_neg (Bool.eq_false_iff.1 place)]
  cases kind with
  | closing =>
    obtain ⟨outer, rfl⟩ := Nat.exists_eq_succ_of_ne_zero (Nat.pos_iff_ne_zero.1 (opened rfl))
    exact .close more
  | binary op =>
    obtain ⟨e, literal, rest, rfl, tail⟩ := more
    exact .more op literal tail
  | _ => cases begins

/-- Tokens that balance, in which no operand abuts on another one and which leave all the operands
that there is room for, are an expression and what may follow it. -/
theorem continues_of_excess (elementary : ∀ token ∈ tokens, token.Elementary)
    (balanced : Balances depth tokens) (apart : abut previous tokens = false)
    (full : excess previous tokens = room previous) : Continues previous depth tokens := by
  induction tokens generalizing previous depth with
  | nil =>
    obtain rfl := balances_nil.1 balanced
    cases place : Program.opensOperand previous with
    | true => simp [excess, room, place] at full
    | false => simpa [Continues, place] using Tail.done
  | cons token rest ih =>
    obtain ⟨here, later⟩ := abut_cons_eq_false_iff.1 apart
    obtain ⟨kind, others⟩ := List.forall_mem_cons.1 elementary
    obtain ⟨opened, balanced⟩ := balances_cons.1 balanced
    -- Both bounds are reached: by the rest, and by the first token in its place.
    have bound := excess_le_room others later
    have least := beginsBehind_le_room here
    have used := weight_add_room previous kind
    simp only [excess] at full
    have more := ih others balanced later (by omega)
    cases place : Program.opensOperand previous with
    | true =>
      apply continues_of_opensOperand kind place ?_ more
      by_contra other
      rw [if_neg other] at used
      have room : room previous = 1 := if_pos place
      omega
    | false => exact continues_of_not_opensOperand kind place (here place) opened more

theorem exists_infix_of_excess (elementary : ∀ token ∈ tokens, token.Elementary)
    (balanced : Balances 0 tokens) (apart : abut none tokens = false)
    (one : excess none tokens = 1) : ∃ e : Infix, e.literal = true ∧ e.tokens = tokens := by
  obtain ⟨e, literal, rest, rfl, tail⟩ := continues_of_excess elementary balanced apart one
  obtain ⟨whole, literal, ⟨-, same⟩ | ⟨outer, rest, open', -⟩⟩ := tail.absorb literal
  · exact ⟨whole, literal, same⟩
  · cases open'

theorem abut_tokens_append (previous : Option Token) (e : Infix) (literal : e.literal = true)
    (place : Program.opensOperand previous = true) :
    ∃ last, Program.opensOperand (some last) = false ∧
      ∀ rest, abut previous (e.tokens ++ rest) = abut (some last) rest := by
  induction e using Infix.literal.induct generalizing previous with
  | case1 w =>
    refine ⟨.word w, rfl, fun rest => ?_⟩
    have word : (Infix.word w).tokens = [.word w] := by
      simp [Infix.tokens, Infix.lexemes, ofLexeme_of_literal literal]
    simp [word, abut, place]
  | case2 | case3 => cases literal
  | case4 inner ih =>
    obtain ⟨last, ends, inside⟩ := ih (some .opening) literal rfl
    refine ⟨.closing, rfl, fun rest => ?_⟩
    simp [abut, place, inside, begins]
  | case5 op operand ih =>
    cases op with
    | negate =>
      obtain ⟨last, ends, inside⟩ :=
        ih (some (.operator (.binary (.arithmetic .sub)))) literal rfl
      exact ⟨last, ends, fun rest => by simp [abut, place, inside]⟩
    | not =>
      obtain ⟨last, ends, inside⟩ := ih (some (.operator .not)) literal rfl
      exact ⟨last, ends, fun rest => by simp [abut, place, inside]⟩
  | case6 op left right ihl ihr =>
    obtain ⟨low, high⟩ : left.literal = true ∧ right.literal = true := by
      simpa [Infix.literal] using literal
    obtain ⟨last, ends, first⟩ := ihl previous low place
    obtain ⟨last', ends', second⟩ := ihr (some (.operator (.binary op))) high rfl
    refine ⟨last', ends', fun rest => ?_⟩
    simp [abut, first, second, begins]

theorem abut_of_literal {e : Infix} (literal : e.literal = true) :
    abut none e.tokens = false := by
  obtain ⟨last, -, whole⟩ := abut_tokens_append none e literal rfl
  have := whole []
  rwa [List.append_nil] at this

end Infix

namespace Machine

variable {r : Registry} {red : Reduction} {tokens : List Token}

theorem weight_of_elementary {token : Token} (previous : Option Token) (kind : token.Elementary) :
    let own := Program.emits r token ++
      (Program.waits r previous token).filterMap Pending.instruction?
    (∀ i ∈ own, i.isCall = false) ∧ (own.map Instruction.weight).sum = token.weight previous := by
  cases kind with
  | opening | closing => exact ⟨nofun, rfl⟩
  | not => exact ⟨by simp [Program.emits, Program.waits, Pending.instruction?, Instruction.isCall],
      rfl⟩
  | binary op =>
    simp [Program.emits, Program.waits, Pending.instruction?, Instruction.isCall,
      Instruction.weight, Token.weight]
  | literal node =>
    have word := Token.isCallName_eq_false_of_literal (r := r) node
    simp [Program.emits, Program.waits, word, Instruction.isCall, Instruction.weight, Token.weight]

theorem sum_weight_of_elementary (previous : Option Token)
    (elementary : ∀ token ∈ tokens, token.Elementary) :
    (∀ i ∈ Program.instructions r previous tokens, i.isCall = false) ∧
      ((Program.instructions r previous tokens).map Instruction.weight).sum =
        Token.excess previous tokens := by
  induction tokens generalizing previous with
  | nil => exact ⟨nofun, rfl⟩
  | cons token rest ih =>
    obtain ⟨kind, others⟩ := List.forall_mem_cons.1 elementary
    obtain ⟨free, height⟩ := weight_of_elementary (r := r) previous kind
    obtain ⟨free', height'⟩ := ih (some token) others
    rw [Program.instructions, List.map_append, List.sum_append, height, height']
    exact ⟨List.forall_mem_append.2 ⟨free, free'⟩, rfl⟩

theorem excess_of_run {v : Value} (elementary : ∀ token ∈ tokens, token.Elementary)
    (accepted : (Program.ofTokens r tokens >>= Program.run r red) = .ok v) :
    Token.excess none tokens = 1 := by
  obtain ⟨program, converted, ran⟩ := bind_eq_ok_iff.1 accepted
  obtain ⟨stack, ran, ended⟩ := bind_eq_ok_iff.1 ran
  have single : stack.length = 1 := by
    rcases stack with _ | ⟨item, _ | ⟨below, rest⟩⟩
    · cases ended
    · rfl
    · cases item <;> cases ended
  have same : program.Perm (Program.instructions r none tokens) := Program.convert_perm converted
  obtain ⟨free, height⟩ := sum_weight_of_elementary (r := r) none elementary
  have total := length_of_exec ran fun i member => free i (same.mem_iff.1 member)
  rw [(same.map Instruction.weight).sum_eq, height, single] at total
  simpa using total.symm

end Machine

/-- An accepted list of literals, operators and parentheses balances and has one more literal than
binary operators. It is an infix expression if no operand stands directly behind another one, and
only then. -/
theorem exists_infix_iff_of_accepted (r : Registry) (red : Reduction) (words : List String)
    (v : Value)
    (plain : ∀ w ∈ words, w = "(" ∨ w = ")" ∨ (Operator.ofSymbol? w).isSome = true ∨
      (Literal.value w).node?.isSome = true)
    (accepted : (Program.ofTokens r (words.map Token.ofLexeme) >>= Program.run r red) = .ok v) :
    Balanced words ∧ Token.excess none (words.map Token.ofLexeme) = 1 ∧
      ((∃ e : Infix, e.literal = true ∧ e.lexemes = words) ↔
        Token.abut none (words.map Token.ofLexeme) = false) := by
  have elementary : ∀ token ∈ words.map Token.ofLexeme, token.Elementary := by
    rw [List.forall_mem_map]
    exact fun w member => Token.elementary_ofLexeme (plain w member)
  have balanced : Balanced words := by
    obtain ⟨program, converted, -⟩ := bind_eq_ok_iff.1 accepted
    exact Program.exists_ofTokens_iff.1 ⟨program, converted⟩
  have one := Machine.excess_of_run elementary accepted
  refine ⟨balanced, one, ?_, ?_⟩
  · rintro ⟨e, literal, rfl⟩
    exact Infix.abut_of_literal literal
  · intro apart
    obtain ⟨e, literal, same⟩ := Infix.exists_infix_of_excess elementary
      (Token.balances_map_ofLexeme.2 balanced) apart one
    exact ⟨e, literal, List.map_injective_iff.2 Token.ofLexeme_injective same⟩

/-- An operator behind its two operands, which no infix expression has. -/
theorem accepts_operands_in_front :
    let words := ["1", "2", "+"]
    (∀ w ∈ words, w = "(" ∨ w = ")" ∨ (Operator.ofSymbol? w).isSome = true ∨
      (Literal.value w).node?.isSome = true) ∧
      (Program.ofTokens .empty (words.map Token.ofLexeme) >>= Program.run .empty .none) =
        .ok (.node (.binary (.arithmetic .add) (.literal 1.0) (.literal 2.0))) ∧
      ¬∃ e : Infix, e.literal = true ∧ e.lexemes = words := by
  refine ⟨by decide, rfl, ?_⟩
  rintro ⟨e, literal, same⟩
  have apart := Infix.abut_of_literal literal
  rw [Infix.tokens, same] at apart
  cases apart

/-- Signs, parentheses and operators of several ranks. -/
theorem exists_infix_iff_of_accepted_nested :
    let words := ["(", "1", "-", "-", "2", ")", "*", "3", ">", "4"]
    ∃ v, (Program.ofTokens .empty (words.map Token.ofLexeme) >>= Program.run .empty .none) = .ok v ∧
      ∃ e : Infix, e.literal = true ∧ e.lexemes = words := by
  intro words
  obtain ⟨v, accepted⟩ : ∃ v, (Program.ofTokens .empty (words.map Token.ofLexeme) >>=
      Program.run .empty .none) = .ok v := ⟨_, rfl⟩
  have infix' := (exists_infix_iff_of_accepted .empty .none words v (by decide) accepted).2.2
  exact ⟨v, accepted, infix'.2 rfl⟩

end SkillGraph
