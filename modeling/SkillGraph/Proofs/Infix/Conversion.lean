import SkillGraph.Proofs.Infix.Basic
import SkillGraph.Proofs.Lexeme.Names
import SkillGraph.Proofs.Program.Steps

/-! The conversion of a written expression to its postfix program. The statement about a part of an
expression speaks of any stack below it and any tokens behind it. Operators that the part leaves on
the stack are held there until a later token releases them. -/
namespace SkillGraph

theorem Token.ofLexeme_symbol (op : BinaryOp) : ofLexeme op.symbol = .operator (.binary op) := by
  rcases op with op | op | op <;> cases op <;> rfl

namespace Program

def after (emitted : Program) (program : Except Cause Program) : Except Cause Program :=
  program.map (emitted ++ ·)

@[simp] theorem after_nil (program : Except Cause Program) : after [] program = program := by
  cases program <;> rfl

@[simp] theorem after_after (first second : Program) (program : Except Cause Program) :
    after first (after second program) = after (first ++ second) program := by
  cases program <;> simp [after, Except.map]

@[simp] theorem after_ok (emitted program : Program) :
    after emitted (.ok program) = .ok (emitted ++ program) := rfl

theorem convert_cons {r : Registry} {previous : Option Token} {pending next : List Pending}
    {token : Token} {emitted : Program} (rest : List Token)
    (moved : step r previous pending token = .ok (emitted, next)) :
    convert r previous pending (token :: rest) =
      after emitted (convert r (some token) next rest) := by
  simp only [convert, moved]
  change (do return emitted ++ (← convert r (some token) next rest)) = _
  cases convert r (some token) next rest <;> rfl

def Blocks (rank : Nat) (pending : List Pending) : Prop := ∀ p ∈ pending.head?, rank < p.rank

theorem Blocks.nil {rank : Nat} : Blocks rank [] := by simp [Blocks]

theorem Blocks.opening {rank : Nat} {pending : List Pending} (h : rank < 1023) :
    Blocks rank (.opening :: pending) := by simpa [Blocks, Pending.rank] using h

theorem Blocks.mono {low high : Nat} {pending : List Pending} (le : low ≤ high)
    (h : Blocks high pending) : Blocks low pending :=
  fun p member => Nat.lt_of_le_of_lt le (h p member)

theorem release_of_blocks {rank : Nat} {held pending : List Pending}
    (loose : ∀ p ∈ held, p.rank ≤ rank) (blocks : Blocks rank pending) :
    release rank (held ++ pending) = (held.filterMap Pending.instruction?, pending) := by
  have stays : pending.takeWhile (·.rank ≤ rank) = [] ∧
      pending.dropWhile (·.rank ≤ rank) = pending := by
    cases pending with
    | nil => simp
    | cons p rest =>
      have := blocks p rfl
      simp [this]
  have goes : ∀ p ∈ held, decide (p.rank ≤ rank) = true := by simpa using loose
  simp [release, List.takeWhile_append_of_pos goes, List.dropWhile_append_of_pos goes, stays]

/-- The parenthesis of a call closes over what is held above the open one and ends the call. -/
theorem closeParenthesis_call {held : List Pending} (name : String) (rest : List Pending)
    (inside : ∀ p ∈ held, p ≠ .opening) :
    closeParenthesis (held ++ .opening :: .call name :: rest) =
      .ok (held.filterMap Pending.instruction? ++ [.call name], rest) := by
  rw [closeParenthesis_append (List.forall_mem_ne'.1 inside)]
  rfl

theorem closeParenthesis_group {held rest : List Pending} (inside : ∀ p ∈ held, p ≠ .opening)
    (noCall : Blocks 1 rest) :
    closeParenthesis (held ++ .opening :: rest) =
      .ok (held.filterMap Pending.instruction?, rest) := by
  have alone : closeParenthesis (.opening :: rest) = .ok ([], rest) := by
    cases rest with
    | nil => rfl
    | cons p rest =>
      cases p with
      | call name => exact absurd (noCall _ rfl) (by simp [Pending.rank])
      | _ => rfl
  rw [closeParenthesis_append (List.forall_mem_ne'.1 inside), alone]
  simp [Except.map]

/-- Tokens that read as one operand: from a place where an operand may begin they add a program to
that of the rest, up to instructions that stay held above the stack below. -/
def Converts (r : Registry) (previous : Option Token) (above pending : List Pending)
    (tokens : List Token) (bound : Nat) (program : Program) : Prop :=
  ∃ emitted held last,
    (∀ rest, convert r previous (above ++ pending) (tokens ++ rest) =
      after emitted (convert r (some last) (held ++ pending) rest)) ∧
    opensOperand (some last) = false ∧
    (∀ p ∈ held, p ≠ .opening ∧ p.rank ≤ bound) ∧
    emitted ++ held.filterMap Pending.instruction? = program

/-- Tokens that stand inside of a parenthesis and leave it open. -/
def Encloses (r : Registry) (previous : Token) (below : List Pending) (tokens : List Token)
    (program : Program) : Prop :=
  ∃ emitted held last,
    (∀ rest, convert r (some previous) (.opening :: below) (tokens ++ rest) =
      after emitted (convert r (some last) (held ++ .opening :: below) rest)) ∧
    (∀ p ∈ held, p ≠ .opening) ∧
    emitted ++ held.filterMap Pending.instruction? = program

section

variable {r : Registry} {previous : Option Token} {above next pending below : List Pending}
  {token : Token} {tokens : List Token} {bound : Nat} {emitted program : Program}

theorem Encloses.nil : Encloses r token below [] [] :=
  ⟨[], [], token, by simp, by simp, rfl⟩

theorem Converts.encloses
    (h : Converts r (some token) [] (.opening :: below) tokens bound program) :
    Encloses r token below tokens program := by
  obtain ⟨emitted, held, last, converted, -, fine, whole⟩ := h
  exact ⟨emitted, held, last, converted, fun p member => (fine p member).1, whole⟩

theorem Converts.mono {high : Nat} (h : Converts r previous above pending tokens bound program)
    (le : bound ≤ high) : Converts r previous above pending tokens high program := by
  obtain ⟨emitted, held, last, converted, ended, fine, whole⟩ := h
  exact ⟨emitted, held, last, converted, ended,
    fun p member => ⟨(fine p member).1, Nat.le_trans (fine p member).2 le⟩, whole⟩

theorem Converts.cons
    (moved : step r previous (above ++ pending) token = .ok (emitted, next ++ pending))
    (h : Converts r (some token) next pending tokens bound program) :
    Converts r previous above pending (token :: tokens) bound (emitted ++ program) := by
  obtain ⟨later, held, last, converted, ended, fine, whole⟩ := h
  refine ⟨emitted ++ later, held, last, ?_, ended, fine, ?_⟩
  · intro rest
    rw [List.cons_append, convert_cons _ moved, converted, after_after]
  · rw [List.append_assoc, whole]

theorem Converts.group (h : Encloses r .opening (above ++ pending) tokens program)
    (noCall : Blocks 1 (above ++ pending)) (waits : ∀ p ∈ above, p ≠ .opening ∧ p.rank ≤ bound) :
    Converts r previous above pending (.opening :: (tokens ++ [.closing])) bound
      (program ++ above.filterMap Pending.instruction?) := by
  obtain ⟨emitted, held, last, converted, inside, whole⟩ := h
  refine ⟨program, above, .closing, ?_, rfl, waits, rfl⟩
  intro rest
  have opened : step r previous (above ++ pending) .opening =
      .ok ([], .opening :: (above ++ pending)) := rfl
  have closed : step r (some last) (held ++ .opening :: (above ++ pending)) .closing =
      .ok (held.filterMap Pending.instruction?, above ++ pending) :=
    closeParenthesis_group inside noCall
  rw [List.cons_append, convert_cons _ opened, List.append_assoc, converted, List.singleton_append,
    convert_cons _ closed, after_nil, after_after, whole]

theorem Converts.call {name : String} (registered : r.isCallName name = true)
    (h : Encloses r .opening (.call name :: (above ++ pending)) tokens program)
    (waits : ∀ p ∈ above, p ≠ .opening ∧ p.rank ≤ bound) :
    Converts r previous above pending (.word name :: .opening :: (tokens ++ [.closing])) bound
      (.marker :: program ++ .call name :: above.filterMap Pending.instruction?) := by
  obtain ⟨emitted, held, last, converted, inside, rfl⟩ := h
  refine ⟨.marker :: (emitted ++ held.filterMap Pending.instruction?) ++ [.call name], above,
    .closing, ?_, rfl, waits, by simp⟩
  intro rest
  have named : step r previous (above ++ pending) (.word name) =
      .ok ([.marker], .call name :: (above ++ pending)) := by simp [step, registered]
  have opened : step r (some (.word name)) (.call name :: (above ++ pending)) .opening =
      .ok ([], .opening :: .call name :: (above ++ pending)) := rfl
  have closed : step r (some last) (held ++ .opening :: .call name :: (above ++ pending)) .closing =
      .ok (held.filterMap Pending.instruction? ++ [.call name], above ++ pending) :=
    closeParenthesis_call name _ inside
  rw [List.cons_append, convert_cons _ named, List.cons_append, convert_cons _ opened,
    List.append_assoc, converted, List.singleton_append, convert_cons _ closed, after_nil,
    after_after, after_after]
  simp

/-- A binary operator releases what its left operand still holds and is held itself until its right
operand ends. -/
theorem Converts.binary {op : BinaryOp} {left right : List Token} {low high : Nat}
    {first second : Program} (hl : Converts r previous above pending left low first)
    (hr : Converts r (some (.operator (.binary op))) [] (.operator (.binary op) :: pending) right
      high second)
    (looseLeft : low ≤ op.rank) (looseRight : high ≤ op.rank) (blocks : Blocks op.rank pending) :
    Converts r previous above pending (left ++ .operator (.binary op) :: right) op.rank
      (first ++ second ++ [.operator (.binary op)]) := by
  obtain ⟨out, held, last, converted, ended, fine, rfl⟩ := hl
  obtain ⟨later, held', last', converted', ended', fine', rfl⟩ := hr
  refine ⟨out ++ held.filterMap Pending.instruction? ++ later, held' ++ [.operator (.binary op)],
    last', ?_, ended', ?_, by simp [Pending.instruction?]⟩
  · intro rest
    have loose : ∀ p ∈ held, p.rank ≤ op.rank := fun p h => Nat.le_trans (fine p h).2 looseLeft
    have moved : step r (some last) (held ++ pending) (.operator (.binary op)) =
        .ok (held.filterMap Pending.instruction?, .operator (.binary op) :: pending) := by
      simp [step, inPlace, ended, Operator.rank, release_of_blocks loose blocks]
    rw [List.append_assoc, converted, List.cons_append, convert_cons _ moved]
    rw [List.nil_append] at converted'
    rw [converted', after_after, after_after, List.append_assoc held', List.singleton_append]
  · intro p member
    rcases List.mem_append.1 member with member | member
    · exact ⟨(fine' p member).1, Nat.le_trans (fine' p member).2 looseRight⟩
    · rw [List.mem_singleton.1 member]
      exact ⟨by simp, Nat.le_refl _⟩

/-- A comma releases everything up to the parenthesis of its call. -/
theorem Converts.comma {first : List Token} {out : Program}
    (h : Converts r (some token) [] (.opening :: below) first commaRank out)
    (more : Encloses r .comma below tokens program) :
    Encloses r token below (first ++ .comma :: tokens) (out ++ program) := by
  obtain ⟨emitted, held, last, converted, -, fine, rfl⟩ := h
  obtain ⟨later, held', last', converted', inside, rfl⟩ := more
  refine ⟨emitted ++ held.filterMap Pending.instruction? ++ later, held', last', ?_,
    inside, by simp⟩
  intro rest
  have moved : step r (some last) (held ++ .opening :: below) .comma =
      .ok (held.filterMap Pending.instruction?, .opening :: below) := by
    simp [step, release_of_blocks (fun p h => (fine p h).2) (Blocks.opening (by decide))]
  rw [List.nil_append] at converted
  rw [List.append_assoc, converted, List.cons_append, convert_cons _ moved, converted', after_after,
    after_after]

end

end Program

namespace Infix

open Program

def tokens (e : Infix) : List Token := e.lexemes.map Token.ofLexeme

def argumentTokens (args : List Infix) : List Token :=
  ([","].intercalate (allLexemes args)).map Token.ofLexeme

def pendings (waiting : List Unary) : List Pending := waiting.map fun op => .operator op.operator

def released (waiting : List Unary) : Program := waiting.map fun op => .operator op.operator

mutual

/-- The program of an expression behind prefix operators that wait for it, the nearest first. A
minus sign releases them before the operand is written. -/
def program (waiting : List Unary) : Infix → Program
  | .word text => .operand text :: released waiting
  | .bare name => .marker :: .call name :: released waiting
  | .call name args => .marker :: programs args ++ .call name :: released waiting
  | .group inner => inner.program [] ++ released waiting
  | .unary .negate operand => released waiting ++ operand.program [.negate]
  | .unary .not operand => operand.program (.not :: waiting)
  | .binary op left right =>
    left.program [] ++ right.program [] ++ .operator (.binary op) :: released waiting

def programs : List Infix → Program
  | [] => []
  | e :: rest => e.program [] ++ programs rest

end

/-- The highest rank among the operators that stay open at the end of the expression. -/
def rank : Infix → Nat
  | .binary op .. => op.rank
  | _ => 2

theorem tierOf_le_iff (a b : BinaryOp) : tierOf a ≤ tierOf b ↔ a.rank ≤ b.rank := by
  rcases a with a | a | a <;> cases a <;> rcases b with b | b | b <;> cases b <;> decide

theorem two_lt_rank (op : BinaryOp) : 2 < op.rank := by
  rcases op with op | op | op <;> cases op <;> decide

theorem rank_lt_comma (op : BinaryOp) : op.rank < commaRank := by
  rcases op with op | op | op <;> cases op <;> decide

theorem rank_le_of_tier_le {e : Infix} {op : BinaryOp} (h : e.tier ≤ tierOf op) :
    e.rank ≤ op.rank := by
  cases e with
  | binary inner => exact (tierOf_le_iff inner op).1 h
  | _ => exact Nat.le_of_lt (two_lt_rank op)

theorem rank_lt_of_tier_lt {e : Infix} {op : BinaryOp} (h : e.tier < tierOf op) :
    e.rank < op.rank := by
  cases e with
  | binary inner => exact Nat.not_le.1 fun le => Nat.not_le.2 h ((tierOf_le_iff op inner).2 le)
  | _ => exact two_lt_rank op

theorem rank_of_tier_le {e : Infix} (h : e.tier ≤ 1) : e.rank = 2 := by
  cases e with
  | binary op => rcases op with op | op | op <;> cases op <;> simp [tier, tierOf] at h
  | _ => rfl

theorem instructions_pendings (waiting : List Unary) :
    (pendings waiting).filterMap Pending.instruction? = released waiting := by
  induction waiting with
  | nil => rfl
  | cons op rest ih => simpa [pendings, released, Pending.instruction?] using ih

theorem mem_pendings {waiting : List Unary} {p : Pending} (h : p ∈ pendings waiting) :
    p ≠ .opening ∧ p.rank = 2 := by
  obtain ⟨op, -, rfl⟩ := List.mem_map.1 h
  cases op <;> exact ⟨by simp, rfl⟩

theorem blocks_pendings {waiting : List Unary} {pending : List Pending}
    (blocks : Blocks 2 pending) : Blocks 1 (pendings waiting ++ pending) := by
  cases waiting with
  | nil => exact blocks.mono (by decide)
  | cons op rest =>
    intro p member
    obtain rfl : p = .operator op.operator := by simpa [pendings] using member.symm
    cases op <;> decide

theorem two_le_rank (e : Infix) : 2 ≤ e.rank := by
  cases e with
  | binary op => exact Nat.le_of_lt (two_lt_rank op)
  | _ => exact Nat.le_refl 2

theorem rank_le_comma (e : Infix) : e.rank ≤ commaRank := by
  cases e with
  | binary op => exact Nat.le_of_lt (rank_lt_comma op)
  | _ => exact Nat.le_of_ble_eq_true rfl

theorem blocks_opening (e : Infix) (pending : List Pending) :
    Blocks e.rank (.opening :: pending) :=
  .opening (Nat.lt_of_le_of_lt (rank_le_comma e) (by decide))

theorem step_negate {r : Registry} {previous : Option Token} {waiting : List Unary}
    {pending : List Pending} (place : opensOperand previous = true) (blocks : Blocks 2 pending) :
    step r previous (pendings waiting ++ pending) (.operator (.binary (.arithmetic .sub))) =
      .ok (released waiting, pendings [.negate] ++ pending) := by
  have loose : ∀ p ∈ pendings waiting, p.rank ≤ 2 := fun p h => Nat.le_of_eq (mem_pendings h).2
  have loosed := release_of_blocks loose blocks
  rw [instructions_pendings] at loosed
  simp [step, inPlace, place, Operator.rank, loosed]
  rfl

theorem step_not {r : Registry} {previous : Option Token} {waiting : List Unary}
    {pending : List Pending} :
    step r previous (pendings waiting ++ pending) (.operator .not) =
      .ok ([], pendings (.not :: waiting) ++ pending) := by
  simp [step, inPlace, pendings, Unary.operator]

theorem ofLexeme_of_isCallName {r : Registry} {name : String}
    (registered : r.isCallName name = true) : Token.ofLexeme name = .word name :=
  Token.ofLexeme_of_word (Lexeme.word_of_isName (Registry.of_isCallName registered).1)

section

variable {r : Registry}

@[simp] theorem tokens_group (inner : Infix) :
    (group inner).tokens = .opening :: (inner.tokens ++ [.closing]) := by
  simp [tokens, lexemes]
  decide

@[simp] theorem tokens_negate (operand : Infix) :
    (unary .negate operand).tokens = .operator (.binary (.arithmetic .sub)) :: operand.tokens := rfl

@[simp] theorem tokens_not (operand : Infix) :
    (unary .not operand).tokens = .operator .not :: operand.tokens := rfl

@[simp] theorem tokens_binary (op : BinaryOp) (left right : Infix) :
    (binary op left right).tokens = left.tokens ++ .operator (.binary op) :: right.tokens := by
  simp [tokens, lexemes, Token.ofLexeme_symbol]

theorem tokens_call {name : String} (registered : r.isCallName name = true) (args : List Infix) :
    (call name args).tokens = .word name :: .opening :: (argumentTokens args ++ [.closing]) := by
  simp [tokens, lexemes, argumentTokens, ofLexeme_of_isCallName registered]
  decide

theorem argumentTokens_cons_cons (e next : Infix) (more : List Infix) :
    argumentTokens (e :: next :: more) = e.tokens ++ .comma :: argumentTokens (next :: more) := by
  simp [argumentTokens, allLexemes, tokens]
  decide

mutual

/-- The tokens of a written expression convert to its program. Prefix operators directly above the
stack wait for the expression. -/
theorem converts (e : Infix) (waiting : List Unary) (previous : Option Token)
    (pending : List Pending) (written : e.written r = true)
    (place : opensOperand previous = true) (tight : waiting ≠ [] → e.tier ≤ 1)
    (blocks : Blocks e.rank pending) :
    Converts r previous (pendings waiting) pending e.tokens e.rank (e.program waiting) := by
  have two : Blocks 2 pending := blocks.mono (two_le_rank e)
  have waits : ∀ p ∈ pendings waiting, p ≠ .opening ∧ p.rank ≤ 2 :=
    fun p h => ⟨(mem_pendings h).1, Nat.le_of_eq (mem_pendings h).2⟩
  match e with
  | .word text =>
    obtain ⟨plain, free⟩ : Token.ofLexeme text = .word text ∧ r.isCallName text = false := by
      simpa [Infix.written] using written
    have moved : step r previous (pendings waiting ++ pending) (.word text) =
        .ok ([.operand text], pendings waiting ++ pending) := by simp [step, free]
    refine ⟨[.operand text], pendings waiting, .word text, ?_, rfl, waits, ?_⟩
    · intro rest
      simp [tokens, lexemes, plain, convert_cons rest moved]
    · simp [program, instructions_pendings]
  | .bare name =>
    have registered : r.isCallName name = true := written
    have moved : step r previous (pendings waiting ++ pending) (.word name) =
        .ok ([.marker], .call name :: (pendings waiting ++ pending)) := by simp [step, registered]
    refine ⟨[.marker], .call name :: pendings waiting, .word name, ?_, rfl, ?_, ?_⟩
    · intro rest
      simp [tokens, lexemes, ofLexeme_of_isCallName registered, convert_cons rest moved]
    · intro p member
      rcases List.mem_cons.1 member with rfl | member
      · exact ⟨by simp, Nat.le_succ 1⟩
      · exact waits p member
    · simp [program, Pending.instruction?, instructions_pendings]
  | .call name args =>
    obtain ⟨registered, fine⟩ : r.isCallName name = true ∧ allWritten r args = true := by
      simpa [Infix.written] using written
    rw [tokens_call registered, program, ← instructions_pendings]
    exact .call registered (encloses args .opening _ fine rfl) waits
  | .group inner =>
    have inside := converts inner [] (some .opening) (.opening :: (pendings waiting ++ pending))
      written rfl (by simp) (blocks_opening inner _)
    rw [tokens_group, program, ← instructions_pendings]
    exact .group inside.encloses (blocks_pendings two) waits
  | .unary op operand =>
    obtain ⟨close, fine⟩ : operand.tier ≤ 1 ∧ operand.written r = true := by
      simpa [Infix.written] using written
    have same := rank_of_tier_le close
    cases op with
    | negate =>
      rw [tokens_negate, program, show (unary .negate operand).rank = operand.rank from same.symm]
      exact .cons (step_negate place two)
        (converts operand [.negate] _ pending fine rfl (fun _ => close) (same ▸ two))
    | not =>
      rw [tokens_not, program, show (unary .not operand).rank = operand.rank from same.symm]
      exact .cons step_not
        (converts operand (.not :: waiting) _ pending fine rfl (fun _ => close) (same ▸ two))
  | .binary op left right =>
    obtain ⟨⟨⟨tl, tr⟩, fl⟩, fr⟩ : ((left.tier ≤ tierOf op ∧ right.tier < tierOf op) ∧
        left.written r = true) ∧ right.written r = true := by
      simpa [Infix.written] using written
    obtain rfl : waiting = [] := by
      by_cases none : waiting = []
      · exact none
      · have := tight none
        rcases op with op | op | op <;> cases op <;> simp [tier, tierOf] at this
    have first := converts left [] previous pending fl place (by simp)
      (blocks.mono (rank_le_of_tier_le tl))
    have second := converts right [] (some (.operator (.binary op)))
      (.operator (.binary op) :: pending) fr rfl (by simp)
      (by simpa [Blocks, Pending.rank, Operator.rank] using rank_lt_of_tier_lt tr)
    rw [tokens_binary]
    exact .binary first second (rank_le_of_tier_le tl) (Nat.le_of_lt (rank_lt_of_tier_lt tr)) blocks

/-- Arguments convert inside the parenthesis of their call. -/
theorem encloses (args : List Infix) (previous : Token) (below : List Pending)
    (written : allWritten r args = true) (place : opensOperand (some previous) = true) :
    Encloses r previous below (argumentTokens args) (programs args) := by
  match args with
  | [] => exact .nil
  | [e] =>
    have fine : e.written r = true := by simpa [allWritten] using written
    have inside := converts e [] (some previous) (.opening :: below) fine place (by simp)
      (blocks_opening e below)
    simpa [argumentTokens, allLexemes, programs, tokens] using inside.encloses
  | e :: next :: more =>
    obtain ⟨fine, others⟩ : e.written r = true ∧ allWritten r (next :: more) = true := by
      simpa [allWritten] using written
    have inside := converts e [] (some previous) (.opening :: below) fine place (by simp)
      (blocks_opening e below)
    rw [argumentTokens_cons_cons]
    exact (inside.mono (rank_le_comma e)).comma (encloses (next :: more) .comma below others rfl)

end

end

theorem ofTokens_tokens {r : Registry} {e : Infix} (written : e.written r = true) :
    ofTokens r e.tokens = .ok (e.program []) := by
  obtain ⟨emitted, held, last, converted, -, fine, whole⟩ :=
    converts e [] none [] written rfl (by simp) .nil
  have ended := converted []
  simp only [List.append_nil] at ended
  have closed : Pending.opening ∉ held := fun member => (fine _ member).1 rfl
  rw [ofTokens, show ([] : List Pending) = pendings [] from rfl, ended, convert, finish,
    if_neg closed, after_ok, whole]

end Infix

end SkillGraph
