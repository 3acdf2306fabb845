import SkillGraph.Proofs.Machine.Steps

/-! What may go wrong in the run of a converted program: an operator lacks a fit operand, or a call
has too few arguments. Its calls find their markers and their atoms, and no marker is left over, so
that an error about parentheses or about an empty expression speaks of the text alone. -/
namespace SkillGraph

theorem ErrorCode.text_injective : Function.Injective text := by
  have apart : ∀ a ∈ all, ∀ b ∈ all, a.text = b.text → a = b := by decide +kernel
  intro a b same
  exact apart a (mem_all a) b (mem_all b) same

namespace Machine

def faultCodes : List ErrorCode := [.missingOperand, .invalidOperand, .argCount, .emptyArray]

variable {r : Registry} {red : Reduction} {stack : Stack} {program : Program} {tokens : List Token}
  {c : Cause}

theorem code_of_takeOperand {op : Operator} (failed : takeOperand op stack = .error c) :
    c.code ∈ faultCodes := by
  cases stack with
  | nil =>
    cases failed
    simp [faultCodes, Cause.code]
  | cons item stack =>
    cases item with
    | marker =>
      cases failed
      simp [faultCodes, Cause.code]
    | value v => cases v <;> cases failed <;> simp [faultCodes, Cause.code]

theorem code_of_applyOperator {op : Operator} (failed : applyOperator op stack = .error c) :
    c.code ∈ faultCodes := by
  rcases bind_eq_error_iff.1 failed with first | ⟨⟨right, rest⟩, -, second⟩
  · exact code_of_takeOperand first
  · cases op with
    | binary op =>
      rcases bind_eq_error_iff.1 second with second | ⟨⟨left, rest⟩, -, built⟩
      · exact code_of_takeOperand second
      · cases built
    | _ => cases second

theorem code_of_fillFields {call : String} {fields : List Field} {args : List Value}
    (failed : fillFields call fields args = .error c) : c.code = .emptyArray := by
  induction fields generalizing args with
  | nil => cases failed
  | cons f rest ih =>
    unfold fillFields at failed
    split at failed
    · split at failed
      · split at failed
        · exact ih failed
        · cases failed
          rfl
      · exact ih (map_eq_error_iff.1 failed)
    · split at failed
      · cases failed
      · exact ih (map_eq_error_iff.1 failed)

theorem code_of_instantiate {a : Atom} {args : List Value}
    (failed : a.instantiate args = .error c) : c.code ∈ faultCodes := by
  unfold Atom.instantiate at failed
  split at failed
  · cases failed
    simp [faultCodes, Cause.code]
  · rw [code_of_fillFields (map_eq_error_iff.1 failed)]
    decide

/-- A call that finds its marker and its atom fails in its arguments alone. -/
theorem code_of_step {i : Instruction} (failed : step r red stack i = .error c)
    (ready : ∀ name, i = .call name → 0 < markers stack ∧ r.isCallName name = true) :
    c.code ∈ faultCodes := by
  cases i with
  | operand w => cases failed
  | marker => cases failed
  | operator op =>
    rcases bind_eq_error_iff.1 failed with failed | ⟨both, -, built⟩
    · exact code_of_applyOperator failed
    · cases built
  | call name =>
    obtain ⟨marked, registered⟩ := ready name rfl
    obtain ⟨⟨args, rest⟩, reached⟩ :=
      Option.isSome_iff_exists.1 ((takeArguments_isSome_iff [] stack).2 marked)
    rw [r.isCallName_eq] at registered
    obtain ⟨a, found⟩ := Option.isSome_iff_exists.1 registered
    simp only [step, applyCall, reached, found] at failed
    rcases bind_eq_error_iff.1 failed with failed | ⟨both, -, built⟩
    · rcases bind_eq_error_iff.1 failed with failed | ⟨n, -, built⟩
      · exact code_of_instantiate failed
      · cases built
    · cases built

/-- A converted program comes to each of its calls with a marker on the stack and with an atom of
that name. -/
theorem ready_of_convert (converted : Program.ofTokens r tokens = .ok program)
    {front rest : Program} {name : String} (split : program = front ++ .call name :: rest)
    (ran : exec r red front [] = .ok stack) : 0 < markers stack ∧ r.isCallName name = true := by
  constructor
  · have start : front ++ [.call name] <+: program := ⟨rest, by simp [split]⟩
    have calls := Program.calls_le_markers converted start
    have left := markers_of_exec ran
    have one : [Instruction.call name].countP Instruction.isCall = 1 := rfl
    have none : [Instruction.call name].count .marker = 0 := rfl
    have empty : markers [] = 0 := rfl
    simp only [List.countP_append, List.count_append, one, none, List.filterMap_nil,
      List.countP_nil] at calls
    omega
  · apply Program.isCallName_of_mem converted
    simp [split]

theorem markers_of_convert (converted : Program.ofTokens r tokens = .ok program)
    (ran : exec r red program [] = .ok stack) : markers stack = 0 := by
  have same := Program.convert_perm converted
  have calls := same.countP_eq Instruction.isCall
  have marked := same.count_eq .marker
  have even := Program.calls_instructions (r := r) none tokens
  have left := markers_of_exec ran
  have empty : markers [] = 0 := rfl
  simp only [List.filterMap_nil, List.nil_append] at calls marked
  omega

/-- An error of a run is about operands, arguments or what is left over, unless the program is
empty. -/
theorem code_of_run (converted : Program.ofTokens r tokens = .ok program)
    (failed : program.run r red = .error c) :
    c.code ≠ .mismatchedParens ∧ (c.code = .emptyExpression ↔ program = []) := by
  rcases bind_eq_error_iff.1 failed with failed | ⟨stack, ran, ended⟩
  · obtain ⟨front, i, rest, below, split, reached, stuck⟩ := exists_of_exec_error failed
    have coded : c.code ∈ faultCodes := code_of_step stuck fun name call =>
      ready_of_convert converted (call ▸ split) reached
    have some : program ≠ [] := by simp [split]
    have others : ∀ code ∈ faultCodes, code ≠ .mismatchedParens ∧ code ≠ .emptyExpression := by
      decide
    obtain ⟨other, other'⟩ := others _ coded
    exact ⟨other, iff_of_false other' some⟩
  · have unmarked := markers_of_convert converted ran
    rcases stack with _ | ⟨item, _ | ⟨below, rest⟩⟩
    · cases ended
      exact ⟨nofun, iff_of_true rfl (exec_eq_ok_nil_iff.1 ran)⟩
    · cases item with
      | value v => cases ended
      | marker => cases unmarked
    · have some : program ≠ [] := by
        rintro rfl
        cases ran
      cases item <;> cases ended <;> exact ⟨nofun, iff_of_false nofun some⟩

end Machine

namespace Compiler

def FailsWith (c : Compiler) (text : String) (code : ErrorCode) : Prop :=
  ∃ d, c.parse text = .error d ∧ d.code = code.text

theorem failsWith_iff {c : Compiler} {text : String} {words : List String}
    (lexed : SkillGraph.lexemes text = .ok words) (code : ErrorCode) :
    c.FailsWith text code ↔
      ∃ cause, (Program.ofTokens c.registry (words.map Token.ofLexeme) >>=
        Program.run c.registry c.reduction) = .error cause ∧ cause.code = code := by
  unfold FailsWith
  rw [parse_of_lexemes lexed]
  constructor
  · rintro ⟨d, failed, coded⟩
    obtain ⟨cause, stopped, rfl⟩ := mapError_eq_error_iff.1 failed
    exact ⟨cause, stopped, ErrorCode.text_injective coded⟩
  · rintro ⟨cause, stopped, rfl⟩
    exact ⟨_, mapError_eq_error_iff.2 ⟨cause, stopped, rfl⟩, rfl⟩

end Compiler

open Machine

/-- Errors about parentheses and about empty expressions say what they mean. The machine itself
comes to no call without a marker or an atom, and to no end with a marker left. -/
theorem parse_parentheses (c : Compiler) (text : String) (words : List String)
    (lexed : lexemes text = .ok words) :
    (c.FailsWith text .mismatchedParens ↔ ¬Balanced words) ∧
      (Balanced words →
        (c.FailsWith text .emptyExpression ↔ ∀ w ∈ words, w = "(" ∨ w = ")" ∨ w = ",")) ∧
      ∀ program, Program.ofTokens c.registry (words.map Token.ofLexeme) = .ok program →
        (∀ front name rest stack, program = front ++ .call name :: rest →
          exec c.registry c.reduction front [] = .ok stack →
            (takeArguments [] stack).isSome = true ∧
              (c.registry.atomCalled? name).isSome = true) ∧
        ∀ stack, exec c.registry c.reduction program [] = .ok stack → .marker ∉ stack := by
  have runs {program : Program} {cause : Cause}
      (converted : Program.ofTokens c.registry (words.map Token.ofLexeme) = .ok program) :
      (Program.ofTokens c.registry (words.map Token.ofLexeme) >>=
        Program.run c.registry c.reduction) = .error cause ↔
        program.run c.registry c.reduction = .error cause := by
    rw [converted]
    rfl
  refine ⟨?_, ?_, ?_⟩
  · rw [Compiler.failsWith_iff lexed, ← Program.exists_ofTokens_iff (r := c.registry)]
    constructor
    · rintro ⟨cause, failed, coded⟩ ⟨program, converted⟩
      exact (code_of_run converted ((runs converted).1 failed)).1 coded
    · intro stuck
      cases converted : Program.ofTokens c.registry (words.map Token.ofLexeme) with
      | error cause => exact ⟨cause, rfl, Program.code_of_convert converted⟩
      | ok program => exact absurd ⟨program, converted⟩ stuck
  · intro balanced
    obtain ⟨program, converted⟩ := Program.exists_ofTokens_iff (r := c.registry) |>.2 balanced
    have silent : program = [] ↔ ∀ w ∈ words, w = "(" ∨ w = ")" ∨ w = "," := by
      rw [Program.eq_nil_iff_of_convert converted, List.forall_mem_map]
      exact forall₂_congr fun w _ => or_congr (Token.ofLexeme_injective.eq_iff (b := "("))
        (or_congr (Token.ofLexeme_injective.eq_iff (b := ")"))
          (Token.ofLexeme_injective.eq_iff (b := ",")))
    rw [Compiler.failsWith_iff lexed, ← silent]
    constructor
    · rintro ⟨cause, failed, coded⟩
      exact (code_of_run converted ((runs converted).1 failed)).2.1 coded
    · rintro rfl
      exact ⟨.emptyExpression, (runs converted).2 rfl, rfl⟩
  · intro program converted
    refine ⟨?_, ?_⟩
    · intro front name rest stack split reached
      obtain ⟨marked, registered⟩ := ready_of_convert converted split reached
      rw [c.registry.isCallName_eq] at registered
      exact ⟨(takeArguments_isSome_iff [] stack).2 marked, registered⟩
    · intro stack reached member
      have none := markers_of_convert converted reached
      exact List.countP_eq_zero.1 none _ member rfl

/-- Parentheses the wrong way round, and commas without arguments. -/
theorem parse_parentheses_crossed :
    let c : Compiler := ⟨.standard, .none⟩
    lexemes "Self)(" = .ok ["Self", ")", "("] ∧ c.FailsWith "Self)(" .mismatchedParens ∧
      lexemes "(,(),)" = .ok ["(", ",", "(", ")", ",", ")"] ∧
      c.FailsWith "(,(),)" .emptyExpression := by
  intro c
  have crossed : lexemes "Self)(" = .ok ["Self", ")", "("] := rfl
  have empty : lexemes "(,(),)" = .ok ["(", ",", "(", ")", ",", ")"] := rfl
  refine ⟨crossed, ?_, empty, ?_⟩
  · exact (parse_parentheses c _ _ crossed).1.2 (by decide)
  · exact ((parse_parentheses c _ _ empty).2.1 (by decide)).2 (by decide)

end SkillGraph
