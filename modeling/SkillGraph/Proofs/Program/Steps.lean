import SkillGraph.Program
import SkillGraph.Proofs.Except

/-! Conversion token by token, whether or not the tokens make up an expression. A token lets entries
from the top of the stack go, which become instructions, and writes or leaves waiting what it stands
for itself. So a program holds what its tokens stand for, each once, and none of its calls comes
before the marker that it closes. -/
namespace SkillGraph

def Instruction.isCall : Instruction → Bool
  | .call _ => true
  | _ => false

namespace Program

def emits (r : Registry) : Token → Program
  | .word text => if r.isCallName text then [.marker] else [.operand text]
  | _ => []

def waits (r : Registry) (previous : Option Token) : Token → List Pending
  | .opening => [.opening]
  | .operator op => [.operator (inPlace previous op)]
  | .word text => if r.isCallName text then [.call text] else []
  | .closing | .comma => []

def instructions (r : Registry) : Option Token → List Token → Program
  | _, [] => []
  | previous, token :: rest =>
    emits r token ++ (waits r previous token).filterMap Pending.instruction? ++
      instructions r (some token) rest

variable {r : Registry} {previous : Option Token} {pending next : List Pending} {token : Token}
  {tokens : List Token} {emitted program : Program}

theorem rank_lt_opening (op : Operator) : op.rank < Pending.opening.rank := by
  cases op with
  | binary op => rcases op with op | op | op <;> cases op <;> decide
  | _ => decide

theorem comma_lt_opening : commaRank < Pending.opening.rank := by decide

/-- Comparison of ranks lets no parenthesis go. -/
theorem exists_of_release {rank : Nat} (low : rank < Pending.opening.rank)
    (pending : List Pending) :
    ∃ gone kept, pending = gone ++ kept ∧ gone.count .opening = 0 ∧
      release rank pending = (gone.filterMap Pending.instruction?, kept) := by
  refine ⟨_, _, List.takeWhile_append_dropWhile.symm, ?_, rfl⟩
  apply List.count_eq_zero.2
  intro member
  have within : Pending.opening.rank ≤ rank := by simpa using List.mem_takeWhile_imp member
  omega

/-- What is held above an open parenthesis goes with it. -/
theorem closeParenthesis_append {held : List Pending} (inside : .opening ∉ held)
    (rest : List Pending) :
    closeParenthesis (held ++ .opening :: rest) =
      (closeParenthesis (.opening :: rest)).map fun (released, kept) =>
        (held.filterMap Pending.instruction? ++ released, kept) := by
  have goes : ∀ p ∈ held, decide (p ≠ Pending.opening) = true := by
    simpa using List.forall_mem_ne'.2 inside
  unfold closeParenthesis
  rw [List.takeWhile_append_of_pos goes, List.dropWhile_append_of_pos goes]
  cases rest with
  | nil => simp [Except.map]
  | cons p rest => cases p <;> simp [Except.map]

theorem exists_of_closeParenthesis (rest : List Pending) :
    ∃ calls kept, rest = calls ++ kept ∧ calls.count .opening = 0 ∧
      closeParenthesis (.opening :: rest) =
        .ok (calls.filterMap Pending.instruction?, kept) := by
  cases rest with
  | nil => exact ⟨[], [], rfl, rfl, rfl⟩
  | cons p rest =>
    cases p with
    | call name => exact ⟨[.call name], rest, rfl, rfl, rfl⟩
    | opening => exact ⟨[], _, rfl, rfl, rfl⟩
    | operator op => exact ⟨[], _, rfl, rfl, rfl⟩

theorem closeParenthesis_of_notMem (unopened : .opening ∉ pending) :
    closeParenthesis pending = .error (.mismatchedParens (some ")")) := by
  have goes : ∀ p ∈ pending, decide (p ≠ Pending.opening) = true := by
    simpa using List.forall_mem_ne'.2 unopened
  unfold closeParenthesis
  rw [List.dropWhile_eq_nil_iff.2 goes]

/-- What one token does: entries go from the top of the stack, and what it stands for comes. Only a
closing parenthesis lets an open one go. -/
theorem exists_of_step (moved : step r previous pending token = .ok (emitted, next)) :
    ∃ gone kept, pending = gone ++ kept ∧
      emitted = gone.filterMap Pending.instruction? ++ emits r token ∧
      next = waits r previous token ++ kept ∧
      gone.count .opening = [token].count .closing := by
  cases token with
  | opening =>
    cases moved
    exact ⟨[], pending, rfl, rfl, rfl, rfl⟩
  | closing =>
    change closeParenthesis pending = _ at moved
    by_cases opened : .opening ∈ pending
    · obtain ⟨held, rest, rfl, inside⟩ := List.eq_append_cons_of_mem opened
      obtain ⟨calls, kept, rfl, none, closed⟩ := exists_of_closeParenthesis rest
      rw [closeParenthesis_append inside, closed] at moved
      cases moved
      refine ⟨held ++ .opening :: calls, next, by simp, ?_, rfl, ?_⟩
      · simp [emits, List.filterMap_cons, Pending.instruction?]
      · simp [List.count_eq_zero.2 inside, none]
    · rw [closeParenthesis_of_notMem opened] at moved
      cases moved
  | comma =>
    obtain ⟨gone, kept, split, none, released⟩ :=
      exists_of_release comma_lt_opening pending
    change Except.ok (release commaRank pending) = _ at moved
    rw [released] at moved
    cases moved
    exact ⟨gone, next, split, by simp [emits], rfl, none⟩
  | operator op =>
    obtain ⟨gone, kept, split, none, released⟩ :=
      exists_of_release (rank_lt_opening (inPlace previous op)) pending
    simp only [step, released] at moved
    by_cases not : inPlace previous op = .not
    · rw [if_pos not] at moved
      cases moved
      exact ⟨[], pending, rfl, rfl, rfl, rfl⟩
    · rw [if_neg not] at moved
      cases moved
      exact ⟨gone, kept, split, by simp [emits], rfl, none⟩
  | word text =>
    simp only [step] at moved
    by_cases called : r.isCallName text = true
    · rw [if_pos called] at moved
      cases moved
      exact ⟨[], pending, rfl, by simp [emits, called], by simp [waits, called], rfl⟩
    · rw [if_neg called] at moved
      cases moved
      exact ⟨[], pending, rfl, by simp [emits, called], by simp [waits, called], rfl⟩

/-- Only a closing parenthesis fails, where none is open. -/
theorem exists_step_iff :
    (∃ p, step r previous pending token = .ok p) ↔ (token = .closing → .opening ∈ pending) := by
  cases token with
  | closing =>
    change (∃ p, closeParenthesis pending = .ok p) ↔ _
    by_cases opened : .opening ∈ pending
    · obtain ⟨held, rest, rfl, inside⟩ := List.eq_append_cons_of_mem opened
      obtain ⟨calls, kept, -, -, closed⟩ := exists_of_closeParenthesis rest
      simp [closeParenthesis_append inside, closed, Except.map]
    · simp [closeParenthesis_of_notMem opened, opened]
  | operator op =>
    simp only [step]
    split <;> simp
  | word text =>
    simp only [step]
    split <;> simp
  | _ => simp [step]

theorem code_of_step {c : Cause} (failed : step r previous pending token = .error c) :
    c.code = .mismatchedParens := by
  have stuck : ¬∃ p, step r previous pending token = .ok p := by simp [failed]
  rw [exists_step_iff] at stuck
  obtain ⟨rfl, unopened⟩ : token = .closing ∧ .opening ∉ pending := by simpa using stuck
  change closeParenthesis pending = _ at failed
  rw [closeParenthesis_of_notMem unopened] at failed
  cases failed
  rfl

theorem convert_cons_eq_ok_iff : convert r previous pending (token :: tokens) = .ok program ↔
    ∃ emitted next later, step r previous pending token = .ok (emitted, next) ∧
      convert r (some token) next tokens = .ok later ∧ emitted ++ later = program := by
  simp [convert, bind_eq_ok_iff, pure, Except.pure]

theorem convert_nil_eq_ok_iff : convert r previous pending [] = .ok program ↔
    .opening ∉ pending ∧ pending.filterMap Pending.instruction? = program := by
  unfold convert finish
  split <;> simp_all

/-- A program holds what waited before and what the tokens stand for, and nothing else. -/
theorem convert_perm (converted : convert r previous pending tokens = .ok program) :
    program.Perm (pending.filterMap Pending.instruction? ++ instructions r previous tokens) := by
  induction tokens generalizing previous pending program with
  | nil =>
    obtain ⟨-, rfl⟩ := convert_nil_eq_ok_iff.1 converted
    simp [instructions]
  | cons token rest ih =>
    obtain ⟨emitted, next, later, moved, converted, rfl⟩ := convert_cons_eq_ok_iff.1 converted
    obtain ⟨gone, kept, rfl, rfl, rfl, -⟩ := exists_of_step moved
    have others := List.perm_iff_count.1 (ih converted)
    apply List.perm_iff_count.2
    intro i
    simp only [List.filterMap_append, List.count_append, instructions] at others ⊢
    have := others i
    omega

theorem calls_waits (r : Registry) (previous : Option Token) (token : Token) :
    ((waits r previous token).filterMap Pending.instruction?).countP Instruction.isCall =
      (emits r token).count .marker := by
  cases token with
  | word text =>
    by_cases called : r.isCallName text = true
    · simp [waits, emits, called, Pending.instruction?, Instruction.isCall]
    · simp [waits, emits, called]
  | _ => rfl

theorem calls_emits (r : Registry) (token : Token) :
    (emits r token).countP Instruction.isCall = 0 := by
  cases token with
  | word text =>
    by_cases called : r.isCallName text = true
    · simp [emits, called, Instruction.isCall]
    · simp [emits, called, Instruction.isCall]
  | _ => rfl

theorem marker_notMem_instructions (pending : List Pending) :
    .marker ∉ pending.filterMap Pending.instruction? := by
  intro member
  obtain ⟨p, -, same⟩ := List.mem_filterMap.1 member
  cases p <;> cases same

theorem calls_instructions (previous : Option Token) (tokens : List Token) :
    (instructions r previous tokens).countP Instruction.isCall =
      (instructions r previous tokens).count .marker := by
  induction tokens generalizing previous with
  | nil => rfl
  | cons token rest ih =>
    have none := List.count_eq_zero.2 (marker_notMem_instructions (waits r previous token))
    simp only [instructions, List.countP_append, List.count_append, calls_emits, calls_waits, none,
      ih]
    omega

/-- Every start of a program holds the markers of its calls, but for those that waited before. -/
theorem calls_le_markers (converted : convert r previous pending tokens = .ok program)
    {front : Program} (start : front <+: program) :
    front.countP Instruction.isCall ≤
      (pending.filterMap Pending.instruction?).countP Instruction.isCall +
        front.count .marker := by
  induction tokens generalizing previous pending program front with
  | nil =>
    obtain ⟨-, rfl⟩ := convert_nil_eq_ok_iff.1 converted
    have := start.sublist.countP_le (p := Instruction.isCall)
    omega
  | cons token rest ih =>
    obtain ⟨emitted, next, later, moved, converted, rfl⟩ := convert_cons_eq_ok_iff.1 converted
    obtain ⟨gone, kept, rfl, rfl, rfl, -⟩ := exists_of_step moved
    have calls := calls_emits r token
    have waiting := calls_waits r previous token
    have none := List.count_eq_zero.2 (marker_notMem_instructions gone)
    -- The start ends within what this token writes, or goes on to what later ones write.
    obtain ⟨back, split⟩ := start
    rcases List.append_eq_append_iff.1 split with ⟨more, within, -⟩ | ⟨front, rfl, start⟩
    · have := congrArg (List.countP Instruction.isCall) within
      simp only [List.countP_append, List.filterMap_append] at this ⊢
      omega
    · have := ih converted ⟨back, start.symm⟩
      simp only [List.countP_append, List.filterMap_append, List.count_append] at this ⊢
      omega

theorem origin_of_mem {i : Instruction} (member : i ∈ instructions r previous tokens) :
    ∃ before, ∃ token ∈ tokens,
      i ∈ emits r token ∨ i ∈ (waits r before token).filterMap Pending.instruction? := by
  induction tokens generalizing previous with
  | nil => cases member
  | cons token rest ih =>
    rcases List.mem_append.1 member with here | later
    · exact ⟨previous, token, List.mem_cons_self, List.mem_append.1 here⟩
    · obtain ⟨before, token', within, stands⟩ := ih later
      exact ⟨before, token', List.mem_cons_of_mem token within, stands⟩

theorem mem_instructions (converted : ofTokens r tokens = .ok program) {i : Instruction}
    (member : i ∈ program) : i ∈ instructions r none tokens :=
  (convert_perm converted).mem_iff.1 member

/-- A program calls only what its words name. -/
theorem isCallName_of_mem (converted : ofTokens r tokens = .ok program) {name : String}
    (member : .call name ∈ program) : r.isCallName name = true := by
  obtain ⟨before, token, -, stands⟩ := origin_of_mem (mem_instructions converted member)
  cases token with
  | word text =>
    by_cases called : r.isCallName text = true
    · obtain rfl : name = text := by
        simpa [emits, waits, called, Pending.instruction?] using stands
      exact called
    · simp [emits, waits, called] at stands
  | operator op => simp [emits, waits, Pending.instruction?] at stands
  | _ => simp [emits, waits, Pending.instruction?] at stands

/-- Every operand of a program is a word of the expression. -/
theorem word_mem_of_mem (converted : ofTokens r tokens = .ok program) {w : String}
    (member : .operand w ∈ program) : .word w ∈ tokens := by
  obtain ⟨before, token, within, stands⟩ := origin_of_mem (mem_instructions converted member)
  cases token with
  | word text =>
    by_cases called : r.isCallName text = true
    · simp [emits, waits, called, Pending.instruction?] at stands
    · obtain rfl : w = text := by simpa [emits, waits, called] using stands
      exact within
  | operator op => simp [emits, waits, Pending.instruction?] at stands
  | _ => simp [emits, waits, Pending.instruction?] at stands

/-- Only parentheses and commas stand for nothing. -/
theorem instructions_eq_nil_iff (previous : Option Token) (tokens : List Token) :
    instructions r previous tokens = [] ↔
      ∀ token ∈ tokens, token = .opening ∨ token = .closing ∨ token = .comma := by
  induction tokens generalizing previous with
  | nil => simp [instructions]
  | cons token rest ih =>
    have silent : emits r token = [] ∧
        (waits r previous token).filterMap Pending.instruction? = [] ↔
        token = .opening ∨ token = .closing ∨ token = .comma := by
      cases token with
      | word text =>
        by_cases called : r.isCallName text = true
        · simp [emits, called]
        · simp [emits, called]
      | operator op => simp [emits, waits, Pending.instruction?]
      | _ => simp [emits, waits, List.filterMap_cons, Pending.instruction?]
    simp only [instructions, List.append_eq_nil_iff, silent, ih, List.forall_mem_cons]

theorem eq_nil_iff_of_convert (converted : ofTokens r tokens = .ok program) :
    program = [] ↔ ∀ token ∈ tokens, token = .opening ∨ token = .closing ∨ token = .comma := by
  rw [← instructions_eq_nil_iff none tokens (r := r)]
  have same : program.Perm (instructions r none tokens) := convert_perm converted
  constructor
  · rintro rfl
    exact same.nil_eq.symm
  · intro none
    rw [none] at same
    exact same.eq_nil

end Program

end SkillGraph
