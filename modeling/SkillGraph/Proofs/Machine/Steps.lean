import SkillGraph.Proofs.Infix.Execution
import SkillGraph.Proofs.Program.Parentheses

/-! Runs of the machine instruction by instruction, whatever the program. A step takes items from
the top of the stack and puts one in their place, so a run can be followed by counting: a marker
lies on the stack for each call that is still to come, and in a program without calls the height of
the stack depends on the instructions alone. -/
namespace SkillGraph

def Operator.arity (op : Operator) : Nat := if op.isUnary then 1 else 2

/-- What an instruction adds to the height of the stack, if it is no call. -/
def Instruction.weight : Instruction → Int
  | .operator op => 1 - op.arity
  | _ => 1

namespace Machine

def Item.isMarker : Item → Bool
  | .marker => true
  | .value _ => false

def markers (stack : Stack) : Nat := stack.countP Item.isMarker

variable {r : Registry} {red : Reduction} {stack rest next : Stack} {i : Instruction}
  {program : Program}

theorem takeOperand_eq_ok_iff {op : Operator} {n : Node} :
    takeOperand op stack = .ok (n, rest) ↔ stack = .value (.node n) :: rest := by
  cases stack with
  | nil => simp [takeOperand]
  | cons item stack =>
    cases item with
    | marker => simp [takeOperand]
    | value v => cases v <;> simp [takeOperand]

theorem exists_of_takeArguments {taken args : List Value}
    (reached : takeArguments taken stack = some (args, rest)) :
    ∃ upper : List Value, stack = upper.map .value ++ .marker :: rest := by
  induction stack generalizing taken with
  | nil => cases reached
  | cons item stack ih =>
    cases item with
    | marker =>
      cases reached
      exact ⟨[], rfl⟩
    | value v =>
      obtain ⟨upper, rfl⟩ := ih reached
      exact ⟨v :: upper, rfl⟩

theorem takeArguments_isSome_iff (taken : List Value) (stack : Stack) :
    (takeArguments taken stack).isSome = true ↔ 0 < markers stack := by
  induction stack generalizing taken with
  | nil => simp [takeArguments, markers]
  | cons item stack ih =>
    cases item with
    | marker => simp [takeArguments, markers, Item.isMarker]
    | value v => simpa [takeArguments, markers, Item.isMarker] using ih (v :: taken)

theorem markers_values (upper : List Value) : markers (upper.map .value) = 0 := by
  unfold markers
  rw [List.countP_map, List.countP_eq_zero]
  simp [Item.isMarker]

theorem exists_of_applyOperator {op : Operator} {n : Node}
    (applied : applyOperator op stack = .ok (n, rest)) :
    ∃ operands : List Node, stack = operands.map (.value ∘ .node) ++ rest ∧
      operands.length = op.arity := by
  obtain ⟨⟨right, below⟩, first, built⟩ := bind_eq_ok_iff.1 applied
  rw [takeOperand_eq_ok_iff.1 first]
  cases op with
  | negate =>
    cases built
    exact ⟨[right], rfl, rfl⟩
  | not =>
    cases built
    exact ⟨[right], rfl, rfl⟩
  | binary op =>
    obtain ⟨⟨left, lower⟩, second, built⟩ := bind_eq_ok_iff.1 built
    rw [takeOperand_eq_ok_iff.1 second]
    cases built
    exact ⟨[right, left], rfl, rfl⟩

theorem exists_of_applyCall {name : String} {n : Node}
    (applied : applyCall r name stack = .ok (n, rest)) :
    ∃ upper : List Value, stack = upper.map .value ++ .marker :: rest := by
  unfold applyCall at applied
  cases reached : takeArguments [] stack with
  | none => simp [reached, throw, throwThe, MonadExceptOf.throw] at applied
  | some both =>
    obtain ⟨args, below⟩ := both
    rw [reached] at applied
    cases found : r.atomCalled? name with
    | none => simp [found, throw, throwThe, MonadExceptOf.throw] at applied
    | some a =>
      rw [found] at applied
      obtain ⟨n, -, same⟩ := bind_eq_ok_iff.1 applied
      cases same
      exact exists_of_takeArguments reached

/-- What one instruction does: items go from the top of the stack, and one comes. Only a call takes
a marker, and every other instruction takes as many items as its weight says. -/
theorem exists_of_step (moved : step r red stack i = .ok next) :
    ∃ taken kept item, stack = taken ++ kept ∧ next = item :: kept ∧
      markers taken = [i].countP Instruction.isCall ∧ markers [item] = [i].count .marker ∧
      (i.isCall = false → 1 - (taken.length : Int) = i.weight) := by
  cases i with
  | operand w =>
    cases moved
    exact ⟨[], stack, _, rfl, rfl, rfl, rfl, fun _ => rfl⟩
  | marker =>
    cases moved
    exact ⟨[], stack, _, rfl, rfl, rfl, rfl, fun _ => rfl⟩
  | operator op =>
    obtain ⟨⟨n, kept⟩, applied, same⟩ := bind_eq_ok_iff.1 moved
    obtain ⟨operands, rfl, length⟩ := exists_of_applyOperator applied
    cases same
    refine ⟨_, kept, _, rfl, rfl, ?_, rfl, ?_⟩
    · rw [← List.map_map, markers_values]
      rfl
    · intro _
      rw [List.length_map, length, Instruction.weight]
  | call name =>
    obtain ⟨⟨n, kept⟩, applied, same⟩ := bind_eq_ok_iff.1 moved
    obtain ⟨upper, rfl⟩ := exists_of_applyCall applied
    cases same
    refine ⟨upper.map .value ++ [.marker], kept, _, by simp, rfl, ?_, rfl, nofun⟩
    have none := markers_values upper
    unfold markers at none ⊢
    rw [List.countP_append, none]
    rfl

theorem markers_of_step (moved : step r red stack i = .ok next) :
    markers next + [i].countP Instruction.isCall = markers stack + [i].count .marker := by
  obtain ⟨taken, kept, item, rfl, rfl, calls, marked, -⟩ := exists_of_step moved
  unfold markers at *
  rw [List.countP_append, calls, ← List.singleton_append, List.countP_append, marked]
  omega

theorem exec_cons_eq_ok_iff : exec r red (i :: program) stack = .ok rest ↔
    ∃ next, step r red stack i = .ok next ∧ exec r red program next = .ok rest := by
  rw [exec_cons, bind_eq_ok_iff]

/-- A run leaves the markers that no call has taken. -/
theorem markers_of_exec (ran : exec r red program stack = .ok next) :
    markers next + program.countP Instruction.isCall =
      markers stack + program.count .marker := by
  induction program generalizing stack with
  | nil =>
    cases ran
    rfl
  | cons i rest ih =>
    obtain ⟨between, moved, ran⟩ := exec_cons_eq_ok_iff.1 ran
    have first := markers_of_step moved
    have later := ih ran
    rw [← List.singleton_append, List.countP_append, List.count_append]
    omega

theorem length_of_step (moved : step r red stack i = .ok next) (free : i.isCall = false) :
    (next.length : Int) = stack.length + i.weight := by
  obtain ⟨taken, kept, item, rfl, rfl, -, -, height⟩ := exists_of_step moved
  have := height free
  rw [List.length_append, List.length_cons]
  omega

theorem length_of_exec (ran : exec r red program stack = .ok next)
    (free : ∀ i ∈ program, i.isCall = false) :
    (next.length : Int) = stack.length + (program.map Instruction.weight).sum := by
  induction program generalizing stack with
  | nil =>
    cases ran
    simp
  | cons i rest ih =>
    obtain ⟨between, moved, ran⟩ := exec_cons_eq_ok_iff.1 ran
    obtain ⟨first, others⟩ := List.forall_mem_cons.1 free
    have here := length_of_step moved first
    have later := ih ran others
    rw [List.map_cons, List.sum_cons]
    omega

/-- A run that fails does so at an instruction that it reaches. -/
theorem exists_of_exec_error {c : Cause} (failed : exec r red program stack = .error c) :
    ∃ front i rest below, program = front ++ i :: rest ∧ exec r red front stack = .ok below ∧
      step r red below i = .error c := by
  induction program generalizing stack with
  | nil => cases failed
  | cons i rest ih =>
    rw [exec_cons] at failed
    rcases bind_eq_error_iff.1 failed with stuck | ⟨next, moved, failed⟩
    · exact ⟨[], i, rest, stack, rfl, rfl, stuck⟩
    · obtain ⟨front, j, rest, below, rfl, ran, stuck⟩ := ih failed
      exact ⟨i :: front, j, rest, below, rfl, exec_cons_eq_ok_iff.2 ⟨next, moved, ran⟩, stuck⟩

/-- Only the empty program leaves an empty stack. -/
theorem exec_eq_ok_nil_iff : exec r red program [] = .ok [] ↔ program = [] := by
  constructor
  · intro ran
    induction program using List.reverseRecOn with
    | nil => rfl
    -- The last instruction leaves its item on top, so the induction needs no hypothesis.
    | append_singleton front i _ =>
      rw [exec_append, bind_eq_ok_iff] at ran
      obtain ⟨between, -, ran⟩ := ran
      obtain ⟨last, moved, ran⟩ := exec_cons_eq_ok_iff.1 ran
      cases ran
      obtain ⟨taken, kept, item, -, full, -⟩ := exists_of_step moved
      cases full
  · rintro rfl
    rfl

end Machine

end SkillGraph
