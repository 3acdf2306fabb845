import SkillGraph.Proofs.Machine.Steps
import SkillGraph.Proofs.Program.Origins

/-! The arguments of calls. What runs between a marker and its call works above the marker and ends
with values there alone, so that the call takes what its own arguments have left and nothing
else. -/
namespace SkillGraph

namespace Machine

variable {r : Registry} {red : Reduction} {upper below stack next : Stack} {i : Instruction}

theorem exists_values (none : markers upper = 0) : ∃ vs : List Value, upper = vs.map .value := by
  induction upper with
  | nil => exact ⟨[], rfl⟩
  | cons item upper ih =>
    cases item with
    | marker => simp [markers, Item.isMarker] at none
    | value v =>
      obtain ⟨vs, rfl⟩ := ih (by simpa [markers, Item.isMarker] using none)
      exact ⟨v :: vs, rfl⟩

theorem markers_append (upper below : Stack) :
    markers (upper ++ below) = markers upper + markers below :=
  List.countP_append

/-- An instruction works above a marker unless it is a call that finds no other one there. -/
theorem exists_of_step_above (moved : step r red (upper ++ .marker :: below) i = .ok next)
    (enough : [i].countP Instruction.isCall ≤ markers upper) :
    ∃ upper', next = upper' ++ .marker :: below ∧
      markers upper' + [i].countP Instruction.isCall = markers upper + [i].count .marker := by
  obtain ⟨taken, kept, item, split, rfl, calls, marked, -⟩ := exists_of_step moved
  have top (rest : Stack) : markers (item :: rest) = [i].count .marker + markers rest := by
    rw [← List.singleton_append, markers_append, marked]
  rcases List.append_eq_append_iff.1 split with ⟨_ | ⟨first, more⟩, rfl, behind⟩ | ⟨more, rfl, rfl⟩
  · obtain rfl : .marker :: below = kept := behind
    refine ⟨[item], rfl, ?_⟩
    rw [top, ← calls, List.append_nil]
    exact Nat.add_comm _ _
  · obtain ⟨rfl, -⟩ := List.cons.inj behind
    have one : markers (.marker :: more) = 1 + markers more := markers_append [.marker] more
    rw [markers_append, one] at calls
    omega
  · refine ⟨item :: more, rfl, ?_⟩
    rw [top, ← calls, markers_append]
    omega

/-- A nested program keeps to what lies above a marker, and leaves values alone there. -/
theorem exists_of_exec_above {opened : List Nat} {inside : Program.Trace}
    (nests : Program.Nests opened inside)
    (ran : exec r red (inside.map Prod.fst) (upper ++ .marker :: below) = .ok stack)
    (held : markers upper = opened.length) :
    ∃ vs : List Value, stack = vs.map .value ++ .marker :: below := by
  induction nests generalizing upper with
  | nil =>
    cases ran
    obtain ⟨vs, rfl⟩ := exists_values held
    exact ⟨vs, rfl⟩
  | marker _ ih =>
    obtain ⟨next, moved, ran⟩ := exec_cons_eq_ok_iff.1 ran
    obtain ⟨upper', rfl, balance⟩ := exists_of_step_above moved (Nat.zero_le _)
    exact ih ran (balance.trans (congrArg (· + 1) held))
  | @call k name opened rest _ ih =>
    obtain ⟨next, moved, ran⟩ := exec_cons_eq_ok_iff.1 ran
    have enough : 1 ≤ markers upper := by
      rw [held]
      exact Nat.succ_pos _
    obtain ⟨upper', rfl, balance⟩ := exists_of_step_above moved enough
    exact ih ran (Nat.succ.inj (balance.trans held))
  | operand _ ih =>
    obtain ⟨next, moved, ran⟩ := exec_cons_eq_ok_iff.1 ran
    obtain ⟨upper', rfl, balance⟩ := exists_of_step_above moved (Nat.zero_le _)
    exact ih ran (balance.trans held)
  | operator _ ih =>
    obtain ⟨next, moved, ran⟩ := exec_cons_eq_ok_iff.1 ran
    obtain ⟨upper', rfl, balance⟩ := exists_of_step_above moved (Nat.zero_le _)
    exact ih ran (balance.trans held)

/-- Behind a marker and a nested program, a call takes what has come above the marker. -/
theorem takeArguments_of_exec {before inside : Program.Trace} {k : Nat}
    (nests : Program.Nests [] inside)
    (ran : exec r red ((before ++ (.marker, k) :: inside).map Prod.fst) [] = .ok stack) :
    ∃ below args, exec r red (before.map Prod.fst) [] = .ok below ∧
      takeArguments [] stack = some (args, below) := by
  rw [List.map_append, exec_append, bind_eq_ok_iff] at ran
  obtain ⟨below, first, ran⟩ := ran
  have closed : markers [] = ([] : List Nat).length := rfl
  obtain ⟨vs, rfl⟩ := exists_of_exec_above nests ran closed
  exact ⟨below, _, first, takeArguments_map vs [] below⟩

end Machine

/-- A program holds what its tokens stand for, each once. Operands and markers keep the order of the
tokens, the operators and calls are those of the tokens, and every call closes the marker of its own
token, so that in each run it takes what has come on top of the stack since that marker. -/
theorem Program.exists_trace {r : Registry} {tokens : List Token} {program : Program}
    (converted : ofTokens r tokens = .ok program) :
    ∃ traced : Trace, traced.map Prod.fst = program ∧
      traced.filter (·.1.isWritten) = writings r 0 tokens ∧
      (traced.filter (!·.1.isWritten)).Perm (deferrals r none 0 tokens) ∧ Nests [] traced ∧
      ∀ front name k back, traced = front ++ (.call name, k) :: back →
        ∃ before inside, front = before ++ (.marker, k) :: inside ∧ Nests [] inside ∧
          ∀ (red : Reduction) (stack : Machine.Stack),
            Machine.exec r red (front.map Prod.fst) [] = .ok stack →
            ∃ below args, Machine.exec r red (before.map Prod.fst) [] = .ok below ∧
              Machine.takeArguments [] stack = some (args, below) := by
  obtain ⟨traced, same, written, released, nests⟩ := exists_trace_of_convert converted [] rfl 0
  refine ⟨traced, same, written, released, nests, ?_⟩
  rintro front name k back rfl
  rcases nests.exists_of_call with ⟨before, inside, rfl, nested⟩ | ⟨closed, rest, opened, -⟩
  · refine ⟨before, inside, rfl, nested, ?_⟩
    intro red stack ran
    exact Machine.takeArguments_of_exec nested ran
  · simp [Waiting.calls] at opened

/-- A call among the arguments of another one, and a minus sign in both of its parts. -/
theorem Program.exists_trace_nested :
    let tokens := ["Max", "(", "1", ",", "-", "Self", ")", "-", "2"].map Token.ofLexeme
    let program : Program := [.marker, .operand "1", .marker, .call "Self", .operator .negate,
      .call "Max", .operand "2", .operator (.binary (.arithmetic .sub))]
    ofTokens .standard tokens = .ok program ∧
      ∃ traced : Trace, traced.map Prod.fst = program ∧ Nests [] traced ∧
        (traced.filter (!·.1.isWritten)).Perm [(.call "Max", 0), (.operator .negate, 4),
          (.call "Self", 5), (.operator (.binary (.arithmetic .sub)), 7)] := by
  intro tokens program
  have converted : ofTokens .standard tokens = .ok program := by decide +kernel
  obtain ⟨traced, same, -, released, nests, -⟩ := exists_trace converted
  have listed : deferrals .standard none 0 tokens = [(.call "Max", 0), (.operator .negate, 4),
    (.call "Self", 5), (.operator (.binary (.arithmetic .sub)), 7)] := by decide +kernel
  rw [listed] at released
  exact ⟨converted, traced, same, nests, released⟩

end SkillGraph
