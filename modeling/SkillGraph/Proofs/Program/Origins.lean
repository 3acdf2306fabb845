import SkillGraph.Proofs.Program.Steps

/-! Which token an instruction comes from. Operands and markers are written in the order of the
tokens. Operators and calls are released from the top of the stack, so that a call comes when all
calls behind its marker have come, and no call takes the marker of another one. -/
namespace SkillGraph

/-- Operands and markers are written at once, operators and calls wait. -/
def Instruction.isWritten : Instruction → Bool
  | .operand _ | .marker => true
  | .operator _ | .call _ => false

namespace Program

/-- Instructions with the positions of the tokens that they stand for. -/
abbrev Trace := List (Instruction × Nat)

def writings (r : Registry) (k : Nat) : List Token → Trace
  | [] => []
  | token :: rest => (emits r token).map (·, k) ++ writings r (k + 1) rest

/-- What a token stands for later, where `before` is the token in front of it. A minus sign negates
if it is the first token or stands behind an operator, an open parenthesis or a comma. -/
def deferred? (r : Registry) (before : Option Token) : Token → Option Instruction
  | .operator (.binary (.arithmetic .sub)) =>
    match before with
    | none | some (.operator _) | some .opening | some .comma => some (.operator .negate)
    | some .closing | some (.word _) => some (.operator (.binary (.arithmetic .sub)))
  | .operator op => some (.operator op)
  | .word text => if r.isCallName text then some (.call text) else none
  | .opening | .closing | .comma => none

def deferrals (r : Registry) (before : Option Token) (k : Nat) : List Token → Trace
  | [] => []
  | token :: rest =>
    ((deferred? r before token).map (·, k)).toList ++ deferrals r (some token) (k + 1) rest

/-- Every call closes the marker that was opened last and is still open, and that is the marker of
its own token. Here `opened` are the positions of the markers that are open at the start, the last
one first, and none is open at the end. -/
inductive Nests : List Nat → Trace → Prop where
  | nil : Nests [] []
  | marker {k : Nat} {opened : List Nat} {rest : Trace} (later : Nests (k :: opened) rest) :
    Nests opened ((.marker, k) :: rest)
  | call {k : Nat} {name : String} {opened : List Nat} {rest : Trace} (later : Nests opened rest) :
    Nests (k :: opened) ((.call name, k) :: rest)
  | operand {k : Nat} {word : String} {opened : List Nat} {rest : Trace}
    (later : Nests opened rest) : Nests opened ((.operand word, k) :: rest)
  | operator {k : Nat} {op : Operator} {opened : List Nat} {rest : Trace}
    (later : Nests opened rest) : Nests opened ((.operator op, k) :: rest)

/-- The stack of a conversion with the positions of the tokens that wait on it. -/
abbrev Waiting := List (Pending × Nat)

def Waiting.trace (waiting : Waiting) : Trace :=
  waiting.filterMap fun (p, k) => p.instruction?.map (·, k)

def Waiting.calls (waiting : Waiting) : List Nat :=
  waiting.filterMap fun
    | (.call _, k) => some k
    | _ => none

variable {r : Registry} {previous : Option Token} {program : Program} {tokens : List Token}
  {opened : List Nat} {traced front back : Trace} {k : Nat} {name : String}

theorem toList_deferred? (r : Registry) (previous : Option Token) (token : Token) :
    (deferred? r previous token).toList =
      (waits r previous token).filterMap Pending.instruction? := by
  cases token with
  | word text =>
    by_cases called : r.isCallName text = true
    · simp [deferred?, waits, called, Pending.instruction?]
    · simp [deferred?, waits, called]
  | operator op =>
    by_cases minus : op = .binary (.arithmetic .sub)
    · subst minus
      rcases previous with _ | (_ | _ | _ | _ | _) <;> rfl
    · have same : inPlace previous op = op := by simp [inPlace, minus]
      have plain : deferred? r previous (.operator op) = some (.operator op) := by
        rw [deferred?]
        exact fun h => absurd (h ▸ rfl) minus
      simp [plain, waits, same, Pending.instruction?]
  | _ => rfl

namespace Waiting

variable {gone kept : Waiting}

theorem trace_append (gone kept : Waiting) : trace (gone ++ kept) = trace gone ++ trace kept :=
  List.filterMap_append

theorem calls_append (gone kept : Waiting) : calls (gone ++ kept) = calls gone ++ calls kept :=
  List.filterMap_append

theorem map_fst_trace (waiting : Waiting) : waiting.trace.map Prod.fst =
    (waiting.map Prod.fst).filterMap Pending.instruction? := by
  simp [trace, List.map_filterMap, List.filterMap_map, Function.comp_def]

theorem trace_waits (r : Registry) (previous : Option Token) (token : Token) (k : Nat) :
    trace ((waits r previous token).map (·, k)) =
      ((deferred? r previous token).map (·, k)).toList := by
  rw [Option.toList_map, toList_deferred?, trace, List.filterMap_map, List.map_filterMap]
  rfl

theorem isWritten_of_mem_trace {waiting : Waiting} {i : Instruction × Nat}
    (member : i ∈ waiting.trace) : i.1.isWritten = false := by
  obtain ⟨⟨p, k⟩, -, same⟩ := List.mem_filterMap.1 member
  cases p <;> cases same <;> rfl

theorem nests_trace (gone : Waiting) (later : Nests opened traced) :
    Nests (gone.calls ++ opened) (gone.trace ++ traced) := by
  induction gone with
  | nil => exact later
  | cons entry gone ih =>
    obtain ⟨p, k⟩ := entry
    cases p with
    | operator op => exact .operator ih
    | opening => exact ih
    | call name => exact .call ih

end Waiting

theorem isWritten_of_mem_emits {token : Token} {i : Instruction} (member : i ∈ emits r token) :
    i.isWritten = true := by
  cases token with
  | word text =>
    by_cases called : r.isCallName text = true
    · simp_all [emits, Instruction.isWritten]
    · simp_all [emits, Instruction.isWritten]
  | _ => cases member

theorem nests_emits {token : Token} {waiting : Waiting}
    (later : Nests (Waiting.calls ((waits r previous token).map (·, k) ++ waiting)) traced) :
    Nests waiting.calls ((emits r token).map (·, k) ++ traced) := by
  cases token with
  | word text =>
    by_cases called : r.isCallName text = true
    · simp only [emits, waits, if_pos called] at later ⊢
      exact .marker later
    · simp only [emits, waits, if_neg called] at later ⊢
      exact .operand later
  | _ => exact later

/-- The trace of a conversion: what waited before, with the positions given, and what the tokens
stand for. -/
theorem exists_trace_of_convert {pending : List Pending}
    (converted : convert r previous pending tokens = .ok program) (waiting : Waiting)
    (held : waiting.map Prod.fst = pending) (k : Nat) :
    ∃ traced : Trace, traced.map Prod.fst = program ∧
      traced.filter (·.1.isWritten) = writings r k tokens ∧
      (traced.filter (!·.1.isWritten)).Perm (waiting.trace ++ deferrals r previous k tokens) ∧
      Nests waiting.calls traced := by
  -- What carries the nesting is that the calls on the stack are the open markers, in their order.
  induction tokens generalizing previous pending program waiting k with
  | nil =>
    obtain ⟨-, rfl⟩ := convert_nil_eq_ok_iff.1 converted
    have unwritten : ∀ i ∈ waiting.trace, i.1.isWritten = false := fun _ =>
      Waiting.isWritten_of_mem_trace
    refine ⟨waiting.trace, ?_, ?_, ?_, ?_⟩
    · rw [waiting.map_fst_trace, held]
    · simpa [writings] using unwritten
    · rw [List.filter_eq_self.2 (by simpa using unwritten)]
      simp [deferrals]
    · simpa using waiting.nests_trace .nil
  | cons token rest ih =>
    obtain ⟨emitted, next, later, moved, converted, rfl⟩ := convert_cons_eq_ok_iff.1 converted
    obtain ⟨gone, kept, split, rfl, rfl, -⟩ := exists_of_step moved
    obtain ⟨gone, kept, rfl, rfl, rfl⟩ := List.map_eq_append_iff.1 (held.trans split)
    have next : ((waits r previous token).map (·, k) ++ kept).map Prod.fst =
        waits r previous token ++ kept.map Prod.fst := by simp [Function.comp_def]
    obtain ⟨traced, same, written, released, nests⟩ := ih converted _ next (k + 1)
    have unwritten : ∀ i ∈ Waiting.trace gone, i.1.isWritten = false := fun _ =>
      Waiting.isWritten_of_mem_trace
    have emitted : ∀ i ∈ (emits r token).map (·, k), i.1.isWritten = true := by
      rintro _ member
      obtain ⟨i, inside, rfl⟩ := List.mem_map.1 member
      exact isWritten_of_mem_emits inside
    refine ⟨Waiting.trace gone ++ ((emits r token).map (·, k) ++ traced), ?_, ?_, ?_, ?_⟩
    · rw [List.map_append, List.map_append, Waiting.map_fst_trace, same]
      simp [Function.comp_def]
    · rw [List.filter_append, List.filter_append, written, writings,
        List.filter_eq_nil_iff.2 (by simpa using unwritten), List.filter_eq_self.2 emitted,
        List.nil_append]
    · rw [List.filter_append, List.filter_append, List.filter_eq_self.2 (by simpa using unwritten),
        List.filter_eq_nil_iff.2 (by simpa using emitted), List.nil_append, deferrals,
        ← Waiting.trace_waits, Waiting.trace_append]
      rw [Waiting.trace_append] at released
      have counts := List.perm_iff_count.1 released
      refine List.perm_iff_count.2 fun i => ?_
      have := counts i
      simp only [List.count_append] at this ⊢
      omega
    · rw [Waiting.calls_append]
      exact Waiting.nests_trace gone (nests_emits nests)

/-- A call closes a marker in front of it or one that was open before, and everything between the
two is nested. -/
theorem Nests.exists_of_call (nests : Nests opened (front ++ (.call name, k) :: back)) :
    (∃ before inside, front = before ++ (.marker, k) :: inside ∧ Nests [] inside) ∨
      ∃ closed rest, opened = closed ++ k :: rest ∧ Nests closed front := by
  induction front generalizing opened with
  | nil =>
    cases nests with
    | @call _ _ rest _ later => exact .inr ⟨[], rest, rfl, .nil⟩
  | cons i front ih =>
    cases nests with
    | @marker j _ _ later =>
      rcases ih later with ⟨before, inside, rfl, nested⟩ | ⟨closed, rest, same, nested⟩
      · exact .inl ⟨(.marker, j) :: before, inside, rfl, nested⟩
      -- The call closes this marker if it closes nothing else that is open.
      cases closed with
      | nil =>
        obtain ⟨rfl, rfl⟩ := List.cons.inj same
        exact .inl ⟨[], front, rfl, nested⟩
      | cons first closed =>
        obtain ⟨rfl, rfl⟩ := List.cons.inj same
        exact .inr ⟨closed, rest, rfl, .marker nested⟩
    | @call j other opened _ later =>
      rcases ih later with ⟨before, inside, rfl, nested⟩ | ⟨closed, rest, rfl, nested⟩
      · exact .inl ⟨(.call other, j) :: before, inside, rfl, nested⟩
      · exact .inr ⟨j :: closed, rest, rfl, .call nested⟩
    | @operand j word _ _ later =>
      rcases ih later with ⟨before, inside, rfl, nested⟩ | ⟨closed, rest, same, nested⟩
      · exact .inl ⟨(.operand word, j) :: before, inside, rfl, nested⟩
      · exact .inr ⟨closed, rest, same, .operand nested⟩
    | @operator j op _ _ later =>
      rcases ih later with ⟨before, inside, rfl, nested⟩ | ⟨closed, rest, same, nested⟩
      · exact .inl ⟨(.operator op, j) :: before, inside, rfl, nested⟩
      · exact .inr ⟨closed, rest, same, .operator nested⟩

end Program

end SkillGraph
