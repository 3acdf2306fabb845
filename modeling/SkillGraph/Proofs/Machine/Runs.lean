import SkillGraph.Proofs.Except
import SkillGraph.Proofs.Infix.Basic

/-! Two runs of the machine side by side. A relation between values that operators and calls keep
holds at every step between the two stacks, and one run fails where the other one does and with the
same error code. -/
namespace SkillGraph

/-- Two computations that both succeed, with related results, or both fail, with the same code. -/
inductive EndAlike {β γ : Type} (R : β → γ → Prop) : Except Cause β → Except Cause γ → Prop where
  | ok {b : β} {c : γ} (related : R b c) : EndAlike R (.ok b) (.ok c)
  | error {e e' : Cause} (same : e.code = e'.code) : EndAlike R (.error e) (.error e')

namespace EndAlike

variable {β γ δ ε : Type} {R : β → γ → Prop} {S : δ → ε → Prop}
variable {x : Except Cause β} {y : Except Cause γ}

theorem refl (x : Except Cause β) : EndAlike (· = ·) x x := by
  cases x with
  | ok b => exact .ok rfl
  | error e => exact .error rfl

theorem bind {f : β → Except Cause δ} {g : γ → Except Cause ε} (alike : EndAlike R x y)
    (next : ∀ b c, R b c → EndAlike S (f b) (g c)) : EndAlike S (x >>= f) (y >>= g) := by
  cases alike with
  | ok related => exact next _ _ related
  | error same => exact .error same

theorem map {f : β → δ} {g : γ → ε} (alike : EndAlike R x y)
    (next : ∀ b c, R b c → S (f b) (g c)) : EndAlike S (x.map f) (y.map g) := by
  cases alike with
  | ok related => exact .ok (next _ _ related)
  | error same => exact .error same

theorem mono {T : β → γ → Prop} (alike : EndAlike R x y) (weaker : ∀ b c, R b c → T b c) :
    EndAlike T x y := by
  cases alike with
  | ok related => exact .ok (weaker _ _ related)
  | error same => exact .error same

theorem exists_of_ok {b : β} (alike : EndAlike R x y) (ended : x = .ok b) :
    ∃ c, y = .ok c ∧ R b c := by
  cases alike with
  | ok related =>
    cases ended
    exact ⟨_, rfl, related⟩
  | error same => cases ended

end EndAlike

def Value.isNode : Value → Bool
  | .node _ => true
  | _ => false

def Value.SameKind (v w : Value) : Prop := v.isNode = w.isNode

theorem Value.SameKind.refl (v : Value) : v.SameKind v := rfl

inductive Instruction.Related (R : Value → Value → Prop) : Instruction → Instruction → Prop where
  | operand {w w' : String} (related : R (Literal.value w) (Literal.value w')) :
    Related R (.operand w) (.operand w')
  | operator (op : Operator) : Related R (.operator op) (.operator op)
  | call (name : String) : Related R (.call name) (.call name)
  | marker : Related R .marker .marker

abbrev Program.Related (R : Value → Value → Prop) : Program → Program → Prop :=
  List.Forall₂ (Instruction.Related R)

theorem Program.related_self {R : Value → Value → Prop} {program : Program}
    (words : ∀ w, .operand w ∈ program → R (Literal.value w) (Literal.value w)) :
    Program.Related R program program := by
  rw [Program.Related, List.forall₂_same]
  intro i member
  cases i with
  | operand w => exact .operand (words w member)
  | operator op => exact .operator op
  | call name => exact .call name
  | marker => exact .marker

section Fields

variable {R S : Value → Value → Prop} {args args' : List Value}

/-- Related arguments fill the same fields, with related values if storing keeps the relation. -/
theorem fillFields_related (single : ∀ (f : Field) {v w}, R v w → S (f.store v) (f.store w))
    (list : ∀ (f : Field) {args args'}, List.Forall₂ R args args' →
      S (.list (args.map f.store)) (.list (args'.map f.store)))
    (call : String) (fs : List Field) (related : List.Forall₂ R args args') :
    EndAlike (List.Forall₂ fun p q => p.1 = q.1 ∧ S p.2 q.2)
      (fillFields call fs args) (fillFields call fs args') := by
  induction fs generalizing args args' with
  | nil => exact .ok .nil
  | cons f rest ih =>
    by_cases array : f.kind.isArray = true
    · simp only [fillFields, if_pos array]
      cases related with
      | nil =>
        by_cases optional : f.optional = true
        · simpa [optional] using ih .nil
        · simpa [optional] using EndAlike.error rfl
      | cons first others =>
        refine (ih .nil).map ?_
        intro fields fields' same
        exact .cons ⟨rfl, list f (.cons first others)⟩ same
    · simp only [fillFields, if_neg array]
      cases related with
      | nil => exact .ok .nil
      | cons first others =>
        refine (ih others).map ?_
        intro fields fields' same
        exact .cons ⟨rfl, single f first⟩ same

theorem Atom.instantiate_related (a : Atom)
    (single : ∀ (f : Field) {v w}, R v w → S (f.store v) (f.store w))
    (list : ∀ (f : Field) {args args'}, List.Forall₂ R args args' →
      S (.list (args.map f.store)) (.list (args'.map f.store)))
    (related : List.Forall₂ R args args') :
    EndAlike (fun n m => ∃ fields fields', n = .call a.tag fields ∧ m = .call a.tag fields' ∧
      List.Forall₂ (fun p q => p.1 = q.1 ∧ S p.2 q.2) fields fields')
      (a.instantiate args) (a.instantiate args') := by
  unfold instantiate
  rw [related.length_eq]
  by_cases few : args'.length < a.leastArguments
  · rw [if_pos few, if_pos few]
    exact .error rfl
  · rw [if_neg few, if_neg few]
    refine (fillFields_related single list a.name a.fields related).map ?_
    intro fields fields' same
    exact ⟨fields, fields', rfl, rfl, same⟩

end Fields

namespace Machine

/-- A relation between values that two runs keep. Nodes are related to nodes only, and what is built
from related values is related. -/
structure Keeps (r : Registry) (red red' : Reduction) (R : Value → Value → Prop) : Prop where
  kind : ∀ {v w}, R v w → v.SameKind w
  unary : ∀ (op : Unary) {n m}, R (.node n) (.node m) →
    R (.node (red.apply (op.node n))) (.node (red'.apply (op.node m)))
  binary : ∀ (op : BinaryOp) {a a' b b'}, R (.node a) (.node a') → R (.node b) (.node b') →
    R (.node (red.apply (.binary op a b))) (.node (red'.apply (.binary op a' b')))
  call : ∀ a ∈ r.atoms, ∀ {args args'}, List.Forall₂ R args args' →
    EndAlike (fun n m => R (.node n) (.node m)) (a.instantiate args) (a.instantiate args')

inductive Item.Related (R : Value → Value → Prop) : Item → Item → Prop where
  | value {v w : Value} (related : R v w) : Related R (.value v) (.value w)
  | marker : Related R .marker .marker

abbrev Stack.Related (R : Value → Value → Prop) : Stack → Stack → Prop :=
  List.Forall₂ (Item.Related R)

def Above (R : Value → Value → Prop) (p q : Node × Stack) : Prop :=
  R (.node p.1) (.node q.1) ∧ Stack.Related R p.2 q.2

variable {r : Registry} {red red' : Reduction} {R : Value → Value → Prop} {s t : Stack}

theorem takeOperand_related (keeps : Keeps r red red' R) (op : Operator)
    (related : Stack.Related R s t) :
    EndAlike (Above R) (takeOperand op s) (takeOperand op t) := by
  cases related with
  | nil => exact .error rfl
  | cons first below =>
    cases first with
    | marker => exact .error rfl
    | @value v w related =>
      have kind : v.isNode = w.isNode := keeps.kind related
      cases v with
      | node n =>
        cases w with
        | node m => exact .ok ⟨related, below⟩
        | _ => cases kind
      | _ =>
        cases w with
        | node m => cases kind
        | _ => exact .error rfl

theorem applyOperator_related (keeps : Keeps r red red' R) (op : Operator)
    (related : Stack.Related R s t) :
    EndAlike (fun p q => Above R (red.apply p.1, p.2) (red'.apply q.1, q.2))
      (applyOperator op s) (applyOperator op t) := by
  refine (takeOperand_related keeps op related).bind ?_
  rintro ⟨right, upper⟩ ⟨right', upper'⟩ ⟨high, below⟩
  cases op with
  | negate => exact .ok ⟨keeps.unary .negate high, below⟩
  | not => exact .ok ⟨keeps.unary .not high, below⟩
  | binary op =>
    refine (takeOperand_related keeps (.binary op) below).bind ?_
    rintro ⟨left, lower⟩ ⟨left', lower'⟩ ⟨low, below⟩
    exact .ok ⟨keeps.binary op low high, below⟩

theorem takeArguments_related {taken taken' : List Value} (before : List.Forall₂ R taken taken')
    (related : Stack.Related R s t) :
    Option.Rel (fun p q => List.Forall₂ R p.1 q.1 ∧ Stack.Related R p.2 q.2)
      (takeArguments taken s) (takeArguments taken' t) := by
  induction related generalizing taken taken' with
  | nil => exact .none
  | cons first others ih =>
    cases first with
    | marker => exact .some ⟨before, others⟩
    | value related => exact ih (.cons related before)

theorem applyCall_related (keeps : Keeps r red red' R) (name : String)
    (related : Stack.Related R s t) :
    EndAlike (Above R) (applyCall r name s) (applyCall r name t) := by
  have taken := takeArguments_related .nil related
  unfold applyCall
  generalize takeArguments [] s = p at taken ⊢
  generalize takeArguments [] t = q at taken ⊢
  cases taken with
  | none => exact .error rfl
  | some both =>
    obtain ⟨inside, below⟩ := both
    cases found : r.atomCalled? name with
    | none => exact .error rfl
    | some a =>
      have registered := (Registry.atomCalled?_eq_some_iff.1 found).1
      refine (keeps.call a registered inside).bind ?_
      intro n m related
      exact .ok ⟨related, below⟩

/-- One instruction keeps two stacks related. -/
theorem step_related (keeps : Keeps r red red' R) {i j : Instruction}
    (same : Instruction.Related R i j) (related : Stack.Related R s t) :
    EndAlike (Stack.Related R) (step r red s i) (step r red' t j) := by
  cases same with
  | operand word => exact .ok (.cons (.value word) related)
  | marker => exact .ok (.cons .marker related)
  | operator op =>
    refine (applyOperator_related keeps op related).bind ?_
    rintro ⟨n, rest⟩ ⟨m, rest'⟩ ⟨reduced, below⟩
    exact .ok (.cons (.value reduced) below)
  | call name =>
    refine (applyCall_related keeps name related).bind ?_
    rintro ⟨n, rest⟩ ⟨m, rest'⟩ ⟨built, below⟩
    exact .ok (.cons (.value built) below)

theorem exec_related (keeps : Keeps r red red' R) {program program' : Program}
    (same : Program.Related R program program') (related : Stack.Related R s t) :
    EndAlike (Stack.Related R) (exec r red program s) (exec r red' program' t) := by
  induction same generalizing s t with
  | nil => exact .ok related
  | cons first _ ih =>
    refine (step_related keeps first related).bind ?_
    intro s t related
    exact ih related

theorem result_related (related : Stack.Related R s t) :
    EndAlike R (result r s) (result r t) := by
  cases related with
  | nil => exact .error rfl
  | cons first others =>
    cases others with
    | nil =>
      cases first with
      | value related => exact .ok related
      | marker => exact .error rfl
    | cons second others => cases first <;> exact .error rfl

/-- Programs that differ only in related words have related results. -/
theorem run_related (keeps : Keeps r red red' R) {program program' : Program}
    (same : Program.Related R program program') :
    EndAlike R (program.run r red) (program'.run r red') :=
  (exec_related keeps same .nil).bind fun _ _ related => result_related related

end Machine

end SkillGraph
