import SkillGraph.Proofs.Machine.Runs
import SkillGraph.Proofs.Reduction.Meaning

/-! Two runs of the machine with different reductions. As long as both reductions keep the meaning,
the stacks hold values of equal meaning at every step, and one run fails where the other one does
and with the same error code. -/
namespace SkillGraph

universe u

variable {α : Type u} {I : Interpretation α}

/-- Values that the machine does not tell apart: equal ones, and nodes of equal meaning. -/
inductive Value.Alike (I : Interpretation α) : Value → Value → Prop where
  | refl (v : Value) : Alike I v v
  | node {n m : Node} (same : n.meaning I = m.meaning I) : Alike I (.node n) (.node m)

theorem Value.Alike.meaning {v w : Value} (alike : v.Alike I w) : v.meaning I = w.meaning I := by
  cases alike with
  | refl => rfl
  | node same => exact same

theorem itemMeanings_store {args args' : List Value} (f : Field)
    (alike : List.Forall₂ (Value.Alike I) args args') :
    itemMeanings I (args.map f.store) = itemMeanings I (args'.map f.store) := by
  induction alike with
  | nil => rfl
  | cons first _ ih =>
    rw [List.map_cons, List.map_cons, itemMeanings, itemMeanings, ih, f.meaning_store,
      f.meaning_store, first.meaning]

theorem fieldMeanings_of_forall₂ {fields fields' : List (String × Value)}
    (same : List.Forall₂ (fun p q => p.1 = q.1 ∧ p.2.meaning I = q.2.meaning I) fields fields') :
    fieldMeanings I fields = fieldMeanings I fields' := by
  induction same with
  | nil => rfl
  | @cons p q _ _ first _ ih =>
    obtain ⟨key, v⟩ := p
    obtain ⟨key', w⟩ := q
    obtain ⟨rfl, value⟩ : key = key' ∧ v.meaning I = w.meaning I := first
    rw [fieldMeanings, fieldMeanings, value, ih]

theorem Atom.instantiate_alike (a : Atom) {args args' : List Value}
    (alike : List.Forall₂ (Value.Alike I) args args') :
    EndAlike (fun n m => n.meaning I = m.meaning I) (a.instantiate args) (a.instantiate args') := by
  have built := a.instantiate_related (S := fun v w => v.meaning I = w.meaning I)
    (fun f _ _ same => by rw [f.meaning_store, f.meaning_store, same.meaning])
    (fun f _ _ same => by rw [Value.meaning, Value.meaning, itemMeanings_store f same]) alike
  refine built.mono ?_
  rintro _ _ ⟨fields, fields', rfl, rfl, same⟩
  rw [Node.meaning, Node.meaning, fieldMeanings_of_forall₂ same]

/-- Operators and calls keep equal meanings, whichever faithful reductions are used. -/
theorem Value.Alike.keeps (r : Registry) {red red' : Reduction} (faithful : red.Faithful I)
    (faithful' : red'.Faithful I) : Machine.Keeps r red red' (Value.Alike I) where
  kind alike := by cases alike <;> rfl
  unary op n m alike := by
    refine .node ?_
    rw [faithful.meaning_apply, faithful'.meaning_apply]
    cases op with
    | negate => exact congrArg I.negation alike.meaning
    | not => exact congrArg I.complement alike.meaning
  binary op a a' b b' low high := by
    refine .node ?_
    rw [faithful.meaning_apply, faithful'.meaning_apply, Node.meaning_binary, Node.meaning_binary]
    exact congrArg₂ (I.operation op) low.meaning high.meaning
  call a _ args args' alike := (a.instantiate_alike alike).mono fun _ _ same => .node same

/-- Whichever faithful reductions are used, an expression has values of equal meaning or none. -/
theorem Compiler.eval_alike (r : Registry) {red red' : Reduction} (faithful : red.Faithful I)
    (faithful' : red'.Faithful I) (text : String) :
    EndAlike (Value.Alike I) (eval ⟨r, red⟩ text) (eval ⟨r, red'⟩ text) := by
  refine (EndAlike.refl (SkillGraph.lexemes text)).bind ?_
  rintro words _ rfl
  refine (EndAlike.refl (Program.ofTokens r _)).bind ?_
  rintro program _ rfl
  have words : Program.Related (Value.Alike I) program program :=
    Program.related_self fun w _ => .refl (Literal.value w)
  exact Machine.run_related (Value.Alike.keeps r faithful faithful') words

/-- Folding constants changes neither whether an expression is accepted, nor the code of the error,
nor the meaning of the result, whatever bound constants and calls mean. -/
theorem parse_constant_alike (r : Registry) (text : String) (I : Interpretation α) :
    match Compiler.parse ⟨r, .none⟩ text, Compiler.parse ⟨r, .constant⟩ text with
    | .ok plain, .ok folded => folded.meaning I = plain.meaning I
    | .error d, .error e => e.code = d.code
    | _, _ => False := by
  have none : Reduction.none.Faithful I := Reduction.faithful_none
  have constant : Reduction.constant.Faithful I := Reduction.faithful_constant
  have alike := Compiler.eval_alike r none constant text
  unfold Compiler.parse
  generalize Compiler.eval ⟨r, .none⟩ text = plain at alike ⊢
  generalize Compiler.eval ⟨r, .constant⟩ text = folded at alike ⊢
  cases alike with
  | ok related => exact related.meaning.symm
  | error same => exact congrArg ErrorCode.text same.symm

end SkillGraph
