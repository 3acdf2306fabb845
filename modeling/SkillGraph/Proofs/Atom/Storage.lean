import SkillGraph.Atom.Instance

/-! What a field stores for an argument: the argument itself, unless it is a literal that the field
keeps in the other of its two forms. -/
namespace SkillGraph

theorem Node.plainNumber?_eq_some_iff {n : Node} {x : Float} :
    n.plainNumber? = some x ↔ n = .literal x := by
  cases n with
  | constant y key =>
    by_cases unbound : key = "" <;> simp [plainNumber?, literal, unbound]
  | _ => simp [plainNumber?, literal]

/-- The changes that an argument may go through on its way into a field. -/
inductive Field.Converts (f : Field) : Value → Value → Prop where
  | number (kind : f.kind = .number) (x : Float) : Converts f (.node (.literal x)) (.number x)
  | negated (kind : f.kind = .number) (x : Float) :
    Converts f (.node (.negate (.literal x))) (.number (-x))
  | bool (kind : f.kind = .bool) (b : Bool) : Converts f (.node (.boolean b)) (.bool b)
  | numeric (nodes : f.kind.holdsNodes = true) (base : f.base = some .numeric) (x : Float) :
    Converts f (.number x) (.node (.literal x))
  | boolean (nodes : f.kind.holdsNodes = true) (base : f.base = some .boolean) (b : Bool) :
    Converts f (.bool b) (.node (.boolean b))

namespace Field

variable {f : Field} {v w : Value}

theorem Converts.store_eq (converts : f.Converts v w) : f.store v = w := by
  cases converts with
  | number kind x | negated kind x =>
    simp [store, kind, Value.bareNumber, Node.literal, Node.plainNumber?]
  | bool kind b => simp [store, kind, Value.bareBool]
  | numeric nodes base x | boolean nodes base b =>
    cases kind : f.kind with
    | node | nodeArray => simp [store, kind, base, Value.asNumeric, Value.asBoolean]
    | _ => simp [kind, Kind.holdsNodes] at nodes

theorem bareNumber_eq_self (kind : f.kind = .number) (kept : ∀ u, ¬f.Converts v u) :
    v.bareNumber = v := by
  unfold Value.bareNumber
  split
  case h_1 operand =>
    cases plain : operand.plainNumber? with
    | none => rfl
    | some x =>
      obtain rfl := Node.plainNumber?_eq_some_iff.1 plain
      exact absurd (.negated kind x) (kept _)
  case h_2 n _ =>
    cases plain : n.plainNumber? with
    | none => rfl
    | some x =>
      obtain rfl := Node.plainNumber?_eq_some_iff.1 plain
      exact absurd (.number kind x) (kept _)
  case h_3 => rfl

theorem bareBool_eq_self (kind : f.kind = .bool) (kept : ∀ u, ¬f.Converts v u) :
    v.bareBool = v := by
  unfold Value.bareBool
  split
  case h_1 b => exact absurd (.bool kind b) (kept _)
  case h_2 => rfl

theorem asNumeric_eq_self (nodes : f.kind.holdsNodes = true) (base : f.base = some .numeric)
    (kept : ∀ u, ¬f.Converts v u) : v.asNumeric = v := by
  unfold Value.asNumeric
  split
  case h_1 x => exact absurd (.numeric nodes base x) (kept _)
  case h_2 => rfl

theorem asBoolean_eq_self (nodes : f.kind.holdsNodes = true) (base : f.base = some .boolean)
    (kept : ∀ u, ¬f.Converts v u) : v.asBoolean = v := by
  unfold Value.asBoolean
  split
  case h_1 b => exact absurd (.boolean nodes base b) (kept _)
  case h_2 => rfl

theorem store_eq_self (kept : ∀ u, ¬f.Converts v u) : f.store v = v := by
  unfold store
  split
  case h_1 kind => exact bareNumber_eq_self kind kept
  case h_2 kind => exact bareBool_eq_self kind kept
  case h_3 | h_4 => rfl
  case h_5 kind | h_6 kind =>
    have nodes : f.kind.holdsNodes = true := by rw [kind]; rfl
    split
    case h_1 base => exact asNumeric_eq_self nodes base kept
    case h_2 base => exact asBoolean_eq_self nodes base kept
    case h_3 => rfl

/-- An argument is stored as it is unless one of the changes applies. -/
theorem store_eq_iff : f.store v = w ↔ f.Converts v w ∨ w = v ∧ ∀ u, ¬f.Converts v u := by
  constructor
  · rintro rfl
    by_cases changed : ∃ u, f.Converts v u
    · obtain ⟨u, converts⟩ := changed
      exact .inl (converts.store_eq.symm ▸ converts)
    · have kept : ∀ u, ¬f.Converts v u := not_exists.1 changed
      exact .inr ⟨store_eq_self kept, kept⟩
  · rintro (converts | ⟨rfl, kept⟩)
    · exact converts.store_eq
    · exact store_eq_self kept

end Field

end SkillGraph
