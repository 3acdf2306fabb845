import SkillGraph.Proofs.Atom.Faultless

/-! The atoms that can be used, described without the checks that find faults. The two agree: no
atom without a fault breaks a rule, and no rule is broken without a fault. -/
namespace SkillGraph

def StartsName (c : Char) : Prop := 'A' ≤ c ∧ c ≤ 'Z' ∨ 'a' ≤ c ∧ c ≤ 'z' ∨ c = '_'

structure Atom.Usable (a : Atom) : Prop where
  name : ∃ c rest, a.name.toList = c :: rest ∧ StartsName c ∧
    ∀ d ∈ rest, StartsName d ∨ '0' ≤ d ∧ d ≤ '9'
  noLiteral : a.name ∉ ["true", "True", "TRUE", "false", "False", "FALSE", "Infinity"]
  tag : ∃ c ∈ a.tag.toList, Text.isBlank c = false
  ownTag : a.tag ∉ ["NumberConst", "BoolConst", "NegateNumber", "NotBool", "ArithmeticOp",
    "LogicalOp", "RelationalOp"]
  keys : ∀ f ∈ a.fields, f.key ≠ "" ∧ f.key ≠ "_ClassName"
  distinct : (a.fields.map Field.key).Nodup
  base : ∀ f ∈ a.fields, f.base.isSome = true ↔ f.kind = .node ∨ f.kind = .nodeArray
  oneArray : a.fields.countP (·.kind = .nodeArray) ≤ 1
  lastArray : ∀ i f, a.fields[i]? = some f → f.kind = .nodeArray → i + 1 = a.fields.length
  rest : ∀ f ∈ a.fields, f.rest = true → f.kind = .nodeArray

theorem isAlpha_or_underscore_iff {c : Char} :
    c.isAlpha = true ∨ c = '_' ↔ StartsName c := by
  simp [Char.isAlpha, Char.isUpper, Char.isLower, Char.le_def, StartsName, or_assoc]

theorem isAlphanum_or_underscore_iff {c : Char} :
    c.isAlphanum = true ∨ c = '_' ↔ StartsName c ∨ '0' ≤ c ∧ c ≤ '9' := by
  rw [← isAlpha_or_underscore_iff]
  simp [Char.isAlphanum, Char.isDigit, Char.le_def, or_right_comm]

theorem Kind.isArray_iff {kind : Kind} : kind.isArray = true ↔ kind = .nodeArray := by
  simp [isArray]

theorem Kind.holdsNodes_iff {kind : Kind} :
    kind.holdsNodes = true ↔ kind = .node ∨ kind = .nodeArray := by
  cases kind <;> simp [holdsNodes]

theorem Field.usable_iff {f : Field} :
    f.Usable ↔ (f.key ≠ "" ∧ f.key ≠ "_ClassName") ∧
      (f.base.isSome = true ↔ f.kind = .node ∨ f.kind = .nodeArray) ∧
      (f.rest = true → f.kind = .nodeArray) := by
  rw [← Kind.holdsNodes_iff, ← Kind.isArray_iff, ← Bool.eq_iff_iff]
  constructor
  · rintro ⟨key, notTag, base, rest⟩
    exact ⟨⟨key, notTag⟩, base, rest⟩
  · rintro ⟨⟨key, notTag⟩, base, rest⟩
    exact ⟨key, notTag, base, rest⟩

theorem layout_iff {fields : List Field} :
    Layout fields ↔ (fields.map Field.key).Nodup ∧
      ∀ i f, fields[i]? = some f → f.kind = .nodeArray → i + 1 = fields.length := by
  induction fields with
  | nil => simp [Layout.nil]
  | cons f rest ih =>
    rw [layout_cons_iff, ih, List.map_cons, List.nodup_cons, Kind.isArray_iff]
    constructor
    · rintro ⟨fresh, last, distinct, others⟩
      refine ⟨⟨fresh, distinct⟩, ?_⟩
      intro i g at_i array
      cases i with
      | zero =>
        obtain rfl : f = g := by simpa using at_i
        simp [last array]
      | succ i => simpa using others i g (by simpa using at_i) array
    · rintro ⟨⟨fresh, distinct⟩, last⟩
      refine ⟨fresh, ?_, distinct, ?_⟩
      · intro array
        simpa using last 0 f rfl array
      · intro i g at_i array
        simpa using last (i + 1) g (by simpa using at_i) array

theorem Layout.countP_le_one {fields : List Field} (layout : Layout fields) :
    fields.countP (·.kind = .nodeArray) ≤ 1 := by
  induction layout with
  | nil => simp
  | @cons f rest _ last _ ih =>
    by_cases array : f.kind = .nodeArray
    · simp [last (Kind.isArray_iff.2 array), array]
    · simpa [List.countP_cons, array] using ih

/-- The atoms without a fault are exactly those that can be used. -/
theorem faultless_iff_usable (a : Atom) : a.fault? = none ↔ a.Usable := by
  have tagged : Text.trim a.tag ≠ "" ↔ ∃ c ∈ a.tag.toList, Text.isBlank c = false := by
    simp [Text.trim_eq_empty_iff]
  rw [Atom.fault?_eq_none_iff, isName_iff, tagged]
  simp only [isAlpha_or_underscore_iff, isAlphanum_or_underscore_iff, Field.usable_iff]
  constructor
  · rintro ⟨name, noLiteral, tag, ownTag, fields, layout⟩
    obtain ⟨distinct, lastArray⟩ := layout_iff.1 layout
    exact {
      name, noLiteral, tag, ownTag, distinct, lastArray
      keys := fun f member => (fields f member).1
      base := fun f member => (fields f member).2.1
      oneArray := layout.countP_le_one
      rest := fun f member => (fields f member).2.2 }
  · intro usable
    have layout := layout_iff.2 ⟨usable.distinct, usable.lastArray⟩
    refine ⟨usable.name, usable.noLiteral, usable.tag, usable.ownTag, ?_, layout⟩
    intro f member
    exact ⟨usable.keys f member, usable.base f member, usable.rest f member⟩

end SkillGraph
