import SkillGraph.Registry.Basic
import Mathlib

/-! What the absence of faults says about an atom. Its name is no literal, its tag belongs to no
built-in node, its fields have keys of their own, and an array field is the last one. -/
namespace SkillGraph

theorem check_eq_none_iff {α : Type} {condition : Prop} [Decidable condition] {fault : α}
    {others : Option α} :
    (if condition then some fault else others) = none ↔ ¬condition ∧ others = none := by
  by_cases found : condition <;> simp [found]

structure Field.Usable (f : Field) : Prop where
  key : f.key ≠ ""
  notTag : f.key ≠ className
  base : f.base.isSome = f.kind.holdsNodes
  rest : f.rest = true → f.kind.isArray = true

theorem Field.fault?_eq_none_iff {f : Field} {index : Nat} {before : List String} {last : Bool} :
    f.fault? index before last = none ↔
      f.Usable ∧ f.key ∉ before ∧ (f.kind.isArray = true → last = true) := by
  have usable : f.Usable ↔ (f.key ≠ "" ∧ f.key ≠ className) ∧
      f.base.isSome = f.kind.holdsNodes ∧ (f.rest = true → f.kind.isArray = true) :=
    ⟨fun ⟨key, notTag, base, rest⟩ => ⟨⟨key, notTag⟩, base, rest⟩,
      fun ⟨⟨key, notTag⟩, base, rest⟩ => ⟨key, notTag, base, rest⟩⟩
  have position : (last = false → f.kind.isArray = false) ↔
      (f.kind.isArray = true → last = true) := by
    cases f.kind.isArray <;> cases last <;> simp
  rw [usable, fault?, check_eq_none_iff, check_eq_none_iff]
  -- A node field without a base and any other field with one are refused at once.
  cases nodes : f.kind.holdsNodes <;> cases base : f.base <;>
    simp [check_eq_none_iff, position, and_assoc, and_comm, and_left_comm]

theorem fieldsFault?_cons_eq_none_iff {before : List String} {f : Field} {rest : List Field} :
    fieldsFault? before (f :: rest) = none ↔
      f.fault? before.length before rest.isEmpty = none ∧
        fieldsFault? (before ++ [f.key]) rest = none := by
  rw [fieldsFault?]
  split <;> simp [*]

/-- The keys of fields are apart from each other, and only the last field is an array. -/
inductive Layout : List Field → Prop where
  | nil : Layout []
  | cons {f : Field} {rest : List Field} (fresh : f.key ∉ rest.map Field.key)
      (last : f.kind.isArray = true → rest = []) (others : Layout rest) : Layout (f :: rest)

theorem layout_cons_iff {f : Field} {rest : List Field} :
    Layout (f :: rest) ↔
      f.key ∉ rest.map Field.key ∧ (f.kind.isArray = true → rest = []) ∧ Layout rest := by
  constructor
  · intro layout
    cases layout with
    | cons fresh last others => exact ⟨fresh, last, others⟩
  · rintro ⟨fresh, last, others⟩
    exact .cons fresh last others

theorem Layout.nodup {fields : List Field} (layout : Layout fields) :
    (fields.map Field.key).Nodup := by
  induction layout with
  | nil => exact List.nodup_nil
  | cons fresh last others ih => exact List.nodup_cons.2 ⟨fresh, ih⟩

/-- Fields are faultless behind others if they are usable, laid out, and repeat no key of those. -/
theorem fieldsFault?_eq_none_iff {before : List String} {fields : List Field} :
    fieldsFault? before fields = none ↔
      (∀ f ∈ fields, f.Usable) ∧ Layout fields ∧ ∀ key ∈ before, key ∉ fields.map Field.key := by
  induction fields generalizing before with
  | nil => simp [fieldsFault?, Layout.nil]
  | cons f rest ih =>
    rw [fieldsFault?_cons_eq_none_iff, Field.fault?_eq_none_iff, ih, List.forall_mem_cons,
      List.isEmpty_iff, List.map_cons]
    constructor
    · rintro ⟨⟨usable, fresh, last⟩, others, layout, apart⟩
      refine ⟨⟨usable, others⟩, .cons (apart f.key (by simp)) last layout, ?_⟩
      intro key member
      rw [List.mem_cons, not_or]
      exact ⟨fun same => fresh (same ▸ member), apart key (List.mem_append_left _ member)⟩
    · rintro ⟨⟨usable, others⟩, layout, apart⟩
      obtain ⟨later, last, layout⟩ := layout_cons_iff.1 layout
      refine ⟨⟨usable, fun member => apart f.key member List.mem_cons_self, last⟩, others, layout,
        ?_⟩
      intro key member
      rcases List.mem_append.1 member with member | member
      · exact fun taken => apart key member (List.mem_cons_of_mem _ taken)
      · rwa [List.mem_singleton.1 member]

theorem isName_iff {name : String} : isName name = true ↔ ∃ c rest, name.toList = c :: rest ∧
    (c.isAlpha = true ∨ c = '_') ∧ ∀ d ∈ rest, d.isAlphanum = true ∨ d = '_' := by
  unfold isName
  split <;> simp [*]

theorem Text.trim_eq_empty_iff {s : String} :
    trim s = "" ↔ ∀ c ∈ s.toList, isBlank c = true := by
  -- What the front has lost begins with a character that the back keeps.
  have ends : (s.toList.dropWhile isBlank).reverse.dropWhile isBlank = [] ↔
      s.toList.dropWhile isBlank = [] := by
    cases left : s.toList.dropWhile isBlank with
    | nil => simp
    | cons c rest =>
      have first : isBlank c = false := by
        simpa [left] using List.head?_dropWhile_not isBlank s.toList
      simp [List.dropWhile_eq_nil_iff, first]
  rw [← List.dropWhile_eq_nil_iff, ← ends, trim, ← String.toList_inj]
  simp

theorem Text.isBlank_eq_false_of_letter {c : Char} (letter : c.isAlpha = true ∨ c = '_') :
    isBlank c = false := by
  rcases letter with letter | rfl
  · have within : 65 ≤ c.toNat ∧ c.toNat ≤ 122 := by
      simp only [Char.isAlpha, Char.isUpper, Char.isLower, Bool.or_eq_true, Bool.and_eq_true,
        decide_eq_true_eq] at letter
      rcases letter with ⟨low, high⟩ | ⟨low, high⟩
      · have : 65 ≤ c.toNat := low
        have : c.toNat ≤ 90 := high
        omega
      · have : 97 ≤ c.toNat := low
        exact ⟨by omega, high⟩
    simp [isBlank, blankRanges, Ranges.holds]
    omega
  · decide

theorem trim_ne_empty_of_isName {name : String} (named : isName name = true) :
    Text.trim name ≠ "" := by
  obtain ⟨c, rest, spelled, letter, -⟩ := isName_iff.1 named
  intro blank
  have first := Text.trim_eq_empty_iff.1 blank c (by simp [spelled])
  rw [Text.isBlank_eq_false_of_letter letter] at first
  cases first

theorem Atom.fault?_eq_none_iff {a : Atom} :
    a.fault? = none ↔ isName a.name = true ∧ a.name ∉ reservedWords ∧ Text.trim a.tag ≠ "" ∧
      a.tag ∉ Node.builtinTags ∧ (∀ f ∈ a.fields, f.Usable) ∧ Layout a.fields := by
  have fields : fieldsFault? [] a.fields = none ↔
      (∀ f ∈ a.fields, f.Usable) ∧ Layout a.fields := by
    simp [fieldsFault?_eq_none_iff]
  have named : (!isName a.name) = true ↔ ¬isName a.name = true := by simp
  simp only [fault?, check_eq_none_iff, fields, named, not_not]
  constructor
  · rintro ⟨-, others⟩
    exact others
  · intro others
    exact ⟨trim_ne_empty_of_isName others.1, others⟩

theorem Atom.of_fault?_eq_none {a : Atom} (faultless : a.fault? = none) :
    isName a.name = true ∧ a.name ∉ reservedWords ∧ Layout a.fields := by
  obtain ⟨named, free, -, -, -, layout⟩ := fault?_eq_none_iff.1 faultless
  exact ⟨named, free, layout⟩

theorem Registry.layout (r : Registry) {a : Atom} (member : a ∈ r.atoms) : Layout a.fields :=
  (Atom.of_fault?_eq_none (r.sound.faultless a member)).2.2

theorem Atom.record_of_fault?_eq_none {a : Atom} (faultless : a.fault? = none) :
    a.tag ∉ Node.builtinTags ∧ className ∉ a.fields.map Field.key := by
  obtain ⟨-, -, -, free, usable, -⟩ := fault?_eq_none_iff.1 faultless
  refine ⟨free, ?_⟩
  intro member
  obtain ⟨f, inside, same⟩ := List.mem_map.1 member
  exact (usable f inside).notTag same

end SkillGraph
