import SkillGraph.Proofs.Json.Text
import SkillGraph.Proofs.Registry.Attempts
import SkillGraph.Proofs.Registry.Loading

/-! Tables of atoms as JSON. A table is read back from its text with all parts of every atom, left
out or not, and the table of a registry loads as that registry. -/
namespace SkillGraph

open Json

theorem Json.Syntax.list?_spread {α : Type} {write : α → Json} {read : Syntax → Option α}
    (same : ∀ a, read (write a).spread = some a) (xs : List α) :
    list? read (.array (itemsSpread (xs.map write))) = some xs := by
  have items : (itemsSpread (xs.map write)).mapM read = some xs := by
    induction xs with
    | nil => rfl
    | cons x xs ih => simp [itemsSpread, same, ih]
  exact items

theorem Field.read_spread (f : Field) : Syntax.field? f.toJson.spread = some f := by
  obtain ⟨key, kind, base, optional, rest, description⟩ := f
  cases base <;> by_cases prose : description = "" <;>
    simp [toJson, proseMember, prose, spread, membersSpread, Syntax.field?, Syntax.form?,
      Form.required, Form.nullable, Form.defaulted, Form.only?, Syntax.string?, Syntax.bool?,
      Syntax.kind?, Syntax.family?, Syntax.choice?, Kind.ofName?_name, Family.ofName?_name]

theorem Atom.read_spread (a : Atom) : Syntax.atom? a.toJson.spread = some a := by
  obtain ⟨name, tag, fields, description, category⟩ := a
  have fieldsRead := Syntax.list?_spread Field.read_spread fields
  by_cases prose : description = "" <;> by_cases grouped : category = "" <;>
    simp [toJson, proseMember, prose, grouped, spread, membersSpread, Syntax.atom?, Syntax.form?,
      Form.required, Form.defaulted, Form.only?, Syntax.string?, fieldsRead]

theorem read_tableJson (atoms : List Atom) :
    Syntax.table? (tableJson atoms).spread = some atoms := by
  have atomsRead := Syntax.list?_spread Atom.read_spread atoms
  simp [tableJson, spread, membersSpread, Syntax.table?, Syntax.form?, Form.required, Form.only?,
    atomsRead]

theorem readsBack_proseMember (name text : String) :
    ∀ m ∈ proseMember name text, ReadsBack m.2 := by
  intro m member
  unfold proseMember at member
  split_ifs at member
  · cases member
  · obtain rfl := List.mem_singleton.1 member
    exact .string text

theorem Field.readsBack (f : Field) : f.toJson.ReadsBack := by
  apply ReadsBack.object
  have prose := readsBack_proseMember "description" f.description
  simp only [List.forall_mem_append, List.forall_mem_cons]
  refine ⟨⟨⟨⟨.string _, .string _, by simp⟩, ?_⟩, .bool _, .bool _, by simp⟩, prose⟩
  cases f.base with
  | none => exact fun m member => absurd member List.not_mem_nil
  | some base => exact List.forall_mem_singleton.2 (.string base.name)

theorem Atom.readsBack (a : Atom) : a.toJson.ReadsBack := by
  apply ReadsBack.object
  have fields : (Json.array (a.fields.map Field.toJson)).ReadsBack :=
    .array (List.forall_mem_map.2 fun f _ => f.readsBack)
  have prose := readsBack_proseMember "description" a.description
  have group := readsBack_proseMember "category" a.category
  simp only [List.forall_mem_append, List.forall_mem_cons]
  exact ⟨⟨⟨.string _, .string _, fields, by simp⟩, prose⟩, group⟩

theorem readTable?_write (atoms : List Atom) : readTable? (tableJson atoms).write = some atoms := by
  have list : (Json.array (atoms.map Atom.toJson)).ReadsBack :=
    .array (List.forall_mem_map.2 fun a _ => a.readsBack)
  have reads : (tableJson atoms).ReadsBack := .object (by simpa using list)
  rw [readTable?, reads.read?]
  exact read_tableJson atoms

namespace Store

/-- Whatever was attempted, the indices of a store are those of its atoms added in their order. -/
theorem foldl_push_attempts (history : List Atom) :
    (attempts history).atoms.foldl push {} = attempts history := by
  have go (s : Store) (built : s.atoms.foldl push {} = s) :
      (history.foldl after s).atoms.foldl push {} = history.foldl after s := by
    induction history generalizing s with
    | nil => exact built
    | cons a rest ih =>
      apply ih
      unfold after
      rw [run_register]
      cases s.refusal? a with
      | some e => exact built
      | none => exact List.foldl_append.trans (congrArg (push · a) built)
  exact go {} rfl

/-- The table of a registry, written as JSON text, loads as the very registry: the same atoms in the
same order, found under the same names and tags. -/
theorem read_toJson_attempts (history : List Atom) :
    ∃ r, Registry.read (attempts history).toJson.write = .ok r ∧ r.toStore = attempts history := by
  have sound : (attempts history).Sound := sound_empty.foldl_after history
  refine ⟨⟨attempts history, sound⟩, ?_, rfl⟩
  rw [Registry.read, toJson, readTable?_write]
  exact Registry.ofAtoms_eq_ok_iff.2 ⟨sound.loadable, foldl_push_attempts history⟩

end Store

end SkillGraph
