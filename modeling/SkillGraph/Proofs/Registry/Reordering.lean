import SkillGraph.Compiler
import SkillGraph.Proofs.Registry.Ranking
import SkillGraph.Registry.Help
import SkillGraph.Registry.Standard
import Mathlib

/-! The order of registration. Registries of the same atoms give the same answers, since every
lookup is settled by a name and every list they give out is sorted, and so compilers over them read
and spell alike. -/
namespace SkillGraph

/-- Sorting forgets the order of a list in which no two entries tie. -/
theorem mergeSort_eq_of_perm {α : Type} {le : α → α → Bool} {xs ys : List α}
    (trans : ∀ a b c, le a b → le b c → le a c) (total : ∀ a b, le a b || le b a)
    (untied : ∀ a ∈ xs, ∀ b ∈ xs, le a b → le b a → a = b) (same : xs.Perm ys) :
    xs.mergeSort le = ys.mergeSort le := by
  have sorted := same.symm.trans (List.mergeSort_perm xs le).symm
  apply List.Perm.eq_of_pairwise _ (List.pairwise_mergeSort trans total xs)
    (List.pairwise_mergeSort trans total ys)
    ((List.mergeSort_perm xs le).trans (same.trans (List.mergeSort_perm ys le).symm))
  intro a b ha hb
  exact untied a (List.mem_mergeSort.1 ha) b (same.mem_iff.2 (List.mem_mergeSort.1 hb))

theorem mergeSort_by_eq_of_perm {α : Type} (key : α → String) {xs ys : List α}
    (own : ∀ a ∈ xs, ∀ b ∈ xs, key a = key b → a = b) (same : xs.Perm ys) :
    (xs.mergeSort fun a b => key a ≤ key b) = ys.mergeSort fun a b => key a ≤ key b := by
  apply mergeSort_eq_of_perm _ _ _ same
  · intro a b c first second
    exact decide_eq_true ((of_decide_eq_true first).trans (of_decide_eq_true second))
  · intro a b
    simpa using le_total (key a) (key b)
  · intro a ha b hb forth back
    exact own a ha b hb (le_antisymm (of_decide_eq_true forth) (of_decide_eq_true back))

structure Registry.Reordered (r s : Registry) : Prop where
  atoms : r.atoms.Perm s.atoms
  names : (r.byName.map Prod.fst).Perm (s.byName.map Prod.fst)

namespace Registry.Reordered

variable {r s : Registry}

theorem of_loaded {atoms reordered : List Atom} (same : atoms.Perm reordered)
    (first : Registry.ofAtoms atoms = .ok r) (second : Registry.ofAtoms reordered = .ok s) :
    r.Reordered s := by
  obtain ⟨-, held⟩ := Registry.ofAtoms_eq_ok_iff.1 first
  obtain ⟨-, held'⟩ := Registry.ofAtoms_eq_ok_iff.1 second
  constructor
  · rw [← held, ← held', Store.atoms_foldl_push, Store.atoms_foldl_push]
    exact same
  · rw [← held, ← held', Store.names_foldl_push, Store.names_foldl_push]
    apply List.Perm.append_right
    exact (List.reverse_perm _).trans ((same.map Atom.name).trans (List.reverse_perm _).symm)

theorem atomCalled?_eq (same : r.Reordered s) (name : String) :
    r.atomCalled? name = s.atomCalled? name := by
  apply Option.ext
  intro a
  rw [Registry.atomCalled?_eq_some_iff, Registry.atomCalled?_eq_some_iff, same.atoms.mem_iff]

theorem atomTagged?_eq (same : r.Reordered s) (tag : String) :
    r.atomTagged? tag = s.atomTagged? tag := by
  apply Option.ext
  intro a
  rw [Registry.atomTagged?_eq_some_iff, Registry.atomTagged?_eq_some_iff, same.atoms.mem_iff]

theorem isCallName_eq (same : r.Reordered s) (name : String) :
    r.isCallName name = s.isCallName name := by
  rw [Registry.isCallName_eq, Registry.isCallName_eq, same.atomCalled?_eq]

theorem help?_eq (same : r.Reordered s) (name : String) : r.help? name = s.help? name := by
  rw [Registry.help?, Registry.help?, same.atomCalled?_eq, same.atomTagged?_eq]

theorem sorted_eq (same : r.Reordered s) : r.sorted = s.sorted := by
  apply mergeSort_by_eq_of_perm Atom.name _ same.atoms
  intro a ha b hb
  exact eq_of_mem_of_map_eq r.sound.callNames ha hb

theorem summaries_eq (same : r.Reordered s) (category : Option String) :
    r.summaries category = s.summaries category := by
  rw [Registry.summaries, Registry.summaries, same.sorted_eq]

theorem categories_eq (same : r.Reordered s) : r.categories = s.categories := by
  have used := (same.atoms.map Atom.category).filter (· ≠ "")
  have sorted := mergeSort_by_eq_of_perm (fun category => category) (fun _ _ _ _ alike => alike) used
  exact congrArg List.eraseReps sorted

theorem suggestions_eq (same : r.Reordered s) (name : String) :
    r.suggestions name = s.suggestions name := by
  rw [suggestions_eq_mergeSort, suggestions_eq_mergeSort]
  exact mergeSort_eq_of_perm (Similarity.goesBefore_trans name) (Similarity.goesBefore_total name)
    (fun _ _ _ _ => Similarity.eq_of_goesBefore) (same.names.filter _)

end Registry.Reordered

section Compilers

variable {r s : Registry}

mutual

theorem Node.spell_reordered (same : r.Reordered s) (n : Node) : n.spell r = n.spell s := by
  match n with
  | .constant .. | .boolean _ => rfl
  | .negate operand | .not operand =>
    rw [Node.spell, Node.spell, operand.spell_reordered same]
  | .operation group code left right =>
    rw [Node.spell, Node.spell, left.spell_reordered same, right.spell_reordered same]
  | .call tag fields =>
    rw [Node.spell, Node.spell, spellCall, spellCall, same.atomTagged?_eq,
      spellFields_reordered same fields]

theorem Value.spell_reordered (same : r.Reordered s) (v : Value) : v.spell r = v.spell s := by
  match v with
  | .number _ | .bool _ | .text _ => rfl
  | .node n => exact n.spell_reordered same
  | .list items => rw [Value.spell, Value.spell, spellItems_reordered same items]

theorem spellItems_reordered (same : r.Reordered s) (items : List Value) :
    spellItems r items = spellItems s items := by
  match items with
  | [] => rfl
  | item :: rest =>
    rw [spellItems, spellItems, item.spell_reordered same, spellItems_reordered same rest]

theorem spellFields_reordered (same : r.Reordered s) (fields : List (String × Value)) :
    spellFields r fields = spellFields s fields := by
  match fields with
  | [] => rfl
  | (key, .list items) :: rest =>
    rw [spellFields, spellFields, spellItems_reordered same items, spellFields_reordered same rest]
  | (key, .number _) :: rest | (key, .bool _) :: rest | (key, .text _) :: rest =>
    simp only [spellFields, Value.spell, spellFields_reordered same rest]
  | (key, .node n) :: rest =>
    simp only [spellFields, Value.spell, n.spell_reordered same, spellFields_reordered same rest]

end

theorem Program.convert_reordered (same : r.Reordered s) (previous : Option Token)
    (pending : List Pending) (tokens : List Token) :
    convert r previous pending tokens = convert s previous pending tokens := by
  have steps : step r = step s := by
    funext previous pending token
    cases token with
    | word text => rw [step, step, same.isCallName_eq]
    | _ => rfl
  induction tokens generalizing previous pending with
  | nil => rfl
  | cons token rest ih =>
    rw [convert, convert, steps]
    simp only [ih]

theorem Machine.step_reordered (same : r.Reordered s) (red : Reduction) :
    step r red = step s red := by
  funext stack instruction
  cases instruction with
  | call name =>
    have applied : applyCall r name stack = applyCall s name stack := by
      unfold applyCall
      rw [same.atomCalled?_eq]
    rw [step, step, applied]
  | _ => rfl

theorem Machine.result_reordered (same : r.Reordered s) : result r = result s := by
  have shown (item : Item) : item.shown r = item.shown s := by
    match item with
    | .marker | .value (.text _) | .value (.number _) | .value (.bool _) => rfl
    | .value (.node n) => exact n.spell_reordered same
    | .value (.list items) => exact (Value.list items).spell_reordered same
  have left (items : List Item) : leftover r items = leftover s items := by
    simp only [leftover, shown, same.suggestions_eq]
  funext stack
  match stack with
  | [] | [.value _] | [.marker] => rfl
  | _ :: _ :: _ => simp only [result, left]

theorem Program.run_reordered (same : r.Reordered s) (red : Reduction) (program : Program) :
    program.run r red = program.run s red := by
  rw [run, run, Machine.exec, Machine.exec, Machine.step_reordered same,
    Machine.result_reordered same]

/-- An expression has one value over both registries, or fails with one diagnostic. -/
theorem Compiler.parse_reordered (same : r.Reordered s) (red : Reduction) (text : String) :
    Compiler.parse ⟨r, red⟩ text = Compiler.parse ⟨s, red⟩ text := by
  have program (tokens : List Token) : Program.ofTokens r tokens = Program.ofTokens s tokens :=
    Program.convert_reordered same none [] tokens
  simp only [parse, eval, program, Program.run_reordered same]

end Compilers

/-- The order of registration does not matter: atoms load in one order exactly if they load in any
other, and then the registries answer alike whatever is looked up, listed, parsed or spelled. -/
theorem ofAtoms_perm {atoms reordered : List Atom} (same : atoms.Perm reordered) :
    ((∃ r, Registry.ofAtoms atoms = .ok r) ↔ ∃ s, Registry.ofAtoms reordered = .ok s) ∧
    ∀ r s, Registry.ofAtoms atoms = .ok r → Registry.ofAtoms reordered = .ok s →
      (∀ name, r.atomCalled? name = s.atomCalled? name) ∧
      (∀ tag, r.atomTagged? tag = s.atomTagged? tag) ∧
      (∀ name, r.help? name = s.help? name) ∧
      r.sorted = s.sorted ∧
      (∀ category, r.summaries category = s.summaries category) ∧
      r.categories = s.categories ∧
      (∀ name, r.suggestions name = s.suggestions name) ∧
      ∀ red, (∀ text, Compiler.parse ⟨r, red⟩ text = Compiler.parse ⟨s, red⟩ text) ∧
        ∀ v, Compiler.spell ⟨r, red⟩ v = Compiler.spell ⟨s, red⟩ v := by
  constructor
  · rw [Registry.exists_ofAtoms_iff, Registry.exists_ofAtoms_iff]
    exact ⟨fun loadable => loadable.perm same, fun loadable => loadable.perm same.symm⟩
  · intro r s first second
    have alike := Registry.Reordered.of_loaded same first second
    refine ⟨alike.atomCalled?_eq, alike.atomTagged?_eq, alike.help?_eq, alike.sorted_eq,
      alike.summaries_eq, alike.categories_eq, alike.suggestions_eq, ?_⟩
    intro red
    exact ⟨Compiler.parse_reordered alike red, fun v => v.spell_reordered alike⟩

/-- The standard library backwards: another list of atoms, and yet the same suggestions for a name that
is as much like `Max` as like `Min`, and the same diagnostic for a call of it. -/
theorem ofAtoms_perm_backwards :
    ∃ s, Registry.ofAtoms Standard.atoms.reverse = .ok s ∧ s.atoms ≠ Registry.standard.atoms ∧
      s.suggestions "M" = Registry.standard.suggestions "M" ∧
      Compiler.parse ⟨s, .constant⟩ "M(1)" = Compiler.parse ⟨.standard, .constant⟩ "M(1)" := by
  have same : Standard.atoms.Perm Standard.atoms.reverse := (List.reverse_perm _).symm
  have held : Registry.standard.atoms = Standard.atoms := Store.atoms_foldl_push {} Standard.atoms
  have loaded : Registry.ofAtoms Standard.atoms = .ok .standard :=
    Registry.ofAtoms_eq_ok_iff.2 ⟨held ▸ Registry.standard.sound.loadable, rfl⟩
  obtain ⟨s, backwards⟩ := (ofAtoms_perm same).1.1 ⟨_, loaded⟩
  obtain ⟨-, -, -, -, -, -, suggestions, compilers⟩ := (ofAtoms_perm same).2 _ s loaded backwards
  refine ⟨s, backwards, ?_, (suggestions "M").symm, ((compilers .constant).1 "M(1)").symm⟩
  rw [← (Registry.ofAtoms_eq_ok_iff.1 backwards).2, Store.atoms_foldl_push, held]
  decide +kernel

end SkillGraph
