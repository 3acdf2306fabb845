import SkillGraph.Proofs.Except
import SkillGraph.Registry.Basic

/-! Lists of atoms as registries. A list loads exactly if its atoms are faultless and have call names
and tags of their own, whatever their order, and the store then holds these atoms one behind the
other. -/
namespace SkillGraph

namespace Store

theorem atoms_foldl_push (s : Store) (atoms : List Atom) :
    (atoms.foldl push s).atoms = s.atoms ++ atoms := by
  induction atoms generalizing s with
  | nil => exact (List.append_nil s.atoms).symm
  | cons a rest ih =>
    have first : (s.push a).atoms ++ rest = s.atoms ++ a :: rest := List.append_assoc ..
    exact (ih (s.push a)).trans first

theorem names_foldl_push (s : Store) (atoms : List Atom) :
    (atoms.foldl push s).byName.map Prod.fst =
      (atoms.map Atom.name).reverse ++ s.byName.map Prod.fst := by
  induction atoms generalizing s with
  | nil => rfl
  | cons a rest ih =>
    apply (ih (s.push a)).trans
    simp [push, Index.put]

end Store

/-- Atoms that make up a registry: usable ones, with call names and tags of their own. -/
structure Loadable (atoms : List Atom) : Prop where
  faultless : ∀ a ∈ atoms, a.fault? = none
  callNames : (atoms.map Atom.name).Nodup
  tags : (atoms.map Atom.tag).Nodup

namespace Loadable

variable {atoms others : List Atom}

theorem perm (loadable : Loadable atoms) (same : atoms.Perm others) : Loadable others where
  faultless a member := loadable.faultless a (same.mem_iff.2 member)
  callNames := (same.map Atom.name).nodup_iff.1 loadable.callNames
  tags := (same.map Atom.tag).nodup_iff.1 loadable.tags

theorem of_append (loadable : Loadable (atoms ++ others)) : Loadable atoms where
  faultless a member := loadable.faultless a (List.mem_append_left others member)
  callNames := loadable.callNames.sublist ((List.sublist_append_left atoms others).map Atom.name)
  tags := loadable.tags.sublist ((List.sublist_append_left atoms others).map Atom.tag)

end Loadable

namespace Store.Sound

variable {s : Store} {a : Atom}

theorem loadable (sound : s.Sound) : Loadable s.atoms :=
  ⟨sound.faultless, sound.callNames, sound.tags⟩

/-- One more atom is accepted exactly if it is loadable together with those in the store. -/
theorem accepts_iff (sound : s.Sound) : s.refusal? a = none ↔ Loadable (s.atoms ++ [a]) := by
  constructor
  · intro accepted
    exact (sound.push accepted).loadable
  · intro together
    have fresh {key : Atom → String} (distinct : ((s.atoms ++ [a]).map key).Nodup) :
        key a ∉ s.atoms.map key := by
      rw [List.map_append, List.nodup_append] at distinct
      exact fun taken => distinct.2.2 (key a) taken (key a) List.mem_cons_self rfl
    apply sound.refusal?_eq_none_iff.2
    exact ⟨together.faultless a (by simp), fresh together.callNames, fresh together.tags⟩

end Store.Sound

namespace Registry

variable {r t : Registry} {a : Atom} {atoms : List Atom}

theorem register_eq_ok_iff :
    r.register a = .ok t ↔ r.refusal? a = none ∧ r.push a = t.toStore := by
  have ran := Store.run_register a r.toStore
  unfold register
  split
  case h_1 kept _ _ done _ =>
    rw [done] at ran
    cases accepted : r.refusal? a with
    | some e => simp [accepted] at ran
    | none =>
      obtain ⟨-, rfl⟩ := EStateM.Result.ok.inj (accepted ▸ ran)
      simp [Registry.ext_iff]
  case h_2 failed _ =>
    rw [failed] at ran
    cases accepted : r.refusal? a with
    | some e => simp
    | none => simp [accepted] at ran

theorem registerAll_cons :
    r.registerAll (a :: atoms) = (r.register a >>= fun s => s.registerAll atoms) :=
  List.foldlM_cons

theorem registerAll_eq_ok_iff :
    r.registerAll atoms = .ok t ↔
      Loadable (r.atoms ++ atoms) ∧ atoms.foldl Store.push r.toStore = t.toStore := by
  induction atoms generalizing r with
  | nil =>
    have kept : r.registerAll [] = .ok r := rfl
    simp [kept, r.sound.loadable, Registry.ext_iff]
  | cons a rest ih =>
    have regroup : (r.atoms ++ [a]) ++ rest = r.atoms ++ a :: rest := List.append_assoc ..
    rw [registerAll_cons, bind_eq_ok_iff]
    constructor
    · rintro ⟨s, first, others⟩
      obtain ⟨-, added⟩ := register_eq_ok_iff.1 first
      obtain ⟨loadable, held⟩ := ih.1 others
      rw [← added] at loadable held
      exact ⟨regroup ▸ loadable, held⟩
    · rintro ⟨loadable, held⟩
      rw [← regroup] at loadable
      have accepted := r.sound.accepts_iff.2 loadable.of_append
      let s : Registry := ⟨r.push a, r.sound.push accepted⟩
      exact ⟨s, register_eq_ok_iff.2 ⟨accepted, rfl⟩, ih.2 ⟨loadable, held⟩⟩

theorem ofAtoms_eq_ok_iff :
    ofAtoms atoms = .ok t ↔ Loadable atoms ∧ atoms.foldl Store.push {} = t.toStore :=
  registerAll_eq_ok_iff

theorem exists_ofAtoms_iff : (∃ r, ofAtoms atoms = .ok r) ↔ Loadable atoms := by
  constructor
  · rintro ⟨r, loaded⟩
    exact (ofAtoms_eq_ok_iff.1 loaded).1
  · intro loadable
    have sound : (atoms.foldl Store.push {}).Sound :=
      Store.sound_empty.foldl_push loadable.faultless loadable.callNames loadable.tags
    exact ⟨⟨_, sound⟩, ofAtoms_eq_ok_iff.2 ⟨loadable, rfl⟩⟩

end Registry

end SkillGraph
