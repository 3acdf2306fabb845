import SkillGraph.Registry.Store

/-! Registries: the atoms an expression may call. An atom is found by its call name and by its tag,
so a registry holds only faultless atoms with names and tags of their own. -/
namespace SkillGraph

structure Registry extends Store where
  sound : toStore.Sound

namespace Registry

@[ext] theorem ext {r s : Registry} (h : r.toStore = s.toStore) : r = s := by
  cases r; cases s; cases h; rfl

def empty : Registry := ⟨{}, Store.sound_empty⟩

instance : Inhabited Registry := ⟨empty⟩

def register (r : Registry) (a : Atom) : Except RegistryError Registry :=
  match (Store.register a).run r.toStore, r.sound.register a with
  | .ok _ s, sound => .ok ⟨s, sound⟩
  | .error e _, _ => .error e

def registerAll (r : Registry) (atoms : List Atom) : Except RegistryError Registry :=
  atoms.foldlM register r

def ofAtoms (atoms : List Atom) : Except RegistryError Registry := empty.registerAll atoms

def read (text : String) : Except RegistryError Registry :=
  match readTable? text with
  | some atoms => ofAtoms atoms
  | none => .error .unreadableTable

theorem atomCalled?_eq_some_iff {r : Registry} {name : String} {a : Atom} :
    r.atomCalled? name = some a ↔ a ∈ r.atoms ∧ a.name = name := r.sound.atomCalled?_eq_some_iff

theorem atomTagged?_eq_some_iff {r : Registry} {tag : String} {a : Atom} :
    r.atomTagged? tag = some a ↔ a ∈ r.atoms ∧ a.tag = tag := r.sound.atomTagged?_eq_some_iff

theorem isCallName_eq (r : Registry) (name : String) :
    r.isCallName name = (r.atomCalled? name).isSome := r.sound.isCallName_eq name

def sorted (r : Registry) : List Atom := r.atoms.mergeSort fun a b => a.name ≤ b.name

end Registry

end SkillGraph
