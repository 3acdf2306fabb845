import SkillGraph.Atom.Fault
import SkillGraph.Atom.Table
import SkillGraph.Cause

/-! The store of a registry: its atoms in the order of their registration, and an index of their
positions by call name and another by tag. A registration checks the atom and both indices before
it updates the three parts one after the other. -/
namespace SkillGraph

inductive RegistryError where
  | unreadableFile
  | unreadableTable
  | faultyAtom (a : Atom) (fault : AtomFault)
  | repeatedCallName (name : String)
  | repeatedTag (tag : String)
  deriving DecidableEq, Repr

/-- Errors of the file system and of the JSON text have no wording of their own. -/
def RegistryError.message : RegistryError → String
  | .unreadableFile => "failed to read atom table"
  | .unreadableTable => "invalid atom table JSON"
  | .faultyAtom a fault => "atom '" ++ a.name ++ "': " ++ fault.reason a
  | .repeatedCallName name => "call name '" ++ name ++ "' is registered twice"
  | .repeatedTag tag => "wire tag '" ++ tag ++ "' is registered twice"

def RegistryError.cause (e : RegistryError) : Cause := .registryInvalid e.message

/-- Positions by name. Of two entries for a name the newer one, which comes first, counts. -/
abbrev Index := List (String × Nat)

namespace Index

def has (index : Index) (name : String) : Bool := (index.lookup name).isSome

def put (index : Index) (name : String) (position : Nat) : Index := (name, position) :: index

end Index

structure Store where
  atoms : List Atom := []
  byName : Index := []
  byTag : Index := []

namespace Store

def size (s : Store) : Nat := s.atoms.length

def atomCalled? (s : Store) (name : String) : Option Atom :=
  (s.byName.lookup name).bind fun i => s.atoms[i]?

def atomTagged? (s : Store) (tag : String) : Option Atom :=
  (s.byTag.lookup tag).bind fun i => s.atoms[i]?

def isCallName (s : Store) (name : String) : Bool := s.byName.has name

def toJson (s : Store) : Json := tableJson s.atoms

/-- Adds an atom behind the others. What was written before an error stays written. -/
def register (a : Atom) : EStateM RegistryError Store Unit := do
  if let some fault := a.fault? then throw (.faultyAtom a fault)
  if (← get).byName.has a.name then throw (.repeatedCallName a.name)
  if (← get).byTag.has a.tag then throw (.repeatedTag a.tag)
  let position := (← get).atoms.length
  modify fun s => { s with byName := s.byName.put a.name position }
  modify fun s => { s with byTag := s.byTag.put a.tag position }
  modify fun s => { s with atoms := s.atoms ++ [a] }

/-- Why an atom is refused: for a fault of its own, else for its call name, else for its tag. -/
def refusal? (s : Store) (a : Atom) : Option RegistryError :=
  match a.fault? with
  | some fault => some (.faultyAtom a fault)
  | none =>
    if s.byName.has a.name then some (.repeatedCallName a.name)
    else if s.byTag.has a.tag then some (.repeatedTag a.tag)
    else none

def push (s : Store) (a : Atom) : Store where
  atoms := s.atoms ++ [a]
  byName := s.byName.put a.name s.atoms.length
  byTag := s.byTag.put a.tag s.atoms.length

/-- All checks come before the first update, so a refusal changes nothing. -/
theorem run_register (a : Atom) (s : Store) : (register a).run s =
    match s.refusal? a with
    | some e => .error e s
    | none => .ok () (s.push a) := by
  cases fault : a.fault? with
  | some f => simp [register, refusal?, fault]
  | none =>
    cases name : s.byName.has a.name with
    | true => simp [register, refusal?, fault, name]
    | false => cases tag : s.byTag.has a.tag <;> simp [register, refusal?, push, fault, name, tag]

end Store

/-- Whether an index gives for each name the position of the first atom that has it. -/
def Index.Finds (index : Index) (key : Atom → String) (atoms : List Atom) : Prop :=
  ∀ name, index.lookup name = atoms.findIdx? (key · = name)

namespace Index.Finds

variable {index : Index} {key : Atom → String} {atoms : List Atom}

theorem has_iff (finds : index.Finds key atoms) {name : String} :
    index.has name = true ↔ name ∈ atoms.map key := by
  rw [has, finds name, List.findIdx?_isSome, List.any_eq_true]
  simp

theorem put (finds : index.Finds key atoms) {a : Atom} (fresh : key a ∉ atoms.map key) :
    (index.put (key a) atoms.length).Finds key (atoms ++ [a]) := by
  intro name
  rw [Index.put, List.lookup_cons, List.findIdx?_append]
  by_cases same : name = key a
  · subst same
    have absent : atoms.findIdx? (key · = key a) = none := by
      rw [List.findIdx?_eq_none_iff]
      intro b member
      exact decide_eq_false fun same => fresh (same ▸ List.mem_map_of_mem member)
    simp [absent]
  · have unlike : (name == key a) = false := beq_false_of_ne same
    simp [unlike, Ne.symm same, finds name]

theorem bind_getElem? (finds : index.Finds key atoms) (name : String) :
    ((index.lookup name).bind fun i => atoms[i]?) = atoms.find? (key · = name) := by
  rw [finds name, List.find?_eq_bind_findIdx?_getElem?]

end Index.Finds

theorem eq_of_mem_of_map_eq {α β : Type} {f : α → β} {xs : List α} (distinct : (xs.map f).Nodup)
    {x y : α} (hx : x ∈ xs) (hy : y ∈ xs) (h : f x = f y) : x = y := by
  induction xs with
  | nil => cases hx
  | cons z rest ih =>
    obtain ⟨apart, distinct⟩ := List.nodup_cons.1 distinct
    have other {w : α} (hw : w ∈ rest) : f w ≠ f z := fun e => apart (e ▸ List.mem_map_of_mem hw)
    rcases List.mem_cons.1 hx with hx | hx <;> rcases List.mem_cons.1 hy with hy | hy
    · rw [hx, hy]
    · exact absurd (hx ▸ h).symm (other hy)
    · exact absurd (hy ▸ h) (other hx)
    · exact ih distinct hx hy

theorem find?_eq_some_iff_of_nodup {β : Type} [DecidableEq β] {f : Atom → β} {atoms : List Atom}
    (distinct : (atoms.map f).Nodup) {b : β} {a : Atom} :
    atoms.find? (f · = b) = some a ↔ a ∈ atoms ∧ f a = b := by
  constructor
  · intro h
    exact ⟨List.mem_of_find?_eq_some h, by simpa using List.find?_some h⟩
  · rintro ⟨mem, rfl⟩
    cases found : atoms.find? (f · = f a) with
    | none => simp at found; exact absurd rfl (found a mem)
    | some other =>
      have same : f other = f a := by simpa using List.find?_some found
      rw [eq_of_mem_of_map_eq distinct (List.mem_of_find?_eq_some found) mem same]

theorem nodup_map_concat {key : Atom → String} {atoms : List Atom} {a : Atom}
    (distinct : (atoms.map key).Nodup) (fresh : key a ∉ atoms.map key) :
    ((atoms ++ [a]).map key).Nodup := by
  rw [List.map_append, List.nodup_append]
  refine ⟨distinct, by simp, ?_⟩
  rintro x hx y hy rfl
  exact fresh (by simpa [List.mem_singleton.1 hy] using hx)

namespace Store

/-- What holds of a store between registrations: its atoms are usable and each has a call name and a
tag of its own, under which the indices find it. -/
structure Sound (s : Store) : Prop where
  faultless : ∀ a ∈ s.atoms, a.fault? = none
  callNames : (s.atoms.map Atom.name).Nodup
  tags : (s.atoms.map Atom.tag).Nodup
  byName : s.byName.Finds Atom.name s.atoms
  byTag : s.byTag.Finds Atom.tag s.atoms

theorem sound_empty : Sound {} :=
  ⟨by simp, by simp, by simp, fun _ => rfl, fun _ => rfl⟩

namespace Sound

variable {s : Store} {a : Atom}

theorem refusal?_eq_none_iff (sound : s.Sound) :
    s.refusal? a = none ↔
      a.fault? = none ∧ a.name ∉ s.atoms.map Atom.name ∧ a.tag ∉ s.atoms.map Atom.tag := by
  rw [← sound.byName.has_iff, ← sound.byTag.has_iff]
  unfold refusal?
  cases a.fault? with
  | some fault => simp
  | none => cases s.byName.has a.name <;> cases s.byTag.has a.tag <;> simp

theorem push (sound : s.Sound) (accepted : s.refusal? a = none) : (s.push a).Sound := by
  obtain ⟨faultless, name, tag⟩ := sound.refusal?_eq_none_iff.1 accepted
  refine ⟨?_, nodup_map_concat sound.callNames name, nodup_map_concat sound.tags tag,
    sound.byName.put name, sound.byTag.put tag⟩
  intro b member
  rcases List.mem_append.1 member with member | member
  · exact sound.faultless b member
  · rw [List.mem_singleton.1 member, faultless]

theorem foldl_push {atoms : List Atom} (sound : s.Sound)
    (faultless : ∀ a ∈ atoms, a.fault? = none)
    (callNames : ((s.atoms ++ atoms).map Atom.name).Nodup)
    (tags : ((s.atoms ++ atoms).map Atom.tag).Nodup) : (atoms.foldl Store.push s).Sound := by
  induction atoms generalizing s with
  | nil => exact sound
  | cons a rest ih =>
    have fresh {key : Atom → String} (distinct : ((s.atoms ++ a :: rest).map key).Nodup) :
        key a ∉ s.atoms.map key := by
      rw [List.map_append, List.nodup_append] at distinct
      exact fun member => distinct.2.2 (key a) member (key a) (by simp) rfl
    have next : (s.push a).atoms ++ rest = s.atoms ++ a :: rest := List.append_assoc ..
    have accepted := sound.refusal?_eq_none_iff.2
      ⟨faultless a List.mem_cons_self, fresh callNames, fresh tags⟩
    exact ih (sound.push accepted) (fun b member => faultless b (List.mem_cons_of_mem a member))
      (next ▸ callNames) (next ▸ tags)

/-- A registration keeps a store sound, whether it succeeds or not. -/
theorem register (sound : s.Sound) (a : Atom) :
    match (Store.register a).run s with
    | .ok _ t | .error _ t => t.Sound := by
  rw [run_register]
  cases accepted : s.refusal? a with
  | some e => exact sound
  | none => exact sound.push accepted

theorem atomCalled?_eq_some_iff (sound : s.Sound) {name : String} :
    s.atomCalled? name = some a ↔ a ∈ s.atoms ∧ a.name = name := by
  rw [atomCalled?, sound.byName.bind_getElem?, find?_eq_some_iff_of_nodup sound.callNames]

theorem atomTagged?_eq_some_iff (sound : s.Sound) {tag : String} :
    s.atomTagged? tag = some a ↔ a ∈ s.atoms ∧ a.tag = tag := by
  rw [atomTagged?, sound.byTag.bind_getElem?, find?_eq_some_iff_of_nodup sound.tags]

theorem isCallName_eq (sound : s.Sound) (name : String) :
    s.isCallName name = (s.atomCalled? name).isSome := by
  rw [atomCalled?, sound.byName.bind_getElem?, isCallName, Bool.eq_iff_iff, sound.byName.has_iff]
  simp

end Sound

end Store

end SkillGraph
