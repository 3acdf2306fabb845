import SkillGraph.Registry.Store

/-! Runs of registrations. Whatever atoms are offered to an empty store, in whatever order and with
whatever success, its two indices keep in step with its atoms. -/
namespace SkillGraph.Store

/-- The store after an attempt to register an atom, successful or not. -/
def after (s : Store) (a : Atom) : Store :=
  match (register a).run s with
  | .ok _ t | .error _ t => t

/-- An empty store after attempts to register these atoms one after the other. -/
def attempts (history : List Atom) : Store := history.foldl after {}

theorem find?_concat_of_ne {key : Atom → String} {a : Atom} {name : String} (other : name ≠ key a)
    (atoms : List Atom) :
    (atoms ++ [a]).find? (key · = name) = atoms.find? (key · = name) := by
  simp [List.find?_append, other.symm]

namespace Sound

variable {s : Store} {a : Atom}

theorem after (sound : s.Sound) (a : Atom) : (s.after a).Sound := by
  have kept := sound.register a
  unfold Store.after
  split at kept <;> simp [*]

theorem foldl_after (sound : s.Sound) (history : List Atom) :
    (history.foldl Store.after s).Sound := by
  induction history generalizing s with
  | nil => exact sound
  | cons a rest ih => exact ih (sound.after a)

theorem atomCalled?_push (sound : s.Sound) (accepted : s.refusal? a = none) {name : String}
    (other : name ≠ a.name) : (s.push a).atomCalled? name = s.atomCalled? name :=
  calc (s.push a).atomCalled? name
    _ = (s.atoms ++ [a]).find? (·.name = name) := (sound.push accepted).byName.bind_getElem? name
    _ = s.atoms.find? (·.name = name) := find?_concat_of_ne other s.atoms
    _ = s.atomCalled? name := (sound.byName.bind_getElem? name).symm

theorem atomTagged?_push (sound : s.Sound) (accepted : s.refusal? a = none) {tag : String}
    (other : tag ≠ a.tag) : (s.push a).atomTagged? tag = s.atomTagged? tag :=
  calc (s.push a).atomTagged? tag
    _ = (s.atoms ++ [a]).find? (·.tag = tag) := (sound.push accepted).byTag.bind_getElem? tag
    _ = s.atoms.find? (·.tag = tag) := find?_concat_of_ne other s.atoms
    _ = s.atomTagged? tag := (sound.byTag.bind_getElem? tag).symm

theorem isCallName_push (sound : s.Sound) (accepted : s.refusal? a = none) {name : String}
    (other : name ≠ a.name) : (s.push a).isCallName name = s.isCallName name := by
  rw [(sound.push accepted).isCallName_eq, sound.isCallName_eq,
    sound.atomCalled?_push accepted other]

end Sound

/-- After any attempts the lookups answer for exactly the atoms in the store, which are faultless
and have names and tags of their own. One more attempt fails on a faulty atom or on a name or tag
that is taken, and then changes nothing; else the atom is added and lookups of other names stay. -/
theorem attempts_lookups (history : List Atom) :
    let s := attempts history
    (∀ a ∈ s.atoms, a.fault? = none) ∧
    (s.atoms.map Atom.name).Nodup ∧ (s.atoms.map Atom.tag).Nodup ∧
    (∀ name a, s.atomCalled? name = some a ↔ a ∈ s.atoms ∧ a.name = name) ∧
    (∀ tag a, s.atomTagged? tag = some a ↔ a ∈ s.atoms ∧ a.tag = tag) ∧
    (∀ name, s.isCallName name = (s.atomCalled? name).isSome) ∧
    ∀ a,
      let acceptable := a.fault? = none ∧ a.name ∉ s.atoms.map Atom.name ∧
        a.tag ∉ s.atoms.map Atom.tag
      match (register a).run s with
      | .error _ t => ¬acceptable ∧ t = s
      | .ok _ t => acceptable ∧ t.atoms = s.atoms ++ [a] ∧
        (∀ name ≠ a.name, t.atomCalled? name = s.atomCalled? name ∧
          t.isCallName name = s.isCallName name) ∧
        ∀ tag ≠ a.tag, t.atomTagged? tag = s.atomTagged? tag := by
  intro s
  have sound : s.Sound := sound_empty.foldl_after history
  refine ⟨sound.faultless, sound.callNames, sound.tags, fun _ _ => sound.atomCalled?_eq_some_iff,
    fun _ _ => sound.atomTagged?_eq_some_iff, sound.isCallName_eq, ?_⟩
  intro a acceptable
  rw [run_register]
  cases accepted : s.refusal? a with
  | some e =>
    refine ⟨fun fine => ?_, rfl⟩
    rw [sound.refusal?_eq_none_iff.2 fine] at accepted
    cases accepted
  | none =>
    refine ⟨sound.refusal?_eq_none_iff.1 accepted, rfl, ?_, ?_⟩
    · intro name other
      exact ⟨sound.atomCalled?_push accepted other, sound.isCallName_push accepted other⟩
    · intro tag other
      exact sound.atomTagged?_push accepted other

end SkillGraph.Store
