import SkillGraph.Json.Reader
import Mathlib

/-! Merging of repeated members. Where no name is repeated, nothing is merged, and behind a merge no
name is repeated any more, so that the values of texts have no member twice. -/
namespace SkillGraph.Json

variable {α : Type} {name : String} {members found : List (String × α)}

theorem putMember_of_notMem (fresh : name ∉ found.map Prod.fst) (value : α) :
    putMember name value found = found ++ [(name, value)] := by
  induction found with
  | nil => rfl
  | cons member rest ih =>
    obtain ⟨other, later⟩ : name ≠ member.1 ∧ name ∉ rest.map Prod.fst := by simpa using fresh
    rw [putMember, if_neg other.symm, ih later]
    rfl

theorem foldl_putMember_of_nodup (distinct : ((found ++ members).map Prod.fst).Nodup) :
    members.foldl (fun found member => putMember member.1 member.2 found) found =
      found ++ members := by
  induction members generalizing found with
  | nil => simp
  | cons member rest ih =>
    obtain ⟨name, value⟩ := member
    have fresh : name ∉ found.map Prod.fst := by
      rw [List.map_append, List.nodup_append] at distinct
      exact fun taken => distinct.2.2 name taken name List.mem_cons_self rfl
    have next : (found ++ [(name, value)]) ++ rest = found ++ (name, value) :: rest :=
      List.append_assoc ..
    rw [List.foldl_cons, putMember_of_notMem fresh, ih (next ▸ distinct), next]

theorem distinctMembers_of_nodup (distinct : (members.map Prod.fst).Nodup) :
    distinctMembers members = members :=
  foldl_putMember_of_nodup distinct

theorem mem_of_mem_putMember {value : α} {p : String × α}
    (member : p ∈ putMember name value found) : p = (name, value) ∨ p ∈ found := by
  induction found with
  | nil => exact .inl (List.mem_singleton.1 member)
  | cons first rest ih =>
    by_cases same : first.1 = name
    · rw [putMember, if_pos same] at member
      rcases List.mem_cons.1 member with rfl | member
      · exact .inl (same ▸ rfl)
      · exact .inr (List.mem_cons_of_mem first member)
    · rw [putMember, if_neg same] at member
      rcases List.mem_cons.1 member with rfl | member
      · exact .inr List.mem_cons_self
      · exact (ih member).imp_right (List.mem_cons_of_mem first)

theorem map_fst_putMember_of_mem (taken : name ∈ found.map Prod.fst) (value : α) :
    (putMember name value found).map Prod.fst = found.map Prod.fst := by
  induction found with
  | nil => cases taken
  | cons first rest ih =>
    by_cases same : first.1 = name
    · rw [putMember, if_pos same]
      rfl
    · have later : name ∈ rest.map Prod.fst := by
        rcases List.mem_cons.1 taken with here | later
        · exact absurd here.symm same
        · exact later
      rw [putMember, if_neg same, List.map_cons, ih later]
      rfl

theorem nodup_putMember (distinct : (found.map Prod.fst).Nodup) (value : α) :
    ((putMember name value found).map Prod.fst).Nodup := by
  by_cases taken : name ∈ found.map Prod.fst
  · rwa [map_fst_putMember_of_mem taken]
  · rw [putMember_of_notMem taken, List.map_append]
    apply distinct.append (List.nodup_singleton name)
    exact List.disjoint_singleton.2 taken

theorem of_distinctMembers (members : List (String × α)) :
    ((distinctMembers members).map Prod.fst).Nodup ∧
      ∀ p ∈ distinctMembers members, p ∈ members := by
  have go (members found : List (String × α)) (distinct : (found.map Prod.fst).Nodup) :
      let merged := members.foldl (fun found member => putMember member.1 member.2 found) found
      (merged.map Prod.fst).Nodup ∧ ∀ p ∈ merged, p ∈ found ∨ p ∈ members := by
    induction members generalizing found with
    | nil => exact ⟨distinct, fun p member => .inl member⟩
    | cons first rest ih =>
      obtain ⟨apart, inside⟩ := ih _ (nodup_putMember distinct first.2)
      refine ⟨apart, fun p member => ?_⟩
      rcases inside p member with early | late
      · rcases mem_of_mem_putMember early with rfl | early
        · exact .inr List.mem_cons_self
        · exact .inl early
      · exact .inr (List.mem_cons_of_mem first late)
  obtain ⟨apart, inside⟩ := go members [] List.nodup_nil
  exact ⟨apart, fun p member => (inside p member).resolve_left List.not_mem_nil⟩

theorem merged_object {members : List (String × Json)} (inside : mergedMembers members = members)
    (distinct : (members.map Prod.fst).Nodup) : (Json.object members).merged = .object members := by
  rw [merged, inside, distinctMembers_of_nodup distinct]

mutual

def distinct : Json → Bool
  | .array items => itemsDistinct items
  | .object members => (members.map Prod.fst).Nodup && membersDistinct members
  | _ => true

def itemsDistinct : List Json → Bool
  | [] => true
  | item :: rest => item.distinct && itemsDistinct rest

def membersDistinct : List (String × Json) → Bool
  | [] => true
  | (_, value) :: rest => value.distinct && membersDistinct rest

end

theorem membersDistinct_iff {members : List (String × Json)} :
    membersDistinct members = true ↔ ∀ p ∈ members, p.2.distinct = true := by
  induction members with
  | nil => simp [membersDistinct]
  | cons first rest ih => simp [membersDistinct, ih]

mutual

theorem distinct_of_value? (levels : Nat) (syn : Syntax) {json : Json}
    (read : syn.value? levels = some json) : json.distinct = true := by
  match levels, syn with
  | _, .null | _, .bool b =>
    cases read
    rfl
  | _, .number n =>
    obtain ⟨n, -, rfl⟩ := Option.map_eq_some_iff.1 read
    rfl
  | _, .string s =>
    obtain ⟨s, -, rfl⟩ := Option.map_eq_some_iff.1 read
    rfl
  | levels + 1, .array items =>
    obtain ⟨values, inside, rfl⟩ := Option.map_eq_some_iff.1 read
    exact distinct_of_itemValues? levels items inside
  | levels + 1, .object members =>
    obtain ⟨values, inside, rfl⟩ := Option.map_eq_some_iff.1 read
    obtain ⟨apart, kept⟩ := of_distinctMembers values
    have fine := membersDistinct_iff.1 (distinct_of_memberValues? levels members inside)
    rw [distinct, Bool.and_eq_true, decide_eq_true_eq, membersDistinct_iff]
    exact ⟨apart, fun p member => fine p (kept p member)⟩

theorem distinct_of_itemValues? (levels : Nat) (items : List Syntax) {values : List Json}
    (read : Syntax.itemValues? levels items = some values) : itemsDistinct values = true := by
  match items with
  | [] =>
    cases read
    rfl
  | item :: rest =>
    obtain ⟨value, first, read⟩ := Option.bind_eq_some_iff.1 read
    obtain ⟨others, later, read⟩ := Option.bind_eq_some_iff.1 read
    obtain rfl := Option.some.inj read
    simp [itemsDistinct, distinct_of_value? levels item first,
      distinct_of_itemValues? levels rest later]

theorem distinct_of_memberValues? (levels : Nat) (members : List (Option String × Syntax))
    {values : List (String × Json)} (read : Syntax.memberValues? levels members = some values) :
    membersDistinct values = true := by
  match members with
  | [] =>
    cases read
    rfl
  | (name, item) :: rest =>
    obtain ⟨name, -, read⟩ := Option.bind_eq_some_iff.1 read
    obtain ⟨value, first, read⟩ := Option.bind_eq_some_iff.1 read
    obtain ⟨others, later, read⟩ := Option.bind_eq_some_iff.1 read
    obtain rfl := Option.some.inj read
    simp [membersDistinct, distinct_of_value? levels item first,
      distinct_of_memberValues? levels rest later]

end

theorem distinct_of_read? {text : String} {json : Json} (read : read? text = some json) :
    json.distinct = true := by
  obtain ⟨syn, -, read⟩ := Option.bind_eq_some_iff.1 read
  exact distinct_of_value? _ syn read

end SkillGraph.Json
