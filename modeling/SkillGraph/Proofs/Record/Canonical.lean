import SkillGraph.Proofs.Except
import SkillGraph.Proofs.Record.Roundtrip

/-! What the reader of records lets through. Whatever it reads is unambiguous and has no text that
would be taken for a number, so that writing it gives a record that reads back and that writing and
reading no longer change. -/
namespace SkillGraph

structure Value.Clean (v : Value) : Prop where
  clear : v.unambiguous = true
  plain : ∀ s ∈ v.texts, s ∉ Record.numberWords

namespace Record

theorem notMem_numberWords {s : String} (word : specialNumber? s = none) : s ∉ numberWords := by
  intro member
  have special : ∀ s ∈ numberWords, (specialNumber? s).isSome = true := by decide
  have some := special s member
  rw [word] at some
  cases some

namespace Members

variable {members : Members} {tag name : String} {n : Node} {fields : List (String × Value)}

def Clean (members : Members) : Prop := ∀ p ∈ members, ∀ v, p.2.value = .ok v → v.Clean

theorem mem_of_stated? {m : Member} (stated : members.stated? name = some m) :
    (name, m) ∈ members := by
  have found := (Option.filter_eq_some_iff.1 stated).1
  obtain ⟨front, back, rfl, -⟩ := List.lookup_eq_some_iff.1 found
  simp

theorem clean_of_operand (clean : members.Clean) (read : members.operand tag name = .ok n) :
    (Value.node n).Clean := by
  unfold operand at read
  split at read
  · cases read
  case h_2 stated =>
    cases read
    exact clean _ (mem_of_stated? stated) _ rfl
  · cases read
  · cases read

theorem clean_of_operation {group : OpGroup} (clean : members.Clean)
    (read : members.operation tag group = .ok n) : (Value.node n).Clean := by
  obtain ⟨left, low, read⟩ := bind_eq_ok_iff.1 read
  obtain ⟨code, -, read⟩ := bind_eq_ok_iff.1 read
  obtain ⟨right, high, read⟩ := bind_eq_ok_iff.1 read
  cases read
  have first := clean_of_operand clean low
  have second := clean_of_operand clean high
  constructor
  · exact Bool.and_eq_true_iff.2 ⟨first.clear, second.clear⟩
  · intro s member
    exact (List.mem_append.1 member).elim (first.plain s) (second.plain s)

theorem cases_of_fields_cons {p : String × Member} {rest : Members}
    (read : Members.fields (p :: rest) = .ok fields) :
    rest.fields = .ok fields ∨ p.1 ≠ className ∧
      ∃ v more, p.2.value = .ok v ∧ rest.fields = .ok more ∧ (p.1, v) :: more = fields := by
  obtain ⟨name, m⟩ := p
  unfold Members.fields at read ⊢
  rw [List.filter_cons] at read
  dsimp only at read
  split at read
  case isFalse => exact .inl read
  case isTrue kept =>
    have field : name ≠ className := by
      rw [Bool.and_eq_true, decide_eq_true_eq] at kept
      exact kept.1
    rw [List.mapM_cons] at read
    obtain ⟨first, mapped, read⟩ := bind_eq_ok_iff.1 read
    obtain ⟨v, value, rfl⟩ := map_eq_ok_iff.1 mapped
    obtain ⟨more, later, read⟩ := bind_eq_ok_iff.1 read
    exact .inr ⟨field, v, more, value, later, Except.ok.inj read⟩

/-- The fields of a call are clean, and their keys are names of members other than the tag. -/
theorem of_fields (clean : members.Clean) (read : members.fields = .ok fields) :
    fieldsUnambiguous fields = true ∧ (∀ s ∈ fieldTexts fields, s ∉ numberWords) ∧
      (fields.map Prod.fst).Sublist (members.map Prod.fst) ∧
      className ∉ fields.map Prod.fst := by
  induction members generalizing fields with
  | nil =>
    cases read
    exact ⟨rfl, nofun, .slnil, List.not_mem_nil⟩
  | cons p rest ih =>
    have others : Members.Clean rest := fun q member => clean q (List.mem_cons_of_mem p member)
    rcases cases_of_fields_cons read with later | ⟨field, v, more, value, later, rfl⟩
    · obtain ⟨clear, plain, within, apart⟩ := ih others later
      exact ⟨clear, plain, within.cons p.1, apart⟩
    · obtain ⟨clear, plain, within, apart⟩ := ih others later
      have first := clean p List.mem_cons_self v value
      refine ⟨Bool.and_eq_true_iff.2 ⟨first.clear, clear⟩, ?_, within.cons_cons p.1, ?_⟩
      · intro s member
        exact (List.mem_append.1 member).elim (first.plain s) (plain s)
      · intro member
        exact (List.mem_cons.1 member).elim field.symm apart

/-- A constant has the stated number, and the key if it is a string. -/
theorem exists_number_of_constant (read : members.constant = .ok n) :
    ∃ x, (∀ m, members.stated? "Constant" = some m → readNumber m.json = .ok x) ∧
      n = .constant x (((members.stated? "ConstantKey").bind (·.json.string?)).getD "") := by
  unfold constant at read
  split at read
  case h_1 m stated =>
    obtain ⟨x, number, built⟩ := bind_eq_ok_iff.1 read
    refine ⟨x, fun m' stated' => ?_, (Except.ok.inj built).symm⟩
    rw [stated] at stated'
    rwa [← Option.some.inj stated']
  case h_2 absent =>
    refine ⟨0.0, fun m stated => ?_, (Except.ok.inj read).symm⟩
    rw [absent] at stated
    cases stated

theorem clean_of_node (clean : members.Clean) (distinct : (members.map Prod.fst).Nodup)
    (read : members.node = .ok n) : (Value.node n).Clean := by
  unfold node at read
  split at read
  · cases read
  case h_2 tag _ =>
    split at read
    · obtain ⟨x, -, rfl⟩ := exists_number_of_constant read
      exact ⟨rfl, nofun⟩
    · cases read
      exact ⟨rfl, nofun⟩
    · obtain ⟨operand, inside, rfl⟩ := map_eq_ok_iff.1 read
      have fine := clean_of_operand clean inside
      exact ⟨fine.clear, fine.plain⟩
    · obtain ⟨operand, inside, rfl⟩ := map_eq_ok_iff.1 read
      have fine := clean_of_operand clean inside
      exact ⟨fine.clear, fine.plain⟩
    · exact clean_of_operation clean read
    · exact clean_of_operation clean read
    · exact clean_of_operation clean read
    case h_8 =>
      obtain ⟨fields, inside, rfl⟩ := map_eq_ok_iff.1 read
      obtain ⟨clear, plain, within, apart⟩ := of_fields clean inside
      have other : tag ∉ Node.builtinTags := by
        simp_all [Node.builtinTags]
      have keys : (className :: fields.map Prod.fst).Nodup :=
        List.nodup_cons.2 ⟨apart, distinct.sublist within⟩
      refine ⟨?_, plain⟩
      simp only [Value.unambiguous, Node.unambiguous, Bool.and_eq_true, decide_eq_true_eq]
      exact ⟨⟨other, keys⟩, clear⟩

theorem readMembers_eq_map (members : List (String × Json)) :
    readMembers members = members.map fun p => (p.1, ⟨p.2, readValue p.2⟩) := by
  induction members with
  | nil => rfl
  | cons first rest ih => rw [readMembers, List.map_cons, ih]

theorem map_fst_readMembers (members : List (String × Json)) :
    (readMembers members).map Prod.fst = members.map Prod.fst := by
  rw [readMembers_eq_map, List.map_map]
  rfl

end Members

theorem cases_of_readItems_cons {item : Json} {rest : List Json} {values : List Value}
    (read : readItems (item :: rest) = .ok values) :
    (item.isNull = true ∧ readItems rest = .ok values) ∨
      ∃ v more, readValue item = .ok v ∧ readItems rest = .ok more ∧ v :: more = values := by
  cases item with
  | null => exact .inl ⟨rfl, read⟩
  | _ =>
    rw [readItems] at read
    · obtain ⟨v, value, read⟩ := bind_eq_ok_iff.1 read
      obtain ⟨more, later, read⟩ := bind_eq_ok_iff.1 read
      exact .inr ⟨v, more, value, later, Except.ok.inj read⟩
    · intro null
      cases null

mutual

/-- What is read from a value without repeated members is clean. -/
theorem clean_of_readValue (json : Json) (distinct : json.distinct = true) {v : Value}
    (read : readValue json = .ok v) : v.Clean := by
  match json with
  | .null => cases read
  | .bool b =>
    cases read
    exact ⟨rfl, nofun⟩
  | .number n =>
    cases read
    exact ⟨rfl, nofun⟩
  | .string s =>
    cases read
    cases word : specialNumber? s with
    | some x => exact ⟨rfl, nofun⟩
    | none =>
      refine ⟨rfl, fun t member => ?_⟩
      rw [List.mem_singleton.1 member]
      exact notMem_numberWords word
  | .array items =>
    obtain ⟨values, inside, rfl⟩ := map_eq_ok_iff.1 read
    have fine := clean_of_readItems items distinct inside
    exact ⟨fine.1, fine.2⟩
  | .object members =>
    obtain ⟨n, inside, rfl⟩ := map_eq_ok_iff.1 read
    obtain ⟨apart, others⟩ :
        (members.map Prod.fst).Nodup ∧ Json.membersDistinct members = true := by
      simpa [Json.distinct] using distinct
    have fine := clean_of_readMembers members others
    exact Members.clean_of_node fine (by rwa [Members.map_fst_readMembers]) inside

theorem clean_of_readItems (items : List Json) (distinct : Json.itemsDistinct items = true)
    {values : List Value} (read : readItems items = .ok values) :
    itemsUnambiguous values = true ∧ ∀ s ∈ itemTexts values, s ∉ numberWords := by
  match items with
  | [] =>
    cases read
    exact ⟨rfl, nofun⟩
  | item :: rest =>
    obtain ⟨here, later⟩ : item.distinct = true ∧ Json.itemsDistinct rest = true := by
      simpa [Json.itemsDistinct] using distinct
    rcases cases_of_readItems_cons read with ⟨-, others⟩ | ⟨v, more, value, others, rfl⟩
    · exact clean_of_readItems rest later others
    · have first := clean_of_readValue item here value
      obtain ⟨clear, plain⟩ := clean_of_readItems rest later others
      refine ⟨Bool.and_eq_true_iff.2 ⟨first.clear, clear⟩, ?_⟩
      intro s member
      exact (List.mem_append.1 member).elim (first.plain s) (plain s)

theorem clean_of_readMembers (members : List (String × Json))
    (distinct : Json.membersDistinct members = true) : (readMembers members).Clean := by
  match members with
  | [] => exact nofun
  | (name, json) :: rest =>
    obtain ⟨here, later⟩ : json.distinct = true ∧ Json.membersDistinct rest = true := by
      simpa [Json.membersDistinct] using distinct
    intro p member v value
    rcases List.mem_cons.1 member with rfl | member
    · exact clean_of_readValue json here value
    · exact clean_of_readMembers rest later p member v value

end

theorem readValue_of_readNode {json : Json} {n : Node} (read : readNode json = .ok n) :
    readValue json = .ok (.node n) := by
  cases json with
  | object members =>
    rw [readValue, show (readMembers members).node = .ok n from read]
    rfl
  | _ => cases read

mutual

/-- The record of a graph does not tell whether its zeros have lost their signs. -/
theorem ofNode_recorded (n : Node) : ofNode n.recorded = ofNode n := by
  match n with
  | .constant x key => rw [Node.recorded, ofNode, ofNode, numberJson_recorded]
  | .boolean b => rfl
  | .negate operand | .not operand =>
    rw [Node.recorded, ofNode, ofNode, ofNode_recorded operand]
  | .operation group code left right =>
    rw [Node.recorded, ofNode, ofNode, ofNode_recorded left, ofNode_recorded right]
  | .call tag fields => rw [Node.recorded, ofNode, ofNode, ofFields_recordedFields fields]

theorem ofValue_recorded (v : Value) : ofValue v.recorded = ofValue v := by
  match v with
  | .number x => exact numberJson_recorded x
  | .bool _ | .text _ => rfl
  | .node n => exact ofNode_recorded n
  | .list items => rw [Value.recorded, ofValue, ofValue, ofItems_recordedItems items]

theorem ofItems_recordedItems (items : List Value) :
    ofItems (recordedItems items) = ofItems items := by
  match items with
  | [] => rfl
  | item :: rest =>
    rw [recordedItems, ofItems, ofItems, ofValue_recorded item, ofItems_recordedItems rest]

theorem ofFields_recordedFields (fields : List (String × Value)) :
    ofFields (recordedFields fields) = ofFields fields := by
  match fields with
  | [] => rfl
  | (key, value) :: rest =>
    rw [recordedFields, ofFields, ofFields, ofValue_recorded value, ofFields_recordedFields rest]

end

end Record

/-- Whatever is read from a JSON value without repeated members comes back from its record, and
writing that gives the same record again. -/
theorem toJson_canonical :
    (∀ (json : Json) (n : Node), json.distinct = true → Node.ofJson json = .ok n →
      Node.ofJson n.toJson = .ok n.recorded ∧ n.agrees n.recorded = true ∧
        n.recorded.toJson = n.toJson) ∧
    ∀ (json : Json) (v : Value), json.distinct = true → Value.ofJson json = .ok v →
      Value.ofJson v.toJson = .ok v.recorded ∧ v.agrees v.recorded = true ∧
        v.recorded.toJson = v.toJson := by
  constructor
  · intro json n distinct read
    have fine := Record.clean_of_readValue json distinct (Record.readValue_of_readNode read)
    refine ⟨Node.ofJson_record fine.clear fine.plain, n.agrees_recorded, ?_⟩
    rw [Node.toJson, Node.toJson, Record.ofNode_recorded]
  · intro json v distinct read
    have fine := Record.clean_of_readValue json distinct read
    refine ⟨Value.ofJson_record fine.clear fine.plain, v.agrees_recorded, ?_⟩
    rw [Value.toJson, Value.toJson, Record.ofValue_recorded]

/-- A repeated member, nulls, a zero with a sign, an integer that is no double, and a word for a
number that is not finite. -/
theorem toJson_canonical_repeated :
    let text := "\x7b\"_ClassName\": \"Skill\", \"A\": 1, \"B\": null, \"A\":" ++
      "[null, -0, 9007199254740993, \"NaN\"]\x7d"
    ∃ json n, Json.read? text = some json ∧ json.distinct = true ∧ Node.ofJson json = .ok n ∧
      Node.ofJson n.toJson = .ok n.recorded ∧ n.agrees n.recorded = true ∧
      n.recorded.toJson = n.toJson := by
  intro text
  have accepted : (Json.read? text).any (fun json => (Node.ofJson json).isOk) = true := by
    decide +kernel
  obtain ⟨json, read, ok⟩ := Option.any_eq_true _ _ |>.1 accepted
  cases found : Node.ofJson json with
  | error e =>
    rw [found] at ok
    cases ok
  | ok n =>
    have distinct := Json.distinct_of_read? read
    exact ⟨json, n, read, distinct, found, toJson_canonical.1 json n distinct found⟩

end SkillGraph
