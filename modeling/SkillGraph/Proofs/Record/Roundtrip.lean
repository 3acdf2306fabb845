import SkillGraph.Proofs.Json.Members
import SkillGraph.Proofs.Record.Graphs

/-! Reading back records. The record of an unambiguous graph has no member twice, and the reader
finds in it what the writer put there. -/
namespace SkillGraph

namespace Record

theorem ofNode_eq_object (n : Node) : ∃ members, ofNode n = .object members := by
  cases n <;> exact ⟨_, rfl⟩

theorem isNull_ofNode (n : Node) : (ofNode n).isNull = false := by
  obtain ⟨members, object⟩ := ofNode_eq_object n
  rw [object]
  rfl

theorem isNull_ofValue (v : Value) : (ofValue v).isNull = false := by
  cases v with
  | number x => exact isNull_numberJson x
  | node n => exact isNull_ofNode n
  | _ => rfl

theorem map_fst_ofFields (fields : List (String × Value)) :
    (ofFields fields).map Prod.fst = fields.map Prod.fst := by
  induction fields with
  | nil => rfl
  | cons field rest ih => rw [ofFields, List.map_cons, List.map_cons, ih]

theorem readValue_ofNode (n : Node) : readValue (ofNode n) = (readNode (ofNode n)).map .node := by
  obtain ⟨members, object⟩ := ofNode_eq_object n
  rw [object]
  rfl

theorem readItems_cons {json : Json} {rest : List Json} {v : Value} {vs : List Value}
    (stated : json.isNull = false) (first : readValue json = .ok v)
    (others : readItems rest = .ok vs) : readItems (json :: rest) = .ok (v :: vs) := by
  cases json with
  | null => cases stated
  | _ =>
    rw [readItems, first, others]
    · rfl
    · intro null
      cases null

namespace Members

variable {members rest : Members} {tag name : String} {m : Member}

theorem stated?_of_lookup (found : members.lookup name = some m) (stated : m.json.isNull = false) :
    members.stated? name = some m := by
  rw [stated?, found, Option.filter_some, stated]
  rfl

theorem operand_of_lookup {n n' : Node} (read : readNode (ofNode n) = .ok n')
    (found : members.lookup name = some ⟨ofNode n, readValue (ofNode n)⟩) :
    members.operand tag name = .ok n' := by
  have stated := stated?_of_lookup found (isNull_ofNode n)
  have value : readValue (ofNode n) = .ok (.node n') := by
    rw [readValue_ofNode, read]
    rfl
  obtain ⟨inner, object⟩ := ofNode_eq_object n
  rw [operand, stated, value, object]

theorem code_of_lookup {code : UInt8} {value : Except RecordError Value}
    (found : members.lookup "operator" = some ⟨.nat code.toNat, value⟩) :
    members.code tag = .ok code := by
  have stated := stated?_of_lookup found rfl
  have whole : (Json.nat code.toNat).nat? = some code.toNat := rfl
  rw [Members.code, stated, Option.bind_some, whole]
  dsimp only
  rw [if_pos code.toNat_lt, UInt8.ofNat_toNat]

theorem constant_of_lookup {x : Float} {key : String} {value : Except RecordError Value}
    (number : members.lookup "Constant" = some ⟨numberJson x, readValue (numberJson x)⟩)
    (text : members.lookup "ConstantKey" = some ⟨.string key, value⟩) :
    members.constant = .ok (.constant (Number.recorded x) key) := by
  rw [constant, stated?_of_lookup number (isNull_numberJson x), stated?_of_lookup text rfl]
  dsimp only
  rw [readNumber_numberJson]
  rfl

theorem node_of_notMem_builtinTags (found : members.tag? = some tag)
    (other : tag ∉ Node.builtinTags) : members.node = members.fields.map (.call tag ·) := by
  unfold node
  rw [found]
  dsimp only
  split
  case h_8 => rfl
  all_goals exact absurd (by decide) other

theorem fields_cons {v : Value} {vs : List (String × Value)} (field : name ≠ className)
    (stated : m.json.isNull = false) (value : m.value = .ok v) (others : fields rest = .ok vs) :
    fields ((name, m) :: rest) = .ok ((name, v) :: vs) := by
  have kept : (decide (name ≠ "_ClassName") && !m.json.isNull) = true := by
    rw [stated, Bool.and_eq_true, decide_eq_true_eq]
    exact ⟨field, rfl⟩
  unfold fields at others ⊢
  rw [List.filter_cons]
  dsimp only
  rw [if_pos kept, List.mapM_cons, others, value]
  rfl

end Members

mutual

/-- Nothing in the record of an unambiguous graph is merged. -/
theorem merged_ofNode (n : Node) (clear : n.unambiguous = true) :
    (ofNode n).merged = ofNode n := by
  match n with
  | .constant x key =>
    refine Json.merged_object ?_ (by simp)
    simp [Json.mergedMembers, Json.merged, merged_numberJson]
  | .boolean b =>
    exact Json.merged_object (by simp [Json.mergedMembers, Json.merged]) (by simp)
  | .negate operand | .not operand =>
    have inside := merged_ofNode operand clear
    exact Json.merged_object (by simp [Json.mergedMembers, Json.merged, inside]) (by simp)
  | .operation group code left right =>
    obtain ⟨low, high⟩ := Node.of_unambiguous_operation clear
    refine Json.merged_object ?_ (by simp)
    simp [Json.mergedMembers, Json.merged, Json.nat, merged_ofNode left low,
      merged_ofNode right high]
  | .call tag fields =>
    obtain ⟨-, apart, inside⟩ := Node.of_unambiguous_call clear
    refine Json.merged_object ?_ ?_
    · simp [Json.mergedMembers, Json.merged, merged_ofFields fields inside]
    · rw [List.map_cons, map_fst_ofFields]
      exact apart

theorem merged_ofValue (v : Value) (clear : v.unambiguous = true) :
    (ofValue v).merged = ofValue v := by
  match v with
  | .number x => exact merged_numberJson x
  | .bool b => simp [ofValue, Json.merged]
  | .text s => simp [ofValue, Json.merged]
  | .node n => exact merged_ofNode n clear
  | .list items => simp [ofValue, Json.merged, merged_ofItems items clear]

theorem merged_ofItems (items : List Value) (clear : itemsUnambiguous items = true) :
    Json.mergedItems (ofItems items) = ofItems items := by
  match items with
  | [] => simp [ofItems, Json.mergedItems]
  | item :: rest =>
    obtain ⟨first, others⟩ := of_itemsUnambiguous_cons clear
    simp [ofItems, Json.mergedItems, merged_ofValue item first, merged_ofItems rest others]

theorem merged_ofFields (fields : List (String × Value))
    (clear : fieldsUnambiguous fields = true) :
    Json.mergedMembers (ofFields fields) = ofFields fields := by
  match fields with
  | [] => simp [ofFields, Json.mergedMembers]
  | (key, value) :: rest =>
    obtain ⟨first, others⟩ := of_fieldsUnambiguous_cons clear
    simp [ofFields, Json.mergedMembers, merged_ofValue value first, merged_ofFields rest others]

end

mutual

/-- The reader finds in the record of an unambiguous graph what the writer put there. -/
theorem readNode_ofNode (n : Node) (clear : n.unambiguous = true)
    (plain : ∀ s ∈ n.texts, s ∉ numberWords) : readNode (ofNode n) = .ok n.recorded := by
  match n with
  | .constant x key => exact Members.constant_of_lookup rfl rfl
  | .boolean b => rfl
  | .negate operand =>
    have inside := readNode_ofNode operand clear plain
    change (Members.operand _ _ "Operand").map _ = _
    rw [Members.operand_of_lookup inside rfl]
    rfl
  | .not operand =>
    have inside := readNode_ofNode operand clear plain
    change (Members.operand _ _ "Value").map _ = _
    rw [Members.operand_of_lookup inside rfl]
    rfl
  | .operation group code left right =>
    obtain ⟨low, high⟩ := Node.of_unambiguous_operation clear
    have first := readNode_ofNode left low fun s member => plain s (List.mem_append_left _ member)
    have second := readNode_ofNode right high fun s member =>
      plain s (List.mem_append_right _ member)
    have tagged : readNode (ofNode (.operation group code left right)) =
        Members.operation (readMembers [("_ClassName", .string (Node.groupTag group)),
          ("lhs", ofNode left), ("operator", .nat code.toNat), ("rhs", ofNode right)])
          (Node.groupTag group) group := by
      cases group <;> rfl
    rw [tagged, Members.operation, Members.operand_of_lookup first rfl,
      Members.operand_of_lookup second rfl, Members.code_of_lookup rfl]
    rfl
  | .call tag fields =>
    obtain ⟨other, apart, inside⟩ := Node.of_unambiguous_call clear
    let members := readMembers (("_ClassName", .string tag) :: ofFields fields)
    have tagged : members.tag? = some tag := rfl
    -- The member with the tag is no field.
    have read : members.fields = .ok (recordedFields fields) :=
      fields_ofFields fields inside (List.nodup_cons.1 apart).1 plain
    change members.node = _
    rw [Members.node_of_notMem_builtinTags tagged other, read]
    rfl

theorem readValue_ofValue (v : Value) (clear : v.unambiguous = true)
    (plain : ∀ s ∈ v.texts, s ∉ numberWords) : readValue (ofValue v) = .ok v.recorded := by
  match v with
  | .number x => exact readValue_numberJson x
  | .bool b => rfl
  | .text s =>
    have word : specialNumber? s = none := specialNumber?_eq_none (plain s List.mem_cons_self)
    rw [ofValue, readValue, word]
    rfl
  | .node n =>
    rw [ofValue, readValue_ofNode, readNode_ofNode n clear plain]
    rfl
  | .list items =>
    rw [ofValue, readValue, readItems_ofItems items clear plain]
    rfl

theorem readItems_ofItems (items : List Value) (clear : itemsUnambiguous items = true)
    (plain : ∀ s ∈ itemTexts items, s ∉ numberWords) :
    readItems (ofItems items) = .ok (recordedItems items) := by
  match items with
  | [] => rfl
  | item :: rest =>
    obtain ⟨first, others⟩ := of_itemsUnambiguous_cons clear
    exact readItems_cons (isNull_ofValue item)
      (readValue_ofValue item first fun s member => plain s (List.mem_append_left _ member))
      (readItems_ofItems rest others fun s member => plain s (List.mem_append_right _ member))

theorem fields_ofFields (fields : List (String × Value)) (clear : fieldsUnambiguous fields = true)
    (apart : className ∉ fields.map Prod.fst) (plain : ∀ s ∈ fieldTexts fields, s ∉ numberWords) :
    Members.fields (readMembers (ofFields fields)) = .ok (recordedFields fields) := by
  match fields with
  | [] => rfl
  | (key, value) :: rest =>
    obtain ⟨first, others⟩ := of_fieldsUnambiguous_cons clear
    obtain ⟨field, apart⟩ : key ≠ className ∧ className ∉ rest.map Prod.fst := by
      simpa [eq_comm] using apart
    exact Members.fields_cons field (isNull_ofValue value)
      (readValue_ofValue value first fun s member => plain s (List.mem_append_left _ member))
      (fields_ofFields rest others apart fun s member =>
        plain s (List.mem_append_right _ member))

end

end Record

theorem Node.ofJson_record {n : Node} (clear : n.unambiguous = true)
    (plain : ∀ s ∈ n.texts, s ∉ Record.numberWords) : Node.ofJson n.toJson = .ok n.recorded := by
  rw [Node.ofJson, Node.toJson, Record.merged_ofNode n clear]
  exact Record.readNode_ofNode n clear plain

theorem Value.ofJson_record {v : Value} (clear : v.unambiguous = true)
    (plain : ∀ s ∈ v.texts, s ∉ Record.numberWords) : Value.ofJson v.toJson = .ok v.recorded := by
  rw [Value.ofJson, Value.toJson, Record.merged_ofValue v clear]
  exact Record.readValue_ofValue v clear plain

/-- The record of a graph or of a value reads back as the same one, provided that the graph is
unambiguous and no text is taken for a number. Numbers keep their bits except that zero loses its
sign. -/
theorem ofJson_toJson :
    (∀ n : Node, n.unambiguous = true → (∀ s ∈ n.texts, s ∉ Record.numberWords) →
      Node.ofJson n.toJson = .ok n.recorded ∧ n.agrees n.recorded = true) ∧
    ∀ v : Value, v.unambiguous = true → (∀ s ∈ v.texts, s ∉ Record.numberWords) →
      Value.ofJson v.toJson = .ok v.recorded ∧ v.agrees v.recorded = true := by
  constructor
  · intro n clear plain
    exact ⟨Node.ofJson_record clear plain, n.agrees_recorded⟩
  · intro v clear plain
    exact ⟨Value.ofJson_record clear plain, v.agrees_recorded⟩

/-- Keys that other records use, a code without an operator, and numbers of all spellings. -/
theorem ofJson_toJson_crowded :
    let n : Node := .call "Skill" [("BoolConst", .number (0.0 / 0.0)), ("Value", .bool true),
      ("Constant", .list [.text "infinity", .number (-0.0), .number 1e300, .number (-1.0 / 0.0)]),
      ("lhs", .node (.operation .logic 255 (.bound "rate") (.negate (.literal 0.1))))]
    (Node.ofJson n.toJson = .ok n.recorded ∧ n.agrees n.recorded = true) ∧
      Value.ofJson (Value.list [.node n, .text "NaN?"]).toJson =
          .ok (.list [.node n.recorded, .text "NaN?"]) ∧
        (Value.list [.node n, .text "NaN?"]).agrees (.list [.node n.recorded, .text "NaN?"]) :=
  ⟨ofJson_toJson.1 _ (by decide +kernel) (by decide +kernel),
    ofJson_toJson.2 _ (by decide +kernel) (by decide +kernel)⟩

end SkillGraph
