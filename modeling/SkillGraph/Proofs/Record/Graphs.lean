import SkillGraph.Atom.Fault
import SkillGraph.Proofs.Record.Numbers

/-! Graphs that records keep. A record gives a graph back up to the sign of zero, provided that its
members can be told apart and that no text is taken for a number. -/
namespace SkillGraph

def Record.numberWords : List String := ["Infinity", "-Infinity", "NaN"]

theorem Record.specialNumber?_eq_none {s : String} (plain : s ∉ numberWords) :
    specialNumber? s = none := by
  unfold specialNumber?
  split <;> first | rfl | exact absurd (by decide) plain

mutual

/-- Whether no call has a tag of the built-in nodes, and every call has keys of their own that leave
the member with the tag free. -/
def Node.unambiguous : Node → Bool
  | .constant .. | .boolean _ => true
  | .negate operand | .not operand => operand.unambiguous
  | .operation _ _ left right => left.unambiguous && right.unambiguous
  | .call tag fields =>
    tag ∉ Node.builtinTags && (className :: fields.map Prod.fst).Nodup && fieldsUnambiguous fields

def Value.unambiguous : Value → Bool
  | .number _ | .bool _ | .text _ => true
  | .node n => n.unambiguous
  | .list items => itemsUnambiguous items

def itemsUnambiguous : List Value → Bool
  | [] => true
  | item :: rest => item.unambiguous && itemsUnambiguous rest

def fieldsUnambiguous : List (String × Value) → Bool
  | [] => true
  | (_, value) :: rest => value.unambiguous && fieldsUnambiguous rest

end

theorem Node.of_unambiguous_operation {group : OpGroup} {code : UInt8} {left right : Node}
    (clear : (Node.operation group code left right).unambiguous = true) :
    left.unambiguous = true ∧ right.unambiguous = true := by
  simpa [unambiguous] using clear

theorem Node.of_unambiguous_call {tag : String} {fields : List (String × Value)}
    (clear : (Node.call tag fields).unambiguous = true) :
    tag ∉ Node.builtinTags ∧ (className :: fields.map Prod.fst).Nodup ∧
      fieldsUnambiguous fields = true := by
  simpa [unambiguous, and_assoc] using clear

theorem of_itemsUnambiguous_cons {item : Value} {rest : List Value}
    (clear : itemsUnambiguous (item :: rest) = true) :
    item.unambiguous = true ∧ itemsUnambiguous rest = true := by
  simpa [itemsUnambiguous] using clear

theorem of_fieldsUnambiguous_cons {key : String} {value : Value} {rest : List (String × Value)}
    (clear : fieldsUnambiguous ((key, value) :: rest) = true) :
    value.unambiguous = true ∧ fieldsUnambiguous rest = true := by
  simpa [fieldsUnambiguous] using clear

mutual

/-- The texts anywhere in the graph. Tags, keys of fields and keys of constants are none. -/
def Node.texts : Node → List String
  | .constant .. | .boolean _ => []
  | .negate operand | .not operand => operand.texts
  | .operation _ _ left right => left.texts ++ right.texts
  | .call _ fields => fieldTexts fields

def Value.texts : Value → List String
  | .number _ | .bool _ => []
  | .text s => [s]
  | .node n => n.texts
  | .list items => itemTexts items

def itemTexts : List Value → List String
  | [] => []
  | item :: rest => item.texts ++ itemTexts rest

def fieldTexts : List (String × Value) → List String
  | [] => []
  | (_, value) :: rest => value.texts ++ fieldTexts rest

end

mutual

/-- The graph that a record gives back: zero has lost its sign. -/
def Node.recorded : Node → Node
  | .constant x key => .constant (Number.recorded x) key
  | .boolean b => .boolean b
  | .negate operand => .negate operand.recorded
  | .not operand => .not operand.recorded
  | .operation group code left right => .operation group code left.recorded right.recorded
  | .call tag fields => .call tag (recordedFields fields)

def Value.recorded : Value → Value
  | .number x => .number (Number.recorded x)
  | .bool b => .bool b
  | .text s => .text s
  | .node n => .node n.recorded
  | .list items => .list (recordedItems items)

def recordedItems : List Value → List Value
  | [] => []
  | item :: rest => item.recorded :: recordedItems rest

def recordedFields : List (String × Value) → List (String × Value)
  | [] => []
  | (key, value) :: rest => (key, value.recorded) :: recordedFields rest

end

mutual

/-- Equality of graphs in which a number also equals one that is NaN if both are. -/
def Node.agrees : Node → Node → Bool
  | .constant x key, .constant x' key' => Number.agrees x x' && key == key'
  | .boolean b, .boolean b' => b == b'
  | .negate n, .negate n' => n.agrees n'
  | .not n, .not n' => n.agrees n'
  | .operation group code l r, .operation group' code' l' r' =>
    group == group' && code == code' && l.agrees l' && r.agrees r'
  | .call tag fields, .call tag' fields' => tag == tag' && fieldsAgree fields fields'
  | _, _ => false

def Value.agrees : Value → Value → Bool
  | .number x, .number x' => Number.agrees x x'
  | .bool b, .bool b' => b == b'
  | .text s, .text s' => s == s'
  | .node n, .node n' => n.agrees n'
  | .list items, .list items' => itemsAgree items items'
  | _, _ => false

def itemsAgree : List Value → List Value → Bool
  | [], [] => true
  | v :: rest, v' :: rest' => v.agrees v' && itemsAgree rest rest'
  | _, _ => false

def fieldsAgree : List (String × Value) → List (String × Value) → Bool
  | [], [] => true
  | (key, v) :: rest, (key', v') :: rest' => key == key' && v.agrees v' && fieldsAgree rest rest'
  | _, _ => false

end

mutual

theorem Node.agrees_recorded : ∀ n : Node, n.agrees n.recorded = true
  | .constant x key => by simp [Node.recorded, Node.agrees, Number.agrees_recorded]
  | .boolean b => by simp [Node.recorded, Node.agrees]
  | .negate operand | .not operand => by
    simpa [Node.recorded, Node.agrees] using operand.agrees_recorded
  | .operation group code left right => by
    simp [Node.recorded, Node.agrees, left.agrees_recorded, right.agrees_recorded]
  | .call tag fields => by
    simp [Node.recorded, Node.agrees, fieldsAgree_recordedFields fields]

theorem Value.agrees_recorded : ∀ v : Value, v.agrees v.recorded = true
  | .number x => by simp [Value.recorded, Value.agrees, Number.agrees_recorded]
  | .bool b => by simp [Value.recorded, Value.agrees]
  | .text s => by simp [Value.recorded, Value.agrees]
  | .node n => by simpa [Value.recorded, Value.agrees] using n.agrees_recorded
  | .list items => by
    simpa [Value.recorded, Value.agrees] using itemsAgree_recordedItems items

theorem itemsAgree_recordedItems : ∀ items : List Value,
    itemsAgree items (recordedItems items) = true
  | [] => by simp [recordedItems, itemsAgree]
  | item :: rest => by
    simp [recordedItems, itemsAgree, item.agrees_recorded, itemsAgree_recordedItems rest]

theorem fieldsAgree_recordedFields : ∀ fields : List (String × Value),
    fieldsAgree fields (recordedFields fields) = true
  | [] => by simp [recordedFields, fieldsAgree]
  | (key, value) :: rest => by
    simp [recordedFields, fieldsAgree, value.agrees_recorded, fieldsAgree_recordedFields rest]

end

mutual

/-- A graph without NaN equals the one that its record gives back. -/
theorem Node.same_recorded : ∀ n : Node, n.same n.recorded = n.same n
  | .constant x key => by simp [Node.recorded, Node.same, Number.beq_recorded]
  | .boolean b => by simp [Node.recorded, Node.same]
  | .negate operand | .not operand => by
    simpa [Node.recorded, Node.same] using operand.same_recorded
  | .operation group code left right => by
    simp [Node.recorded, Node.same, left.same_recorded, right.same_recorded]
  | .call tag fields => by simp [Node.recorded, Node.same, sameFields_recordedFields fields]

theorem Value.same_recorded : ∀ v : Value, v.same v.recorded = v.same v
  | .number x => by simp [Value.recorded, Value.same, Number.beq_recorded]
  | .bool b => by simp [Value.recorded, Value.same]
  | .text s => by simp [Value.recorded, Value.same]
  | .node n => by simpa [Value.recorded, Value.same] using n.same_recorded
  | .list items => by simpa [Value.recorded, Value.same] using sameItems_recordedItems items

theorem sameItems_recordedItems : ∀ items : List Value,
    sameItems items (recordedItems items) = sameItems items items
  | [] => by simp [recordedItems, sameItems]
  | item :: rest => by
    simp [recordedItems, sameItems, item.same_recorded, sameItems_recordedItems rest]

theorem sameFields_recordedFields : ∀ fields : List (String × Value),
    sameFields fields (recordedFields fields) = sameFields fields fields
  | [] => by simp [recordedFields, sameFields]
  | (key, value) :: rest => by
    simp [recordedFields, sameFields, value.same_recorded, sameFields_recordedFields rest]

end

end SkillGraph
