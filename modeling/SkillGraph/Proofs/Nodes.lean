import SkillGraph.Node

/-! The nodes of a graph: the graph itself and all nodes in its operands, in its fields and in the
items of its lists, at any depth. -/
namespace SkillGraph

mutual

def Node.nodes : Node → List Node
  | .constant x key => [.constant x key]
  | .boolean b => [.boolean b]
  | .negate operand => .negate operand :: operand.nodes
  | .not operand => .not operand :: operand.nodes
  | .operation group code left right =>
    .operation group code left right :: (left.nodes ++ right.nodes)
  | .call tag fields => .call tag fields :: fieldNodes fields

def Value.nodes : Value → List Node
  | .number _ | .bool _ | .text _ => []
  | .node n => n.nodes
  | .list items => itemNodes items

def itemNodes : List Value → List Node
  | [] => []
  | item :: rest => item.nodes ++ itemNodes rest

def fieldNodes : List (String × Value) → List Node
  | [] => []
  | (_, value) :: rest => value.nodes ++ fieldNodes rest

end

theorem Node.self_mem_nodes (n : Node) : n ∈ n.nodes := by
  cases n <;> exact List.mem_cons_self

theorem mem_itemNodes_iff {items : List Value} {m : Node} :
    m ∈ itemNodes items ↔ ∃ v ∈ items, m ∈ v.nodes := by
  induction items with
  | nil => simp [itemNodes]
  | cons item rest ih => simp [itemNodes, ih]

theorem mem_fieldNodes_iff {fields : List (String × Value)} {m : Node} :
    m ∈ fieldNodes fields ↔ ∃ p ∈ fields, m ∈ p.2.nodes := by
  induction fields with
  | nil => simp [fieldNodes]
  | cons field rest ih => simp [fieldNodes, ih]

mutual

theorem Node.nodes_subset (n : Node) {m : Node} (inner : m ∈ n.nodes) : m.nodes ⊆ n.nodes := by
  match n with
  | .constant .. | .boolean _ =>
    obtain rfl := List.mem_singleton.1 inner
    exact List.Subset.refl _
  | .negate operand | .not operand =>
    rcases List.mem_cons.1 inner with rfl | inner
    · exact List.Subset.refl _
    · exact List.subset_cons_of_subset _ (operand.nodes_subset inner)
  | .operation group code left right =>
    rcases List.mem_cons.1 inner with rfl | inner
    · exact List.Subset.refl _
    · apply List.subset_cons_of_subset
      rcases List.mem_append.1 inner with inner | inner
      · exact List.subset_append_of_subset_left _ (left.nodes_subset inner)
      · exact List.subset_append_of_subset_right _ (right.nodes_subset inner)
  | .call tag fields =>
    rcases List.mem_cons.1 inner with rfl | inner
    · exact List.Subset.refl _
    · exact List.subset_cons_of_subset _ (nodes_subset_fieldNodes fields inner)

theorem Value.nodes_subset (v : Value) {m : Node} (inner : m ∈ v.nodes) : m.nodes ⊆ v.nodes := by
  match v with
  | .number _ | .bool _ | .text _ => cases inner
  | .node n => exact n.nodes_subset inner
  | .list items => exact nodes_subset_itemNodes items inner

theorem nodes_subset_itemNodes (items : List Value) {m : Node} (inner : m ∈ itemNodes items) :
    m.nodes ⊆ itemNodes items := by
  match items with
  | [] => cases inner
  | item :: rest =>
    rcases List.mem_append.1 inner with inner | inner
    · exact List.subset_append_of_subset_left _ (item.nodes_subset inner)
    · exact List.subset_append_of_subset_right _ (nodes_subset_itemNodes rest inner)

theorem nodes_subset_fieldNodes (fields : List (String × Value)) {m : Node}
    (inner : m ∈ fieldNodes fields) : m.nodes ⊆ fieldNodes fields := by
  match fields with
  | [] => cases inner
  | (_, value) :: rest =>
    rcases List.mem_append.1 inner with inner | inner
    · exact List.subset_append_of_subset_left _ (value.nodes_subset inner)
    · exact List.subset_append_of_subset_right _ (nodes_subset_fieldNodes rest inner)

end

end SkillGraph
