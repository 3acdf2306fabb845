import SkillGraph.Proofs.Nodes
import SkillGraph.Proofs.Record.Canonical

/-! What the reader of records makes of the members that a built-in record states. A member that has
the type that the writer gives it becomes the part of the node that it means. Members of another
type are refused, except that a key that is no string is read as no key, and a boolean that is none
as false. -/
namespace SkillGraph

namespace Record

inductive MemberKind where
  | number | text | bool | code | node
  deriving DecidableEq, Repr

/-- Whether a JSON value has that type. Numbers that are not finite are strings. -/
def MemberKind.admits : MemberKind → Json → Bool
  | .number, .number _ => true
  | .number, .string s => (specialNumber? s).isSome
  | .text, .string _ => true
  | .bool, .bool _ => true
  | .code, json => json.nat?.any (· < 256)
  | .node, .object _ => true
  | _, _ => false

/-- The members that a built-in record has beside its tag. -/
def shape : String → List (String × MemberKind)
  | "NumberConst" => [("Constant", .number), ("ConstantKey", .text)]
  | "BoolConst" => [("BoolConst", .bool)]
  | "NegateNumber" => [("Operand", .node)]
  | "NotBool" => [("Value", .node)]
  | "ArithmeticOp" | "LogicalOp" | "RelationalOp" =>
    [("lhs", .node), ("operator", .code), ("rhs", .node)]
  | _ => []

inductive Content where
  | number (x : Float)
  | text (s : String)
  | bool (b : Bool)
  | code (c : UInt8)
  | node (n : Node)

namespace Content

def kind : Content → MemberKind
  | .number _ => .number
  | .text _ => .text
  | .bool _ => .bool
  | .code _ => .code
  | .node _ => .node

inductive Meant : Content → Json → Prop where
  | number (n : Json.Number) : Meant (.number (numberValue n)) (.number n)
  | notFinite {s : String} {x : Float} (word : specialNumber? s = some x) :
    Meant (.number x) (.string s)
  | text (s : String) : Meant (.text s) (.string s)
  | bool (b : Bool) : Meant (.bool b) (.bool b)
  | code (c : UInt8) : Meant (.code c) (.nat c.toNat)
  | node {json : Json} {n : Node} (read : readNode json = .ok n) : Meant (.node n) json

end Content

def content? : Node → String → Option Content
  | .constant x _, "Constant" => some (.number x)
  | .constant _ key, "ConstantKey" => some (.text key)
  | .boolean b, "BoolConst" => some (.bool b)
  | .negate operand, "Operand" => some (.node operand)
  | .not operand, "Value" => some (.node operand)
  | .operation _ _ left _, "lhs" => some (.node left)
  | .operation _ code _ _, "operator" => some (.code code)
  | .operation _ _ _ right, "rhs" => some (.node right)
  | _, _ => none

/-- What the reader makes of a stated member: the content that it means, or a default in place of a
key or a boolean of another type. -/
structure Stored (kind : MemberKind) (json : Json) (c : Content) : Prop where
  sameKind : c.kind = kind
  meant : kind.admits json = true → c.Meant json
  guessed : kind.admits json = false →
    kind = .text ∧ c = .text "" ∨ kind = .bool ∧ c = .bool false

/-- The parts of a record that are read with it: items of lists, operands and fields. -/
inductive Reaches (whole : Json) : Json → Prop where
  | whole : Reaches whole whole
  | item {items : List Json} {item : Json} (list : Reaches whole (.array items))
      (member : item ∈ items) : Reaches whole item
  | operand {members : List (String × Json)} {tag name : String} {json : Json}
      (record : Reaches whole (.object members))
      (tagged : members.lookup className = some (.string tag)) (child : (name, .node) ∈ shape tag)
      (stated : members.lookup name = some json) : Reaches whole json
  | field {members : List (String × Json)} {tag name : String} {json : Json}
      (record : Reaches whole (.object members))
      (tagged : members.lookup className = some (.string tag)) (call : tag ∉ Node.builtinTags)
      (field : name ≠ className) (member : (name, json) ∈ members) : Reaches whole json

variable {members : List (String × Json)} {tag name : String} {json : Json} {kind : MemberKind}
  {n : Node}

theorem lookup_readMembers (members : List (String × Json)) (name : String) :
    (readMembers members).lookup name =
      (members.lookup name).map fun json => ⟨json, readValue json⟩ := by
  induction members with
  | nil => rfl
  | cons first rest ih =>
    rw [readMembers, List.lookup_cons, List.lookup_cons, ih]
    split <;> rfl

theorem mem_readMembers (member : (name, json) ∈ members) :
    (name, ⟨json, readValue json⟩) ∈ readMembers members := by
  rw [Members.readMembers_eq_map]
  exact List.mem_map_of_mem member

theorem stated?_readMembers (stated : members.lookup name = some json)
    (some : json.isNull = false) :
    (readMembers members).stated? name = .some ⟨json, readValue json⟩ :=
  Members.stated?_of_lookup (by rw [lookup_readMembers, stated]; rfl) some

theorem tag?_readMembers (tagged : members.lookup className = some (.string tag)) :
    (readMembers members).tag? = some tag := by
  have found : (readMembers members).lookup "_ClassName" =
      some ⟨.string tag, readValue (.string tag)⟩ := by
    rw [lookup_readMembers, show members.lookup "_ClassName" = _ from tagged]
    rfl
  rw [Members.tag?, found]
  rfl

namespace Stored

theorem of_meant {c : Content} (same : c.kind = kind) (typed : kind.admits json = true)
    (meant : c.Meant json) : Stored kind json c :=
  ⟨same, fun _ => meant, fun other => absurd typed (Bool.eq_false_iff.1 other)⟩

theorem number {x : Float} (read : readNumber json = .ok x) : Stored .number json (.number x) := by
  cases json with
  | number n =>
    obtain rfl := Except.ok.inj read
    exact .of_meant rfl rfl (.number n)
  | string s =>
    cases word : specialNumber? s with
    | none => simp [readNumber, word] at read
    | some y =>
      obtain rfl : y = x := by simpa [readNumber, word] using read
      exact .of_meant rfl (by simp [MemberKind.admits, word]) (.notFinite word)
  | _ => cases read

theorem text (json : Json) : Stored .text json (.text (json.string?.getD "")) := by
  cases json with
  | string s => exact .of_meant rfl rfl (.text s)
  | _ => exact ⟨rfl, (nomatch ·), fun _ => .inl ⟨rfl, rfl⟩⟩

theorem bool (json : Json) : Stored .bool json (.bool (json.bool?.getD false)) := by
  cases json with
  | bool b => exact .of_meant rfl rfl (.bool b)
  | _ => exact ⟨rfl, (nomatch ·), fun _ => .inr ⟨rfl, rfl⟩⟩

theorem code {i : Nat} (whole : json.nat? = some i) (small : i < 256) :
    Stored .code json (.code (UInt8.ofNat i)) := by
  have same : (UInt8.ofNat i).toNat = i := UInt8.toNat_ofNat_of_lt small
  have integer : json = .nat (UInt8.ofNat i).toNat := by
    unfold Json.nat? at whole
    split at whole
    case h_1 n =>
      rw [same, Json.nat, Int.mem_toNat?.1 whole]
    case h_2 => cases whole
  refine .of_meant rfl ?_ (integer ▸ .code _)
  simp [MemberKind.admits, whole, small]

theorem node (record : ∃ members, json = .object members) (read : readNode json = .ok n) :
    Stored .node json (.node n) := by
  obtain ⟨members, rfl⟩ := record
  exact .of_meant rfl rfl (.node read)

theorem exists_node {c : Content} (stored : Stored .node json c) :
    ∃ n, c = .node n ∧ readNode json = .ok n := by
  obtain ⟨same, meant, guessed⟩ := stored
  cases typed : MemberKind.node.admits json with
  | true =>
    cases meant typed with
    | node read => exact ⟨_, rfl, read⟩
    | _ => cases same
  | false => rcases guessed typed with ⟨other, -⟩ | ⟨other, -⟩ <;> cases other

end Stored

section

variable {read : Members}

/-- An operand is a record that is read on its own. -/
theorem Members.stored_operand (found : read.stated? name = some ⟨json, readValue json⟩)
    (operand : read.operand tag name = .ok n) : Stored .node json (.node n) := by
  unfold Members.operand at operand
  rw [found] at operand
  cases json with
  | object members =>
    apply Stored.node ⟨members, rfl⟩
    cases node : (readMembers members).node with
    | error e => simp [readValue, node, Except.map] at operand
    | ok m => simpa [readValue, node, Except.map, readNode] using operand
  | _ => cases operand

theorem Members.stored_code {c : UInt8} {m : Member} (found : read.stated? "operator" = some m)
    (coded : read.code tag = .ok c) : Stored .code m.json (.code c) := by
  rw [Members.code, found, Option.bind_some] at coded
  cases whole : m.json.nat? with
  | none => simp [whole] at coded
  | some i =>
    by_cases small : i < 256
    · obtain rfl : UInt8.ofNat i = c := by simpa [whole, small] using coded
      exact .code whole small
    · simp [whole, small] at coded

theorem Members.exists_stored_constant (constant : read.constant = .ok n)
    (defined : (name, kind) ∈ shape "NumberConst")
    (found : read.stated? name = some ⟨json, readValue json⟩) :
    ∃ c, content? n name = some c ∧ Stored kind json c := by
  obtain ⟨x, number, rfl⟩ := exists_number_of_constant constant
  simp only [shape, List.mem_cons, List.not_mem_nil, or_false, Prod.mk.injEq] at defined
  rcases defined with ⟨rfl, rfl⟩ | ⟨rfl, rfl⟩
  · exact ⟨.number x, rfl, .number (number _ found)⟩
  · refine ⟨_, rfl, ?_⟩
    rw [found]
    exact .text json

theorem Members.exists_stored_operation {group : OpGroup}
    (operation : read.operation tag group = .ok n)
    (defined : (name, kind) ∈ [("lhs", .node), ("operator", .code), ("rhs", .node)])
    (found : read.stated? name = some ⟨json, readValue json⟩) :
    ∃ c, content? n name = some c ∧ Stored kind json c := by
  obtain ⟨left, low, operation⟩ := bind_eq_ok_iff.1 operation
  obtain ⟨code, coded, operation⟩ := bind_eq_ok_iff.1 operation
  obtain ⟨right, high, built⟩ := bind_eq_ok_iff.1 operation
  obtain rfl := Except.ok.inj built
  simp only [List.mem_cons, List.not_mem_nil, or_false, Prod.mk.injEq] at defined
  rcases defined with ⟨rfl, rfl⟩ | ⟨rfl, rfl⟩ | ⟨rfl, rfl⟩
  · exact ⟨.node left, rfl, stored_operand found low⟩
  · exact ⟨.code code, rfl, stored_code found coded⟩
  · exact ⟨.node right, rfl, stored_operand found high⟩

/-- A node of a built-in tag holds what its record states, one member at a time. -/
theorem Members.exists_stored (tagged : read.tag? = some tag) (node : read.node = .ok n)
    (defined : (name, kind) ∈ shape tag)
    (found : read.stated? name = some ⟨json, readValue json⟩) :
    ∃ c, content? n name = some c ∧ Stored kind json c := by
  unfold Members.node at node
  rw [tagged] at node
  have only {own : String} {k : MemberKind} (one : (name, kind) ∈ [(own, k)]) :
      name = own ∧ kind = k := by simpa using one
  unfold shape at defined
  split at defined
  · exact exists_stored_constant node defined found
  · obtain ⟨rfl, rfl⟩ := only defined
    obtain rfl := Except.ok.inj node
    refine ⟨_, rfl, ?_⟩
    rw [found]
    exact .bool json
  · obtain ⟨rfl, rfl⟩ := only defined
    obtain ⟨operand, inside, rfl⟩ := map_eq_ok_iff.1 node
    exact ⟨.node operand, rfl, stored_operand found inside⟩
  · obtain ⟨rfl, rfl⟩ := only defined
    obtain ⟨operand, inside, rfl⟩ := map_eq_ok_iff.1 node
    exact ⟨.node operand, rfl, stored_operand found inside⟩
  · exact exists_stored_operation node defined found
  · exact exists_stored_operation node defined found
  · exact exists_stored_operation node defined found
  · cases defined

theorem Members.exists_mem_of_fields {fields : List (String × Value)} {m : Member}
    (collected : read.fields = .ok fields) (member : (name, m) ∈ read) (field : name ≠ className)
    (stated : m.json.isNull = false) : ∃ v, m.value = .ok v ∧ (name, v) ∈ fields := by
  have kept : (name, m) ∈
      read.filter fun p => p.1 ≠ "_ClassName" && !p.2.json.isNull := by
    rw [List.mem_filter, Bool.and_eq_true, decide_eq_true_eq, stated]
    exact ⟨member, field, rfl⟩
  obtain ⟨p, inside, mapped⟩ := exists_mem_of_mapM collected kept
  obtain ⟨v, value, rfl⟩ := map_eq_ok_iff.1 mapped
  exact ⟨v, value, inside⟩

end

theorem exists_mem_of_readItems {items : List Json} {values : List Value} {item : Json}
    (read : readItems items = .ok values) (member : item ∈ items) (stated : item.isNull = false) :
    ∃ v ∈ values, readValue item = .ok v := by
  induction items generalizing values with
  | nil => cases member
  | cons first rest ih =>
    rcases cases_of_readItems_cons read with ⟨null, others⟩ | ⟨v, more, value, others, rfl⟩
    · rcases List.mem_cons.1 member with rfl | member
      · rw [stated] at null
        cases null
      · exact ih others member
    · rcases List.mem_cons.1 member with rfl | member
      · exact ⟨v, List.mem_cons_self, value⟩
      · obtain ⟨w, inside, value⟩ := ih others member
        exact ⟨w, List.mem_cons_of_mem v inside, value⟩

theorem mem_nodes_of_content? {operand : Node} (holds : content? n name = some (.node operand)) :
    operand ∈ n.nodes := by
  unfold content? at holds
  split at holds
  case h_4 | h_5 =>
    obtain rfl := Content.node.inj (Option.some.inj holds)
    exact List.mem_cons_of_mem _ (Node.self_mem_nodes _)
  case h_6 =>
    obtain rfl := Content.node.inj (Option.some.inj holds)
    exact List.mem_cons_of_mem _ (List.mem_append_left _ (Node.self_mem_nodes _))
  case h_8 =>
    obtain rfl := Content.node.inj (Option.some.inj holds)
    exact List.mem_cons_of_mem _ (List.mem_append_right _ (Node.self_mem_nodes _))
  all_goals cases holds

theorem exists_of_readValue_object {v : Value} (read : readValue (.object members) = .ok v) :
    ∃ m, readNode (.object members) = .ok m ∧ v = .node m := by
  obtain ⟨m, node, rfl⟩ := map_eq_ok_iff.1 read
  exact ⟨m, node, rfl⟩

/-- Whatever is read with a record is read on its own, and its nodes are nodes of the graph. -/
theorem Reaches.exists_read {whole part : Json} (reached : Reaches whole part)
    (read : readNode whole = .ok n) (stated : part.isNull = false) :
    ∃ v, readValue part = .ok v ∧ v.nodes ⊆ n.nodes := by
  induction reached with
  | whole => exact ⟨.node n, readValue_of_readNode read, List.Subset.refl _⟩
  | item _ member ih =>
    obtain ⟨v, list, within⟩ := ih rfl
    obtain ⟨values, items, rfl⟩ := map_eq_ok_iff.1 list
    obtain ⟨w, inside, value⟩ := exists_mem_of_readItems items member stated
    refine ⟨w, value, fun m inner => within ?_⟩
    exact mem_itemNodes_iff.2 ⟨w, inside, inner⟩
  | operand _ tagged child found ih =>
    obtain ⟨v, record, within⟩ := ih rfl
    obtain ⟨m, node, rfl⟩ := exists_of_readValue_object record
    obtain ⟨c, holds, stored⟩ := Members.exists_stored (tag?_readMembers tagged) node child
      (stated?_readMembers found stated)
    obtain ⟨operand, rfl, alone⟩ := stored.exists_node
    have inner := Node.nodes_subset m (mem_nodes_of_content? holds)
    exact ⟨.node operand, readValue_of_readNode alone, List.Subset.trans inner within⟩
  | field _ tagged call field member ih =>
    obtain ⟨v, record, within⟩ := ih rfl
    obtain ⟨m, node, rfl⟩ := exists_of_readValue_object record
    have called := Members.node_of_notMem_builtinTags (tag?_readMembers tagged) call
    obtain ⟨fields, collected, rfl⟩ := map_eq_ok_iff.1 (called.symm.trans node)
    obtain ⟨w, value, inside⟩ :=
      Members.exists_mem_of_fields collected (mem_readMembers member) field stated
    refine ⟨w, value, fun m inner => within (List.mem_cons_of_mem _ ?_)⟩
    exact mem_fieldNodes_iff.2 ⟨_, inside, inner⟩

theorem admits_numberJson (x : Float) : MemberKind.number.admits (numberJson x) = true := by
  rcases numberJson_cases x with ⟨n, written, -⟩ | ⟨s, written, read⟩
  · rw [written]
    rfl
  · rw [written, MemberKind.admits, read]
    rfl

theorem admits_ofNode (n : Node) : MemberKind.node.admits (ofNode n) = true := by
  obtain ⟨members, object⟩ := ofNode_eq_object n
  rw [object]
  rfl

theorem admits_code (c : UInt8) : MemberKind.code.admits (.nat c.toNat) = true := by
  have whole : (Json.nat c.toNat).nat? = some c.toNat := rfl
  have small : c.toNat < 256 := c.toNat_lt
  simp [MemberKind.admits, whole, small]

/-- The writer gives every part of a built-in node as a member of its type. -/
theorem exists_member_of_content? {c : Content} (holds : content? n name = some c) :
    ∃ json, (ofNode n).member? name = some json ∧ c.kind.admits json = true := by
  unfold content? at holds
  split at holds
  case h_9 => cases holds
  all_goals obtain rfl := Option.some.inj holds
  case h_1 x _ => exact ⟨_, rfl, admits_numberJson x⟩
  case h_2 | h_3 => exact ⟨_, rfl, rfl⟩
  case h_4 operand | h_5 operand | h_6 operand _ | h_8 operand =>
    exact ⟨_, rfl, admits_ofNode operand⟩
  case h_7 code _ _ => exact ⟨_, rfl, admits_code code⟩

end Record

open Record

/-- A member that is stated in a built-in record, however deep inside the record that is read. If it
has the type that the writer gives it, it becomes the part of the node that it means. If not, the
whole record is refused, except that a key that is no string is read as no key and a boolean of
another type as false. -/
theorem ofJson_stated (whole json : Json) (members : List (String × Json)) (tag name : String)
    (kind : MemberKind) (reached : Reaches whole (.object members))
    (tagged : members.lookup className = some (.string tag)) (defined : (name, kind) ∈ shape tag)
    (found : members.lookup name = some json) (stated : json.isNull = false) :
    (∀ n, Node.ofJson whole = .ok n → ∃ m ∈ n.nodes, Node.ofJson (.object members) = .ok m ∧
      (∃ c, content? m name = some c ∧ Stored kind json c) ∧
      ∃ written, (ofNode m).member? name = some written ∧ kind.admits written = true) ∧
    (kind.admits json = false → kind ≠ .text → kind ≠ .bool →
      ∃ e, Node.ofJson whole = .error e ∧ e.cause.code = .wireFormat) := by
  have kept {n : Node} (read : Node.ofJson whole = .ok n) :
      ∃ m ∈ n.nodes, Node.ofJson (.object members) = .ok m ∧
        ∃ c, content? m name = some c ∧ Stored kind json c := by
    obtain ⟨v, record, within⟩ := reached.exists_read read rfl
    obtain ⟨m, node, rfl⟩ := exists_of_readValue_object record
    exact ⟨m, within (Node.self_mem_nodes m), node, Members.exists_stored (tag?_readMembers tagged)
      node defined (stated?_readMembers found stated)⟩
  constructor
  · intro n read
    obtain ⟨m, inner, alone, c, holds, stored⟩ := kept read
    have written := exists_member_of_content? holds
    rw [stored.sameKind] at written
    exact ⟨m, inner, alone, ⟨c, holds, stored⟩, written⟩
  · intro other noText noBool
    cases read : Node.ofJson whole with
    | error e => exact ⟨e, rfl, rfl⟩
    | ok n =>
      obtain ⟨m, -, -, c, -, stored⟩ := kept read
      rcases stored.guessed other with ⟨text, -⟩ | ⟨bool, -⟩
      · exact absurd text noText
      · exact absurd bool noBool

/-- A code and a number of the wrong type inside the fields of a call. -/
theorem ofJson_stated_nested :
    let constant (x : Json) := Json.object [("_ClassName", .string "NumberConst"), ("Constant", x)]
    let sum (x : Json) := Json.object [("_ClassName", .string "ArithmeticOp"), ("lhs", constant x),
      ("operator", .nat 3), ("rhs", .object [("_ClassName", .string "BoolConst")])]
    let skill (x : Json) := Json.object [("_ClassName", .string "Skill"), ("Note", .null),
      ("Items", .array [.null, sum x])]
    (∃ n, Node.ofJson (skill (.string "NaN")) = .ok n ∧ ∃ m ∈ n.nodes,
      Node.ofJson (sum (.string "NaN")) = .ok m ∧
        ∃ c, content? m "operator" = some c ∧ Stored .code (.nat 3) c) ∧
    ∃ e, Node.ofJson (skill (.bool true)) = .error e ∧ e.cause.code = .wireFormat := by
  intro constant sum skill
  have items (x : Json) : Reaches (skill x) (.array [.null, sum x]) :=
    .field .whole rfl (by decide) (show "Items" ≠ className by decide) (by simp)
  have operation (x : Json) : Reaches (skill x) (sum x) := .item (items x) (by simp)
  have operand (x : Json) : Reaches (skill x) (constant x) :=
    .operand (operation x) rfl (show ("lhs", .node) ∈ shape "ArithmeticOp" by decide) rfl
  constructor
  · have accepted : (Node.ofJson (skill (.string "NaN"))).isOk = true := by decide +kernel
    cases read : Node.ofJson (skill (.string "NaN")) with
    | error e =>
      rw [read] at accepted
      cases accepted
    | ok n =>
      obtain ⟨m, inner, alone, holds, -⟩ := (ofJson_stated _ (.nat 3) _ "ArithmeticOp" "operator"
        .code (operation (.string "NaN")) rfl (by decide) rfl rfl).1 n read
      exact ⟨n, rfl, m, inner, alone, holds⟩
  · exact (ofJson_stated _ (.bool true) _ "NumberConst" "Constant" .number
      (operand (.bool true)) rfl (by decide) rfl rfl).2 rfl (by decide) (by decide)

/-- A boolean that is spelled out is read as false, and a key that is a number as no key. -/
theorem ofJson_guesses :
    MemberKind.bool.admits (.string "true") = false ∧
    Node.ofJson (.object [("_ClassName", .string "BoolConst"), ("BoolConst", .string "true")]) =
      .ok (.boolean false) ∧
    MemberKind.text.admits (.nat 7) = false ∧
    Node.ofJson (.object [("_ClassName", .string "NumberConst"), ("ConstantKey", .nat 7)]) =
      .ok (.literal 0.0) :=
  ⟨rfl, rfl, rfl, rfl⟩

end SkillGraph
