import SkillGraph.Proofs.Record.Roundtrip
import SkillGraph.Proofs.Spelling.Results

/-! Records of graphs that have an expression. Registration keeps tags and keys apart, so that such
a graph is unambiguous, and what its record gives back has an expression again. -/
namespace SkillGraph

variable {r : Registry}

/-- The keys of stored fields are the first ones of the atom. -/
theorem prefix_of_fieldsFit {fs : List Field} {fields : List (String × Value)}
    (fit : fieldsFit r fs fields = true) : fields.map Prod.fst <+: fs.map Field.key := by
  induction fields generalizing fs with
  | nil => exact List.nil_prefix
  | cons field more ih =>
    cases fs with
    | nil => simp [fieldsFit] at fit
    | cons f rest =>
      obtain ⟨same, later, -⟩ := fieldsFit_cons_cons fit
      rw [List.map_cons, List.map_cons, same, List.prefix_cons_inj]
      exact ih later

mutual

theorem Node.unambiguous_of_wellFormed (n : Node) (fine : n.wellFormed r = true) :
    n.unambiguous = true := by
  match n with
  | .constant .. | .boolean _ => rfl
  | .negate operand | .not operand => exact operand.unambiguous_of_wellFormed fine
  | .operation group code left right =>
    obtain ⟨-, low, high⟩ := Node.of_wellFormed_operation fine
    simp [Node.unambiguous, left.unambiguous_of_wellFormed low,
      right.unambiguous_of_wellFormed high]
  | .call tag fields =>
    obtain ⟨a, member, rfl, -, -, fit⟩ := Node.of_wellFormed_call fine
    have faultless := r.sound.faultless a member
    obtain ⟨free, reserved⟩ := Atom.record_of_fault?_eq_none faultless
    have keys := (prefix_of_fieldsFit fit).sublist
    have apart : (className :: fields.map Prod.fst).Nodup :=
      List.nodup_cons.2 ⟨fun member => reserved (keys.subset member),
        (Atom.of_fault?_eq_none faultless).2.2.nodup.sublist keys⟩
    have inside := fieldsUnambiguous_of_fieldsFit a.fields fields fit
    simp only [Node.unambiguous, Bool.and_eq_true, decide_eq_true_eq]
    exact ⟨⟨free, apart⟩, inside⟩

theorem Value.unambiguous_of_fits (kind : Kind) (v : Value) (fits : v.fits r kind = true) :
    v.unambiguous = true := by
  match v with
  | .number _ | .bool _ | .text _ => rfl
  | .node n => exact n.unambiguous_of_wellFormed (Value.of_fits_node fits).1
  | .list items => simp [Value.fits] at fits

theorem itemsUnambiguous_of_itemsFit (kind : Kind) (items : List Value)
    (fit : itemsFit r kind items = true) : itemsUnambiguous items = true := by
  match items with
  | [] => rfl
  | item :: rest =>
    obtain ⟨first, others⟩ := of_itemsFit_cons fit
    simp [itemsUnambiguous, item.unambiguous_of_fits kind first,
      itemsUnambiguous_of_itemsFit kind rest others]

theorem fieldsUnambiguous_of_fieldsFit (fs : List Field) (fields : List (String × Value))
    (fit : fieldsFit r fs fields = true) : fieldsUnambiguous fields = true := by
  match fs, fields with
  | _, [] => rfl
  | [], field :: more => simp [fieldsFit] at fit
  | f :: rest, (key, v) :: more =>
    obtain ⟨-, later, ⟨items, rfl, -, -, inside⟩ | ⟨-, inside⟩⟩ := fieldsFit_cons_cons fit
    · have first := itemsUnambiguous_of_itemsFit f.kind items inside
      simp [fieldsUnambiguous, Value.unambiguous, first,
        fieldsUnambiguous_of_fieldsFit rest more later]
    · simp [fieldsUnambiguous, v.unambiguous_of_fits f.kind inside,
        fieldsUnambiguous_of_fieldsFit rest more later]

end

theorem Kind.keeps_recorded (kind : Kind) (n : Node) :
    kind.keeps n.recorded = kind.keeps n := by
  cases n with
  | negate operand => cases kind <;> cases operand <;> rfl
  | _ => cases kind <;> rfl

theorem length_recordedItems (items : List Value) :
    (recordedItems items).length = items.length := by
  induction items with
  | nil => rfl
  | cons item rest ih => rw [recordedItems, List.length_cons, List.length_cons, ih]

theorem Value.count_recorded (v : Value) : v.recorded.count = v.count := by
  cases v with
  | list items => exact length_recordedItems items
  | _ => rfl

theorem argumentCount_recordedFields (fields : List (String × Value)) :
    argumentCount (recordedFields fields) = argumentCount fields := by
  induction fields with
  | nil => rfl
  | cons field rest ih =>
    rw [recordedFields, argumentCount_cons, argumentCount_cons, Value.count_recorded, ih]

mutual

/-- Zero without its sign has an expression, as has the zero of a bound constant. -/
theorem Node.wellFormed_recorded (n : Node) (fine : n.wellFormed r = true) :
    n.recorded.wellFormed r = true := by
  match n with
  | .constant x key =>
    rcases Node.cases_of_wellFormed_constant fine with ⟨rfl, unsigned⟩ | ⟨-, rfl, -⟩
    · simpa [Node.recorded, Node.wellFormed] using Number.isUnsigned_recorded unsigned
    · have zero : Number.recorded 0.0 = 0.0 := by decide +kernel
      rw [Node.recorded, zero]
      exact fine
  | .boolean b => rfl
  | .negate operand | .not operand => exact operand.wellFormed_recorded fine
  | .operation group code left right =>
    obtain ⟨known, low, high⟩ := Node.of_wellFormed_operation fine
    simp [Node.recorded, Node.wellFormed, known, left.wellFormed_recorded low,
      right.wellFormed_recorded high]
  | .call tag fields =>
    obtain ⟨a, -, -, found, enough, fit⟩ := Node.of_wellFormed_call fine
    have inside := fieldsFit_recordedFields a.fields fields fit
    simp [Node.recorded, Node.wellFormed, found, argumentCount_recordedFields, enough, inside]

theorem Value.fits_recorded (kind : Kind) (v : Value) (fits : v.fits r kind = true) :
    v.recorded.fits r kind = true := by
  match v with
  | .number x => rwa [Value.recorded, Value.fits, Number.isNaN_recorded]
  | .bool _ | .text _ => exact fits
  | .node n =>
    obtain ⟨fine, keeps⟩ := Value.of_fits_node fits
    simp [Value.recorded, Value.fits, n.wellFormed_recorded fine, Kind.keeps_recorded, keeps]
  | .list items => simp [Value.fits] at fits

theorem itemsFit_recordedItems (kind : Kind) (items : List Value)
    (fit : itemsFit r kind items = true) : itemsFit r kind (recordedItems items) = true := by
  match items with
  | [] => rfl
  | item :: rest =>
    obtain ⟨first, others⟩ := of_itemsFit_cons fit
    simp [recordedItems, itemsFit, item.fits_recorded kind first,
      itemsFit_recordedItems kind rest others]

theorem fieldsFit_recordedFields (fs : List Field) (fields : List (String × Value))
    (fit : fieldsFit r fs fields = true) : fieldsFit r fs (recordedFields fields) = true := by
  match fs, fields with
  | _, [] => exact fit
  | [], field :: more => simp [fieldsFit] at fit
  | f :: rest, (key, v) :: more =>
    obtain ⟨rfl, later, ⟨items, rfl, array, some, inside⟩ | ⟨scalar, inside⟩⟩ :=
      fieldsFit_cons_cons fit
    · have others := fieldsFit_recordedFields rest more later
      refine fieldsFit_array array ?_ (itemsFit_recordedItems f.kind items inside) others
      rwa [← List.length_pos_iff, length_recordedItems, List.length_pos_iff]
    · have others := fieldsFit_recordedFields rest more later
      exact fieldsFit_scalar scalar (v.fits_recorded f.kind inside) others

end

/-- Storing keeps what was written. The record of the graph of an expression without lone equals
signs gives back an equal graph, and the expression for that graph parses to it again. -/
theorem ofJson_toJson_of_parseGraph (r : Registry) (text : String) (words : List String) (n : Node)
    (lexed : lexemes text = .ok words) (noEquals : "=" ∉ words)
    (parsed : Compiler.parseGraph ⟨r, .none⟩ text = .ok n)
    (plain : ∀ s ∈ n.texts, s ∉ Record.numberWords) :
    ∃ m, Node.ofJson n.toJson = .ok m ∧ (n == m) = true ∧
      Compiler.parseGraph ⟨r, .none⟩ (Compiler.spellGraph ⟨r, .none⟩ m) = .ok m := by
  have fine : n.wellFormed r = true :=
    spellable_of_parse lexed noEquals (Compiler.parseGraph_eq_ok_iff.1 parsed)
  have read := Node.ofJson_record (n.unambiguous_of_wellFormed fine) plain
  have again := Compiler.parseGraph_eq_ok_iff.2 (parse_spell_node (n.wellFormed_recorded fine))
  refine ⟨n.recorded, read, ?_, again⟩
  change n.same n.recorded = true
  rw [n.same_recorded, n.same_self fine]

/-- A zero that loses its sign, and an infinity that is written as a word. -/
theorem ofJson_toJson_of_parseGraph_delay :
    ∃ n m, Compiler.parseGraph ⟨.standard, .none⟩
        "Delay(-0, AddBuff(Self, 'NaN?', Sum({rate}, -Infinity)))" = .ok n ∧
      Node.ofJson n.toJson = .ok m ∧ (n == m) = true ∧
      Compiler.parseGraph ⟨.standard, .none⟩ (Compiler.spellGraph ⟨.standard, .none⟩ m) =
        .ok m := by
  obtain ⟨n, parsed, texts⟩ := map_eq_ok_iff.1
    (show (Compiler.parseGraph ⟨.standard, .none⟩
        "Delay(-0, AddBuff(Self, 'NaN?', Sum({rate}, -Infinity)))").map Node.texts =
      .ok ["NaN?"] by decide +kernel)
  have words : lexemes "Delay(-0, AddBuff(Self, 'NaN?', Sum({rate}, -Infinity)))" =
      .ok ["Delay", "(", "-", "0", ",", "AddBuff", "(", "Self", ",", "'NaN?'", ",", "Sum", "(",
        "{rate}", ",", "-", "Infinity", ")", ")", ")"] := by
    decide +kernel
  obtain ⟨m, kept⟩ := ofJson_toJson_of_parseGraph .standard _ _ n words (by decide) parsed
    (by rw [texts]; decide)
  exact ⟨n, m, parsed, kept⟩

end SkillGraph
