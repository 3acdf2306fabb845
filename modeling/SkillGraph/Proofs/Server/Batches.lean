import SkillGraph.Registry.Standard
import SkillGraph.Server.Tool
import Mathlib.Tactic.Choose

/-! Batches of expressions, item by item. What a batch reports for an item is what the tool for one
expression answers to that item alone, wherever it stands and whatever stands around it. -/
namespace SkillGraph.Server

/-- What the tool for one expression answers to a text. -/
def alone (c : Compiler) (text : String) : Outcome :=
  Tool.parse.run c (.object [("expression", .string text)])

def fails (c : Compiler) (item : Json) : Bool :=
  item.string?.all fun text => !(alone c text).isOk

/-- What an item must come to, as a member by its name: the record or the diagnostic that the tool
for one expression answers with, if the item is a text at all. -/
inductive Reports (c : Compiler) : Json → String × Json → Prop
  | parsed {text : String} {record : Json}
    (answered : alone c text = .ok (.object [("node", record)])) :
    Reports c (.string text) ("node", record)
  | refused {text : String} {failure : Failure} {diagnostic : Json}
    (answered : alone c text = .error failure) (data : failure.data = some diagnostic) :
    Reports c (.string text) ("error", diagnostic)
  | unfit {item : Json} (other : item.string? = none) :
    Reports c item ("error", .object
      [("code", .string "INVALID_PARAMS"), ("message", .string "expression must be a string")])

def numbered (index : Nat) (outcome : String × Json) : Json :=
  .object [("index", .nat index), outcome]

def showsError (result : Json) : Bool := (result.member? "error").isSome

variable {c : Compiler} {text : String} {item : Json} {outcome : String × Json}

theorem alone_of_ok {n : Node} (parsed : c.parseGraph text = .ok n) :
    alone c text = .ok (.object [("node", n.toJson)]) := by
  change (compiled (c.parseGraph text) >>= fun n => _) = _
  rw [parsed]
  rfl

theorem alone_of_error {d : Diagnostic} (refused : c.parseGraph text = .error d) :
    alone c text = .error (.ofDiagnostic d) := by
  change (compiled (c.parseGraph text) >>= fun n => _) = _
  rw [refused]
  rfl

/-- An item comes to what the tool for one expression answers, at every position. -/
theorem exists_reports (c : Compiler) (item : Json) : ∃ outcome, Reports c item outcome ∧
    ∀ index, batchItem c index item = numbered index outcome := by
  cases item with
  | string text =>
    cases result : c.parseGraph text with
    | ok n =>
      refine ⟨_, .parsed (alone_of_ok result), fun index => ?_⟩
      simp only [batchItem, Json.string?, result]
      rfl
    | error d =>
      refine ⟨_, .refused (alone_of_error result) rfl, fun index => ?_⟩
      simp only [batchItem, Json.string?, result]
      rfl
  | null | bool | number | array | object => exact ⟨_, .unfit rfl, fun _ => rfl⟩

theorem fails_string (c : Compiler) (text : String) :
    fails c (.string text) = !(alone c text).isOk := rfl

/-- A result shows an error exactly if its item fails. -/
theorem Reports.showsError_eq (reports : Reports c item outcome) (index : Nat) :
    showsError (numbered index outcome) = fails c item := by
  cases reports with
  | parsed answered =>
    rw [fails_string, answered]
    rfl
  | refused answered =>
    rw [fails_string, answered]
    rfl
  | unfit other =>
    rw [fails, other]
    rfl

theorem countP_mapIdx {α β : Type} {f : Nat → α → β} {p : β → Bool} {q : α → Bool} {xs : List α}
    (same : ∀ i x, p (f i x) = q x) : (xs.mapIdx f).countP p = xs.countP q := by
  induction xs generalizing f with
  | nil => rfl
  | cons x xs ih =>
    rw [List.mapIdx_cons, List.countP_cons, List.countP_cons, same, ih fun i => same (i + 1)]

theorem run_parseBatch {args : Json} {items : List Json}
    (given : args.member? "expressions" = some (.array items)) :
    let results := items.mapIdx (batchItem c)
    Tool.parseBatch.run c args = .ok (.object
      [("results", .array results), ("failed", .nat (results.countP showsError))]) := by
  rw [Tool.run, parseBatch, given]
  rfl

/-- A batch is its items: whatever they are, it succeeds, with one result for each item in their
order, numbered from zero, and with the number of those that fail. What an item comes to depends on
the item alone. -/
theorem parseBatch_itemwise (c : Compiler) :
    ∃ outcome : Json → String × Json, (∀ item, Reports c item (outcome item)) ∧
      ∀ (args : Json) (items : List Json), args.member? "expressions" = some (.array items) →
        Tool.parseBatch.run c args = .ok (.object [
          ("results", .array (items.mapIdx fun index item => numbered index (outcome item))),
          ("failed", .nat (items.countP (fails c)))]) := by
  choose outcome reports shown using exists_reports c
  refine ⟨outcome, reports, fun args items given => ?_⟩
  have results : batchItem c = fun index item => numbered index (outcome item) := by
    funext index item
    exact shown item index
  -- The batch counts the results that show an error, and not the failures themselves.
  have failed (index : Nat) (item : Json) :
      showsError (numbered index (outcome item)) = fails c item :=
    (reports item).showsError_eq index
  rw [run_parseBatch given, results, countP_mapIdx failed]

/-- An expression, one that is refused, an item that is no text, and the first one again. -/
theorem parseBatch_itemwise_mixed :
    let c : Compiler := ⟨.standard, .none⟩
    let items : List Json := [.string "Self()", .string "1 +", .nat 7, .string "Self()"]
    let args : Json := .object [("expressions", .array items), ("note", .null)]
    args.member? "expressions" = some (.array items) ∧
      ∃ outcome : Json → String × Json, (∀ item, Reports c item (outcome item)) ∧
        Tool.parseBatch.run c args = .ok (.object [
          ("results", .array (items.mapIdx fun index item => numbered index (outcome item))),
          ("failed", .nat 2)]) := by
  intro c items args
  obtain ⟨outcome, reports, answers⟩ := parseBatch_itemwise c
  have failed : items.countP (fails c) = 2 := by decide +kernel
  refine ⟨rfl, outcome, reports, ?_⟩
  rw [← failed]
  exact answers args items rfl

end SkillGraph.Server
