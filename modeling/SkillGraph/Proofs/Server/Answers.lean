import SkillGraph.Proofs.Json.Printable
import SkillGraph.Proofs.Server.Lines
import Mathlib

/-! The answers of the server to a text: one for each of its lines that asks for one, in the order of
the lines. -/
namespace SkillGraph.Server

/-! Lines of characters -/

def lines (input : String) : List String := (input.toList.splitOn '\n').map .ofList

/-- Only a line feed is encoded with the byte of a line feed. -/
theorem notMem_utf8EncodeChar {c : Char} (other : c ≠ '\n') : 10 ∉ String.utf8EncodeChar c := by
  have value : c.val.toNat ≠ 10 := fun same => other (Char.toNat_inj.1 same)
  have byte {n : Nat} (other : n % 256 ≠ 10) : 10 ≠ UInt8.ofNat n := by
    intro same
    apply other
    simpa using (congrArg UInt8.toNat same).symm
  unfold String.utf8EncodeChar
  dsimp only
  split_ifs with one two three
  all_goals simp only [List.mem_cons, List.not_mem_nil, or_false, not_or]
  · exact byte (by omega)
  · exact ⟨byte (by omega), byte (by omega)⟩
  · exact ⟨byte (by omega), byte (by omega), byte (by omega)⟩
  · exact ⟨byte (by omega), byte (by omega), byte (by omega), byte (by omega)⟩

def written (c : Compiler) (line : List Char) : List String :=
  ((answerLine c (.ofList line)).map Json.write).toList

theorem replies_utf8Encode (c : Compiler) (line : List Char) (rest : List ByteArray) :
    replies c (line.utf8Encode :: rest) = written c line ++ replies c rest :=
  replies_cons ByteArray.isValidUTF8_utf8Encode rest

theorem modifyHead_nil_append {α : Type} (xss : List (List α)) :
    xss.modifyHead ([] ++ ·) = xss := by
  cases xss <;> rfl

/-- The characters in front have been read before and begin the first line. -/
theorem replies_linesFrom (c : Compiler) (front cs : List Char) :
    replies c (linesFrom front.utf8Encode (cs.flatMap String.utf8EncodeChar)) =
      ((cs.splitOn '\n').modifyHead (front ++ ·)).flatMap (written c) := by
  induction cs generalizing front with
  | nil =>
    rw [List.splitOn_nil, List.modifyHead_cons, List.append_nil, List.flatMap_nil, linesFrom]
    split
    case isTrue empty =>
      -- An empty line is blank.
      have none : front = [] := by
        apply List.utf8Encode_eq_empty.1
        apply ByteArray.size_eq_zero_iff.1
        simpa [ByteArray.isEmpty] using empty
      rw [none]
      rfl
    case isFalse => exact replies_utf8Encode c front []
  | cons d cs ih =>
    by_cases feed : d = '\n'
    · have next := ih []
      rw [modifyHead_nil_append] at next
      rw [feed, List.splitOn_cons_eq_if_modifyHead, if_pos (beq_self_eq_true _),
        List.modifyHead_cons, List.append_nil, List.flatMap_cons, List.flatMap_cons, ← next]
      exact replies_utf8Encode c front _
    · have next := ih (front ++ [d])
      rw [List.utf8Encode_append, List.utf8Encode_singleton] at next
      have joined : ((front ++ [d]) ++ ·) = (front ++ ·) ∘ (d :: ·) := by
        funext cs
        simp
      rw [List.splitOn_cons_eq_if_modifyHead, if_neg (by simpa using feed),
        List.modifyHead_modifyHead, ← joined, ← next, List.flatMap_cons,
        linesFrom_append (notMem_utf8EncodeChar feed)]

/-- The text of an input is answered line by line. -/
theorem serve_toUTF8 (c : Compiler) (input : String) :
    serve c input.toUTF8.data.toList =
      ((lines input).filterMap (answerLine c)).map Json.write := by
  have bytes : input.toUTF8.data.toList = input.toList.flatMap String.utf8EncodeChar := by
    rw [String.toUTF8, ← String.utf8Encode_toList, List.utf8Encode, List.toList_data_toByteArray]
  have read := replies_linesFrom c [] input.toList
  rw [modifyHead_nil_append, List.utf8Encode_nil] at read
  rw [serve, bytes, read, lines, List.filterMap_map, List.map_filterMap,
    List.filterMap_eq_flatMap_toList]
  simp only [Function.comp_apply]
  rfl

/-! Questions and answers -/

/-- Whether a line wants an answer. A blank one does not, nor does a request that has no id or a null
for its id. What is no request at all is answered as an error. -/
def asks (line : String) : Bool :=
  Text.trim line ≠ "" &&
    (Request.read? (Text.trim line)).all fun request => request.id.any (!·.isNull)

/-- What an answer to a line must be, whatever the line asks for. -/
structure Answers (line : String) (answer : Json) : Prop where
  /-- An object without repeated members. -/
  members : ∃ ms, answer = .object ms ∧ (ms.map Prod.fst).Nodup
  version : answer.member? "jsonrpc" = some (.string "2.0")
  /-- A result or an error, and not both. -/
  outcome : (answer.member? "result").isSome ≠ (answer.member? "error").isSome
  /-- The id of the request, if the line is one, and else none. -/
  id : answer.member? "id" = (Request.read? (Text.trim line)).bind Request.id
  unreadable : Request.read? (Text.trim line) = none →
    (answer.member? "error").bind (Json.member? · "code") = some (.number (.integer (-32700)))

variable {line : String} {json : Json}

theorem isNull_value? {levels : Nat} {syn : Json.Syntax} (read : syn.value? levels = some json)
    (other : syn ≠ .null) : json.isNull = false := by
  match levels, syn with
  | _, .null => exact absurd rfl other
  | _, .bool b => exact Option.some.inj read ▸ rfl
  | _, .number n =>
    obtain ⟨n, -, rfl⟩ := Option.map_eq_some_iff.1 read
    rfl
  | _, .string s =>
    obtain ⟨s, -, rfl⟩ := Option.map_eq_some_iff.1 read
    rfl
  | levels + 1, .array items =>
    obtain ⟨values, -, rfl⟩ := Option.map_eq_some_iff.1 read
    rfl
  | levels + 1, .object members =>
    obtain ⟨values, -, rfl⟩ := Option.map_eq_some_iff.1 read
    rfl

theorem exists_of_nullable {α : Type} {form : Json.Form} {name : String}
    {read : Json.Syntax → Option α} {value : α} (found : form.nullable name read = some (some value)) :
    ∃ syn, syn ≠ .null ∧ read syn = some value := by
  obtain ⟨only, -, found⟩ := Option.bind_eq_some_iff.1 found
  split at found
  · cases found
  · cases found
  case h_3 syn other =>
    obtain ⟨value, found, same⟩ := Option.map_eq_some_iff.1 found
    exact ⟨syn, fun null => other (null ▸ rfl), Option.some.inj same ▸ found⟩

theorem isNull_id {request : Request} (read : Request.read? line = some request)
    (id : request.id = some json) : json.isNull = false := by
  obtain ⟨syn, -, read⟩ := Option.bind_eq_some_iff.1 read
  obtain ⟨form, -, read⟩ := Option.bind_eq_some_iff.1 read
  obtain ⟨-, -, read⟩ := Option.bind_eq_some_iff.1 read
  obtain ⟨found, nullable, read⟩ := Option.bind_eq_some_iff.1 read
  obtain ⟨method, -, read⟩ := Option.bind_eq_some_iff.1 read
  obtain ⟨params, -, read⟩ := Option.bind_eq_some_iff.1 read
  obtain rfl := Option.some.inj read
  obtain rfl : found = some json := id
  obtain ⟨syn, other, value⟩ := exists_of_nullable nullable
  exact isNull_value? value other

theorem isSome_answerLine (c : Compiler) (line : String) :
    (answerLine c line).isSome = asks line := by
  unfold answerLine asks
  dsimp only
  by_cases blank : Text.trim line = ""
  · rw [if_pos blank]
    simp [blank]
  rw [if_neg blank]
  cases read : Request.read? (Text.trim line) with
  | none => simp [blank]
  | some request =>
    cases id : request.id with
    | none => simp [id]
    | some json => simp [id, blank, isNull_id read id]

theorem nodup_answer (id : Option Json) (outcome : Outcome) :
    ∃ ms, answer id outcome = .object ms ∧ (ms.map Prod.fst).Nodup := by
  refine ⟨_, rfl, ?_⟩
  cases id <;> cases outcome <;> simp

/-- Whatever a request leads to, it is a result or an error. -/
theorem isSome_result_answer (id : Option Json) (outcome : Outcome) :
    ((answer id outcome).member? "result").isSome ≠ ((answer id outcome).member? "error").isSome := by
  cases id <;> cases outcome <;> exact nofun

theorem member?_id_answer (id : Option Json) (outcome : Outcome) :
    (answer id outcome).member? "id" = id := by
  cases id <;> cases outcome <;> rfl

theorem answers_of_answerLine {c : Compiler} (answered : answerLine c line = some json) :
    Answers line json := by
  unfold answerLine at answered
  dsimp only at answered
  split at answered
  · cases answered
  split at answered
  case h_1 read =>
    obtain rfl := Option.some.inj answered
    refine ⟨nodup_answer _ _, rfl, isSome_result_answer _ _, ?_, fun _ => rfl⟩
    rw [member?_id_answer, read]
    rfl
  case h_2 request read =>
    obtain ⟨id, held, rfl⟩ := Option.map_eq_some_iff.1 answered
    refine ⟨nodup_answer _ _, rfl, isSome_result_answer _ _, ?_, fun none => ?_⟩
    · rw [member?_id_answer, read]
      exact held.symm
    · rw [read] at none
      cases none

theorem forall₂_answers (c : Compiler) (texts : List String) :
    List.Forall₂ Answers (texts.filter asks) (texts.filterMap (answerLine c)) := by
  induction texts with
  | nil => exact .nil
  | cons line rest ih =>
    have asked := isSome_answerLine c line
    cases answered : answerLine c line with
    | none =>
      rw [answered] at asked
      rw [List.filter_cons_of_neg (by simp [← asked]), List.filterMap_cons_none answered]
      exact ih
    | some json =>
      rw [answered] at asked
      rw [List.filter_cons_of_pos asked.symm, List.filterMap_cons_some answered]
      exact .cons (answers_of_answerLine answered) ih

/-- The server writes as many lines as its input has lines that ask for an answer, one to each in
their order, and each on a line of its own. -/
theorem serve_text (c : Compiler) (input : String) :
    ∃ answers : List Json, serve c input.toUTF8.data.toList = answers.map Json.write ∧
      List.Forall₂ Answers ((lines input).filter asks) answers ∧
      ∀ output ∈ serve c input.toUTF8.data.toList, '\n' ∉ output.toList := by
  refine ⟨_, serve_toUTF8 c input, forall₂_answers c (lines input), ?_⟩
  intro output mem
  rw [serve_toUTF8] at mem
  obtain ⟨json, -, rfl⟩ := List.mem_map.1 mem
  exact json.printable_write.notMem_feed

/-- A blank line, a request without an id, a text that is no JSON, and a request with an id. Then
requests as arrays, of which the one with null for an id gets no answer. -/
example : serve ⟨.standard, .none⟩ ("\r\n\x7b\"jsonrpc\":\"2.0\",\"method\":\"ping\"\x7d\n[\n" ++
    "\x7b\"jsonrpc\":\"2.0\",\"id\":\"a\",\"method\":\"ping\"\x7d\n" ++
    "[\"2.0\",null,\"ping\"]\n[\"2.0\",1,\"ping\"]").toUTF8.data.toList = [
      "\x7b\"jsonrpc\":\"2.0\",\"error\":\x7b\"code\":-32700,\"message\":\"Parse error: *\"\x7d\x7d",
      "\x7b\"jsonrpc\":\"2.0\",\"id\":\"a\",\"result\":\x7b\x7d\x7d",
      "\x7b\"jsonrpc\":\"2.0\",\"id\":1,\"result\":\x7b\x7d\x7d"] := by
  decide +kernel

end SkillGraph.Server
