import SkillGraph.Registry.Standard
import SkillGraph.Server.Loop
import Mathlib

/-! The lines of the server, each for itself. A line of text is answered without regard to the lines
around it; a line that is no text ends the run, and what follows it is not answered. -/
namespace SkillGraph.Server

def sent (lines : List ByteArray) : List UInt8 := lines.flatMap fun line => line.data.toList ++ [10]

theorem sent_append (before lines : List ByteArray) :
    sent (before ++ lines) = sent before ++ sent lines := List.flatMap_append

/-- Bytes without a line feed are collected into the line that was begun. -/
theorem linesFrom_append {bytes : List UInt8} (unbroken : 10 ∉ bytes) (front : ByteArray)
    (rest : List UInt8) :
    linesFrom front (bytes ++ rest) = linesFrom (front ++ bytes.toByteArray) rest := by
  induction bytes generalizing front with
  | nil => rw [List.nil_append, List.toByteArray_nil, ByteArray.append_empty]
  | cons byte bytes ih =>
    obtain ⟨other, unbroken⟩ : 10 ≠ byte ∧ 10 ∉ bytes := by simpa using unbroken
    have pushed : front.push byte ++ bytes.toByteArray = front ++ (byte :: bytes).toByteArray := by
      apply ByteArray.ext
      apply Array.ext'
      simp [ByteArray.push]
    rw [List.cons_append, linesFrom, if_neg other.symm, ih unbroken, pushed]

/-- What was sent as lines is read as these lines, whatever is sent behind them. -/
theorem linesFrom_sent {lines : List ByteArray} (unbroken : ∀ line ∈ lines, 10 ∉ line.data.toList)
    (rest : List UInt8) :
    linesFrom .empty (sent lines ++ rest) = lines ++ linesFrom .empty rest := by
  induction lines with
  | nil => rfl
  | cons line lines ih =>
    obtain ⟨first, others⟩ := List.forall_mem_cons.1 unbroken
    have split : sent (line :: lines) ++ rest =
        line.data.toList ++ 10 :: (sent lines ++ rest) := by simp [sent]
    have whole : ByteArray.empty ++ line.data.toList.toByteArray = line := by
      apply ByteArray.ext
      simp
    rw [split, linesFrom_append first, whole, linesFrom, if_pos rfl, ih others]
    rfl

variable {c : Compiler} {line : ByteArray} {lines : List ByteArray}

theorem react_of_not_text (broken : ¬line.IsValidUTF8) : react c line = .stop := by
  rw [react, String.fromUTF8?, dif_neg broken]

theorem replies_cons (text : line.IsValidUTF8) (rest : List ByteArray) :
    replies c (line :: rest) =
      ((answerLine c (String.fromUTF8 line text)).map Json.write).toList ++ replies c rest := by
  rw [replies, react, String.fromUTF8?, dif_pos text]
  cases answer : answerLine c (String.fromUTF8 line text) <;> simp [answer]

theorem replies_append (texts : ∀ line ∈ lines, line.IsValidUTF8) (rest : List ByteArray) :
    replies c (lines ++ rest) = replies c lines ++ replies c rest := by
  induction lines with
  | nil => rfl
  | cons line lines ih =>
    obtain ⟨text, texts⟩ := List.forall_mem_cons.1 texts
    rw [List.cons_append, replies_cons text, replies_cons text, ih texts, List.append_assoc]

theorem replies_append_of_broken (broken : ∃ line ∈ lines, ¬line.IsValidUTF8)
    (rest : List ByteArray) : replies c (lines ++ rest) = replies c lines := by
  induction lines with
  | nil => simp at broken
  | cons line lines ih =>
    by_cases text : line.IsValidUTF8
    · rw [List.cons_append, replies_cons text, replies_cons text, ih (by simpa [text] using broken)]
    · rw [List.cons_append, replies, replies, react_of_not_text text]

/-- If one of the lines is no text, the last of them is not answered. -/
theorem replies_concat_of_broken (broken : ∃ l ∈ lines ++ [line], ¬l.IsValidUTF8) :
    replies c (lines ++ [line]) = replies c lines := by
  by_cases texts : ∀ l ∈ lines, l.IsValidUTF8
  · have bare : ¬line.IsValidUTF8 := by
      intro text
      obtain ⟨l, mem, broken⟩ := broken
      rcases List.mem_append.1 mem with mem | mem
      · exact broken (texts l mem)
      · exact broken (List.mem_singleton.1 mem ▸ text)
    rw [replies_append texts, replies, react_of_not_text bare, List.append_nil]
  · apply replies_append_of_broken
    simpa using texts

/-- No line gets more than one answer. -/
theorem length_replies_le (c : Compiler) (line : ByteArray) : (replies c [line]).length ≤ 1 := by
  by_cases text : line.IsValidUTF8
  · rw [replies_cons text]
    cases answerLine c (String.fromUTF8 line text) <;> simp [replies]
  · simp [replies, react_of_not_text text]

theorem serve_sent_append (unbroken : ∀ l ∈ lines, 10 ∉ l.data.toList) (rest : List UInt8) :
    serve c (sent lines ++ rest) = replies c (lines ++ linesFrom .empty rest) := by
  rw [serve, linesFrom_sent unbroken]

theorem serve_sent (unbroken : ∀ l ∈ lines, 10 ∉ l.data.toList) :
    serve c (sent lines) = replies c lines := by
  have ended : linesFrom .empty [] = [] := rfl
  simpa [ended] using serve_sent_append unbroken []

/-- A line gets at most one answer. As long as all lines are text, the answers to the lines before it
and behind it are what they would be without it. But a line that is no text ends the run: then only
the lines before it are answered. -/
theorem serve_around (c : Compiler) {before : List ByteArray} {line : ByteArray}
    (unbroken : ∀ l ∈ before ++ [line], 10 ∉ l.data.toList) (after : List UInt8) :
    let own := serve c (sent [line])
    own.length ≤ 1 ∧ serve c (sent before ++ sent [line] ++ after) =
      if ∀ l ∈ before ++ [line], l.IsValidUTF8 then serve c (sent before) ++ own ++ serve c after
      else serve c (sent before) := by
  obtain ⟨first, alone⟩ := List.forall_mem_append.1 unbroken
  dsimp only
  rw [← sent_append, serve_sent_append unbroken, serve_sent first, serve_sent alone]
  refine ⟨length_replies_le c line, ?_⟩
  split
  case isTrue texts =>
    rw [replies_append texts, replies_append (List.forall_mem_append.1 texts).1, serve]
  case isFalse broken =>
    have broken : ∃ l ∈ before ++ [line], ¬l.IsValidUTF8 := by simpa using broken
    exact (replies_append_of_broken broken _).trans (replies_concat_of_broken broken)

/-- Malformed JSON between two requests is answered for itself, and both requests are answered. -/
theorem serve_around_malformed :
    let c : Compiler := ⟨.standard, .none⟩
    let ping := "\x7b\"jsonrpc\":\"2.0\",\"id\":1,\"method\":\"ping\"\x7d".toUTF8
    let own := serve c (sent ["\x7b".toUTF8])
    own.length = 1 ∧ serve c (sent [ping] ++ sent ["\x7b".toUTF8] ++ sent [ping]) =
      serve c (sent [ping]) ++ own ++ serve c (sent [ping]) := by
  intro c ping own
  have unbroken : ∀ l ∈ [ping] ++ ["\x7b".toUTF8], 10 ∉ l.data.toList := by decide +kernel
  obtain ⟨-, together⟩ := serve_around c unbroken (sent [ping])
  refine ⟨by decide +kernel, together.trans (if_pos ?_)⟩
  decide +kernel

/-- Behind a line that is no text, not even a request gets an answer. -/
theorem serve_stops_at_broken_line :
    let c : Compiler := ⟨.standard, .none⟩
    let ping := "\x7b\"jsonrpc\":\"2.0\",\"id\":1,\"method\":\"ping\"\x7d".toUTF8
    ¬∃ own : List String, own.length ≤ 1 ∧ serve c (sent [] ++ sent [⟨#[255]⟩] ++ sent [ping]) =
      serve c (sent []) ++ own ++ serve c (sent [ping]) := by
  rintro c ping ⟨own, -, same⟩
  have stopped : serve c (sent [] ++ sent [⟨#[255]⟩] ++ sent [ping]) = [] := by decide +kernel
  have answered : serve c (sent [ping]) ≠ [] := by decide +kernel
  rw [stopped] at same
  exact answered (List.append_eq_nil_iff.1 same.symm).2

end SkillGraph.Server
