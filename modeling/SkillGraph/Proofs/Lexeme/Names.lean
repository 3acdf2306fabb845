import SkillGraph.Proofs.Atom.Faultless
import SkillGraph.Proofs.Lexeme.Pieces
import Mathlib

/-! Words that stand for nothing but themselves: names, keys in braces and quoted spans are no
operators, and of these only names can be called. -/
namespace SkillGraph

namespace Lexeme

theorem not_holds_of_disjoint {first second : Text.Ranges} {c : Char}
    (disjoint : first.all fun r => second.all fun s => r.2.blt s.1 || s.2.blt r.1)
    (holds : second.holds c = true) : first.holds c = false := by
  obtain ⟨s, member, within⟩ := List.any_eq_true.1 holds
  apply Bool.eq_false_iff.2
  intro held
  obtain ⟨r, member', within'⟩ := List.any_eq_true.1 held
  have apart := List.all_eq_true.1 (List.all_eq_true.1 disjoint r member') s member
  simp only [Bool.and_eq_true, Bool.or_eq_true, decide_eq_true_eq, Nat.blt_eq]
    at within within' apart
  omega

def marks : Text.Ranges := ('"' :: symbols ++ forbidden).map fun c => (c.toNat, c.toNat)

theorem marks_holds {c : Char} (member : c ∈ '"' :: symbols ++ forbidden) :
    marks.holds c = true :=
  List.any_eq_true.2 ⟨_, List.mem_map_of_mem member, by simp⟩

theorem plain_of_isWord {c : Char} (word : Text.isWord c = true) :
    isPlain c = true ∧ c ∉ forbidden := by
  have blank : Text.isBlank c = false := not_holds_of_disjoint (by decide +kernel) word
  have unmarked : marks.holds c = false := not_holds_of_disjoint (by decide +kernel) word
  have other : c ∉ '"' :: symbols ++ forbidden := fun member => by
    simp [marks_holds member] at unmarked
  simp only [List.cons_append, List.mem_cons, List.mem_append, not_or] at other
  exact ⟨isPlain_eq_true_iff.2 ⟨other.1, blank, other.2.1⟩, other.2.2⟩

theorem isWord_of_isAlphanum {c : Char} (h : c.isAlphanum = true ∨ c = '_') :
    Text.isWord c = true := by
  have within (first last : Nat) (member : (first, last) ∈ Text.wordRanges)
      (low : first ≤ c.toNat) (high : c.toNat ≤ last) : Text.isWord c = true :=
    List.any_eq_true.2 ⟨_, member, by simp [low, high]⟩
  rcases h with h | rfl
  · simp only [Char.isAlphanum, Char.isAlpha, Char.isUpper, Char.isLower, Char.isDigit,
      Bool.or_eq_true, Bool.and_eq_true, decide_eq_true_eq] at h
    rcases h with (h | h) | h
    · exact within 65 90 (by decide) h.1 h.2
    · exact within 97 122 (by decide) h.1 h.2
    · exact within 48 57 (by decide) h.1 h.2
  · decide

theorem word_of_isName {name : String} (h : isName name = true) : Word name.toList := by
  obtain ⟨c, rest, same, first, others⟩ := isName_iff.1 h
  have letters : ∀ d ∈ c :: rest, d.isAlphanum = true ∨ d = '_' :=
    List.forall_mem_cons.2 ⟨first.imp_left fun alpha => by simp [Char.isAlphanum, alpha], others⟩
  have plain d member := plain_of_isWord (isWord_of_isAlphanum (letters d member))
  rw [same]
  exact .plain (List.cons_ne_nil c rest) (fun d member => (plain d member).1)
    fun d member => (plain d member).2

theorem not_isAlpha_of_isDigit {c : Char} (digit : c.isDigit = true) :
    (c.isAlpha || c = '_') = false := by
  have low : c.toNat ≤ 57 := by
    simp only [Char.isDigit, Bool.and_eq_true, decide_eq_true_eq] at digit
    exact digit.2
  apply Bool.eq_false_iff.2
  intro letter
  simp only [Char.isAlpha, Char.isUpper, Char.isLower, Bool.or_eq_true, Bool.and_eq_true,
    decide_eq_true_eq] at letter
  rcases letter with (letter | letter) | rfl
  · have : 65 ≤ c.toNat := letter.1
    omega
  · have : 97 ≤ c.toNat := letter.1
    omega
  · exact absurd low (by decide)

theorem word_of_digits {cs : List Char} (some : cs ≠ [])
    (digits : ∀ c ∈ cs, c.isDigit = true ∨ c = '.') : Word cs := by
  have plain : ∀ c ∈ cs, isPlain c = true ∧ c ∉ forbidden := by
    intro c member
    rcases digits c member with digit | rfl
    · exact plain_of_isWord (isWord_of_isAlphanum (.inl (by simp [Char.isAlphanum, digit])))
    · decide
  exact .plain some (fun c member => (plain c member).1) fun c member => (plain c member).2

theorem word_of_key {key : List Char} (word : key.all Text.isWord = true) :
    Word ('\x7b' :: (key ++ ['\x7d'])) := by
  have plain : ∀ c ∈ '\x7b' :: (key ++ ['\x7d']), isPlain c = true ∧ c ∉ forbidden := by
    intro c member
    simp only [List.mem_cons, List.mem_append, List.not_mem_nil, or_false] at member
    rcases member with rfl | member | rfl
    · decide
    · exact plain_of_isWord (List.all_eq_true.1 word c member)
    · decide
  exact .plain (by simp) (fun c member => (plain c member).1) fun c member => (plain c member).2

end Lexeme

theorem Token.ofLexeme_of_word {w : String} (word : Lexeme.Word w.toList) :
    ofLexeme w = .word w := by
  have symbol {c : Char} {rest : List Char} (h : c ∈ Lexeme.symbols) :
      ¬Lexeme.Word (c :: rest) := fun word => by
    cases word with
    | plain _ all => simp [Lexeme.isPlain, h] at all
    | quoted => simp [Lexeme.symbols] at h
  have spelled := lexeme_ofLexeme w
  cases kind : ofLexeme w with
  | word text => rw [kind] at spelled; exact congrArg Token.word spelled
  | operator op =>
    rw [kind] at spelled
    rw [← spelled] at word
    rcases op with _ | _ | (op | op | op)
    all_goals first
      | exact absurd word (symbol (by decide))
      | cases op <;> exact absurd word (symbol (by decide))
  | _ =>
    rw [kind] at spelled
    rw [← spelled] at word
    exact absurd word (symbol (by decide))

namespace Registry

variable {r : Registry} {name : String}

theorem of_isCallName (registered : r.isCallName name = true) :
    isName name = true ∧ name ∉ reservedWords := by
  rw [r.isCallName_eq] at registered
  obtain ⟨a, found⟩ := Option.isSome_iff_exists.1 registered
  obtain ⟨member, rfl⟩ := atomCalled?_eq_some_iff.1 found
  obtain ⟨named, free, -⟩ := Atom.of_fault?_eq_none (r.sound.faultless a member)
  exact ⟨named, free⟩

theorem isCallName_eq_false_of_head {c : Char} {rest : List Char}
    (spelled : name.toList = c :: rest)
    (other : (c.isAlpha || c = '_') = false) : r.isCallName name = false := by
  apply Bool.eq_false_iff.2
  intro registered
  have named := (of_isCallName registered).1
  simp [isName, spelled, other] at named

theorem isCallName_eq_false_of_reserved (reserved : name ∈ reservedWords) :
    r.isCallName name = false :=
  Bool.eq_false_iff.2 fun registered => (of_isCallName registered).2 reserved

end Registry

end SkillGraph
