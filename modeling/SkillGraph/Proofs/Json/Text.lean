import SkillGraph.Json.Reader
import SkillGraph.Json.Writer
import Mathlib

/-! The text of a value. Strings are read back from it with all their characters, arrays and objects
with all their items and members in order. Numbers are left to those who write them. -/
namespace SkillGraph.Json

/-! Strings, character by character -/

/-- A character is escaped by a letter, or by its code unit, or stands for itself. -/
theorem escaped_cases (c : Char) :
    (∃ e, escaped c = ['\\', e] ∧ Reader.unescaped? e = some c) ∨
    (c.toNat < 32 ∧
      escaped c = ['\\', 'u', '0', '0', hexDigit (c.toNat / 16), hexDigit c.toNat]) ∨
    (c ≠ '"' ∧ c ≠ '\\' ∧ 32 ≤ c.toNat ∧ escaped c = [c]) := by
  unfold escaped
  by_cases quote : c = '"'
  · exact .inl ⟨'"', if_pos quote, by rw [quote]; rfl⟩
  rw [if_neg quote]
  by_cases backslash : c = '\\'
  · exact .inl ⟨'\\', if_pos backslash, by rw [backslash]; rfl⟩
  rw [if_neg backslash]
  by_cases backspace : c = '\x08'
  · exact .inl ⟨'b', if_pos backspace, backspace ▸ rfl⟩
  rw [if_neg backspace]
  by_cases tab : c = '\t'
  · exact .inl ⟨'t', if_pos tab, tab ▸ rfl⟩
  rw [if_neg tab]
  by_cases feed : c = '\n'
  · exact .inl ⟨'n', if_pos feed, feed ▸ rfl⟩
  rw [if_neg feed]
  by_cases page : c = '\x0c'
  · exact .inl ⟨'f', if_pos page, page ▸ rfl⟩
  rw [if_neg page]
  by_cases back : c = '\r'
  · exact .inl ⟨'r', if_pos back, back ▸ rfl⟩
  rw [if_neg back]
  by_cases control : c.toNat < 32
  · exact .inr (.inl ⟨control, if_pos control⟩)
  · exact .inr (.inr ⟨quote, backslash, Nat.le_of_not_lt control, if_neg control⟩)

theorem codeUnit?_hexDigit {n : Nat} (control : n < 32) :
    Reader.codeUnit? '0' '0' (hexDigit (n / 16)) (hexDigit n) = some n := by
  have all : ∀ n < 32, Reader.codeUnit? '0' '0' (hexDigit (n / 16)) (hexDigit n) = some n := by
    decide
  exact all n control

/-- A code unit below all surrogates stands for its character, whatever follows. -/
theorem textOf?_unit {c : Char} (control : c.toNat < 32) (ps : List Piece) :
    textOf? (.unit c.toNat :: ps) = (textOf? ps).map (c :: ·) := by
  have low : ¬0xD800 ≤ c.toNat := by omega
  have low' : ¬0xDC00 ≤ c.toNat := by omega
  cases ps with
  | nil => simp [textOf?, low]
  | cons p ps => cases p <;> simp [textOf?, low, low']

theorem exists_piece (c : Char) :
    ∃ p, (∀ ps, textOf? (p :: ps) = (textOf? ps).map (c :: ·)) ∧
      ∀ rest, Reader.pieces (escaped c ++ rest) =
        (Reader.pieces rest).map fun (ps, rest) => (p :: ps, rest) := by
  rcases escaped_cases c with ⟨e, escape, known⟩ | ⟨control, escape⟩ |
      ⟨noQuote, noBackslash, printable, escape⟩
  · refine ⟨.char c, fun _ => rfl, fun rest => ?_⟩
    have other : e ≠ 'u' := by
      rintro rfl
      cases known
    rw [escape, List.cons_append, List.cons_append, List.nil_append, Reader.pieces]
    · simp [known, Option.map_eq_bind]
    · simp [other]
  · refine ⟨.unit c.toNat, textOf?_unit control, fun rest => ?_⟩
    simp [escape, Reader.pieces, codeUnit?_hexDigit control, Option.map_eq_bind]
  · refine ⟨.char c, fun _ => rfl, fun rest => ?_⟩
    have above : ¬c.toNat < 32 := Nat.not_lt.2 printable
    rw [escape, List.cons_append, List.nil_append, Reader.pieces]
    · simp [above, Option.map_eq_bind]
    all_goals simp [noQuote, noBackslash]

theorem exists_pieces (cs rest : List Char) :
    ∃ ps, Reader.pieces (cs.flatMap escaped ++ '"' :: rest) = some (ps, rest) ∧
      textOf? ps = some cs := by
  induction cs with
  | nil => exact ⟨[], by simp [Reader.pieces], rfl⟩
  | cons c cs ih =>
    obtain ⟨ps, inside, text⟩ := ih
    obtain ⟨p, stands, first⟩ := exists_piece c
    refine ⟨p :: ps, ?_, ?_⟩
    · rw [List.flatMap_cons, List.append_assoc, first, inside]
      rfl
    · rw [stands, text]
      rfl

theorem toList_quoted (s : String) :
    (quoted s).toList = '"' :: (s.toList.flatMap escaped ++ ['"']) := by
  simp [quoted]

theorem string_quoted (s : String) (rest : List Char) :
    Reader.string (s.toList.flatMap escaped ++ '"' :: rest) = some (some s, rest) := by
  obtain ⟨ps, inside, text⟩ := exists_pieces s.toList rest
  simp [Reader.string, inside, text]

/-! Values -/

mutual

def spread : Json → Syntax
  | .null => .null
  | .bool b => .bool b
  | .number n => .number (some n)
  | .string s => .string (some s)
  | .array items => .array (itemsSpread items)
  | .object members => .object (membersSpread members)

def itemsSpread : List Json → List Syntax
  | [] => []
  | item :: rest => item.spread :: itemsSpread rest

def membersSpread : List (String × Json) → List (Option String × Syntax)
  | [] => []
  | (name, value) :: rest => (some name, value.spread) :: membersSpread rest

end

structure ReadsBack (json : Json) : Prop where
  head : ∃ c rest, json.write.toList = c :: rest ∧ Reader.isSpace c = false ∧ c ≠ ']'
  /-- Two steps of fuel for every character are enough. -/
  value : ∀ fuel rest, 2 * json.write.toList.length ≤ fuel →
    Reader.value fuel (json.write.toList ++ rest) = some (json.spread, rest)

def listed (texts : List String) : List Char := (",".intercalate texts).toList

theorem listed_singleton (text : String) : listed [text] = text.toList := by simp [listed]

theorem listed_cons_cons (text next : String) (texts : List String) :
    listed (text :: next :: texts) = text.toList ++ ',' :: listed (next :: texts) := by
  simp [listed, String.intercalate_cons_cons]

theorem exists_listed_cons {text : String} {c : Char} {cs : List Char}
    (begins : text.toList = c :: cs) (texts : List String) :
    ∃ more, listed (text :: texts) = c :: more := by
  cases texts with
  | nil => exact ⟨cs, (listed_singleton text).trans begins⟩
  | cons next texts => exact ⟨_, (listed_cons_cons text next texts).trans (by rw [begins]; rfl)⟩

theorem toList_write_array (items : List Json) :
    (array items).write.toList = '[' :: (listed (writeItems items) ++ [']']) := by
  simp [write, listed]

theorem toList_write_object (members : List (String × Json)) :
    (object members).write.toList = '\x7b' :: (listed (writeMembers members) ++ ['\x7d']) := by
  simp [write, listed]

theorem toList_member (name : String) (value : Json) :
    (quoted name ++ ":" ++ value.write).toList =
      '"' :: (name.toList.flatMap escaped ++ '"' :: ':' :: value.write.toList) := by
  simp [toList_quoted]

theorem skipSpace_of_head {c : Char} (visible : Reader.isSpace c = false) (rest : List Char) :
    Reader.skipSpace (c :: rest) = c :: rest := by
  rw [Reader.skipSpace, List.dropWhile_cons_of_neg (by simp [visible])]

theorem exists_fuel {n length : Nat} (some : 0 < length) (enough : 2 * length ≤ n) :
    ∃ k, n = k + 1 :=
  Nat.exists_eq_succ_of_ne_zero (by omega)

namespace ReadsBack

theorem bool (b : Bool) : ReadsBack (.bool b) where
  head := by cases b <;> exact ⟨_, _, rfl, by decide⟩
  value fuel rest enough := by
    obtain ⟨fuel, rfl⟩ := exists_fuel (by cases b <;> decide) enough
    cases b <;> rfl

theorem string (s : String) : ReadsBack (.string s) where
  head := ⟨_, _, toList_quoted s, by decide⟩
  value fuel rest enough := by
    have text : (Json.string s).write.toList = '"' :: (s.toList.flatMap escaped ++ ['"']) :=
      toList_quoted s
    rw [text] at enough ⊢
    obtain ⟨fuel, rfl⟩ := exists_fuel (Nat.succ_pos _) enough
    rw [Reader.value, List.cons_append, skipSpace_of_head (by decide)]
    simp [string_quoted, spread]

variable {items : List Json} {members : List (String × Json)}

theorem items_write (some : items ≠ []) (inside : ∀ item ∈ items, ReadsBack item) (fuel : Nat)
    (enough : 2 * (listed (writeItems items)).length < fuel) (rest : List Char) :
    Reader.items fuel (listed (writeItems items) ++ ']' :: rest) =
      .some (itemsSpread items, rest) := by
  obtain ⟨fuel, rfl⟩ : ∃ n, fuel = n + 1 := Nat.exists_eq_succ_of_ne_zero (by omega)
  induction items generalizing fuel with
  | nil => exact absurd rfl some
  | cons item items ih =>
    have first := (inside item List.mem_cons_self).value
    cases items with
    | nil =>
      rw [writeItems, writeItems, listed_singleton] at enough ⊢
      rw [Reader.items, first fuel (']' :: rest) (by omega)]
      rfl
    | cons next items =>
      rw [writeItems, writeItems, listed_cons_cons, ← writeItems] at enough ⊢
      rw [List.length_append, List.length_cons] at enough
      obtain ⟨fuel, rfl⟩ : ∃ n, fuel = n + 1 := Nat.exists_eq_succ_of_ne_zero (by omega)
      have others := ih (List.cons_ne_nil _ _)
        (fun item member => inside item (List.mem_cons_of_mem _ member)) fuel (by omega)
      rw [List.append_assoc, List.cons_append, Reader.items, first _ _ (by omega)]
      simp [skipSpace_of_head (show Reader.isSpace ',' = false by decide), others, itemsSpread]

theorem array (inside : ∀ item ∈ items, ReadsBack item) : ReadsBack (.array items) where
  head := ⟨_, _, toList_write_array items, by decide⟩
  value fuel rest enough := by
    rw [toList_write_array] at enough ⊢
    obtain ⟨fuel, rfl⟩ := exists_fuel (Nat.succ_pos _) enough
    cases items with
    | nil => rfl
    | cons item items =>
      obtain ⟨c, cs, text, visible, other⟩ := (inside item List.mem_cons_self).head
      obtain ⟨more, begins⟩ := exists_listed_cons text (writeItems items)
      rw [← writeItems] at begins
      rw [List.length_cons, List.length_append] at enough
      have read := items_write (List.cons_ne_nil item items) inside fuel (by omega) rest
      rw [begins, List.cons_append] at read
      rw [begins, List.cons_append, Reader.value, skipSpace_of_head (by decide)]
      simp [skipSpace_of_head visible, other, read, spread]

theorem members_write (some : members ≠ []) (inside : ∀ m ∈ members, ReadsBack m.2) (fuel : Nat)
    (enough : 2 * (listed (writeMembers members)).length < fuel) (rest : List Char) :
    Reader.members fuel (listed (writeMembers members) ++ '\x7d' :: rest) =
      .some (membersSpread members, rest) := by
  obtain ⟨fuel, rfl⟩ : ∃ n, fuel = n + 1 := Nat.exists_eq_succ_of_ne_zero (by omega)
  induction members generalizing fuel with
  | nil => exact absurd rfl some
  | cons member members ih =>
    obtain ⟨name, value⟩ := member
    have first : value.ReadsBack := inside (name, value) List.mem_cons_self
    have text := toList_member name value
    have spaceless : ∀ c ∈ ['"', ':', ',', '\x7d'], Reader.isSpace c = false := by
      simp [Reader.isSpace]
    cases members with
    | nil =>
      rw [writeMembers, writeMembers, listed_singleton, text] at enough ⊢
      simp only [List.length_cons, List.length_append] at enough
      have read := first.value fuel ('\x7d' :: rest) (by omega)
      simp [Reader.members, skipSpace_of_head, spaceless, string_quoted, read, membersSpread]
    | cons next members =>
      obtain ⟨name', value'⟩ := next
      rw [writeMembers, writeMembers, listed_cons_cons, ← writeMembers, text] at enough ⊢
      simp only [List.length_cons, List.length_append] at enough
      obtain ⟨fuel, rfl⟩ : ∃ n, fuel = n + 1 := Nat.exists_eq_succ_of_ne_zero (by omega)
      have others := ih (List.cons_ne_nil _ _)
        (fun m member => inside m (List.mem_cons_of_mem _ member)) fuel (by omega)
      have read := first.value (fuel + 1) (',' :: (listed (writeMembers ((name', value') :: members)) ++
        '\x7d' :: rest)) (by omega)
      rw [Reader.members]
      simp [skipSpace_of_head, spaceless, string_quoted, read, others, membersSpread]

theorem object (inside : ∀ m ∈ members, ReadsBack m.2) : ReadsBack (.object members) where
  head := ⟨_, _, toList_write_object members, by decide⟩
  value fuel rest enough := by
    rw [toList_write_object] at enough ⊢
    obtain ⟨fuel, rfl⟩ := exists_fuel (Nat.succ_pos _) enough
    cases members with
    | nil => rfl
    | cons member members =>
      obtain ⟨name, value⟩ := member
      obtain ⟨more, begins⟩ := exists_listed_cons (toList_member name value) (writeMembers members)
      rw [← writeMembers] at begins
      have read := members_write (List.cons_ne_nil (name, value) members) inside fuel
        (by rw [List.length_cons, List.length_append] at enough; omega) rest
      rw [begins, List.cons_append] at read
      rw [begins, List.cons_append, Reader.value, skipSpace_of_head (by decide)]
      simp [skipSpace_of_head (show Reader.isSpace '"' = false by decide), read, spread]

theorem read? {json : Json} (reads : ReadsBack json) :
    Syntax.read? json.write = some json.spread := by
  have read := reads.value (2 * json.write.toList.length + 2) [] (by omega)
  rw [List.append_nil] at read
  rw [Syntax.read?, Syntax.first?, read]
  rfl

end ReadsBack

end SkillGraph.Json
