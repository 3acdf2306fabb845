import SkillGraph.Proofs.Json.Text
import Mathlib

/-! The text of a value holds no control characters. In particular it is one line. -/
namespace SkillGraph

def Printable (cs : List Char) : Prop := ∀ c ∈ cs, 32 ≤ c.toNat

namespace Printable

variable {c : Char} {cs ds : List Char}

@[simp] theorem nil : Printable [] := List.forall_mem_nil _

@[simp] theorem cons_iff : Printable (c :: cs) ↔ 32 ≤ c.toNat ∧ Printable cs :=
  List.forall_mem_cons

@[simp] theorem append_iff : Printable (cs ++ ds) ↔ Printable cs ∧ Printable ds :=
  List.forall_mem_append

theorem sublist (all : Printable cs) (part : ds.Sublist cs) : Printable ds :=
  fun c inside => all c (part.subset inside)

theorem replicate (printable : 32 ≤ c.toNat) (k : Nat) : Printable (List.replicate k c) := by
  intro d inside
  rw [(List.mem_replicate.1 inside).2]
  exact printable

theorem notMem_feed (printable : Printable cs) : '\n' ∉ cs := by
  intro feed
  have above := printable '\n' feed
  simp at above

end Printable

namespace Number

theorem printable_digits (n : Nat) : Printable (digits n) := by
  intro c inside
  have digit : c.isDigit = true := Nat.isDigit_of_mem_toDigits (by decide) (by decide) inside
  have low : 48 ≤ c.toNat := (Char.isDigit_iff_toNat.1 digit).1
  omega

theorem printable_positionalDigits (d : Decimal) (keepsPoint : Bool) :
    Printable (positionalDigits d keepsPoint) := by
  have all := printable_digits d.digits
  have zeros (k : Nat) : Printable (List.replicate k '0') := .replicate (by simp) k
  unfold positionalDigits
  dsimp only
  split_ifs with whole point inside
  · simp [all, zeros]
  · simp [all, zeros]
  · simp [all.sublist (List.take_sublist _ _), all.sublist (List.drop_sublist _ _)]
  · simp [all, zeros]

theorem printable_scientificDigits (d : Decimal) (exponent : Int) :
    Printable (scientificDigits d exponent) := by
  have all := printable_digits d.digits
  have power := printable_digits exponent.natAbs
  have sign : 32 ≤ (if exponent < 0 then '-' else '+').toNat := by
    split <;> simp
  unfold scientificDigits
  generalize digits d.digits = ds at all
  rcases ds with - | ⟨c, - | ⟨next, rest⟩⟩
  · simp [sign, power]
  · simp [sign, power, Printable.cons_iff.1 all]
  · obtain ⟨first, others⟩ := Printable.cons_iff.1 all
    simp [sign, power, first, Printable.cons_iff.1 others]

theorem Style.printable_write (style : Style) (b : Binary) : Printable (style.write b).toList := by
  rw [Style.write, String.toList_ofList, Printable.append_iff]
  constructor
  · split <;> simp
  unfold Style.magnitude
  dsimp only
  split_ifs
  · simp
  · simp
  · apply printable_positionalDigits
  · apply printable_scientificDigits

end Number

namespace Json

theorem Number.printable_write (n : Json.Number) : Printable n.write.toList := by
  cases n with
  | integer n =>
    cases n with
    | ofNat k =>
      have text : (Number.integer (.ofNat k)).write.toList = SkillGraph.Number.digits k :=
        Nat.toList_repr
      rw [text]
      apply SkillGraph.Number.printable_digits
    | negSucc k =>
      have text : (Number.integer (.negSucc k)).write.toList =
          '-' :: SkillGraph.Number.digits (k + 1) := by
        simp [Number.write, Int.toString_eq_repr, Int.repr, SkillGraph.Number.digits]
      simp [text, SkillGraph.Number.printable_digits]
  | decimal x =>
    cases read : SkillGraph.Number.Binary.ofFloat? x with
    | none => simp [Number.write, read]
    | some b => simp [Number.write, read, SkillGraph.Number.Style.printable_write]

theorem printable_hexDigit (n : Nat) : 32 ≤ (hexDigit n).toNat := by
  have all : ∀ k < 16, 48 ≤ (Nat.digitChar k).toNat := by decide
  have low := all _ (Nat.mod_lt n (by decide))
  exact Nat.le_trans (by decide) low

theorem printable_escaped (c : Char) : Printable (escaped c) := by
  rcases escaped_cases c with ⟨e, escape, known⟩ | ⟨-, escape⟩ | ⟨-, -, printable, escape⟩
  · have letter : 32 ≤ e.toNat := by
      unfold Reader.unescaped? at known
      split at known
      case h_9 => cases known
      all_goals simp
    simp [escape, letter]
  · simp [escape, printable_hexDigit]
  · simp [escape, printable]

theorem printable_quoted (s : String) : Printable (quoted s).toList := by
  have inside : Printable (s.toList.flatMap escaped) := by
    intro c mem
    obtain ⟨d, -, mem⟩ := List.mem_flatMap.1 mem
    exact printable_escaped d c mem
  simp [toList_quoted, inside]

theorem printable_listed {texts : List String} (all : ∀ text ∈ texts, Printable text.toList) :
    Printable (listed texts) := by
  induction texts with
  | nil => simp [listed]
  | cons text texts ih =>
    obtain ⟨first, others⟩ := List.forall_mem_cons.1 all
    cases texts with
    | nil => rwa [listed_singleton]
    | cons next texts => simp [listed_cons_cons, first, ih others]

mutual

theorem printable_write (json : Json) : Printable json.write.toList := by
  match json with
  | .null => simp [write]
  | .bool b => cases b <;> simp [write]
  | .number n => exact n.printable_write
  | .string s => exact printable_quoted s
  | .array items =>
    have inside := printable_listed (printable_writeItems items)
    simp [toList_write_array, inside]
  | .object members =>
    have inside := printable_listed (printable_writeMembers members)
    simp [toList_write_object, inside]

theorem printable_writeItems (items : List Json) :
    ∀ text ∈ writeItems items, Printable text.toList := by
  match items with
  | [] => exact List.forall_mem_nil _
  | item :: rest =>
    exact List.forall_mem_cons.2 ⟨printable_write item, printable_writeItems rest⟩

theorem printable_writeMembers (members : List (String × Json)) :
    ∀ text ∈ writeMembers members, Printable text.toList := by
  match members with
  | [] => exact List.forall_mem_nil _
  | (name, value) :: rest =>
    refine List.forall_mem_cons.2 ⟨?_, printable_writeMembers rest⟩
    simp [printable_quoted, printable_write value]

end

end Json

end SkillGraph
