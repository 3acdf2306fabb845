import SkillGraph.Proofs.Program.Steps

/-! Parentheses that balance. Operators, commas and calls come and go on the stack of a conversion,
but its open parentheses are those of the text, so that conversion fails exactly where the
parentheses do not balance, and for no other reason. -/
namespace SkillGraph

/-- No closing parenthesis comes before its open one, and none stays open. -/
def Balanced (words : List String) : Prop :=
  (∀ front, front <+: words → front.count ")" ≤ front.count "(") ∧
    words.count ")" = words.count "("

instance : DecidablePred Balanced := fun words =>
  decidable_of_iff ((∀ front ∈ words.inits, front.count ")" ≤ front.count "(") ∧
    words.count ")" = words.count "(") (by simp [Balanced, List.mem_inits])

namespace Token

theorem ofLexeme_injective : Function.Injective ofLexeme :=
  Function.LeftInverse.injective lexeme_ofLexeme

def Balances (depth : Nat) (tokens : List Token) : Prop :=
  (∀ front, front <+: tokens → front.count .closing ≤ depth + front.count .opening) ∧
    tokens.count .closing = depth + tokens.count .opening

variable {depth : Nat} {token : Token} {tokens : List Token} {words : List String}

theorem balances_nil : Balances depth [] ↔ depth = 0 := by
  simp [Balances, eq_comm]

theorem balances_cons : Balances depth (token :: tokens) ↔
    (token = .closing → 0 < depth) ∧
      Balances (depth + [token].count .opening - [token].count .closing) tokens := by
  have count (t : Token) (rest : List Token) :
      (token :: rest).count t = [token].count t + rest.count t := by
    rw [← List.count_append, List.singleton_append]
  have closes : [token].count .closing = if token = .closing then 1 else 0 := by
    simp [List.count_cons]
  have apart : token = .closing → [token].count .opening = 0 := by
    rintro rfl
    rfl
  constructor
  · rintro ⟨fronts, whole⟩
    have first := fronts [token] (List.prefix_append [token] tokens)
    have positive : token = .closing → 0 < depth := by
      intro closing
      have := apart closing
      rw [if_pos closing] at closes
      omega
    refine ⟨positive, ?_, ?_⟩
    · intro front start
      have := fronts (token :: front) (List.prefix_cons_inj token |>.2 start)
      rw [count _ front, count _ front] at this
      omega
    · rw [count _ tokens, count _ tokens] at whole
      omega
  · rintro ⟨positive, fronts, whole⟩
    have enough : [token].count .closing ≤ depth + [token].count .opening := by
      by_cases closing : token = .closing
      · have := positive closing
        rw [if_pos closing] at closes
        omega
      · rw [if_neg closing] at closes
        omega
    refine ⟨?_, ?_⟩
    · intro front start
      rcases List.prefix_cons_iff.1 start with rfl | ⟨front, rfl, within⟩
      · simp
      · have := fronts front within
        rw [count _ front, count _ front]
        omega
    · rw [count _ tokens, count _ tokens]
      omega

/-- Lexemes balance as their tokens do. -/
theorem balances_map_ofLexeme : Balances 0 (words.map ofLexeme) ↔ Balanced words := by
  have closings (l : List String) : (l.map ofLexeme).count .closing = l.count ")" :=
    List.count_map_of_injective l ofLexeme ofLexeme_injective ")"
  have openings (l : List String) : (l.map ofLexeme).count .opening = l.count "(" :=
    List.count_map_of_injective l ofLexeme ofLexeme_injective "("
  unfold Balances Balanced
  rw [closings, openings, Nat.zero_add]
  apply and_congr_left'
  constructor
  · intro fronts front start
    have := fronts _ (start.map ofLexeme)
    rwa [closings, openings, Nat.zero_add] at this
  · intro fronts front start
    obtain ⟨front, within, rfl⟩ := List.prefix_map_iff.1 start
    rw [closings, openings, Nat.zero_add]
    exact fronts front within

end Token

namespace Program

open Token

variable {r : Registry} {previous : Option Token} {pending : List Pending} {tokens : List Token}

theorem openings_waits (r : Registry) (previous : Option Token) (token : Token) :
    (waits r previous token).count .opening = [token].count .opening := by
  cases token with
  | word text =>
    by_cases called : r.isCallName text = true
    · simp [waits, called]
    · simp [waits, called]
  | operator op => simp [waits]
  | _ => rfl

theorem openings_of_step {token : Token} {emitted : Program} {next : List Pending}
    (moved : step r previous pending token = .ok (emitted, next)) :
    next.count .opening =
      pending.count .opening + [token].count .opening - [token].count .closing := by
  obtain ⟨gone, kept, rfl, -, rfl, closed⟩ := exists_of_step moved
  have opened := openings_waits r previous token
  simp only [List.count_append]
  omega

/-- Conversion succeeds exactly where the parentheses balance behind those that wait. -/
theorem exists_convert_iff :
    (∃ program, convert r previous pending tokens = .ok program) ↔
      Balances (pending.count .opening) tokens := by
  induction tokens generalizing previous pending with
  | nil =>
    rw [balances_nil, List.count_eq_zero]
    constructor
    · rintro ⟨program, converted⟩
      exact (convert_nil_eq_ok_iff.1 converted).1
    · intro unopened
      exact ⟨_, convert_nil_eq_ok_iff.2 ⟨unopened, rfl⟩⟩
  | cons token rest ih =>
    rw [balances_cons, List.count_pos_iff]
    constructor
    · rintro ⟨program, converted⟩
      obtain ⟨emitted, next, later, moved, converted, -⟩ := convert_cons_eq_ok_iff.1 converted
      refine ⟨exists_step_iff.1 ⟨_, moved⟩, ?_⟩
      rw [← openings_of_step moved]
      exact ih.1 ⟨later, converted⟩
    · rintro ⟨opened, balanced⟩
      obtain ⟨⟨emitted, next⟩, moved⟩ : ∃ p, step r previous pending token = .ok p :=
        exists_step_iff.2 opened
      rw [← openings_of_step moved] at balanced
      obtain ⟨later, converted⟩ := ih.2 balanced
      exact ⟨_, convert_cons_eq_ok_iff.2 ⟨emitted, next, later, moved, converted, rfl⟩⟩

theorem code_of_convert {c : Cause} (failed : convert r previous pending tokens = .error c) :
    c.code = .mismatchedParens := by
  induction tokens generalizing previous pending with
  | nil =>
    unfold convert finish at failed
    split at failed
    · cases failed
      rfl
    · cases failed
  | cons token rest ih =>
    rcases bind_eq_error_iff.1 failed with failed | ⟨⟨emitted, next⟩, -, failed⟩
    · exact code_of_step failed
    · rcases bind_eq_error_iff.1 failed with failed | ⟨later, -, failed⟩
      · exact ih failed
      · cases failed

theorem exists_ofTokens_iff {words : List String} :
    (∃ program, ofTokens r (words.map Token.ofLexeme) = .ok program) ↔ Balanced words := by
  rw [← balances_map_ofLexeme]
  exact exists_convert_iff

end Program

end SkillGraph
