import SkillGraph.Proofs.Registry.Tables
import SkillGraph.Registry.Help
import Mathlib

/-! The ranking of suggestions. The share of common letters is at most 20 points, so it settles
nothing between two kinds of containment: an equal name outranks all others, and a name that starts
with the query outranks all names that do not. -/
namespace SkillGraph

theorem nodup_eraseDups {α : Type} [DecidableEq α] (xs : List α) : xs.eraseDups.Nodup := by
  match xs with
  | [] => exact List.nodup_nil
  | x :: rest =>
    rw [List.eraseDups_cons, List.nodup_cons]
    constructor
    · simp [List.mem_eraseDups]
    · exact nodup_eraseDups (rest.filter fun y => !y == x)
termination_by xs.length
decreasing_by exact Nat.lt_succ_of_le (List.length_filter_le _ _)

theorem toFinset_eraseDups {α : Type} [DecidableEq α] (xs : List α) :
    xs.eraseDups.toFinset = xs.toFinset := by
  ext x
  simp [List.mem_eraseDups]

theorem length_eraseDups {α : Type} [DecidableEq α] (xs : List α) :
    xs.eraseDups.length = xs.toFinset.card := by
  rw [← List.toFinset_card_of_nodup (nodup_eraseDups xs), toFinset_eraseDups]

theorem idxOf_lt_of_pairwise {α : Type} [DecidableEq α] {before : α → α → Prop} {xs : List α}
    (sorted : xs.Pairwise before) {a b : α} (ha : a ∈ xs) (hb : b ∈ xs) (apart : a ≠ b)
    (never : ¬before b a) : xs.idxOf a < xs.idxOf b := by
  by_contra behind
  have other : xs.idxOf a ≠ xs.idxOf b := fun same => apart ((List.idxOf_inj ha).1 same)
  have placed := List.pairwise_iff_getElem.1 sorted (xs.idxOf b) (xs.idxOf a)
    (List.idxOf_lt_length_iff.2 hb) (List.idxOf_lt_length_iff.2 ha) (by omega)
  rw [List.getElem_idxOf, List.getElem_idxOf] at placed
  exact never placed

/-- Lower case leaves at least one character of each. -/
theorem Text.lower_eq_empty_iff {s : String} : Text.lower s = "" ↔ s = "" := by
  have shape (c : Char) : lowerChar c ≠ [] := by
    unfold lowerChar
    split_ifs
    · exact List.cons_ne_nil _ _
    · split <;> exact List.cons_ne_nil _ _
  rw [← String.toList_eq_nil_iff, ← String.toList_eq_nil_iff, lower, String.toList_ofList]
  cases s.toList with
  | nil => simp [lowerAfter]
  | cons c rest =>
    rw [lowerAfter]
    split_ifs <;> simp [shape]

namespace Similarity

variable {query candidate : List Char}

theorem occursIn_iff : occursIn query candidate = true ↔ query <:+: candidate := by
  induction candidate with
  | nil => simp [occursIn]
  | cons c rest ih => simp [occursIn, ih, List.infix_cons_iff]

/-- Twenty times the letters that both have, by the letters that one of them has. -/
theorem commonShare_eq (query candidate : List Char) :
    commonShare query candidate =
      (query.toFinset ∩ candidate.toFinset).card * 20 /
        max (query.toFinset ∪ candidate.toFinset).card 1 := by
  have common : (query.eraseDups.filter (· ∈ candidate.eraseDups)).length =
      (query.toFinset ∩ candidate.toFinset).card := by
    rw [← List.toFinset_card_of_nodup ((nodup_eraseDups query).filter _), List.toFinset_filter,
      toFinset_eraseDups]
    congr 1
    ext c
    simp [List.mem_eraseDups]
  simp only [commonShare, common, length_eraseDups, Finset.card_union]

/-- No more letters are in both than in one of them. -/
theorem commonShare_le (query candidate : List Char) : commonShare query candidate ≤ 20 := by
  have fewer : (query.toFinset ∩ candidate.toFinset).card ≤
      (query.toFinset ∪ candidate.toFinset).card :=
    Finset.card_le_card (Finset.inter_subset_union)
  rw [commonShare_eq]
  apply Nat.div_le_of_le_mul
  rw [Nat.mul_comm _ 20]
  omega

theorem score_eq (asked : query ≠ []) :
    score query candidate =
      (if candidate = query then 200
      else if query <+: candidate then 100
      else if query <:+: candidate then 50
      else if candidate <:+: query then 30
      else 0) + commonShare query candidate := by
  simp [score, asked, containment, occursIn_iff]

/-- Equal names are far ahead of all others. -/
theorem score_lt_of_ne {other : List Char} (asked : query ≠ []) (unlike : other ≠ query) :
    score query other < score query query := by
  have share := commonShare_le query other
  rw [score_eq asked, score_eq asked, if_neg unlike, if_pos rfl]
  split_ifs <;> omega

/-- Names that start with the query are ahead of all that do not. -/
theorem le_score_of_prefix (asked : query ≠ []) (starts : query <+: candidate) :
    100 ≤ score query candidate := by
  rw [score_eq asked]
  split_ifs <;> omega

theorem score_le_of_not_prefix (asked : query ≠ []) (foreign : ¬query <+: candidate) :
    score query candidate ≤ 70 := by
  have unlike : candidate ≠ query := fun same => foreign (same ▸ List.prefix_rfl)
  have share := commonShare_le query candidate
  rw [score_eq asked, if_neg unlike, if_neg foreign]
  split_ifs <;> omega

/-- How much a call name resembles a name, whatever their case. -/
def likeness (name call : String) : Nat := score (Text.lower name).toList (Text.lower call).toList

def goesBefore (name a b : String) : Bool := precedes (a, likeness name a) (b, likeness name b)

variable {name a b : String}

theorem goesBefore_iff :
    goesBefore name a b ↔
      likeness name b < likeness name a ∨ likeness name a = likeness name b ∧ a ≤ b := by
  simp [goesBefore, precedes]

theorem goesBefore_trans (name a b c : String) (first : goesBefore name a b)
    (second : goesBefore name b c) : goesBefore name a c := by
  rw [goesBefore_iff] at *
  rcases first with higher | ⟨level, before⟩
  · exact .inl (by omega)
  · rcases second with higher | ⟨level', before'⟩
    · exact .inl (by omega)
    · exact .inr ⟨level.trans level', before.trans before'⟩

theorem goesBefore_total (name a b : String) : goesBefore name a b || goesBefore name b a := by
  rw [Bool.or_eq_true, goesBefore_iff, goesBefore_iff]
  rcases lt_trichotomy (likeness name a) (likeness name b) with lower | level | higher
  · exact .inr (.inl lower)
  · exact (le_total a b).imp (fun before => .inr ⟨level, before⟩)
      (fun behind => .inr ⟨level.symm, behind⟩)
  · exact .inl (.inl higher)

/-- No two names tie. -/
theorem eq_of_goesBefore (forth : goesBefore name a b) (back : goesBefore name b a) : a = b := by
  rw [goesBefore_iff] at forth back
  rcases forth with higher | ⟨level, before⟩
  · omega
  · rcases back with higher | ⟨-, behind⟩
    · omega
    · exact le_antisymm before behind

end Similarity

theorem Store.map_fst_byName_attempts (history : List Atom) :
    (attempts history).byName.map Prod.fst = ((attempts history).atoms.map Atom.name).reverse := by
  have names := names_foldl_push {} (attempts history).atoms
  rwa [foldl_push_attempts, List.map_nil, List.append_nil] at names

namespace Registry

open Similarity

/-- The registry after all these atoms were offered to an empty one, with success or without. -/
def offered (history : List Atom) : Registry :=
  ⟨Store.attempts history, Store.sound_empty.foldl_after history⟩

variable {r : Registry} {name a b : String}

/-- Suggestions are the names that are like enough, sorted with their scores. -/
theorem suggestions_eq_mergeSort :
    r.suggestions name =
      ((r.byName.map Prod.fst).filter (threshold ≤ likeness name ·)).mergeSort
        (goesBefore name) := by
  let scored (call : String) : String × Nat := (call, likeness name call)
  have moved (calls : List String) :
      (calls.map scored).mergeSort precedes = (calls.mergeSort (goesBefore name)).map scored :=
    (List.map_mergeSort (f := scored) (s := precedes) fun _ _ _ _ => rfl).symm
  have names (calls : List String) : (calls.map scored).map Prod.fst = calls := by
    rw [List.map_map]
    exact List.map_id calls
  have alike : (fun entry : String × Nat => decide (threshold ≤ entry.2)) ∘ scored =
      fun call => decide (threshold ≤ likeness name call) := rfl
  calc r.suggestions name
    _ = ((((r.byName.map Prod.fst).map scored).filter (threshold ≤ ·.2)).mergeSort
          precedes).map Prod.fst := by
      rw [List.map_map]
      rfl
    _ = _ := by rw [List.filter_map, alike, moved, names]

theorem nodup_suggestions (own : (r.byName.map Prod.fst).Nodup) : (r.suggestions name).Nodup := by
  rw [suggestions_eq_mergeSort, (List.mergeSort_perm _ _).nodup_iff]
  exact own.filter _

theorem mem_suggestions_iff :
    a ∈ r.suggestions name ↔ a ∈ r.byName.map Prod.fst ∧ threshold ≤ likeness name a := by
  rw [suggestions_eq_mergeSort, List.mem_mergeSort, List.mem_filter, decide_eq_true_iff]

/-- Distinct names tie in nothing, so each suggestion is strictly ahead of all that follow. -/
theorem pairwise_suggestions (own : (r.byName.map Prod.fst).Nodup) :
    (r.suggestions name).Pairwise fun a b =>
      likeness name b < likeness name a ∨ likeness name a = likeness name b ∧ a < b := by
  have sorted : (r.suggestions name).Pairwise (goesBefore name · ·) := by
    rw [suggestions_eq_mergeSort]
    apply List.pairwise_mergeSort
    · exact goesBefore_trans name
    · exact goesBefore_total name
  refine (sorted.and (nodup_suggestions own)).imp ?_
  rintro a b ⟨before, apart⟩
  exact (goesBefore_iff.1 before).imp_right fun tie => ⟨tie.1, lt_of_le_of_ne tie.2 apart⟩

/-- Of two suggestions the one that is more like the name stands first. -/
theorem idxOf_lt_of_likeness_lt (own : (r.byName.map Prod.fst).Nodup) (ha : a ∈ r.suggestions name)
    (hb : b ∈ r.suggestions name) (ahead : likeness name b < likeness name a) :
    (r.suggestions name).idxOf a < (r.suggestions name).idxOf b := by
  apply idxOf_lt_of_pairwise (pairwise_suggestions own) ha hb
  · rintro rfl
    exact lt_irrefl _ ahead
  · omega

/-- After any attempts to register atoms, the suggestions for a name are the call names with ten
points or more, each once, by falling score and then by name. Names equal to it but for case come
first, and all names that start with it are among them and before those that do not. -/
theorem suggestions_ranked (history : List Atom) (name : String) :
    let r := offered history
    let calls := r.atoms.map Atom.name
    let found := r.suggestions name
    let equal (call : String) : Prop := Text.lower call = Text.lower name
    let starts (call : String) : Prop := (Text.lower name).toList <+: (Text.lower call).toList
    found.Nodup ∧
    (∀ call, call ∈ found ↔ call ∈ calls ∧ 10 ≤ likeness name call) ∧
    found.Pairwise (fun a b =>
      likeness name b < likeness name a ∨ likeness name a = likeness name b ∧ a < b) ∧
    (∀ a ∈ found, ∀ b ∈ found, (equal a ∧ ¬equal b) ∨ (starts a ∧ ¬starts b) →
      found.idxOf a < found.idxOf b) ∧
    (name ≠ "" → ∀ call ∈ calls, starts call → call ∈ found) := by
  intro r calls found equal starts
  have index : r.byName.map Prod.fst = calls.reverse := Store.map_fst_byName_attempts history
  have own : (r.byName.map Prod.fst).Nodup := index ▸ List.nodup_reverse.2 r.sound.callNames
  have listed (call : String) : call ∈ found ↔ call ∈ calls ∧ 10 ≤ likeness name call := by
    rw [mem_suggestions_iff, index, List.mem_reverse, threshold]
  refine ⟨nodup_suggestions own, listed, pairwise_suggestions own, ?_, ?_⟩
  · intro a ha b hb better
    have asked : (Text.lower name).toList ≠ [] := by
      intro nothing
      have scored := ((listed a).1 ha).2
      simp [likeness, score, nothing] at scored
    apply idxOf_lt_of_likeness_lt own ha hb
    rcases better with ⟨same, other⟩ | ⟨begins, foreign⟩
    · have unlike : (Text.lower b).toList ≠ (Text.lower name).toList :=
        fun alike => other (String.toList_inj.1 alike)
      rw [likeness, likeness, same]
      exact score_lt_of_ne asked unlike
    · have high := le_score_of_prefix asked begins
      have low := score_le_of_not_prefix asked foreign
      rw [likeness, likeness]
      omega
  · intro given call known begins
    have asked : (Text.lower name).toList ≠ [] := by
      rw [Ne, String.toList_eq_nil_iff, Text.lower_eq_empty_iff]
      exact given
    have high := le_score_of_prefix asked begins
    exact (listed call).2 ⟨known, le_trans (by decide) high⟩

end Registry

end SkillGraph
