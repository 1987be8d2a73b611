import GrReveng.Library.Replacement
import Mathlib.Data.List.Pairwise

/-!
# Texts in segments

A text may be a row of words and of items without marks between them. Replacing a word gives each
segment that is this word its value and leaves the others. So replacing all words one after the
other gives each of them its value, wherever the words stand and in whatever order they are
replaced, when the values that come into the text have no marks.
-/

namespace GrReveng

variable {α : Type} {mark : α} {word : List α} {words segments : List (List α)}

/-- Words that can be told apart in a text. -/
structure Vocabulary (mark : α) (words : List (List α)) : Prop where
  /-- The words are marked. -/
  marked : ∀ word ∈ words, Marked mark word
  /-- No word begins with another. -/
  apart : words.Pairwise Apart

/-- A segment is a word or has no mark. -/
def Segmented (mark : α) (words segments : List (List α)) : Prop :=
  ∀ segment ∈ segments, segment ∈ words ∨ mark ∉ segment

/-- Different words are apart. -/
theorem Vocabulary.apart_of_ne (vocabulary : Vocabulary mark words) {other : List α}
    (first : other ∈ words) (second : word ∈ words) (different : other ≠ word) :
    Apart other word := by
  have symmetric : Std.Symm (Apart : List α → List α → Prop) :=
    ⟨fun _ _ apart => ⟨apart.2, apart.1⟩⟩
  exact vocabulary.apart.forall first second different

/-- A word has a mark. -/
theorem Marked.mem (marked : Marked mark word) : mark ∈ word := by
  have ⟨tail, same, _⟩ := marked
  rw [same]
  exact List.mem_cons_self

variable [DecidableEq α] {rules : List (Rule α)}

/-- A word at the front is replaced. -/
theorem Marked.replaceAll_word (marked : Marked mark word) (value text : List α) :
    replaceAll word value (word ++ text) = value ++ replaceAll word value text := by
  have ⟨tail, same, _⟩ := marked
  have here : word <+: mark :: (tail ++ text) :=
    ⟨text, by rw [same, List.cons_append]⟩
  have length : word.length - 1 = tail.length := by rw [same, List.length_cons, Nat.add_sub_cancel]
  have front : word ++ text = mark :: (tail ++ text) := by rw [same, List.cons_append]
  rw [front, replaceAll, substituteAll_found (by rw [find_single, if_pos here])]
  dsimp only
  rw [substituteBehind_cover, length, List.drop_left]
  rfl

/-- Another word at the front stays. -/
theorem Marked.replaceAll_other (marked : Marked mark word) {other : List α}
    (marked' : Marked mark other) (apart : Apart other word) (value text : List α) :
    replaceAll word value (other ++ text) = other ++ replaceAll word value text := by
  have ⟨tail, same, free⟩ := marked'
  have missing : ¬ word <+: other ++ text := apart.not_both (List.prefix_append other text)
  have single : ∀ rule ∈ [(word, value)], Marked mark rule.1 := by
    intro rule member
    rw [List.mem_singleton.mp member]
    exact marked
  rw [same, List.cons_append] at missing
  rw [same, List.cons_append, replaceAll,
    substituteAll_missing (by rw [find_single, if_neg missing]), substituteAll_free single free]
  rfl

/-- Replacing a word gives the segments that are this word its value. -/
theorem Vocabulary.replaceAll_flatten (vocabulary : Vocabulary mark words) (member : word ∈ words)
    (value : List α) (segmented : Segmented mark words segments) :
    replaceAll word value segments.flatten =
      (segments.map fun segment => if segment = word then value else segment).flatten := by
  have marked := vocabulary.marked word member
  have single : ∀ rule ∈ [(word, value)], Marked mark rule.1 := by
    intro rule listed
    rw [List.mem_singleton.mp listed]
    exact marked
  induction segments with
  | nil => rfl
  | cons segment segments ih =>
    have later := ih fun other listed => segmented other (List.mem_cons_of_mem segment listed)
    rw [List.flatten_cons, List.map_cons, List.flatten_cons, ← later]
    by_cases same : segment = word
    · rw [if_pos same, same, marked.replaceAll_word]
    · rw [if_neg same]
      cases segmented segment List.mem_cons_self with
      | inl listed =>
        exact marked.replaceAll_other (vocabulary.marked segment listed)
          (vocabulary.apart_of_ne listed member same) value _
      | inr free => exact substituteAll_free single free _

/-- What rules make of a segment. -/
def resolved (rules : List (Rule α)) (segment : List α) : List α :=
  match rules.find? fun rule => rule.1 = segment with
  | some rule => rule.2
  | none => segment

/-- The first rule for a segment. -/
theorem resolved_cons (rule : Rule α) (rules : List (Rule α)) (segment : List α) :
    resolved (rule :: rules) segment =
      if rule.1 = segment then rule.2 else resolved rules segment := by
  rw [resolved, List.find?_cons, resolved]
  by_cases same : rule.1 = segment
  · simp [same]
  · simp [same]

/-- A word is given the value of its rule. -/
theorem resolved_of_mem (different : (rules.map Prod.fst).Nodup) {rule : Rule α}
    (member : rule ∈ rules) : resolved rules rule.1 = rule.2 := by
  induction rules with
  | nil => contradiction
  | cons first rules ih =>
    rw [List.map_cons, List.nodup_cons] at different
    rw [resolved_cons]
    cases List.mem_cons.mp member with
    | inl same => rw [same, if_pos rfl]
    | inr later =>
      have other : first.1 ≠ rule.1 := fun same =>
        different.1 (same ▸ List.mem_map_of_mem later)
      rw [if_neg other, ih different.2 later]

/-- Items without a mark are left to themselves. -/
theorem resolved_free (marked : ∀ rule ∈ rules, Marked mark rule.1) {segment : List α}
    (free : mark ∉ segment) : resolved rules segment = segment := by
  have missing : (rules.find? fun rule => rule.1 = segment) = none := by
    rw [List.find?_eq_none]
    intro rule member found
    exact free (of_decide_eq_true found ▸ (marked rule member).mem)
  rw [resolved, missing]

/-- Replacing words one after the other gives each segment its value, when the values that come
into the text have no marks. -/
theorem Vocabulary.replaceEach_flatten (vocabulary : Vocabulary mark words)
    (listed : ∀ rule ∈ rules, rule.1 ∈ words) (segmented : Segmented mark words segments)
    (free : ∀ rule ∈ rules, rule.1 ∈ segments → mark ∉ rule.2) :
    replaceEach rules segments.flatten = segments.flatMap (resolved rules) := by
  induction rules generalizing segments with
  | nil => exact List.flatMap_id.symm
  | cons rule rules ih =>
    have marked : ∀ other ∈ rules, Marked mark other.1 := fun other member =>
      vocabulary.marked _ (listed other (List.mem_cons_of_mem rule member))
    have first := vocabulary.replaceAll_flatten (listed rule List.mem_cons_self) rule.2 segmented
    have clean : ∀ segment ∈ segments, segment = rule.1 → mark ∉ rule.2 :=
      fun segment member same => free rule List.mem_cons_self (same ▸ member)
    let next := segments.map fun segment => if segment = rule.1 then rule.2 else segment
    have still : Segmented mark words next := by
      intro segment member
      have ⟨old, inside, made⟩ := List.mem_map.mp member
      split at made
      case isTrue same => exact .inr (made ▸ clean old inside same)
      case isFalse => exact made ▸ segmented old inside
    have values : ∀ other ∈ rules, other.1 ∈ next → mark ∉ other.2 := by
      intro other member inside
      have ⟨old, present, made⟩ := List.mem_map.mp inside
      split at made
      case isTrue same => exact absurd (marked other member).mem (made ▸ clean old present same)
      case isFalse => exact free other (List.mem_cons_of_mem rule member) (made ▸ present)
    have later := ih (fun other member => listed other (List.mem_cons_of_mem rule member))
      still values
    change replaceEach rules (replaceAll rule.1 rule.2 segments.flatten) = _
    rw [first, later, List.flatMap_map]
    apply List.flatMap_congr
    intro segment member
    rw [resolved_cons]
    by_cases same : segment = rule.1
    · rw [if_pos same, if_pos same.symm, resolved_free marked (clean segment member same)]
    · rw [if_neg same, if_neg (Ne.symm same)]

end GrReveng
