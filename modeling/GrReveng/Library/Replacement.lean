import Mathlib.Algebra.BigOperators.Group.List.Basic
import Mathlib.Data.List.Count
import Mathlib.Data.List.Infix
import Mathlib.Data.List.Induction

/-!
# Replacing words in a text

Rules give words a value. Substituting them simultaneously replaces each word where it stands in
the text; replacing them one after the other looks for each word in what the earlier rules have
left behind. Words are marked: one item of the alphabet, the mark, stands at the front of every
word and nowhere else in it, so two of them never overlap. Then the two ways agree exactly when no
earlier value completes a later word, provided that a value with marks belongs to a word that is
never completed.
-/

namespace GrReveng

variable {α : Type} {mark : α} {word : List α}

/-- A word and the value it stands for. -/
abbrev Rule (α : Type) := List α × List α

/-- The mark stands at the front of the word and nowhere else. -/
def Marked (mark : α) (word : List α) : Prop := ∃ tail, word = mark :: tail ∧ mark ∉ tail

/-- Neither word begins with the other. -/
def Apart (left right : List α) : Prop := ¬ left <+: right ∧ ¬ right <+: left

/-- Rules for marked words none of which begins with another. -/
structure Separate (mark : α) (rules : List (Rule α)) : Prop where
  /-- The words are marked. -/
  marked : ∀ rule ∈ rules, Marked mark rule.1
  /-- No word begins with another. -/
  apart : rules.Pairwise fun left right => Apart left.1 right.1

instance [DecidableEq α] (left right : List α) : Decidable (Apart left right) :=
  inferInstanceAs (Decidable (_ ∧ _))

/-- A text does not begin with two words that are apart. -/
theorem Apart.not_both {left right here : List α} (apart : Apart left right)
    (first : left <+: here) : ¬ right <+: here := by
  intro second
  cases List.prefix_or_prefix_of_prefix first second with
  | inl before => exact apart.1 before
  | inr before => exact apart.2 before

/-- A marked word does not stand at an item that is not the mark. -/
theorem Marked.not_front (marked : Marked mark word) {x : α} (other : x ≠ mark)
    (rest : List α) : ¬ word <+: x :: rest := by
  obtain ⟨tail, rfl, -⟩ := marked
  intro found
  exact other (List.cons_prefix_cons.mp found).1.symm

/-- A marked word in front of a text: its mark, and behind it items that are no marks. -/
theorem Marked.covers (marked : Marked mark word) {x : α} {rest : List α}
    (found : word <+: x :: rest) :
    x = mark ∧ mark ∉ rest.take (word.length - 1) ∧ word.length - 1 ≤ rest.length ∧
      word = x :: rest.take (word.length - 1) := by
  obtain ⟨tail, rfl, free⟩ := marked
  obtain ⟨same, inside⟩ := List.cons_prefix_cons.mp found
  have tails := List.prefix_iff_eq_take.mp inside
  rw [List.length_cons, Nat.add_sub_cancel, ← tails]
  exact ⟨same.symm, free, inside.length_le, by rw [same]⟩

/-- Whether a word is marked can be read off its items. -/
theorem marked_cons {x : α} {tail : List α} :
    Marked mark (x :: tail) ↔ x = mark ∧ mark ∉ tail := by
  constructor
  · intro marked
    obtain ⟨rest, same, free⟩ := marked
    cases same
    exact ⟨rfl, free⟩
  · intro both
    exact ⟨tail, by rw [both.1], both.2⟩

instance [DecidableEq α] (mark : α) : (word : List α) → Decidable (Marked mark word)
  | [] => isFalse fun marked => by obtain ⟨_, same, _⟩ := marked; cases same
  | _ :: _ => decidable_of_iff _ marked_cons.symm

/-- Rules for some of separate words. -/
theorem Separate.of_words {rules : List (Rule α)} {words : List (List α)}
    (marked : ∀ word ∈ words, Marked mark word) (apart : words.Pairwise Apart)
    (some : (rules.map Prod.fst).Sublist words) : Separate mark rules :=
  ⟨fun _ member => marked _ (some.subset (List.mem_map_of_mem member)),
    List.pairwise_map.mp (apart.sublist some)⟩

/-- Rules behind one another are separate when all of them are. -/
theorem Separate.of_append {early late : List (Rule α)} (separate : Separate mark (early ++ late)) :
    Separate mark early :=
  ⟨fun rule member => separate.marked rule (List.mem_append_left late member),
    (List.pairwise_append.mp separate.apart).1⟩

/-- The rules in front of the last one have other marked words. -/
theorem Separate.others {rule : Rule α} {rules : List (Rule α)}
    (separate : Separate mark (rules ++ [rule])) :
    ∀ other ∈ rules, Marked mark other.1 ∧ Apart other.1 rule.1 := fun other member =>
  ⟨separate.marked other (List.mem_append_left _ member),
    (List.pairwise_append.mp separate.apart).2.2 other member rule List.mem_cons_self⟩

variable [DecidableEq α] {rules : List (Rule α)} {value text : List α}

/-- Replace the words of rules from left to right. The number counts the items that the current
word still covers. -/
def substituteBehind (rules : List (Rule α)) : Nat → List α → List α
  | _, [] => []
  | covered + 1, _ :: rest => substituteBehind rules covered rest
  | 0, x :: rest =>
    match rules.find? fun rule => rule.1 <+: x :: rest with
    | some rule => rule.2 ++ substituteBehind rules (rule.1.length - 1) rest
    | none => x :: substituteBehind rules 0 rest

/-- Replace the words of rules simultaneously, each where it stands in the text. -/
def substituteAll (rules : List (Rule α)) (text : List α) : List α := substituteBehind rules 0 text

/-- Replace a word at its leftmost occurrences that do not overlap. -/
def replaceAll (old new text : List α) : List α := substituteAll [(old, new)] text

/-- Replace the words of rules one after the other. -/
def replaceEach (rules : List (Rule α)) (text : List α) : List α :=
  rules.foldl (fun out rule => replaceAll rule.1 rule.2 out) text

/-- The places at which a word occurs in a text. -/
def occurrences (word : List α) : List α → Nat
  | [] => 0
  | x :: rest => (if word <+: x :: rest then 1 else 0) + occurrences word rest

/-- No rule completes the word of a later one: with the earlier rules replaced, the word is there
as often as in the text. -/
def NoneCompleted (rules : List (Rule α)) (text : List α) : Prop :=
  ∀ early rule late, rules = early ++ rule :: late →
    occurrences rule.1 (substituteAll early text) = occurrences rule.1 text

@[simp] theorem substituteBehind_nil (rules : List (Rule α)) (covered : Nat) :
    substituteBehind rules covered [] = [] := by
  cases covered <;> rfl

/-- Covered items are skipped. -/
theorem substituteBehind_cover (rules : List (Rule α)) (covered : Nat) (text : List α) :
    substituteBehind rules covered text = substituteAll rules (text.drop covered) := by
  induction covered generalizing text with
  | zero => rfl
  | succ covered ih =>
    cases text with
    | nil => rw [List.drop_nil]; rfl
    | cons x rest => exact ih rest

/-- A word that a rule replaces here. -/
theorem substituteAll_found {rule : Rule α} {x : α} {rest : List α}
    (found : (rules.find? fun rule => rule.1 <+: x :: rest) = some rule) :
    substituteAll rules (x :: rest) =
      rule.2 ++ substituteBehind rules (rule.1.length - 1) rest := by
  rw [substituteAll, substituteBehind, found]

/-- An item at which no rule applies. -/
theorem substituteAll_missing {x : α} {rest : List α}
    (missing : (rules.find? fun rule => rule.1 <+: x :: rest) = none) :
    substituteAll rules (x :: rest) = x :: substituteAll rules rest := by
  rw [substituteAll, substituteBehind, missing]
  rfl

/-- Whether a single rule applies here. -/
theorem find_single (old new here : List α) :
    [(old, new)].find? (fun rule => rule.1 <+: here) =
      if old <+: here then some (old, new) else none := by
  by_cases found : old <+: here <;> simp [found]

/-- No marked word stands at an item that is not the mark. -/
theorem find_other (marked : ∀ rule ∈ rules, Marked mark rule.1) {x : α} (other : x ≠ mark)
    (rest : List α) : (rules.find? fun rule => rule.1 <+: x :: rest) = none := by
  rw [List.find?_eq_none]
  intro rule member
  rw [decide_eq_true_eq]
  exact (marked rule member).not_front other rest

/-- One pass more. -/
@[simp] theorem replaceEach_concat (rules : List (Rule α)) (rule : Rule α) (text : List α) :
    replaceEach (rules ++ [rule]) text = replaceAll rule.1 rule.2 (replaceEach rules text) := by
  rw [replaceEach, List.foldl_append]
  rfl

/-- Items that are no marks do not add occurrences in front of a text. -/
theorem Marked.occurrences_append (marked : Marked mark word) {front : List α}
    (free : mark ∉ front) (text : List α) :
    occurrences word (front ++ text) = occurrences word text := by
  induction front with
  | nil => rfl
  | cons x front ih =>
    have other := List.ne_of_not_mem_cons free
    rw [List.cons_append, occurrences, if_neg (marked.not_front (Ne.symm other) _), Nat.zero_add,
      ih (List.not_mem_of_not_mem_cons free)]

/-- Occurrences in two parts are occurrences in the whole. -/
theorem occurrences_append_le (word front text : List α) :
    occurrences word front + occurrences word text ≤ occurrences word (front ++ text) := by
  induction front with
  | nil => simp [occurrences]
  | cons x front ih =>
    have extended : word <+: x :: front → word <+: x :: (front ++ text) := fun found =>
      found.trans (List.prefix_append (x :: front) text)
    rw [List.cons_append, occurrences, occurrences]
    by_cases found : word <+: x :: front
    · rw [if_pos found, if_pos (extended found)]
      omega
    · rw [if_neg found]
      split <;> omega

/-- Items without marks in front of a text stay as they are. -/
theorem substituteAll_free (marked : ∀ rule ∈ rules, Marked mark rule.1) {front : List α}
    (free : mark ∉ front) (text : List α) :
    substituteAll rules (front ++ text) = front ++ substituteAll rules text := by
  induction front with
  | nil => rfl
  | cons x front ih =>
    have other := Ne.symm (List.ne_of_not_mem_cons free)
    rw [List.cons_append, substituteAll_missing (find_other marked other _),
      ih (List.not_mem_of_not_mem_cons free), List.cons_append]

/-- First items without marks may be taken as covered ones that are kept. -/
theorem substituteAll_covered (marked : ∀ rule ∈ rules, Marked mark rule.1) {covered : Nat}
    {text : List α} (free : mark ∉ text.take covered) :
    substituteAll rules text = text.take covered ++ substituteBehind rules covered text := by
  rw [substituteBehind_cover, ← substituteAll_free marked free, List.take_append_drop]

/-- Behind a mark at which no rule applies, a marked word that stands there stays. -/
theorem Marked.stays (marked : Marked mark word) (rules_marked : ∀ rule ∈ rules, Marked mark rule.1)
    {x : α} {rest : List α} (found : word <+: x :: rest) :
    word <+: x :: substituteAll rules rest := by
  obtain ⟨-, free, -, whole⟩ := marked.covers found
  rw [whole, ← List.take_append_drop (word.length - 1) rest,
    substituteAll_free rules_marked free]
  apply List.cons_prefix_cons.mpr
  refine ⟨rfl, ?_⟩
  rw [List.take_append_drop]
  exact List.prefix_append _ _

/-- A text without the word is not changed. -/
theorem replaceAll_of_absent (value : List α) {text : List α} (absent : occurrences word text = 0) :
    replaceAll word value text = text := by
  induction text with
  | nil => rfl
  | cons x rest ih =>
    rw [occurrences] at absent
    have missing : ¬ word <+: x :: rest := by
      intro found
      rw [if_pos found] at absent
      omega
    have same := ih (by omega)
    rw [replaceAll, substituteAll_missing (by rw [find_single, if_neg missing])]
    exact congrArg (x :: ·) same

/-- A word that is no part of a text does not occur in it. -/
theorem occurrences_of_missing (absent : ¬ word <:+: text) : occurrences word text = 0 := by
  induction text with
  | nil => rfl
  | cons x rest ih =>
    have missing : ¬ word <+: x :: rest := fun found => absent found.isInfix
    have later : ¬ word <:+: rest := fun found =>
      absent (found.trans (List.suffix_cons x rest).isInfix)
    rw [occurrences, if_neg missing, ih later]

/-- When no occurrence crosses the boundary of two parts, they are replaced one by one. -/
theorem replaceBehind_append (value : List α) {front text : List α}
    (whole : occurrences word (front ++ text) = occurrences word front + occurrences word text)
    (covered : Nat) :
    substituteBehind [(word, value)] covered (front ++ text) =
      substituteBehind [(word, value)] covered front ++
        substituteBehind [(word, value)] (covered - front.length) text := by
  induction front generalizing covered with
  | nil => rw [substituteBehind_nil]; rfl
  | cons x front ih =>
    have parts := occurrences_append_le word front text
    rw [List.cons_append, occurrences, occurrences] at whole
    have same : word <+: x :: (front ++ text) ↔ word <+: x :: front := by
      constructor
      · intro found
        by_contra missing
        rw [if_pos found, if_neg missing] at whole
        omega
      · intro found
        exact found.trans (List.prefix_append (x :: front) text)
    have rest : occurrences word (front ++ text) =
        occurrences word front + occurrences word text := by
      simp only [same] at whole
      omega
    cases covered with
    | succ covered =>
      rw [List.cons_append, substituteBehind, substituteBehind, ih rest, List.length_cons,
        Nat.add_sub_add_right]
    | zero =>
      rw [List.cons_append, substituteBehind, substituteBehind, find_single, find_single]
      simp only [same]
      by_cases found : word <+: x :: front
      · have short := found.length_le
        rw [List.length_cons] at short
        rw [if_pos found]
        dsimp only
        rw [ih rest, List.append_assoc, List.length_cons,
          show word.length - 1 - front.length = 0 - (front.length + 1) by omega]
      · rw [if_neg found]
        dsimp only
        rw [ih rest, List.length_cons, List.cons_append,
          show 0 - front.length = 0 - (front.length + 1) by omega]

/-- When no occurrence crosses the boundary of two parts, they are replaced one by one. -/
theorem replaceAll_append (value : List α) {front text : List α}
    (whole : occurrences word (front ++ text) = occurrences word front + occurrences word text) :
    replaceAll word value (front ++ text) =
      replaceAll word value front ++ replaceAll word value text := by
  have parts := replaceBehind_append value whole 0
  rw [Nat.zero_sub] at parts
  exact parts

/-- The rule found at an item, with its word. -/
theorem find_some {rule : Rule α} {here : List α}
    (found : (rules.find? fun rule => rule.1 <+: here) = some rule) :
    rule ∈ rules ∧ rule.1 <+: here :=
  ⟨List.mem_of_find?_eq_some found, by simpa using List.find?_some found⟩

/-- Induction along a substitution that begins with covered items without marks. An item that is
covered is no mark, a rule that applies covers items without marks again, and behind an item at
which no rule applies the text may be taken with any of its first items covered. -/
theorem substituteInduction (marked : ∀ rule ∈ rules, Marked mark rule.1)
    {motive : (covered : Nat) → (text : List α) → mark ∉ text.take covered → Prop}
    (nil : ∀ covered free, motive covered [] free)
    (skip : ∀ covered x rest free, x ≠ mark → ∀ later, motive covered rest later →
      motive (covered + 1) (x :: rest) free)
    (found : ∀ x rest free, ∀ rule ∈ rules, rule.1 <+: x :: rest →
      (rules.find? fun rule => rule.1 <+: x :: rest) = some rule →
      ∀ behind, motive (rule.1.length - 1) rest behind → motive 0 (x :: rest) free)
    (missing : ∀ x rest free, (rules.find? fun rule => rule.1 <+: x :: rest) = none →
      (∀ covered later, motive covered rest later) → motive 0 (x :: rest) free)
    (covered : Nat) (text : List α) (free : mark ∉ text.take covered) :
    motive covered text free := by
  induction text generalizing covered with
  | nil => exact nil covered free
  | cons x rest ih =>
    cases covered with
    | succ covered =>
      have other : x ≠ mark := Ne.symm (List.ne_of_not_mem_cons free)
      have later : mark ∉ rest.take covered := List.not_mem_of_not_mem_cons free
      exact skip covered x rest free other later (ih covered later)
    | zero =>
      cases at_front : rules.find? fun rule => rule.1 <+: x :: rest with
      | some rule =>
        have here := find_some at_front
        have behind := ((marked rule here.1).covers here.2).2.1
        exact found x rest free rule here.1 here.2 at_front behind (ih _ behind)
      | none => exact missing x rest free at_front ih

/-- Replacing marked words keeps the occurrences of another. -/
theorem Marked.occurrences_le (marked : Marked mark word)
    (others : ∀ rule ∈ rules, Marked mark rule.1 ∧ Apart rule.1 word) (covered : Nat)
    (text : List α) (free : mark ∉ text.take covered) :
    occurrences word text ≤ occurrences word (substituteBehind rules covered text) := by
  have rules_marked : ∀ rule ∈ rules, Marked mark rule.1 := fun rule member =>
    (others rule member).1
  induction covered, text, free using substituteInduction rules_marked with
  | nil covered => simp
  | skip covered x rest free different later ih =>
    rw [substituteBehind, occurrences, if_neg (marked.not_front different rest), Nat.zero_add]
    exact ih
  | found x rest free rule member here found behind ih =>
    rw [substituteBehind, found, occurrences, if_neg ((others rule member).2.not_both here),
      Nat.zero_add]
    calc occurrences word rest
        ≤ occurrences word (substituteBehind rules (rule.1.length - 1) rest) := ih
      _ ≤ occurrences word rule.2 +
            occurrences word (substituteBehind rules (rule.1.length - 1) rest) :=
          Nat.le_add_left _ _
      _ ≤ _ := occurrences_append_le word rule.2 _
  | missing x rest free found ih =>
    have kept : word <+: x :: rest → word <+: x :: substituteBehind rules 0 rest :=
      marked.stays rules_marked
    have below := ih 0 (by simp)
    rw [substituteBehind, found, occurrences]
    dsimp only
    rw [occurrences]
    by_cases here : word <+: x :: rest
    · rw [if_pos here, if_pos (kept here)]
      omega
    · rw [if_neg here]
      omega

/-- The passes of other rules keep the occurrences of a word. -/
theorem Marked.occurrences_replaceEach_le (marked : Marked mark word)
    (others : ∀ rule ∈ rules, Marked mark rule.1 ∧ Apart rule.1 word) (text : List α) :
    occurrences word text ≤ occurrences word (replaceEach rules text) := by
  induction rules using List.reverseRecOn with
  | nil => exact Nat.le_refl _
  | append_singleton rules rule ih =>
    have last := others rule (by simp)
    rw [replaceEach_concat]
    apply Nat.le_trans (ih fun other member => others other (List.mem_append_left _ member))
    have single : ∀ other ∈ [rule], Marked mark other.1 ∧ Apart other.1 word := by
      intro other member
      rw [List.mem_singleton.mp member]
      exact last
    exact marked.occurrences_le single 0 _ (by simp)

/-- One more pass behind a simultaneous substitution that has not completed its word is one more
rule of the substitution. -/
theorem replaceAll_substituteBehind (marked : Marked mark word) (value : List α)
    (others : ∀ rule ∈ rules, Marked mark rule.1 ∧ Apart rule.1 word) (covered : Nat)
    (text : List α) (free : mark ∉ text.take covered)
    (same : occurrences word (substituteBehind rules covered text) = occurrences word text) :
    replaceAll word value (substituteBehind rules covered text) =
      substituteBehind (rules ++ [(word, value)]) covered text := by
  have rules_marked : ∀ rule ∈ rules, Marked mark rule.1 := fun rule member =>
    (others rule member).1
  induction covered, text, free using substituteInduction rules_marked with
  | nil covered =>
    rw [substituteBehind_nil, substituteBehind_nil]
    rfl
  | skip covered x rest free different later ih =>
    rw [substituteBehind, occurrences, if_neg (marked.not_front different rest),
      Nat.zero_add] at same
    exact ih same
  | found x rest free rule member here found behind ih =>
    -- An earlier rule applies, so the word neither stands here nor in its value.
    rw [substituteBehind, found, occurrences, if_neg ((others rule member).2.not_both here),
      Nat.zero_add] at same
    dsimp only at same
    rw [substituteBehind, found, substituteBehind, List.find?_append, found]
    dsimp only [Option.some_or]
    have parts := occurrences_append_le word rule.2
      (substituteBehind rules (rule.1.length - 1) rest)
    have kept := marked.occurrences_le others _ _ behind
    rw [replaceAll_append value (by omega), replaceAll_of_absent value (by omega), ih (by omega)]
  | missing x rest free found ih =>
    have kept := marked.occurrences_le others 0 rest (by simp)
    change occurrences word (substituteAll rules (x :: rest)) = _ at same
    change replaceAll word value (substituteAll rules (x :: rest)) = _
    rw [substituteAll_missing found, occurrences, occurrences] at same
    change _ ≤ occurrences word (substituteAll rules rest) at kept
    rw [substituteAll_missing found, substituteBehind, List.find?_append, found, Option.none_or,
      find_single]
    by_cases here : word <+: x :: rest
    · -- The word stands here, and behind its mark nothing is replaced before its end.
      obtain ⟨-, behind, long, whole⟩ := marked.covers here
      have stays := marked.stays rules_marked here
      rw [if_pos here, if_pos stays] at same
      rw [if_pos here, replaceAll, substituteAll_found (by rw [find_single, if_pos stays])]
      dsimp only
      have cut := substituteAll_covered rules_marked behind
      rw [cut, marked.occurrences_append behind] at same
      rw [cut, substituteBehind_cover, List.drop_left' (by rw [List.length_take]; omega)]
      exact congrArg (value ++ ·) (ih _ behind (by omega))
    · rw [if_neg here] at same
      have absent : ¬ word <+: x :: substituteAll rules rest := by
        intro completed
        rw [if_pos completed] at same
        omega
      rw [if_neg absent] at same
      rw [if_neg here, replaceAll, substituteAll_missing (by rw [find_single, if_neg absent])]
      dsimp only
      have rest_same : occurrences word (substituteAll rules rest) = occurrences word rest := by
        omega
      exact congrArg (x :: ·) (ih 0 (by simp) rest_same)

/-! ## One after the other and simultaneously -/

/-- No rule completes the word of a later one: the last rule and the ones before it. -/
theorem noneCompleted_concat {rule : Rule α} :
    NoneCompleted (rules ++ [rule]) text ↔ NoneCompleted rules text ∧
      occurrences rule.1 (substituteAll rules text) = occurrences rule.1 text := by
  constructor
  · intro none
    refine ⟨fun early other late split => ?_, none rules rule [] rfl⟩
    apply none early other (late ++ [rule])
    rw [split, List.append_assoc, List.cons_append]
  · intro both early other late split
    cases late using List.reverseRecOn with
    | nil =>
      obtain ⟨rfl, last⟩ := List.append_inj' split rfl
      rw [← (List.cons.inj last).1]
      exact both.2
    | append_singleton late last _ =>
      rw [← List.cons_append, ← List.append_assoc] at split
      exact both.1 early other late (List.append_inj' split rfl).1

/-- When no word is completed the passes are the simultaneous substitution. -/
theorem replaceEach_eq_substituteAll (separate : Separate mark rules)
    (none : NoneCompleted rules text) : replaceEach rules text = substituteAll rules text := by
  induction rules using List.reverseRecOn with
  | nil =>
    have same : ∀ text : List α, substituteAll [] text = text := by
      intro text
      induction text with
      | nil => rfl
      | cons x rest ih =>
        rw [substituteAll_missing rfl, ih]
    rw [same]
    rfl
  | append_singleton rules rule ih =>
    obtain ⟨before, last⟩ := noneCompleted_concat.mp none
    rw [replaceEach_concat, ih separate.of_append before]
    exact replaceAll_substituteBehind (separate.marked rule (by simp)) rule.2 separate.others 0
      text (by simp) last

/-- The sum over the occurrences of all words, each with the weight of its rule. -/
def weight (of : Rule α → Nat) : List (Rule α) → List α → Nat
  | [], _ => 0
  | rule :: rules, text => occurrences rule.1 text * of rule + weight of rules text

/-- The empty text has no weight. -/
@[simp] theorem weight_nil (of : Rule α → Nat) (rules : List (Rule α)) :
    weight of rules [] = 0 := by
  induction rules with
  | nil => rfl
  | cons rule rules ih => rw [weight, ih, occurrences, Nat.zero_mul]

/-- One rule more. -/
theorem weight_concat (of : Rule α → Nat) (rule : Rule α) :
    weight of (rules ++ [rule]) text =
      weight of rules text + occurrences rule.1 text * of rule := by
  induction rules with
  | nil => rw [List.nil_append, weight, weight, weight, Nat.add_zero, Nat.zero_add]
  | cons first rules ih => rw [List.cons_append, weight, weight, ih, Nat.add_assoc]

/-- An item at which no rule applies adds no weight. -/
theorem weight_missing (of : Rule α → Nat) {x : α} {rest : List α}
    (missing : (rules.find? fun rule => rule.1 <+: x :: rest) = none) :
    weight of rules (x :: rest) = weight of rules rest := by
  induction rules with
  | nil => rfl
  | cons rule rules ih =>
    have absent : ¬ rule.1 <+: x :: rest := by
      simpa using List.find?_eq_none.mp missing rule List.mem_cons_self
    rw [List.find?_cons_of_neg (by simpa using absent)] at missing
    rw [weight, weight, ih missing, occurrences, if_neg absent, Nat.zero_add]

/-- An item at which a rule applies adds the weight of this rule. -/
theorem weight_found (of : Rule α → Nat)
    (apart : rules.Pairwise fun left right => Apart left.1 right.1) {rule : Rule α} {x : α}
    {rest : List α} (found : (rules.find? fun rule => rule.1 <+: x :: rest) = some rule) :
    weight of rules (x :: rest) = of rule + weight of rules rest := by
  induction rules with
  | nil => contradiction
  | cons first rules ih =>
    obtain ⟨others, later⟩ := List.pairwise_cons.mp apart
    rw [weight, weight, occurrences]
    by_cases here : first.1 <+: x :: rest
    · rw [List.find?_cons_of_pos (by simpa using here)] at found
      cases Option.some.inj found
      have missing : (rules.find? fun rule => rule.1 <+: x :: rest) = none := by
        rw [List.find?_eq_none]
        intro other member
        rw [decide_eq_true_eq]
        exact (others other member).not_both here
      rw [if_pos here, weight_missing of missing, Nat.add_mul, Nat.one_mul, Nat.add_assoc]
    · rw [List.find?_cons_of_neg (by simpa using here)] at found
      rw [if_neg here, Nat.zero_add, ih later found, Nat.add_left_comm]

/-- Substituting trades the mark of each word for the marks of its value. -/
theorem Separate.count_substituteBehind (separate : Separate mark rules) (covered : Nat)
    (text : List α) (free : mark ∉ text.take covered) :
    (substituteBehind rules covered text).count mark + weight (fun _ => 1) rules text =
      text.count mark + weight (fun rule => rule.2.count mark) rules text := by
  induction covered, text, free using substituteInduction separate.marked with
  | nil covered => rw [substituteBehind_nil, weight_nil, weight_nil]
  | skip covered x rest free other later ih =>
    have missing := find_other separate.marked other rest
    rw [substituteBehind, weight_missing _ missing, weight_missing _ missing, ih,
      List.count_cons_of_ne other]
  | found x rest free rule member here found behind ih =>
    have same := ((separate.marked rule member).covers here).1
    rw [substituteBehind, found, weight_found _ separate.apart found,
      weight_found _ separate.apart found]
    dsimp only
    rw [List.count_append, same, List.count_cons_self]
    omega
  | missing x rest free found ih =>
    have later := ih 0 (by simp)
    rw [substituteBehind, found, weight_missing _ found, weight_missing _ found]
    dsimp only
    rw [List.count_cons, List.count_cons]
    omega

/-- One pass trades the mark of each occurrence for the marks of the value. -/
theorem Marked.count_replaceAll (marked : Marked mark word) (value text : List α) :
    (replaceAll word value text).count mark + occurrences word text =
      text.count mark + occurrences word text * value.count mark := by
  have single : Separate mark [(word, value)] := by
    refine ⟨fun rule member => ?_, List.pairwise_singleton _ _⟩
    rw [List.mem_singleton.mp member]
    exact marked
  have counted := single.count_substituteBehind 0 text (by simp)
  change (substituteBehind [(word, value)] 0 text).count mark + _ = _
  simpa [weight] using counted

/-- The passes leave at most as many marks as the simultaneous substitution, and fewer as soon as
a word is completed, when only words that are not completed have values with marks. -/
theorem Separate.count_replaceEach (separate : Separate mark rules)
    (kept : ∀ early rule late, rules = early ++ rule :: late → rule.2.count mark = 0 ∨
      occurrences rule.1 (replaceEach early text) = occurrences rule.1 text) :
    (replaceEach rules text).count mark + weight (fun _ => 1) rules text ≤
        text.count mark + weight (fun rule => rule.2.count mark) rules text ∧
      ((replaceEach rules text).count mark + weight (fun _ => 1) rules text =
        text.count mark + weight (fun rule => rule.2.count mark) rules text →
          NoneCompleted rules text) := by
  induction rules using List.reverseRecOn with
  | nil =>
    refine ⟨Nat.le_refl _, fun _ early rule late split => ?_⟩
    have length := congrArg List.length split
    simp at length
  | append_singleton rules rule ih =>
    have marked := separate.marked rule (by simp)
    have before := ih separate.of_append fun early other late split =>
      kept early other (late ++ [rule]) (by rw [split, List.append_assoc, List.cons_append])
    have more := marked.occurrences_replaceEach_le separate.others text
    have pass := marked.count_replaceAll rule.2 (replaceEach rules text)
    have marks : occurrences rule.1 (replaceEach rules text) * rule.2.count mark =
        occurrences rule.1 text * rule.2.count mark := by
      cases kept rules rule [] rfl with
      | inl none => rw [none, Nat.mul_zero, Nat.mul_zero]
      | inr same => rw [same]
    rw [replaceEach_concat, weight_concat, weight_concat, Nat.mul_one]
    refine ⟨by omega, fun same => ?_⟩
    have none := before.2 (by omega)
    apply noneCompleted_concat.mpr
    refine ⟨none, ?_⟩
    rw [← replaceEach_eq_substituteAll separate.of_append none]
    omega

/-- The passes are the simultaneous substitution exactly when no word is completed, provided that
only words that are not completed have values with marks. -/
theorem replaceEach_eq_iff (separate : Separate mark rules)
    (kept : ∀ early rule late, rules = early ++ rule :: late → rule.2.count mark = 0 ∨
      occurrences rule.1 (replaceEach early text) = occurrences rule.1 text) :
    replaceEach rules text = substituteAll rules text ↔ NoneCompleted rules text := by
  constructor
  · intro same
    apply (separate.count_replaceEach kept).2
    rw [same]
    exact separate.count_substituteBehind 0 text (by simp)
  · exact replaceEach_eq_substituteAll separate

/-- The value shares no front with any end of the word behind its mark, so it completes no
occurrence of the word. -/
def Foreign (value word : List α) : Prop :=
  ∀ part, part ≠ [] → part <:+ word.tail → Apart part value

/-- An end of the word that stands behind a substitution of foreign values stands there before. -/
theorem prefix_of_foreign (foreign : ∀ rule ∈ rules, Foreign rule.2 word) {part rest : List α}
    (ending : part <:+ word.tail) (here : part <+: substituteAll rules rest) : part <+: rest := by
  induction part generalizing rest with
  | nil => exact List.nil_prefix
  | cons x part ih =>
    cases rest with
    | nil => exact here
    | cons y rest =>
      cases found : rules.find? fun rule => rule.1 <+: y :: rest with
      | some rule =>
        rw [substituteAll_found found] at here
        have apart := foreign rule (find_some found).1 (x :: part) (List.cons_ne_nil x part) ending
        exact absurd (List.prefix_append rule.2 _) (apart.not_both here)
      | none =>
        rw [substituteAll_missing found] at here
        obtain ⟨same, inside⟩ := List.cons_prefix_cons.mp here
        apply List.cons_prefix_cons.mpr
        exact ⟨same, ih (List.IsSuffix.trans (List.suffix_cons x part) ending) inside⟩

/-- Foreign values without marks leave the occurrences of a word as they are. -/
theorem Marked.occurrences_foreign (marked : Marked mark word)
    (others : ∀ rule ∈ rules, Marked mark rule.1 ∧ Apart rule.1 word)
    (foreign : ∀ rule ∈ rules, mark ∉ rule.2 ∧ Foreign rule.2 word) (covered : Nat)
    (text : List α) (free : mark ∉ text.take covered) :
    occurrences word (substituteBehind rules covered text) = occurrences word text := by
  have rules_marked : ∀ rule ∈ rules, Marked mark rule.1 := fun rule member =>
    (others rule member).1
  induction covered, text, free using substituteInduction rules_marked with
  | nil covered => rw [substituteBehind_nil]
  | skip covered x rest free different later ih =>
    rw [substituteBehind, occurrences, if_neg (marked.not_front different rest), Nat.zero_add]
    exact ih
  | found x rest free rule member here found behind ih =>
    rw [substituteBehind, found, occurrences, if_neg ((others rule member).2.not_both here),
      Nat.zero_add]
    dsimp only
    rw [marked.occurrences_append (foreign rule member).1, ih]
  | missing x rest free found ih =>
    have same : word <+: x :: substituteAll rules rest ↔ word <+: x :: rest := by
      constructor
      · intro completed
        obtain ⟨tail, rfl, -⟩ := marked
        obtain ⟨mark_eq, inside⟩ := List.cons_prefix_cons.mp completed
        apply List.cons_prefix_cons.mpr
        constructor
        · exact mark_eq
        · exact prefix_of_foreign (fun rule member => (foreign rule member).2)
            (List.suffix_refl tail) inside
      · intro here
        exact marked.stays rules_marked here
    have later := ih 0 (by simp)
    change occurrences word (substituteAll rules (x :: rest)) = _
    change occurrences word (substituteAll rules rest) = _ at later
    rw [substituteAll_missing found, occurrences, occurrences, later]
    simp only [same]

/-- Passes with foreign values leave the occurrences of a word as they are. -/
theorem Marked.occurrences_replaceEach_foreign (marked : Marked mark word)
    (others : ∀ rule ∈ rules, Marked mark rule.1 ∧ Apart rule.1 word)
    (foreign : ∀ rule ∈ rules, mark ∉ rule.2 ∧ Foreign rule.2 word) (text : List α) :
    occurrences word (replaceEach rules text) = occurrences word text := by
  induction rules using List.reverseRecOn with
  | nil => rfl
  | append_singleton rules rule ih =>
    have last : ∀ other ∈ [rule], other = rule := fun other => List.mem_singleton.mp
    rw [replaceEach_concat, ← ih
      (fun other member => others other (List.mem_append_left _ member))
      fun other member => foreign other (List.mem_append_left _ member)]
    apply marked.occurrences_foreign _ _ 0 _ (by simp)
    · intro other member
      rw [last other member]
      exact others rule (by simp)
    · intro other member
      rw [last other member]
      exact foreign rule (by simp)

/-- The passes are the simultaneous substitution exactly when no word is completed, when at most
one value has marks and the values before it are foreign to its word. -/
theorem replaceEach_middle_iff {front back : List (Rule α)} {rule : Rule α}
    (separate : Separate mark (front ++ rule :: back))
    (free : ∀ other ∈ front ++ back, mark ∉ other.2)
    (safe : mark ∉ rule.2 ∨ ∀ other ∈ front, Foreign other.2 rule.1) :
    replaceEach (front ++ rule :: back) text = substituteAll (front ++ rule :: back) text ↔
      NoneCompleted (front ++ rule :: back) text := by
  apply replaceEach_eq_iff separate
  intro early other late split
  have plain : ∀ other ∈ front ++ back, other.2.count mark = 0 := fun other member =>
    List.count_eq_zero.mpr (free other member)
  have middle : rule.2.count mark = 0 ∨
      occurrences rule.1 (replaceEach front text) = occurrences rule.1 text := by
    cases safe with
    | inl none => exact .inl (List.count_eq_zero.mpr none)
    | inr foreign =>
      right
      have apart : Separate mark (front ++ [rule]) := by
        rw [List.append_cons] at separate
        exact separate.of_append
      apply (separate.marked rule (by simp)).occurrences_replaceEach_foreign apart.others
      intro earlier member
      exact ⟨free earlier (List.mem_append_left _ member), foreign earlier member⟩
  cases List.append_eq_append_iff.mp split with
  | inl later =>
    obtain ⟨between, early_eq, rest⟩ := later
    cases between with
    | nil =>
      cases (List.cons.inj rest).1
      rw [early_eq, List.append_nil]
      exact middle
    | cons first between =>
      left
      apply plain other
      rw [(List.cons.inj rest).2]
      simp
  | inr earlier =>
    obtain ⟨between, front_eq, rest⟩ := earlier
    cases between with
    | nil =>
      cases (List.cons.inj rest).1
      rw [front_eq, List.append_nil] at middle
      exact middle
    | cons first between =>
      left
      apply plain other
      rw [front_eq, (List.cons.inj rest).1]
      simp

end GrReveng
