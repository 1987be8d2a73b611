import Mathlib.Algebra.Order.Ring.Int
import Mathlib.Data.List.DropRight

/-!
# Shift registers

A shift register of a fixed capacity keeps the last elements pushed onto it: a push onto a full
register drops the oldest element. It is the bounded queue behind a running comparison with a
word. After any pushes its contents are the end of everything it has seen (`items_pushAll`).
Started empty it compares equal to a word exactly when the word ends the pushed stream; started
from the word itself it can also be completed by the end of the old copy and a few new elements,
which takes a word that overlaps itself (`HasBorder`).
-/

namespace GrReveng

/-- A bounded queue; no value holds more than its capacity. -/
structure ShiftRegister (α : Type) (capacity : Nat) where
  /-- Contents, oldest first. -/
  items : List α
  /-- The capacity is never exceeded. -/
  bounded : items.length ≤ capacity
  deriving DecidableEq

namespace ShiftRegister

variable {α : Type} {capacity : Nat}

/-- Registers with the same contents are equal. -/
@[ext] theorem ext {left right : ShiftRegister α capacity} (same : left.items = right.items) :
    left = right := by
  cases left
  cases right
  simpa using same

/-- A register nothing has been pushed onto. -/
def empty : ShiftRegister α capacity := ⟨[], Nat.zero_le _⟩

/-- A list within the capacity stays within it when one item is pushed. -/
theorem length_push_le {items : List α} (held : items.length ≤ capacity) (x : α) :
    (if items.length < capacity then items ++ [x] else (items ++ [x]).drop 1).length ≤
      capacity := by
  split
  · rw [List.length_append, List.length_singleton]
    omega
  · rw [List.length_drop, List.length_append, List.length_singleton]
    omega

/-- Append an element; when the register is full the oldest element leaves. -/
def push (register : ShiftRegister α capacity) (x : α) : ShiftRegister α capacity where
  items :=
    if register.items.length < capacity then register.items ++ [x]
    else (register.items ++ [x]).drop 1
  bounded := length_push_le register.bounded x

/-- Push a list of elements in order. -/
def pushAll (register : ShiftRegister α capacity) (xs : List α) : ShiftRegister α capacity :=
  xs.foldl push register

@[simp] theorem pushAll_nil (register : ShiftRegister α capacity) :
    register.pushAll [] = register := rfl

@[simp] theorem pushAll_cons (register : ShiftRegister α capacity) (x : α) (xs : List α) :
    register.pushAll (x :: xs) = (register.push x).pushAll xs := rfl

/-- Pushing two lists in order is pushing their concatenation. -/
theorem pushAll_append (register : ShiftRegister α capacity) (xs ys : List α) :
    register.pushAll (xs ++ ys) = (register.pushAll xs).pushAll ys := by
  simp [pushAll]

/-- One push keeps the end of the contents and the new element. -/
theorem items_push (register : ShiftRegister α capacity) (x : α) :
    (register.push x).items = (register.items ++ [x]).rtake capacity := by
  have held := register.bounded
  simp only [push, List.rtake]
  split <;> rename_i room
  · simp [show register.items.length + 1 - capacity = 0 by omega]
  · simp [show register.items.length + 1 - capacity = 1 by omega]

/-- What holds of the contents and of the new element holds of the contents after the push. -/
theorem forall_push {P : α → Prop} {register : ShiftRegister α capacity} {x : α}
    (held : ∀ y ∈ register.items, P y) (new : P x) : ∀ y ∈ (register.push x).items, P y := by
  intro y inside
  rw [items_push] at inside
  cases List.mem_append.mp (List.mem_of_mem_drop inside) with
  | inl earlier => exact held y earlier
  | inr last => rw [List.mem_singleton.mp last]; exact new

/-- The end of a list extended after its own end was taken is the end of the whole. -/
theorem rtake_rtake_append (xs ys : List α) (n : Nat) :
    (xs.rtake n ++ ys).rtake n = (xs ++ ys).rtake n := by
  simp only [List.rtake, List.length_append, List.length_drop, List.drop_append, List.drop_drop]
  congr 2 <;> omega

/-- The contents after any pushes are the end of everything seen. -/
theorem items_pushAll (register : ShiftRegister α capacity) (xs : List α) :
    (register.pushAll xs).items = (register.items ++ xs).rtake capacity := by
  induction xs generalizing register with
  | nil =>
    have held := register.bounded
    simp [List.rtake, show register.items.length - capacity = 0 by omega]
  | cons x xs ih =>
    rw [pushAll_cons, ih, items_push, rtake_rtake_append, List.append_assoc]
    rfl

/-- The register that holds a word of its own capacity. -/
def ofWord (word : List α) : ShiftRegister α word.length := ⟨word, Nat.le_refl _⟩

/-- Pushing a word onto the empty register of its length makes it the word. -/
theorem pushAll_empty_word (word : List α) :
    (empty : ShiftRegister α word.length).pushAll word = ofWord word := by
  ext1
  simp [items_pushAll, empty, ofWord, List.rtake]

/-- A register started empty holds a word exactly when the word ends the pushed stream. -/
theorem pushAll_empty_eq_iff {word : List α} (xs : List α) :
    (empty : ShiftRegister α word.length).pushAll xs = ofWord word ↔
      word.length ≤ xs.length ∧ xs.drop (xs.length - word.length) = word := by
  constructor
  · intro same
    have held := congrArg items same
    simp only [items_pushAll, empty, List.nil_append, List.rtake, ofWord] at held
    have lengths := congrArg List.length held
    simp only [List.length_drop] at lengths
    exact ⟨by omega, held⟩
  · rintro ⟨-, held⟩
    ext1
    simpa [items_pushAll, empty, List.rtake, ofWord] using held

/-- A register started from a word holds, after some pushes, the end of the word and the new
elements. -/
theorem items_pushAll_ofWord (word xs : List α) :
    ((ofWord word).pushAll xs).items = (word ++ xs).drop xs.length := by
  simp [items_pushAll, ofWord, List.rtake]

end ShiftRegister

section Words

variable {α : Type}

/-- A word has a proper border when, moved against itself by fewer places than its length, it
still agrees with itself on the overlap. -/
def HasBorder (word : List α) : Prop :=
  ∃ k, 0 < k ∧ k < word.length ∧ word.drop k = word.take (word.length - k)

instance (word : List α) [DecidableEq α] : Decidable (HasBorder word) :=
  decidable_of_iff (∃ k < word.length, 0 < k ∧ word.drop k = word.take (word.length - k)) <| by
    constructor
    · rintro ⟨k, below, positive, same⟩; exact ⟨k, positive, below, same⟩
    · rintro ⟨k, positive, below, same⟩; exact ⟨k, below, positive, same⟩

/-- The word stands in the text at a position. -/
def OccursAt (word text : List α) (position : Nat) : Prop := word <+: text.drop position

instance (word text : List α) (position : Nat) [DecidableEq α] :
    Decidable (OccursAt word text position) :=
  inferInstanceAs (Decidable (word <+: text.drop position))

/-- A word that occurs leaves room for its own length. -/
theorem OccursAt.fits {word text : List α} {position : Nat} (occurs : OccursAt word text position)
    (nonempty : word ≠ []) : position + word.length ≤ text.length := by
  have short := occurs.length_le
  have positive := List.length_pos_iff.mpr nonempty
  simp only [List.length_drop] at short
  omega

/-- Only the positions inside the text have to be looked at for occurrences. -/
theorem OccursAt.all_of_lt {word text : List α} {P : Nat → Prop} (nonempty : word ≠ [])
    (inside : ∀ i < text.length, OccursAt word text i → P i) (i : Nat)
    (occurs : OccursAt word text i) : P i := by
  have room := occurs.fits nonempty
  have positive := List.length_pos_iff.mpr nonempty
  exact inside i (by omega) occurs

/-- What lies after an occurrence does not matter to it. -/
theorem OccursAt.append {word text : List α} {position : Nat}
    (occurs : OccursAt word text position) (nonempty : word ≠ []) (more : List α) :
    OccursAt word (text ++ more) position := by
  have room := occurs.fits nonempty
  have positive := List.length_pos_iff.mpr nonempty
  rw [OccursAt, List.drop_append_of_le_length (by omega)]
  exact occurs.trans (List.prefix_append _ _)

/-- The end of a copy completed by fewer new elements than the word is long is an overlap of
the word with itself. -/
theorem hasBorder_of_completed {word xs : List α} (some : xs ≠ [])
    (short : xs.length < word.length) (completed : (word ++ xs).drop xs.length = word) :
    HasBorder word := by
  refine ⟨xs.length, List.length_pos_iff.mpr some, short, ?_⟩
  have cut := congrArg (List.take (word.length - xs.length)) completed
  rw [List.drop_append_of_le_length (by omega)] at cut
  rw [← cut, List.take_append_of_le_length (by simp), List.take_of_length_le (by simp)]

/-- An overlap of a word with itself is completed by the end of the word. -/
theorem completed_of_border {word : List α} {k : Nat} (below : k < word.length)
    (overlap : word.drop k = word.take (word.length - k)) :
    (word ++ word.drop (word.length - k)).drop k = word := by
  rw [List.drop_append_of_le_length (by omega), overlap, List.take_append_drop]

end Words

namespace ShiftRegister

variable {α : Type} {word : List α}

/-- No push of the list makes the register hold the word. -/
def Quiet (register : ShiftRegister α word.length) (xs : List α) : Prop :=
  ∀ front back, xs = front ++ back → front ≠ [] → register.pushAll front ≠ ofWord word

/-- The last push of the list is the first that makes the register hold the word. -/
structure Finds (register : ShiftRegister α word.length) (xs : List α) : Prop where
  /-- Something is pushed. -/
  nonempty : xs ≠ []
  /-- No push before the last one finds the word. -/
  quiet : register.Quiet xs.dropLast
  /-- The last push finds it. -/
  found : register.pushAll xs = ofWord word

/-- The push that finds the word. -/
theorem Finds.push_last {register : ShiftRegister α word.length} {xs : List α}
    (finds : register.Finds xs) :
    (register.pushAll xs.dropLast).push (xs.getLast finds.nonempty) = ofWord word := by
  rw [← pushAll_nil ((register.pushAll xs.dropLast).push _), ← pushAll_cons, ← pushAll_append,
    List.dropLast_append_getLast]
  exact finds.found

@[simp] theorem quiet_nil (register : ShiftRegister α word.length) : register.Quiet [] := by
  intro front back split some
  simp_all

/-- Quietness of a list is quietness of its first push and of the rest. -/
theorem quiet_cons {register : ShiftRegister α word.length} {x : α} {xs : List α} :
    register.Quiet (x :: xs) ↔ register.push x ≠ ofWord word ∧ (register.push x).Quiet xs := by
  constructor
  · intro quiet
    refine ⟨fun found => quiet [x] xs rfl (by simp) found, fun front back split some => ?_⟩
    exact quiet (x :: front) back (by simp [split]) (by simp)
  · rintro ⟨first, rest⟩ front back split some
    cases front with
    | nil => contradiction
    | cons y front =>
      simp only [List.cons_append, List.cons.injEq] at split
      obtain ⟨rfl, split⟩ := split
      by_cases more : front = []
      · simpa [more] using first
      · exact rest front back split more

/-- Every beginning of a quiet list is quiet. -/
theorem Quiet.front {register : ShiftRegister α word.length} {xs ys : List α}
    (quiet : register.Quiet (xs ++ ys)) : register.Quiet xs := fun front back split some =>
  quiet front (back ++ ys) (by rw [split, List.append_assoc]) some

/-- A list either is quiet or begins with a list that finds the word. -/
theorem quiet_or_finds [DecidableEq α] (register : ShiftRegister α word.length) (xs : List α) :
    register.Quiet xs ∨ ∃ front back, xs = front ++ back ∧ register.Finds front := by
  induction xs generalizing register with
  | nil => exact .inl (quiet_nil register)
  | cons x xs ih =>
    by_cases found : register.push x = ofWord word
    · exact .inr ⟨[x], xs, rfl, by simp, by simp, by simpa using found⟩
    · rcases ih (register.push x) with quiet | ⟨front, back, split, finds⟩
      · exact .inl (quiet_cons.mpr ⟨found, quiet⟩)
      · refine .inr ⟨x :: front, back, by simp [split], by simp, ?_, finds.found⟩
        rw [List.dropLast_cons_of_ne_nil finds.nonempty]
        exact quiet_cons.mpr ⟨found, finds.quiet⟩

/-- An empty register is quiet on a text that does not contain the word. -/
theorem quiet_empty {text : List α} (absent : ∀ i, ¬ OccursAt word text i) :
    (empty : ShiftRegister α word.length).Quiet text := by
  intro front back split some found
  obtain ⟨long, held⟩ := (pushAll_empty_eq_iff front).mp found
  apply absent (front.length - word.length)
  rw [OccursAt, split, List.drop_append_of_le_length (by omega), held]
  exact List.prefix_append _ _

/-- A register that holds the word is quiet on a text that, put after the word, does not contain
the word a second time. -/
theorem quiet_ofWord {text : List α} (absent : ∀ i, OccursAt word (word ++ text) i → i = 0) :
    (ofWord word).Quiet text := by
  intro front back split some found
  have positive := List.length_pos_iff.mpr some
  have held := congrArg items found
  rw [items_pushAll_ofWord] at held
  have here : OccursAt word (word ++ text) front.length := by
    rw [OccursAt, split, ← List.append_assoc, List.drop_append_of_le_length (by simp), held]
    exact List.prefix_append _ _
  have first := absent _ here
  omega

/-- An empty register finds the word at the end of a text that contains it there only. -/
theorem finds_empty {gap : List α} (nonempty : word ≠ [])
    (only : ∀ i, OccursAt word (gap ++ word) i → i = gap.length) :
    (empty : ShiftRegister α word.length).Finds (gap ++ word) := by
  have positive := List.length_pos_iff.mpr nonempty
  refine ⟨by simp [nonempty], quiet_empty fun i occurs => ?_, ?_⟩
  · have room := occurs.fits nonempty
    have whole := occurs.append nonempty [(gap ++ word).getLast (by simp [nonempty])]
    rw [List.dropLast_append_getLast] at whole
    have last := only i whole
    simp only [List.length_dropLast, List.length_append] at room
    omega
  · exact (pushAll_empty_eq_iff _).mpr ⟨by simp, by simp⟩

/-- An empty register finds the word itself. -/
theorem finds_word (nonempty : word ≠ []) :
    (empty : ShiftRegister α word.length).Finds word :=
  @finds_empty α word [] nonempty fun i occurs => by
    have room := occurs.fits nonempty
    simp only [List.nil_append, List.length_nil] at room ⊢
    omega

/-- A register that holds the word finds the next copy of it at the end of a gap when the word,
the gap and the word contain no other occurrence. -/
theorem finds_ofWord {gap : List α} (nonempty : word ≠ [])
    (only : ∀ i, OccursAt word (word ++ gap ++ word) i → i = 0 ∨ i = word.length + gap.length) :
    (ofWord word).Finds (gap ++ word) := by
  have positive := List.length_pos_iff.mpr nonempty
  refine ⟨by simp [nonempty], quiet_ofWord fun i occurs => ?_, ?_⟩
  · have room := occurs.fits nonempty
    have whole := occurs.append nonempty [(gap ++ word).getLast (by simp [nonempty])]
    rw [List.append_assoc, List.dropLast_append_getLast, ← List.append_assoc] at whole
    simp only [List.length_append, List.length_dropLast] at room
    rcases only i whole with first | last
    · exact first
    · omega
  · ext1
    rw [items_pushAll_ofWord, List.length_append, ← List.append_assoc]
    simp [ofWord, List.drop_append, Nat.add_comm gap.length]

/-- For a word that does not overlap itself it does not matter whether the register started empty
or with the word. -/
theorem pushAll_ofWord_eq_iff (free : ¬ HasBorder word) {xs : List α} (some : xs ≠ []) :
    (ofWord word).pushAll xs = ofWord word ↔
      (empty : ShiftRegister α word.length).pushAll xs = ofWord word := by
  rw [pushAll_empty_eq_iff, ShiftRegister.ext_iff, items_pushAll_ofWord]
  change (word ++ xs).drop xs.length = word ↔ _
  by_cases long : word.length ≤ xs.length
  · rw [List.drop_append, List.drop_of_length_le long, List.nil_append]
    simp only [long, true_and]
  · refine ⟨fun completed => ?_, fun ends => absurd ends.1 long⟩
    exact absurd (hasBorder_of_completed some (by omega) completed) free

/-- Quiet for the empty register is quiet for the register with such a word. -/
theorem Quiet.ofWord (free : ¬ HasBorder word) {xs : List α}
    (quiet : (empty : ShiftRegister α word.length).Quiet xs) :
    (ShiftRegister.ofWord word).Quiet xs := fun front back split some =>
  fun found => quiet front back split some ((pushAll_ofWord_eq_iff free some).mp found)

/-- What the empty register finds the register with such a word finds. -/
theorem Finds.ofWord (free : ¬ HasBorder word) {xs : List α}
    (finds : (empty : ShiftRegister α word.length).Finds xs) :
    (ShiftRegister.ofWord word).Finds xs :=
  ⟨finds.nonempty, finds.quiet.ofWord free,
    (pushAll_ofWord_eq_iff free finds.nonempty).mpr finds.found⟩

/-- A register that holds a word with an overlap finds the word again within a proper end of it;
a shorter overlap may complete it before the whole end is pushed. -/
theorem exists_finds_of_border [DecidableEq α] (border : HasBorder word) :
    ∃ k front back, k < word.length ∧ word.drop (word.length - k) = front ++ back ∧
      front.length ≤ k ∧ (ofWord word).Finds front := by
  obtain ⟨k, positive, below, overlap⟩ := border
  have length : (word.drop (word.length - k)).length = k := by
    rw [List.length_drop]
    omega
  have again : (ofWord word).pushAll (word.drop (word.length - k)) = ofWord word := by
    ext1
    rw [items_pushAll_ofWord, length]
    exact completed_of_border below overlap
  have some : word.drop (word.length - k) ≠ [] := List.length_pos_iff.mp (by omega)
  obtain ⟨front, back, split, finds⟩ := ((ofWord word).quiet_or_finds
    (word.drop (word.length - k))).resolve_left fun quiet => quiet _ [] (by simp) some again
  have parts := congrArg List.length split
  rw [List.length_append] at parts
  exact ⟨k, front, back, below, split, by omega, finds⟩

end ShiftRegister

end GrReveng
