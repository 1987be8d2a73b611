import GrReveng.Library.Reactive
import GrReveng.Library.ShiftRegister

/-!
# Leftmost non-overlapping scans

The scan of a text for a word: from a position on, find the first end of an occurrence of the
word, take a number of elements behind it, and go on behind these. The scan is defined over
positions of the whole text. A shift register that starts empty finds the same ends one element
at a time (`leastEnd_finds`, `leastEnd_quiet`), so a machine that searches with one and collects
behind what it has found emits the scan (`Scanner.work_scanFrom`).
-/

namespace GrReveng

variable {α : Type} [DecidableEq α]

/-- The least end of an occurrence of the word that begins at or behind the start. -/
def leastEnd (word text : List α) (start : Nat) : Option Nat :=
  (List.range (text.length + 1)).find? fun stop =>
    start + word.length ≤ stop ∧ (text.drop (stop - word.length)).take word.length = word

/-- The elements taken behind the occurrences, from a start on. The scan ends where no occurrence
or too few elements are left; the first condition holds for every positive count. -/
def scanFrom (word text : List α) (count start : Nat) : List (List α) :=
  match leastEnd word text start with
  | none => []
  | some stop =>
    if start < stop + count ∧ stop + count ≤ text.length then
      (text.drop stop).take count :: scanFrom word text count (stop + count)
    else []
termination_by text.length - start

/-- The scan of the whole text. -/
def scan (word : List α) (count : Nat) (text : List α) : List (List α) :=
  scanFrom word text count 0

section Ends

variable {word text : List α} {start : Nat}

/-- What the least end is. -/
theorem leastEnd_eq_some {stop : Nat} :
    leastEnd word text start = some stop ↔
      (start + word.length ≤ stop ∧ stop ≤ text.length ∧
        (text.drop (stop - word.length)).take word.length = word) ∧
      ∀ earlier, start + word.length ≤ earlier → earlier < stop →
        (text.drop (earlier - word.length)).take word.length ≠ word := by
  rw [leastEnd, List.find?_range_eq_some]
  simp only [decide_eq_true_eq, List.mem_range, Bool.not_eq_eq_eq_not, Bool.not_true,
    decide_eq_false_iff_not, not_and]
  constructor
  · rintro ⟨⟨behind, here⟩, inside, least⟩
    exact ⟨⟨behind, by omega, here⟩, fun earlier after before => least earlier before after⟩
  · rintro ⟨⟨behind, inside, here⟩, least⟩
    exact ⟨⟨behind, here⟩, by omega, fun earlier before after => least earlier after before⟩

/-- Where no end is found there is none. -/
theorem leastEnd_eq_none :
    leastEnd word text start = none ↔ ∀ stop, start + word.length ≤ stop → stop ≤ text.length →
      (text.drop (stop - word.length)).take word.length ≠ word := by
  rw [leastEnd, List.find?_range_eq_none]
  simp only [Bool.not_eq_eq_eq_not, Bool.not_true, decide_eq_false_iff_not, not_and]
  constructor
  · intro none stop behind inside
    exact none stop (by omega) behind
  · intro none stop inside behind
    exact none stop behind (by omega)

omit [DecidableEq α] in
/-- After the elements between the start and an end, an empty register holds the word exactly
when an occurrence of the word ends there. -/
theorem register_at_end {stop : Nat} (behind : start ≤ stop) (inside : stop ≤ text.length) :
    (ShiftRegister.empty : ShiftRegister α word.length).pushAll
        ((text.drop start).take (stop - start)) = ShiftRegister.ofWord word ↔
      start + word.length ≤ stop ∧ (text.drop (stop - word.length)).take word.length = word := by
  have length : ((text.drop start).take (stop - start)).length = stop - start := by
    rw [List.length_take, List.length_drop]
    omega
  rw [ShiftRegister.pushAll_empty_eq_iff, length]
  constructor
  · rintro ⟨long, here⟩
    refine ⟨by omega, ?_⟩
    rw [List.drop_take, List.drop_drop] at here
    rwa [show start + (stop - start - word.length) = stop - word.length by omega,
      show stop - start - (stop - start - word.length) = word.length by omega] at here
  · rintro ⟨long, here⟩
    refine ⟨by omega, ?_⟩
    rw [List.drop_take, List.drop_drop]
    rwa [show start + (stop - start - word.length) = stop - word.length by omega,
      show stop - start - (stop - start - word.length) = word.length by omega]

/-- Where an empty register stays quiet there is no end. -/
theorem leastEnd_quiet (nonempty : word ≠ [])
    (quiet : (ShiftRegister.empty : ShiftRegister α word.length).Quiet (text.drop start)) :
    leastEnd word text start = none := by
  have positive := List.length_pos_iff.mpr nonempty
  rw [leastEnd_eq_none]
  intro stop behind inside here
  refine quiet ((text.drop start).take (stop - start)) ((text.drop start).drop (stop - start))
    (List.take_append_drop _ _).symm (fun empty => ?_)
    ((register_at_end (by omega) inside).mpr ⟨behind, here⟩)
  have length := congrArg List.length empty
  rw [List.length_take, List.length_drop, List.length_nil] at length
  omega

/-- Where an empty register finds the word is the least end. -/
theorem leastEnd_finds (nonempty : word ≠ []) {front back : List α}
    (split : text.drop start = front ++ back)
    (finds : (ShiftRegister.empty : ShiftRegister α word.length).Finds front) :
    leastEnd word text start = some (start + front.length) := by
  have positive := List.length_pos_iff.mpr nonempty
  have some := List.length_pos_iff.mpr finds.nonempty
  have lengths := congrArg List.length split
  rw [List.length_drop, List.length_append] at lengths
  have taken : ∀ stop, start ≤ stop → stop ≤ start + front.length →
      (text.drop start).take (stop - start) = front.take (stop - start) := by
    intro stop behind inside
    rw [split, List.take_append_of_le_length (by omega)]
  have found := finds.found
  rw [show front = (text.drop start).take (start + front.length - start) by
    rw [taken _ (by omega) (by omega), Nat.add_sub_cancel_left, List.take_length],
    register_at_end (by omega) (by omega)] at found
  rw [leastEnd_eq_some]
  refine ⟨⟨found.1, by omega, found.2⟩, fun earlier behind before here => ?_⟩
  have register := (register_at_end (by omega) (by omega)).mpr ⟨behind, here⟩
  have cut : front.take (earlier - start) = front.dropLast.take (earlier - start) := by
    rw [List.dropLast_eq_take, List.take_take, Nat.min_eq_left (by omega)]
  rw [taken earlier (by omega) (by omega), cut] at register
  refine finds.quiet _ _ (List.take_append_drop (earlier - start) front.dropLast).symm
    (fun empty => ?_) register
  have length := congrArg List.length empty
  rw [List.length_take, List.length_dropLast, List.length_nil] at length
  omega

end Ends

section Steps

variable {word text : List α} {count start : Nat}

/-- A scan without a further end takes nothing. -/
theorem scanFrom_none (none : leastEnd word text start = none) :
    scanFrom word text count start = [] := by
  rw [scanFrom, none]

/-- A scan with too few elements behind the end takes nothing. -/
theorem scanFrom_short {stop : Nat} (found : leastEnd word text start = some stop)
    (short : text.length < stop + count) : scanFrom word text count start = [] := by
  rw [scanFrom, found]
  exact if_neg fun fits => by omega

/-- A scan takes the elements behind the end and goes on behind them. -/
theorem scanFrom_take {stop : Nat} (found : leastEnd word text start = some stop)
    (positive : 0 < count) (fits : stop + count ≤ text.length) :
    scanFrom word text count start =
      (text.drop stop).take count :: scanFrom word text count (stop + count) := by
  have behind := (leastEnd_eq_some.mp found).1.1
  rw [scanFrom, found]
  exact if_pos ⟨by omega, fits⟩

/-- Every element of a scan uses up the word and the count. -/
theorem length_scanFrom (word text : List α) (positive : 0 < count) (start : Nat) :
    (scanFrom word text count start).length * (word.length + count) ≤ text.length - start := by
  cases found : leastEnd word text start with
  | none => simp [scanFrom_none found]
  | some stop =>
    have behind := (leastEnd_eq_some.mp found).1
    by_cases fits : stop + count ≤ text.length
    · have rest := length_scanFrom word text positive (stop + count)
      rw [scanFrom_take found positive fits, List.length_cons, Nat.succ_mul]
      omega
    · rw [scanFrom_short found (by omega)]
      simp
termination_by text.length - start

/-- Every element of a scan has the count of elements of the text. -/
theorem mem_scanFrom (positive : 0 < count) {part : List α} {start : Nat}
    (member : part ∈ scanFrom word text count start) :
    part.length = count ∧ ∀ x ∈ part, x ∈ text := by
  cases found : leastEnd word text start with
  | none =>
    rw [scanFrom_none found] at member
    contradiction
  | some stop =>
    have behind := (leastEnd_eq_some.mp found).1
    by_cases fits : stop + count ≤ text.length
    · rw [scanFrom_take found positive fits] at member
      cases List.mem_cons.mp member with
      | inl first =>
        rw [first, List.length_take, List.length_drop]
        exact ⟨by omega, fun x inside => List.mem_of_mem_drop (List.mem_of_mem_take inside)⟩
      | inr later => exact mem_scanFrom positive later
    · rw [scanFrom_short found (by omega)] at member
      contradiction
termination_by text.length - start

end Steps

section Machines

open Reactive

variable {σ ο ε : Type} {react : σ → α → Reaction σ ο ε} {word : List α} {count : Nat}
  {payload : List α → ο} {Searching : σ → Prop} {collecting : σ}

omit [DecidableEq α] in
/-- A machine that searches for a word, collects a number of inputs behind it, emits what they
make, and searches again. A search may begin in several states, a collection begins in one. -/
structure Scanner (react : σ → α → Reaction σ ο ε) (word : List α) (count : Nat)
    (payload : List α → ο) (Searching : σ → Prop) (collecting : σ) : Prop where
  /-- A search that does not meet the word emits nothing. -/
  quiet : ∀ s xs, Searching s → (ShiftRegister.empty : ShiftRegister α word.length).Quiet xs →
    (work react s xs).published = []
  /-- A search that meets the word begins a collection. -/
  finds : ∀ s xs, Searching s → (ShiftRegister.empty : ShiftRegister α word.length).Finds xs →
    (work react s xs).final = .ok collecting ∧ (work react s xs).published = []
  /-- A complete collection is emitted and a search begins. -/
  complete : ∀ xs, xs.length = count → ∃ s, Searching s ∧
    (work react collecting xs).final = .ok s ∧ (work react collecting xs).published = [payload xs]
  /-- An incomplete collection emits nothing. -/
  short : ∀ xs, xs.length < count → (work react collecting xs).published = []

/-- From any position a searching machine emits the scan from there. -/
theorem Scanner.work_scanFrom (scanner : Scanner react word count payload Searching collecting)
    (nonempty : word ≠ []) (positive : 0 < count) {s : σ} (searching : Searching s)
    (text : List α) (start : Nat) :
    (work react s (text.drop start)).published =
      (scanFrom word text count start).map payload := by
  rcases (ShiftRegister.empty : ShiftRegister α word.length).quiet_or_finds
    (text.drop start) with quiet | ⟨front, back, split, finds⟩
  · rw [scanFrom_none (leastEnd_quiet nonempty quiet), scanner.quiet s _ searching quiet]
    rfl
  · have stop := leastEnd_finds nonempty split finds
    have started := scanner.finds s front searching finds
    have lengths := congrArg List.length split
    rw [List.length_drop, List.length_append] at lengths
    have some := List.length_pos_iff.mpr finds.nonempty
    have behind : text.drop (start + front.length) = back := by
      rw [← List.drop_drop, split, List.drop_left]
    rw [split, work_append_published react _ started.1, started.2, List.nil_append]
    by_cases fits : count ≤ back.length
    · have whole := List.take_append_drop count back
      have inside : start + front.length + count ≤ text.length := by omega
      obtain ⟨next, again, final, emitted⟩ := scanner.complete (back.take count)
        (by rw [List.length_take]; omega)
      have rest := scanner.work_scanFrom nonempty positive again text
        (start + front.length + count)
      rw [← List.drop_drop, behind] at rest
      have parts := work_append_published react (back.drop count) final
      rw [whole, emitted, rest] at parts
      rw [parts, scanFrom_take stop positive inside, behind]
      rfl
    · rw [scanFrom_short stop (by omega)]
      exact scanner.short back (by omega)
termination_by text.length - start

/-- The empty word ends at every position. -/
theorem leastEnd_nil {text : List α} {start : Nat} (inside : start ≤ text.length) :
    leastEnd [] text start = some start := by
  rw [leastEnd_eq_some]
  exact ⟨⟨Nat.le_refl start, inside, List.take_zero⟩, fun earlier behind before =>
    absurd before (Nat.not_lt.mpr behind)⟩

/-- A machine that collects all the time emits the scan for the empty word. -/
theorem work_scanFrom_nil (positive : 0 < count)
    (complete : ∀ xs, xs.length = count → (work react collecting xs).final = .ok collecting ∧
      (work react collecting xs).published = [payload xs])
    (short : ∀ xs, xs.length < count → (work react collecting xs).published = [])
    {text : List α} {start : Nat} (inside : start ≤ text.length) :
    (work react collecting (text.drop start)).published =
      (scanFrom [] text count start).map payload := by
  have stop := leastEnd_nil inside
  by_cases fits : start + count ≤ text.length
  · have whole := List.take_append_drop count (text.drop start)
    have ⟨final, emitted⟩ := complete ((text.drop start).take count)
      (by rw [List.length_take, List.length_drop]; omega)
    have rest := work_scanFrom_nil positive complete short fits
    have parts := work_append_published react ((text.drop start).drop count) final
    rw [whole, emitted, List.drop_drop, rest] at parts
    rw [parts, scanFrom_take stop positive fits]
    rfl
  · rw [scanFrom_short stop (by omega)]
    exact short _ (by rw [List.length_drop]; omega)
termination_by text.length - start

end Machines

end GrReveng
