import GrReveng.Library.Frames

/-!
# Transmissions

What a receiver makes of a stream that was sent. Frames that stand behind words, with gaps that
do not complete the word in another place, are received one by one (`frames_sent`). Behind a
silence it does not matter what came before (`frames_silence`), and a repeated element is silent
for every word that has another one.
-/

namespace GrReveng

variable {α : Type} [DecidableEq α]

section Sending

variable {word context gap : List α} {extent : List α → Option Extent}
  {bodies : List (List α × List α)}

/-- What is sent: a gap, then each body behind a word and with a gap after it. -/
def sent (word gap : List α) (bodies : List (List α × List α)) : List α :=
  gap ++ bodies.flatMap fun (body, next) => word ++ body ++ next

omit [DecidableEq α] in
/-- The first body of what is sent, behind its gap and its word. -/
theorem sent_cons (body next : List α) :
    sent word gap ((body, next) :: bodies) = gap ++ word ++ (body ++ sent word next bodies) := by
  simp [sent]

/-- The gaps complete the word nowhere but in its own places. -/
def Spaced (word : List α) : List α → List α → List (List α × List α) → Prop
  | context, gap, [] => behindWord word context gap = none
  | context, gap, (_, next) :: bodies =>
    behindWord word context (gap ++ word) = some [] ∧ Spaced word word next bodies

omit [DecidableEq α] in
/-- A body that is one whole frame, whatever follows it. -/
def Whole (extent : List α → Option Extent) (body : List α) (kept : Bool) : Prop :=
  ∀ more, extent (body ++ more) = some ⟨body.length, kept⟩

omit [DecidableEq α] in
/-- A body, if its frame is kept. -/
def keptBody (extent : List α → Option Extent) (body : List α) : Option (List α) :=
  if (extent body).any Extent.kept then some body else none

omit [DecidableEq α] in
/-- A whole frame is kept or not. -/
theorem Whole.keptBody {body : List α} {kept : Bool} (whole : Whole extent body kept) :
    GrReveng.keptBody extent body = if kept then some body else none := by
  have alone := whole []
  rw [List.append_nil] at alone
  rw [GrReveng.keptBody, alone, Option.any_some]

/-- The frames of what is sent are the bodies that are kept. -/
theorem frames_sent (whole : ∀ entry ∈ bodies, ∃ kept, Whole extent entry.1 kept)
    (spaced : Spaced word context gap bodies) :
    frames word extent context (sent word gap bodies) =
      bodies.filterMap fun entry => keptBody extent entry.1 := by
  induction bodies generalizing context gap with
  | nil =>
    rw [sent, List.flatMap_nil, List.append_nil, frames_none spaced]
    rfl
  | cons entry bodies ih =>
    have ⟨found, later⟩ := spaced
    have ⟨kept, first⟩ := whole entry List.mem_cons_self
    have rest := ih (fun entry member => whole entry (List.mem_cons_of_mem _ member)) later
    have place := behindWord_append_some (entry.1 ++ sent word entry.2 bodies) found
    have room : entry.1.length ≤ (entry.1 ++ sent word entry.2 bodies).length := by
      rw [List.length_append]
      exact Nat.le_add_right _ _
    rw [List.nil_append] at place
    rw [sent_cons, frames_take place (first _) room, Extent.contribution, List.take_left,
      List.drop_left, rest, List.filterMap_cons, first.keptBody]
    cases kept with
    | true => rfl
    | false => rfl

end Sending

section Silences

variable {word : List α} {extent : List α → Option Extent} {P : α → Prop} {limit : Nat}

omit [DecidableEq α] in
/-- Frames of elements with a property are decided by their own elements, and their length has
a limit. -/
structure Prompt (extent : List α → Option Extent) (P : α → Prop) (limit : Nat) : Prop where
  /-- What lies behind a frame does not change it. -/
  stable : ∀ xs ys reach, extent xs = some reach → extent (xs ++ ys) = some reach
  /-- A frame is decided by its own elements. -/
  own : ∀ xs ys reach, extent (xs ++ ys) = some reach → reach.count ≤ xs.length →
    extent xs = some reach
  /-- Within the limit a frame is decided and complete. -/
  bounded : ∀ xs, (∀ x ∈ xs, P x) → limit ≤ xs.length →
    ∃ reach, extent xs = some reach ∧ reach.count ≤ limit

/-- A gap that does not complete the word, wherever in it a search begins behind a word. -/
def Silent (word gap : List α) : Prop :=
  ∀ front back, gap = front ++ back → behindWord word word back = none

omit [DecidableEq α] in
/-- A word that ends again behind a repeated element ends behind as many more of it. -/
theorem suffix_repeated {x : α} {count : Nat} (again : word <:+ word ++ List.replicate count x)
    (times : Nat) : word <:+ word ++ List.replicate (times * count) x := by
  induction times with
  | zero => simp
  | succ times ih =>
    have ⟨front, whole⟩ := ih
    have further : word ++ List.replicate count x <:+
        word ++ List.replicate ((times + 1) * count) x := by
      refine ⟨front, ?_⟩
      rw [← List.append_assoc, whole, List.append_assoc, List.replicate_append_replicate,
        Nat.succ_mul]
    exact again.trans further

/-- A silent gap does not contain the word. -/
theorem Silent.absent {gap : List α} (silent : Silent word gap) :
    behindWord word [] gap = none := by
  have whole := silent [] gap rfl
  apply behindWord_less word
  rw [List.append_nil]
  exact whole

omit [DecidableEq α] in
/-- Such a word has this element only. -/
theorem eq_of_repeated {x y : α} {count : Nat} (some : 0 < count)
    (again : word <:+ word ++ List.replicate count x) (member : y ∈ word) : y = x := by
  have long := suffix_repeated again word.length
  have room : word.length ≤ (List.replicate (word.length * count) x).length := by
    rw [List.length_replicate]
    exact Nat.le_mul_of_pos_right word.length some
  exact List.eq_of_mem_replicate (((suffix_append_iff word room).mp long).subset member)

/-- Repetitions of an element are silent for a word that has another element. -/
theorem silent_replicate {x : α} (other : ∃ y ∈ word, y ≠ x) (count : Nat) :
    Silent word (List.replicate count x) := by
  intro front back split
  cases found : behindWord word word back with
  | none => rfl
  | some rest =>
    have ⟨first, parts, nonempty, ends, _⟩ := behindWord_eq_some found
    have ⟨y, member, differs⟩ := other
    have same : ∀ z ∈ first, z = x := by
      intro z inside
      apply List.eq_of_mem_replicate (n := count)
      rw [split, parts]
      exact List.mem_append_right front (List.mem_append_left rest inside)
    rw [List.eq_replicate_of_mem same] at ends
    exact absurd (eq_of_repeated (List.length_pos_iff.mpr nonempty) ends member) differs

/-- Behind repetitions of an element a word that has another one is found as a whole. -/
theorem behindWord_replicate {x : α} (other : ∃ y ∈ word, y ≠ x) (count : Nat) :
    behindWord word [] (List.replicate count x ++ word) = some [] := by
  have ⟨y, member, differs⟩ := other
  have nonempty : word ≠ [] := List.ne_nil_of_mem member
  have quiet := (silent_replicate other count).absent
  rw [behindWord_append_none word quiet, List.nil_append]
  cases found : behindWord word (List.replicate count x) word with
  | none =>
    exact absurd found (behindWord_ends nonempty (List.suffix_append _ word))
  | some rest =>
    have ⟨front, split, _, ends, _⟩ := behindWord_eq_some found
    cases rest with
    | nil => rfl
    | cons z rest =>
      -- The word begins with repetitions of the element and goes on with itself.
      have lengths := congrArg List.length split
      rw [List.length_append, List.length_cons] at lengths
      have ⟨lead, whole⟩ := List.suffix_of_suffix_length_le (List.suffix_append _ front) ends
        (by omega)
      have ⟨before, parts⟩ := ends
      rw [← whole, ← List.append_assoc] at parts
      have repeated : ∀ y ∈ lead, y = x := by
        intro y inside
        apply List.eq_of_mem_replicate (n := count)
        rw [← List.append_cancel_right parts]
        exact List.mem_append_right before inside
      have room := congrArg List.length whole
      rw [List.length_append] at room
      have again : word.reverse <:+ word.reverse ++ List.replicate lead.length x := by
        refine ⟨(z :: rest).reverse, ?_⟩
        nth_rewrite 1 [← whole]
        rw [List.reverse_append, List.eq_replicate_of_mem repeated, List.reverse_replicate,
          List.length_replicate, ← List.append_assoc, ← List.reverse_append, ← split]
      exact absurd (eq_of_repeated (by omega) again (List.mem_reverse.mpr member)) differs

/-- Behind enough of a silent gap the search is that of a receiver which has seen the gap
alone. -/
theorem Silent.behindWord {gap front back : List α} (silent : Silent word gap)
    (split : gap = front ++ back) (long : word.length ≤ back.length + 1) {context : List α}
    (quiet : behindWord word context back = none) (later : List α) :
    behindWord word context (back ++ later) = behindWord word [] (gap ++ later) := by
  rw [behindWord_append_none later quiet, behindWord_append_none later silent.absent, split,
    List.nil_append, behindWord_context context long, behindWord_context front long]

/-- A word that ends inside a silent gap has begun in front of it. -/
theorem Silent.found_early {context noise gap rest : List α} (silent : Silent word gap)
    (nonempty : word ≠ [])
    (found : GrReveng.behindWord word context (noise ++ gap) = some rest) :
    gap.length < rest.length + word.length := by
  have ⟨front, split, _, ends, _⟩ := behindWord_eq_some found
  have positive := List.length_pos_iff.mpr nonempty
  have lengths := congrArg List.length split
  rw [List.length_append, List.length_append] at lengths
  by_contra deep
  have inside : noise <+: front := List.prefix_of_prefix_length_le (List.prefix_append noise gap)
    (split ▸ List.prefix_append front rest) (by omega)
  have ⟨part, parts⟩ := inside
  rw [← parts, List.append_assoc] at split
  have cut : gap = part ++ rest := List.append_cancel_left split
  have room := congrArg List.length parts
  rw [List.length_append] at room
  have here : word <:+ part := by
    rw [← parts, ← List.append_assoc] at ends
    exact (suffix_append_iff (context ++ noise) (by omega)).mp ends
  have absent := silent.absent
  rw [cut] at absent
  have some : part ≠ [] := List.length_pos_iff.mp (by omega)
  exact behindWord_ends some here (behindWord_front absent)

/-- A frame that ends behind the front part of a text is no frame of that part. -/
theorem frames_front_short (prompt : Prompt extent P limit) {context noise gap rest : List α}
    {reach : Extent} (found : behindWord word context (noise ++ gap) = some rest)
    (decided : extent rest = some reach) (beyond : ¬gap <:+ rest.drop reach.count) :
    frames word extent context noise = [] := by
  cases first : behindWord word context noise with
  | none => exact frames_none first
  | some inner =>
    have same := behindWord_append_some gap first
    rw [found, Option.some.injEq] at same
    apply frames_short first
    intro other known
    have stays := prompt.stable inner gap other known
    rw [← same, decided, Option.some.injEq] at stays
    rw [← stays]
    by_contra fits
    apply beyond
    rw [same, List.drop_append_of_le_length (by omega)]
    exact List.suffix_append _ gap

/-- A frame that ends in the front part of a text is the first frame of that part. -/
theorem frames_front_take (prompt : Prompt extent P limit) {context noise gap rest : List α}
    {reach : Extent} (found : behindWord word context (noise ++ gap) = some rest)
    (decided : extent rest = some reach) (fits : reach.count ≤ rest.length) {noise' : List α}
    (remains : rest.drop reach.count = noise' ++ gap) :
    frames word extent context noise =
      reach.contribution rest ++ frames word extent word noise' := by
  have lengths := congrArg List.length remains
  rw [List.length_drop, List.length_append] at lengths
  cases first : behindWord word context noise with
  | none =>
    rw [behindWord_append_none gap first] at found
    have shorter := length_behindWord found
    omega
  | some inner =>
    have same := behindWord_append_some gap first
    rw [found, Option.some.injEq] at same
    have room := congrArg List.length same
    rw [List.length_append] at room
    have inside : reach.count ≤ inner.length := by omega
    rw [same] at decided remains
    rw [List.drop_append_of_le_length inside] at remains
    rw [frames_take first (prompt.own inner gap reach decided inside) inside, same,
      List.append_cancel_right remains, Extent.contribution, Extent.contribution,
      List.take_append_of_le_length inside]

/-- The first frame of a text is the first frame of every longer one. -/
theorem frames_take_append (prompt : Prompt extent P limit) {context text rest : List α}
    {reach : Extent} (found : behindWord word context text = some rest)
    (decided : extent rest = some reach) (fits : reach.count ≤ rest.length) (later : List α) :
    frames word extent context (text ++ later) =
      reach.contribution rest ++ frames word extent word (rest.drop reach.count ++ later) := by
  have whole := frames_take (behindWord_append_some later found)
    (prompt.stable rest later reach decided)
    (by rw [List.length_append]; omega)
  have taken : reach.contribution (rest ++ later) = reach.contribution rest := by
    rw [Extent.contribution, Extent.contribution, List.take_append_of_le_length fits]
  rw [whole, taken, List.drop_append_of_le_length fits]

/-- Behind a frame that ends in a silent gap there is no other one in the gap, and the frames to
come are those of a receiver which has seen the gap alone. -/
theorem Silent.frames_within {gap front back : List α} (silent : Silent word gap)
    (split : gap = front ++ back) (long : word.length ≤ back.length + 1) (later : List α) :
    frames word extent word back = [] ∧
      frames word extent word (back ++ later) = frames word extent [] (gap ++ later) := by
  have quiet := silent front back split
  exact ⟨frames_none quiet, frames_congr (silent.behindWord split long quiet later)⟩

/-- Behind a silence that is long enough the frames do not depend on what came before, and of what
came before at most one more frame is completed. -/
theorem frames_silence (prompt : Prompt extent P limit) (nonempty : word ≠ []) {gap : List α}
    (silent : Silent word gap) (long : limit + 2 * word.length ≤ gap.length + 2)
    {noise : List α} (clean : ∀ x ∈ noise ++ gap, P x) (context later : List α) :
    (∃ extra : List (List α), extra.length ≤ 1 ∧
      frames word extent context (noise ++ gap) = frames word extent context noise ++ extra) ∧
    frames word extent context (noise ++ gap ++ later) =
      frames word extent context (noise ++ gap) ++ frames word extent [] (gap ++ later) := by
  have positive := List.length_pos_iff.mpr nonempty
  cases found : behindWord word context (noise ++ gap) with
  | none =>
    have same : behindWord word context (noise ++ gap ++ later) =
        behindWord word [] (gap ++ later) := by
      rw [behindWord_append_none later found, behindWord_append_none later silent.absent,
        ← List.append_assoc, behindWord_context (context ++ noise) (by omega)]
      rfl
    refine ⟨⟨[], Nat.zero_le 1, ?_⟩, ?_⟩
    · rw [frames_none found, frames_none (behindWord_front found)]
      rfl
    · rw [frames_none found, frames_congr same]
      rfl
  | some rest =>
    have early := silent.found_early nonempty found
    have ⟨front, split, _⟩ := behindWord_eq_some found
    have tail : ∀ x ∈ rest, P x := fun x member =>
      clean x (split ▸ List.mem_append_right front member)
    have ⟨reach, decided, within⟩ := prompt.bounded rest tail (by omega)
    have fits : reach.count ≤ rest.length := by omega
    have whole := frames_take_append prompt found decided fits later
    have alone := frames_take found decided fits
    have remaining : (rest.drop reach.count).length + reach.count = rest.length := by
      rw [List.length_drop]
      omega
    by_cases further : gap <:+ rest.drop reach.count
    · -- The frame ends in front of the gap.
      have ⟨noise', remains⟩ := further
      have shorter : noise'.length < noise.length := by
        have lengths := congrArg List.length remains
        have less := length_behindWord found
        rw [List.length_append] at lengths less
        omega
      have inside : ∀ x ∈ noise' ++ gap, P x := fun x member =>
        tail x (List.mem_of_mem_drop (remains ▸ member))
      have ⟨⟨extra, single, more⟩, rest'⟩ :=
        frames_silence prompt nonempty silent long inside word later
      rw [← remains] at whole alone
      refine ⟨⟨extra, single, ?_⟩, by rw [whole, alone, rest', List.append_assoc]⟩
      rw [alone, more, frames_front_take prompt found decided fits remains.symm,
        List.append_assoc]
    · -- The frame ends in the gap.
      have here : rest.drop reach.count <:+ noise ++ gap :=
        split ▸ (List.drop_suffix _ rest).trans (List.suffix_append front rest)
      have ⟨before, parts⟩ := (List.suffix_or_suffix_of_suffix here
        (List.suffix_append noise gap)).resolve_right further
      have ⟨quiet, same⟩ := @Silent.frames_within α _ word extent gap before _ silent parts.symm
        (by omega) later
      rw [quiet, List.append_nil] at alone
      rw [same] at whole
      refine ⟨⟨reach.contribution rest, length_contribution_le reach rest, ?_⟩, by
        rw [whole, alone]⟩
      rw [alone, frames_front_short prompt found decided further]
      rfl
termination_by noise.length
decreasing_by omega

end Silences

end GrReveng
