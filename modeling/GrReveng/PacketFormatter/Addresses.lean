import GrReveng.PacketFormatter.Variables

/-!
# Addresses

A single index reads the slice from the index to the next one. This slice has the bit that the
index denotes, except for the last bit under the index `-1`, where it ends in front of the packet;
and outside of the packet it is empty instead of raising, which only `int` notices. The addresses
with two bounds and with an open end read the slice that they denote.
-/

namespace GrReveng.PacketFormatter

open Python

/-- The bits that an address denotes, or nothing where Python's `bits[k]` raises. -/
def Address.denoted (place : Address) (bits : List Bool) : Option (List Bool) :=
  match place with
  | all => some bits
  | index k => (item k bits).map fun bit => [bit]
  | range a b => some (slice (some a) (some b) bits)
  | starting a => some (slice (some a) none bits)

/-- A variable selects the bits that its address denotes: it shows them where they are, whatever
stands around it in a format without other variables; and where there are none, every format with
this variable raises. -/
structure Selects (metadata : Entries) (tipe : BitType) (place : Address) (bits : List Bool) :
    Prop where
  /-- The bits are shown. -/
  shows : ∀ selected, place.denoted bits = some selected →
    ∀ before after, '%' ∉ before → '%' ∉ after →
      formatOutput (before ++ (variableOf tipe place ++ after)) metadata (packet bits) =
        (tipe.shown selected).map fun text => before ++ (text ++ after)
  /-- The packet ran out of bits. -/
  raises : place.denoted bits = none →
    ∀ formatStr, addressed tipe place ∈ placeholders formatStr →
      ∃ e, formatOutput formatStr metadata (packet bits) = .error e

/-- The condition on an address of a packet of `n` bits: an index is not `-1`, and it is inside of
the packet unless the type is `int`; with this type, `-1` is an index outside of a packet without
bits. -/
def Sound (tipe : BitType) (n : Nat) : Address → Prop
  | .index k =>
    if k = -1 then tipe = .int ∧ n = 0 else tipe = .int ∨ -(n : Int) ≤ k ∧ k < n
  | _ => True

/-- The bits that the loop selects for an index. -/
theorem selected_index (k : Int) (bits : List Bool) :
    (Address.index k).selected bits = if k = -1 then [] else (item k bits).toList :=
  slice_succ k bits

section Selection

variable {metadata : Entries} {tipe : BitType} {place : Address} {bits : List Bool}

/-- A variable selects what its address denotes when the loop does. -/
theorem selects_of_selected {selected : List Bool} (denoted : place.denoted bits = some selected)
    (same : place.selected bits = selected) : Selects metadata tipe place bits := by
  constructor
  · intro other given before after front behind
    rw [denoted] at given
    rw [formatOutput_addressed metadata tipe place bits front behind, same, Option.some.inj given]
  · intro missing
    rw [denoted] at missing
    contradiction

/-- A variable whose bits are missing raises when it is a number without bits. -/
theorem selects_of_missing (missing : place.denoted bits = none)
    (raised : tipe.shown (place.selected bits) = .error .valueError) :
    Selects metadata tipe place bits := by
  constructor
  · intro selected given
    rw [missing] at given
    contradiction
  · intro _ formatStr member
    apply formatOutput_error member
    rw [valueOf_addressed, raised]
    rfl

/-- A variable that selects bits shows them on its own. -/
theorem Selects.shown_eq (selects : Selects metadata tipe place bits) {selected : List Bool}
    (denoted : place.denoted bits = some selected) :
    tipe.shown (place.selected bits) = tipe.shown selected := by
  have free : '%' ∉ ([] : Text) := List.not_mem_nil
  have shows := selects.shows selected denoted [] [] free free
  simp only [List.nil_append, List.append_nil] at shows
  rw [formatOutput_variableOf] at shows
  rw [shows]
  cases tipe.shown selected with
  | error e => rfl
  | ok text => rfl

/-- A variable that selects no bits has no text. -/
theorem Selects.not_shown (selects : Selects metadata tipe place bits)
    (missing : place.denoted bits = none) (text : Text) :
    tipe.shown (place.selected bits) ≠ .ok text := by
  have member : addressed tipe place ∈ placeholders (variableOf tipe place) := by
    rw [variableOf, placeholders_wholeMatch (enclosed_addressed tipe place)]
    exact List.mem_singleton_self _
  obtain ⟨e, raised⟩ := selects.raises missing (variableOf tipe place) member
  rw [formatOutput_variableOf] at raised
  rw [raised]
  intro shown
  contradiction

end Selection

/-- An index inside of the packet selects its bit exactly when it is sound. -/
theorem selects_inside_iff (metadata : Entries) (tipe : BitType) {k : Int} {bits : List Bool}
    {bit : Bool} (inside : item k bits = some bit) :
    Selects metadata tipe (.index k) bits ↔ Sound tipe bits.length (.index k) := by
  have denoted : (Address.index k).denoted bits = some [bit] := by rw [Address.denoted, inside]; rfl
  have range := (item_isSome_iff k bits).mp (by rw [inside]; rfl)
  have selected := selected_index k bits
  rw [Sound]
  by_cases last : k = -1
  · rw [if_pos last] at selected ⊢
    apply iff_of_false
    · intro selects
      have same := selects.shown_eq denoted
      obtain ⟨text, shown, some⟩ := shown_some tipe (List.cons_ne_nil bit [])
      rw [selected, shown] at same
      by_cases number : tipe = .int
      · rw [number, shown_int_nil] at same
        contradiction
      · rw [shown_nil number] at same
        exact some (Except.ok.inj same).symm
    · omega
  · rw [if_neg last] at selected ⊢
    apply iff_of_true
    · apply selects_of_selected denoted
      rw [selected, inside]
      rfl
    · exact .inr range

/-- An index outside of the packet raises exactly when it is sound. -/
theorem selects_outside_iff (metadata : Entries) (tipe : BitType) {k : Int} {bits : List Bool}
    (outside : item k bits = none) :
    Selects metadata tipe (.index k) bits ↔ Sound tipe bits.length (.index k) := by
  have missing : (Address.index k).denoted bits = none := by rw [Address.denoted, outside]; rfl
  have range : ¬ (-(bits.length : Int) ≤ k ∧ k < bits.length) := by
    rw [← item_isSome_iff, outside]
    exact Bool.false_ne_true
  have selected : (Address.index k).selected bits = [] := by
    rw [selected_index, outside]
    exact ite_self _
  rw [Sound]
  by_cases number : tipe = .int
  · apply iff_of_true
    · apply selects_of_missing missing
      rw [selected, number]
      exact shown_int_nil
    · split
      · exact ⟨number, by omega⟩
      · exact .inl number
  · apply iff_of_false
    · intro selects
      apply selects.not_shown missing []
      rw [selected]
      exact shown_nil number
    · split
      · exact fun sound => number sound.1
      · exact not_or.mpr ⟨number, range⟩

/-- A variable with an address selects the bits that the address denotes exactly when the address
is sound. -/
theorem selects_iff (metadata : Entries) (tipe : BitType) (place : Address) (bits : List Bool) :
    Selects metadata tipe place bits ↔ Sound tipe bits.length place := by
  cases place with
  | index k =>
    cases inside : item k bits with
    | some bit => exact selects_inside_iff metadata tipe inside
    | none => exact selects_outside_iff metadata tipe inside
  | all =>
    apply iff_of_true _ trivial
    exact selects_of_selected rfl (slice_none bits)
  | range a b =>
    apply iff_of_true _ trivial
    exact selects_of_selected rfl rfl
  | starting a =>
    apply iff_of_true _ trivial
    exact selects_of_selected rfl rfl

/-- The last bit under the index `-1` has no text. Neither has the index behind the packet, which
does not raise. -/
theorem last_bit_missing :
    formatOutput "%(bits[-1])".toList [] (packet [true]) = .ok [] ∧
      item (-1) [true] = some true ∧ BitType.bits.shown [true] = .ok ['1'] ∧
      formatOutput "%(bits[1])".toList [] (packet [true]) = .ok [] ∧ item 1 [true] = none ∧
      ¬ Selects [] .bits (.index (-1)) [true] := by
  have wrong : ¬ Selects [] .bits (.index (-1)) [true] := by
    intro selects
    have same := selects.shown_eq (rfl : _ = some [true])
    exact absurd (Except.ok.inj same) (by decide)
  exact ⟨rfl, rfl, rfl, rfl, rfl, wrong⟩

end GrReveng.PacketFormatter
