import Mathlib.Data.List.DropRight
import Mathlib.Data.List.Induction

/-!
# Bit stuffing

A sender that must not send more than a number of ones in a row inserts a zero behind every run of
this length, and the receiver removes each zero that stands behind exactly so many ones. Removing
returns what was stuffed, also when more bits follow.
-/

namespace GrReveng

/-- The number of ones at the end of a list of bits. -/
def trailingOnes (bits : List Bool) : Nat := (bits.rtakeWhile id).length

/-- Insert a zero behind every run of `limit` ones. The number counts the ones of the current run;
an inserted zero ends it. -/
def stuffBehind (limit : Nat) : Nat → List Bool → List Bool
  | _, [] => []
  | _, false :: rest => false :: stuffBehind limit 0 rest
  | ones, true :: rest =>
    if ones + 1 = limit then true :: false :: stuffBehind limit 0 rest
    else true :: stuffBehind limit (ones + 1) rest

/-- Insert a zero behind every run of `limit` ones. -/
def stuff (limit : Nat) (bits : List Bool) : List Bool := stuffBehind limit 0 bits

/-- Remove every zero that is preceded by exactly `limit` ones. -/
def unstuff (limit : Nat) (bits : List Bool) : List Bool :=
  (List.range bits.length).filterMap fun i =>
    if bits[i]? = some false ∧ trailingOnes (bits.take i) = limit then none else bits[i]?

@[simp] theorem trailingOnes_nil : trailingOnes [] = 0 := rfl

/-- A one prolongs the run at the end, and a zero ends it. -/
theorem trailingOnes_concat (bits : List Bool) (bit : Bool) :
    trailingOnes (bits ++ [bit]) = if bit then trailingOnes bits + 1 else 0 := by
  cases bit with
  | false =>
    rw [trailingOnes, List.rtakeWhile_concat_neg _ _ _ (by decide)]
    rfl
  | true =>
    rw [trailingOnes, List.rtakeWhile_concat_pos _ _ _ (by decide), List.length_append]
    rfl

@[simp] theorem unstuff_nil (limit : Nat) : unstuff limit [] = [] := rfl

/-- Whether the last bit is removed depends on the ones in front of it. -/
theorem unstuff_concat (limit : Nat) (bits : List Bool) (bit : Bool) :
    unstuff limit (bits ++ [bit]) =
      unstuff limit bits ++ if bit = false ∧ trailingOnes bits = limit then [] else [bit] := by
  have earlier : ∀ i ∈ List.range bits.length,
      (if (bits ++ [bit])[i]? = some false ∧ trailingOnes ((bits ++ [bit]).take i) = limit then none
        else (bits ++ [bit])[i]?) =
      if bits[i]? = some false ∧ trailingOnes (bits.take i) = limit then none else bits[i]? := by
    intro i member
    have below := List.mem_range.mp member
    rw [List.getElem?_append_left below, List.take_append_of_le_length (Nat.le_of_lt below)]
  rw [unstuff, List.length_append, List.length_singleton, List.range_succ, List.filterMap_append,
    List.filterMap_congr earlier]
  congr 1
  by_cases removed : bit = false ∧ trailingOnes bits = limit
  · rw [if_pos removed]
    simp [removed]
  · rw [if_neg removed]
    simp [removed]

/-- Bits that follow do not change what has been unstuffed. -/
theorem unstuff_prefix (limit : Nat) (bits more : List Bool) :
    unstuff limit bits <+: unstuff limit (bits ++ more) := by
  induction more using List.reverseRecOn with
  | nil =>
    simp only [List.append_nil, List.prefix_refl]
  | append_singleton more bit ih =>
    rw [← List.append_assoc, unstuff_concat]
    exact ih.trans (List.prefix_append _ _)

/-- Unstuffing what is stuffed behind a run of ones, as long as the run is shorter than the
limit. -/
theorem unstuff_stuffBehind {limit ones : Nat} (short : ones < limit) {front : List Bool}
    (run : trailingOnes front = ones) (bits : List Bool) :
    unstuff limit (front ++ stuffBehind limit ones bits) = unstuff limit front ++ bits := by
  induction bits generalizing front ones with
  | nil => rw [stuffBehind, List.append_nil, List.append_nil]
  | cons bit bits ih =>
    cases bit with
    | false =>
      have zero : trailingOnes (front ++ [false]) = 0 := trailingOnes_concat front false
      have kept : unstuff limit (front ++ [false]) = unstuff limit front ++ [false] := by
        rw [unstuff_concat, if_neg (by omega)]
      rw [stuffBehind, List.append_cons, ih (Nat.zero_lt_of_lt short) zero, kept, List.append_assoc,
        List.singleton_append]
    | true =>
      have one : trailingOnes (front ++ [true]) = ones + 1 := by
        rw [trailingOnes_concat, run]
        rfl
      have kept : unstuff limit (front ++ [true]) = unstuff limit front ++ [true] := by
        rw [unstuff_concat, if_neg fun removed => Bool.noConfusion removed.1]
      by_cases full : ones + 1 = limit
      · have zero : trailingOnes (front ++ [true] ++ [false]) = 0 := trailingOnes_concat _ false
        have removed :
            unstuff limit (front ++ [true] ++ [false]) = unstuff limit front ++ [true] := by
          rw [unstuff_concat, if_pos ⟨rfl, one.trans full⟩, List.append_nil, kept]
        rw [stuffBehind, if_pos full, List.append_cons, List.append_cons (front ++ [true]),
          ih (Nat.zero_lt_of_lt short) zero, removed, List.append_assoc, List.singleton_append]
      · rw [stuffBehind, if_neg full, List.append_cons, ih (by omega) one, kept, List.append_assoc,
          List.singleton_append]

/-- Unstuffing returns what was stuffed. -/
theorem unstuff_stuff {limit : Nat} (positive : 0 < limit) (bits : List Bool) :
    unstuff limit (stuff limit bits) = bits :=
  unstuff_stuffBehind positive trailingOnes_nil bits

end GrReveng
