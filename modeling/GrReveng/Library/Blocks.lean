import Mathlib.Data.List.Basic
import Mathlib.Data.List.Induction

/-!
# Blocks of a list

A list cut into consecutive blocks of one size, and the items behind the last complete block. A
block code has one block for each symbol; a list of symbols is encoded by concatenating their
blocks and decoded block by block, where a block that encodes no symbol is decoded as none. The
two undo each other as far as they can.
-/

namespace GrReveng

variable {α σ : Type}

/-- The complete blocks of a list; the `k`-th starts at the item `size * k`. -/
def blocks (size : Nat) (xs : List α) : List (List α) :=
  (List.range (xs.length / size)).map fun k => (xs.drop (size * k)).take size

/-- The items behind the last complete block. -/
def behindBlocks (size : Nat) (xs : List α) : List α := xs.drop (size * (xs.length / size))

@[simp] theorem length_blocks (size : Nat) (xs : List α) :
    (blocks size xs).length = xs.length / size := by
  rw [blocks, List.length_map, List.length_range]

/-- Fewer items are left than a block has. -/
theorem length_behindBlocks (size : Nat) (xs : List α) :
    (behindBlocks size xs).length = xs.length % size := by
  rw [behindBlocks, List.length_drop, Nat.mod_eq_sub_mul_div]

/-- The block at an index. -/
theorem getElem?_blocks {size k : Nat} {xs : List α} (inside : k < xs.length / size) :
    (blocks size xs)[k]? = some ((xs.drop (size * k)).take size) := by
  rw [blocks, List.getElem?_map, List.getElem?_range inside, Option.map_some]

/-- A list shorter than a block has no block. -/
theorem blocks_short {size : Nat} {xs : List α} (short : xs.length < size) :
    blocks size xs = [] := by
  rw [blocks, Nat.div_eq_of_lt short]
  rfl

/-- A block in front of a list is its first block. -/
theorem blocks_append {size : Nat} (positive : 0 < size) {front : List α}
    (whole : front.length = size) (xs : List α) :
    blocks size (front ++ xs) = front :: blocks size xs := by
  have count : (front ++ xs).length / size = xs.length / size + 1 := by
    rw [List.length_append, whole, Nat.add_comm, Nat.add_div_right _ positive]
  rw [blocks, count, List.range_succ_eq_map, List.map_cons, List.map_map, blocks]
  congr 1
  · rw [Nat.mul_zero, List.drop_zero, List.take_left' whole]
  · apply List.map_congr_left
    intro k _
    have skip : size * k.succ = front.length + size * k := by
      rw [Nat.mul_succ, whole, Nat.add_comm]
    simp only [Function.comp_apply, skip, List.drop_append, List.drop_of_length_le
      (show front.length ≤ front.length + size * k by omega), Nat.add_sub_cancel_left,
      List.nil_append]

/-- Concatenated blocks, with too few items behind them for another, are the blocks. -/
theorem blocks_flatten_append {size : Nat} (positive : 0 < size) {parts : List (List α)}
    (whole : ∀ part ∈ parts, part.length = size) {rest : List α} (short : rest.length < size) :
    blocks size (parts.flatten ++ rest) = parts := by
  induction parts with
  | nil => exact blocks_short short
  | cons part parts ih =>
    rw [List.flatten_cons, List.append_assoc,
      blocks_append positive (whole part List.mem_cons_self),
      ih fun other member => whole other (List.mem_cons_of_mem part member)]

/-- The blocks cover the list up to the items behind them. -/
theorem flatten_blocks {size : Nat} (positive : 0 < size) (xs : List α) :
    (blocks size xs).flatten = xs.take (size * (xs.length / size)) := by
  induction count : xs.length / size generalizing xs with
  | zero =>
    rw [blocks, count]
    rfl
  | succ k ih =>
    have long : size ≤ xs.length := by
      by_contra short
      rw [Nat.div_eq_of_lt (by omega)] at count
      contradiction
    have first : (xs.take size).length = size := List.length_take_of_le long
    have rest : (xs.drop size).length / size = k := by
      rw [List.length_drop, Nat.div_eq_sub_div positive long] at *
      omega
    have cut : xs.take size ++ xs.drop size = xs := List.take_append_drop size xs
    calc (blocks size xs).flatten
        = (blocks size (xs.take size ++ xs.drop size)).flatten := by rw [cut]
      _ = xs.take size ++ (xs.drop size).take (size * k) := by
          rw [blocks_append positive first, List.flatten_cons, ih (xs.drop size) rest]
      _ = xs.take (size * (k + 1)) := by
          rw [Nat.mul_succ, Nat.add_comm, List.take_add]

/-- A list is its blocks and the items behind them. -/
theorem flatten_blocks_append {size : Nat} (positive : 0 < size) (xs : List α) :
    (blocks size xs).flatten ++ behindBlocks size xs = xs := by
  rw [flatten_blocks positive, behindBlocks, List.take_append_drop]

/-- Every block has the size. -/
theorem length_of_mem_blocks {size : Nat} {xs block : List α} (member : block ∈ blocks size xs) :
    block.length = size := by
  obtain ⟨k, inside, rfl⟩ := List.mem_map.mp member
  have below := List.mem_range.mp inside
  have fits : size * (k + 1) ≤ xs.length :=
    Nat.le_trans (Nat.mul_le_mul_left size below) (Nat.mul_div_le xs.length size)
  rw [Nat.mul_succ] at fits
  rw [List.length_take, List.length_drop]
  omega

/-- An item that does not complete a block leaves the blocks; one that does adds the block of the
items behind them and itself. -/
theorem blocks_concat {size : Nat} (positive : 0 < size) (xs : List α) (x : α) :
    blocks size (xs ++ [x]) =
      if (xs.length + 1) % size = 0 then blocks size xs ++ [behindBlocks size xs ++ [x]]
      else blocks size xs := by
  have cut : xs ++ [x] = (blocks size xs).flatten ++ (behindBlocks size xs ++ [x]) := by
    rw [← List.append_assoc, flatten_blocks_append positive]
  have last : (behindBlocks size xs ++ [x]).length = xs.length % size + 1 := by
    rw [List.length_append, length_behindBlocks, List.length_singleton]
  have below := Nat.mod_lt xs.length positive
  have next : (xs.length + 1) % size = (xs.length % size + 1) % size := by rw [Nat.mod_add_mod]
  split <;> rename_i complete
  · have whole : xs.length % size + 1 = size := by
      by_contra short
      rw [next, Nat.mod_eq_of_lt (by omega)] at complete
      contradiction
    have all : (blocks size xs).flatten ++ (behindBlocks size xs ++ [x]) =
        (blocks size xs ++ [behindBlocks size xs ++ [x]]).flatten ++ [] := by simp
    rw [cut, all]
    apply blocks_flatten_append positive
    · intro part member
      cases List.mem_append.mp member with
      | inl before => exact length_of_mem_blocks before
      | inr same => rw [List.mem_singleton.mp same, last, whole]
    · exact positive
  · have short : xs.length % size + 1 < size := by
      by_contra full
      rw [next, show xs.length % size + 1 = size by omega, Nat.mod_self] at complete
      contradiction
    rw [cut]
    exact blocks_flatten_append positive (fun part => length_of_mem_blocks) (by omega)

/-- An item that does not complete a block joins the items behind the blocks; one that does
empties them. -/
theorem behindBlocks_concat {size : Nat} (positive : 0 < size) (xs : List α) (x : α) :
    behindBlocks size (xs ++ [x]) =
      if (xs.length + 1) % size = 0 then [] else behindBlocks size xs ++ [x] := by
  have whole := flatten_blocks_append positive (xs ++ [x])
  rw [blocks_concat positive] at whole
  split at whole <;> rename_i complete
  · rw [if_pos complete]
    apply List.length_eq_zero_iff.mp
    rw [length_behindBlocks, List.length_append, List.length_singleton, complete]
  · rw [if_neg complete]
    apply @List.append_cancel_left _ (blocks size xs).flatten
    rw [whole, ← List.append_assoc, flatten_blocks_append positive]

/-- A code with one block of items for each symbol. -/
structure BlockCode (σ α : Type) where
  /-- Items of a block. -/
  size : Nat
  /-- A block is not empty. -/
  positive : 0 < size
  /-- The block of a symbol. -/
  encode : σ → List α
  /-- The symbol of a block that encodes one. -/
  decode : List α → Option σ
  /-- Every symbol has a block of the size. -/
  length_encode : ∀ symbol, (encode symbol).length = size
  /-- Decoding finds the symbol of a block. -/
  decode_iff : ∀ block symbol, decode block = some symbol ↔ block = encode symbol

namespace BlockCode

variable (code : BlockCode σ α)

/-- The blocks of a list of symbols. -/
def encodeAll (symbols : List σ) : List α := symbols.flatMap code.encode

/-- The symbols of the complete blocks. -/
def decodeAll (xs : List α) : List (Option σ) := (blocks code.size xs).map code.decode

/-- Decoding an encoded list returns its symbols. -/
theorem decodeAll_encodeAll (symbols : List σ) :
    code.decodeAll (code.encodeAll symbols) = symbols.map some := by
  have cut : blocks code.size (code.encodeAll symbols) = symbols.map code.encode := by
    have whole : ∀ part ∈ symbols.map code.encode, part.length = code.size := by
      intro part member
      obtain ⟨symbol, -, rfl⟩ := List.mem_map.mp member
      exact code.length_encode symbol
    have none : ([] : List α).length < code.size := code.positive
    have parts := blocks_flatten_append code.positive whole none
    rwa [List.append_nil] at parts
  rw [decodeAll, cut, List.map_map]
  apply List.map_congr_left
  intro symbol _
  exact (code.decode_iff (code.encode symbol) symbol).mpr rfl

/-- A block is decoded as none exactly when it is the block of no symbol. -/
theorem decode_eq_none_iff (block : List α) :
    code.decode block = none ↔ ∀ symbol, block ≠ code.encode symbol := by
  constructor
  · intro failed symbol same
    rw [(code.decode_iff block symbol).mpr same] at failed
    contradiction
  · intro foreign
    cases found : code.decode block with
    | none => rfl
    | some symbol => exact absurd ((code.decode_iff block symbol).mp found) (foreign symbol)

/-- A list of whole blocks that all decode is the encoding of its symbols. -/
theorem encodeAll_of_decodeAll {xs : List α} (whole : code.size ∣ xs.length) {symbols : List σ}
    (decoded : code.decodeAll xs = symbols.map some) : code.encodeAll symbols = xs := by
  have cover : (blocks code.size xs).flatten = xs := by
    rw [flatten_blocks code.positive, Nat.mul_div_cancel' whole, List.take_length]
  have parts : blocks code.size xs = symbols.map code.encode := by
    rw [decodeAll] at decoded
    revert decoded
    generalize blocks code.size xs = parts
    intro decoded
    induction parts generalizing symbols with
    | nil =>
      cases symbols with
      | nil => rfl
      | cons symbol symbols => contradiction
    | cons part parts ih =>
      cases symbols with
      | nil => contradiction
      | cons symbol symbols =>
        rw [List.map_cons, List.map_cons, List.cons.injEq] at decoded
        rw [List.map_cons, ih decoded.2, (code.decode_iff part symbol).mp decoded.1]
  rw [encodeAll, List.flatMap_def, ← parts, cover]

end BlockCode

end GrReveng
