import GrReveng.Library.Blocks
import Mathlib.Algebra.Order.Ring.Int
import Mathlib.Data.List.Induction

/-!
# Bits and bytes, most significant bit first

A list of bits is read as a number with its first bit most significant (`msbValue`), and a
number is written back in a fixed width (`msbBits`). Packing takes the complete groups of eight
bits of a list as bytes and leaves a remainder of fewer than eight; unpacking writes every byte
in eight bits. Unpacking after packing returns the list up to its remainder, packing after
unpacking returns the bytes, and both the packed bytes and the remainder can be kept up one bit
at a time (`packBytes_concat`, `remainder_concat`).
-/

namespace GrReveng

/-- The number that a list of bits denotes, first bit most significant. -/
def msbValue (bits : List Bool) : Nat := bits.foldl (fun value bit => 2 * value + bit.toNat) 0

@[simp] theorem msbValue_nil : msbValue [] = 0 := rfl

/-- One more bit doubles the value and adds the bit. -/
@[simp] theorem msbValue_concat (bits : List Bool) (bit : Bool) :
    msbValue (bits ++ [bit]) = 2 * msbValue bits + bit.toNat := by
  simp [msbValue]

/-- A bit in front counts the power of two of the number of bits behind it. -/
theorem msbValue_cons (bit : Bool) (bits : List Bool) :
    msbValue (bit :: bits) = bit.toNat * 2 ^ bits.length + msbValue bits := by
  induction bits using List.reverseRecOn with
  | nil => simp [msbValue]
  | append_singleton bits last ih =>
    rw [← List.cons_append, msbValue_concat, msbValue_concat, ih, List.length_append,
      List.length_singleton, Nat.pow_succ, ← Nat.mul_assoc]
    omega

/-- Bits behind a list shift its value. -/
theorem msbValue_append (left right : List Bool) :
    msbValue (left ++ right) = msbValue left * 2 ^ right.length + msbValue right := by
  induction left with
  | nil => rw [List.nil_append, msbValue_nil, Nat.zero_mul, Nat.zero_add]
  | cons bit left ih =>
    rw [List.cons_append, msbValue_cons, msbValue_cons, ih, List.length_append, Nat.pow_add,
      Nat.add_mul, ← Nat.mul_assoc, Nat.add_assoc]

/-- Zeros have no value. -/
theorem msbValue_zeros (n : Nat) : msbValue (List.replicate n false) = 0 := by
  induction n with
  | zero => rfl
  | succ n ih => rw [List.replicate_succ, msbValue_cons, ih, Bool.toNat_false, Nat.zero_mul]

/-- The value is below the power of two of the number of bits. -/
theorem msbValue_lt (bits : List Bool) : msbValue bits < 2 ^ bits.length := by
  induction bits using List.reverseRecOn with
  | nil => decide
  | append_singleton bits bit ih =>
    have small := bit.toNat_le
    rw [msbValue_concat, List.length_append, List.length_singleton, Nat.pow_succ]
    omega

/-- A number written in a fixed width, most significant bit first. -/
def msbBits : Nat → Nat → List Bool
  | 0, _ => []
  | width + 1, value => msbBits width (value / 2) ++ [value % 2 == 1]

@[simp] theorem length_msbBits (width value : Nat) : (msbBits width value).length = width := by
  induction width generalizing value with
  | zero => rfl
  | succ width ih => simp [msbBits, ih]

/-- Writing the value of a list in its own width returns the list. -/
theorem msbBits_msbValue (bits : List Bool) : msbBits bits.length (msbValue bits) = bits := by
  induction bits using List.reverseRecOn with
  | nil => rfl
  | append_singleton bits bit ih =>
    rw [List.length_append, List.length_singleton, msbBits, msbValue_concat]
    have small := bit.toNat_le
    have half : (2 * msbValue bits + bit.toNat) / 2 = msbValue bits := by omega
    have last : (2 * msbValue bits + bit.toNat) % 2 = bit.toNat := by omega
    rw [half, last, ih]
    cases bit <;> rfl

/-- A list is determined by its length and its value. -/
theorem eq_of_msbValue_eq {left right : List Bool} (length : left.length = right.length)
    (same : msbValue left = msbValue right) : left = right := by
  rw [← msbBits_msbValue left, ← msbBits_msbValue right, length, same]

/-- Reading a written number returns it, modulo the width. -/
theorem msbValue_msbBits (width value : Nat) :
    msbValue (msbBits width value) = value % 2 ^ width := by
  induction width generalizing value with
  | zero => simp [msbBits, Nat.mod_one]
  | succ width ih =>
    have last : (value % 2 == 1).toNat = value % 2 := by
      rcases Nat.mod_two_eq_zero_or_one value with even | odd <;> simp [*]
    rw [msbBits, msbValue_concat, ih, last, Nat.pow_succ, Nat.mul_comm (2 ^ width) 2,
      Nat.mod_mul]
    omega

/-- The byte that eight bits denote. -/
def byteOf (bits : List Bool) : UInt8 := UInt8.ofNat (msbValue bits)

@[simp] theorem byteOf_nil : byteOf [] = 0 := rfl

/-- The eight bits of a byte. -/
def byteBits (byte : UInt8) : List Bool := msbBits 8 byte.toNat

/-- The complete bytes of a list of bits; the `j`-th byte reads bits `8j` to `8j + 7`. -/
def packBytes (bits : List Bool) : List UInt8 :=
  (List.range (bits.length / 8)).map fun j => byteOf ((bits.drop (8 * j)).take 8)

/-- The bits after the last complete byte. -/
def remainder (bits : List Bool) : List Bool := bits.drop (8 * (bits.length / 8))

/-- The bits of a list of bytes. -/
def unpackBytes (bytes : List UInt8) : List Bool := bytes.flatMap byteBits

@[simp] theorem length_byteBits (byte : UInt8) : (byteBits byte).length = 8 :=
  length_msbBits 8 byte.toNat

@[simp] theorem length_packBytes (bits : List Bool) :
    (packBytes bits).length = bits.length / 8 := by
  simp [packBytes]

@[simp] theorem length_unpackBytes (bytes : List UInt8) :
    (unpackBytes bytes).length = 8 * bytes.length := by
  induction bytes with
  | nil => rfl
  | cons byte bytes ih =>
    simp only [unpackBytes, List.flatMap_cons, List.length_append, length_byteBits,
      List.length_cons] at ih ⊢
    omega

@[simp] theorem packBytes_nil : packBytes [] = [] := rfl

@[simp] theorem remainder_nil : remainder [] = [] := rfl

@[simp] theorem unpackBytes_nil : unpackBytes [] = [] := rfl

@[simp] theorem unpackBytes_append (left right : List UInt8) :
    unpackBytes (left ++ right) = unpackBytes left ++ unpackBytes right := by
  simp [unpackBytes]

/-- The number of bits after the last complete byte. -/
theorem length_remainder (bits : List Bool) : (remainder bits).length = bits.length % 8 := by
  simp only [remainder, List.length_drop]
  omega

/-- The byte of eight bits has their value. -/
theorem toNat_byteOf {bits : List Bool} (eight : bits.length = 8) :
    (byteOf bits).toNat = msbValue bits := by
  have small := msbValue_lt bits
  rw [eight] at small
  simp only [byteOf, UInt8.toNat_ofNat']
  exact Nat.mod_eq_of_lt small

/-- The bits of the byte of eight bits are these bits. -/
theorem byteBits_byteOf {bits : List Bool} (eight : bits.length = 8) :
    byteBits (byteOf bits) = bits := by
  rw [byteBits, toNat_byteOf eight]
  simpa [eight] using msbBits_msbValue bits

/-- The byte of the bits of a byte is the byte. -/
theorem byteOf_byteBits (byte : UInt8) : byteOf (byteBits byte) = byte := by
  apply UInt8.toNat_inj.mp
  rw [toNat_byteOf (length_byteBits byte), byteBits, msbValue_msbBits]
  exact Nat.mod_eq_of_lt byte.toNat_lt

/-- The packed bytes are the bytes of the blocks of eight bits. -/
theorem packBytes_eq_blocks (bits : List Bool) : packBytes bits = (blocks 8 bits).map byteOf := by
  rw [packBytes, blocks, List.map_map]
  rfl

/-- A bit that does not complete a byte leaves the bytes; one that does adds the byte of the
remainder and itself. -/
theorem packBytes_concat (bits : List Bool) (bit : Bool) :
    packBytes (bits ++ [bit]) =
      if (bits.length + 1) % 8 = 0 then packBytes bits ++ [byteOf (remainder bits ++ [bit])]
      else packBytes bits := by
  rw [packBytes_eq_blocks, packBytes_eq_blocks, blocks_concat (by decide)]
  split
  · rw [List.map_append]
    rfl
  · rfl

/-- A bit that does not complete a byte joins the remainder; one that does empties it. -/
theorem remainder_concat (bits : List Bool) (bit : Bool) :
    remainder (bits ++ [bit]) =
      if (bits.length + 1) % 8 = 0 then [] else remainder bits ++ [bit] :=
  behindBlocks_concat (by decide) bits bit

/-- Packing a group of eight bits in front of a list puts its byte in front. -/
theorem packBytes_append {front : List Bool} (eight : front.length = 8) (bits : List Bool) :
    packBytes (front ++ bits) = byteOf front :: packBytes bits := by
  rw [packBytes_eq_blocks, packBytes_eq_blocks, blocks_append (by decide) eight, List.map_cons]

/-- Packing the bits of bytes, followed by fewer than eight bits, returns the bytes. -/
theorem packBytes_unpackBytes_append (bytes : List UInt8) {rest : List Bool}
    (short : rest.length < 8) : packBytes (unpackBytes bytes ++ rest) = bytes := by
  induction bytes with
  | nil => simp [packBytes, show rest.length / 8 = 0 by omega]
  | cons byte bytes ih =>
    rw [unpackBytes, List.flatMap_cons, List.append_assoc,
      packBytes_append (length_byteBits byte), byteOf_byteBits]
    exact congrArg (byte :: ·) ih

/-- Packing the bits of bytes returns the bytes. -/
@[simp] theorem packBytes_unpackBytes (bytes : List UInt8) :
    packBytes (unpackBytes bytes) = bytes := by
  have short : ([] : List Bool).length < 8 := by decide
  simpa using packBytes_unpackBytes_append bytes short

/-- The bits of the packed bytes and the remainder are the whole list. -/
theorem unpackBytes_packBytes (bits : List Bool) :
    unpackBytes (packBytes bits) ++ remainder bits = bits := by
  induction bits using List.reverseRecOn with
  | nil => rfl
  | append_singleton bits bit ih =>
    rw [packBytes_concat, remainder_concat]
    split <;> rename_i complete
    · have eight : (remainder bits ++ [bit]).length = 8 := by
        rw [List.length_append, length_remainder, List.length_singleton]; omega
      rw [unpackBytes_append, List.append_nil]
      simp only [unpackBytes, List.flatMap_singleton, byteBits_byteOf eight]
      rw [← List.append_assoc]
      exact congrArg (· ++ [bit]) ih
    · rw [← List.append_assoc, ih]

/-- Packing and unpacking returns the whole bytes of a list. -/
theorem unpackBytes_packBytes_take (bits : List Bool) :
    unpackBytes (packBytes bits) = bits.take (8 * (bits.length / 8)) := by
  apply @List.append_cancel_right _ _ (remainder bits)
  rw [unpackBytes_packBytes, remainder, List.take_append_drop]

/-- The byte at an index of the packed list reads eight consecutive bits. -/
theorem getElem?_packBytes {bits : List Bool} {j : Nat} (inside : 8 * j + 8 ≤ bits.length) :
    (packBytes bits)[j]? = some (byteOf ((bits.drop (8 * j)).take 8)) := by
  simp [packBytes, List.getElem?_range (show j < bits.length / 8 by omega)]

/-- The eight bits of a byte, the least significant one first. -/
def lsbBits (byte : UInt8) : List Bool := (byteBits byte).reverse

/-- The complete bytes of a list of bits that has their least significant bits first. -/
def lsbBytes (bits : List Bool) : List UInt8 :=
  (blocks 8 bits).map fun block => byteOf block.reverse

/-- A bit that completes a byte adds the byte of the bits behind the others and itself. -/
theorem lsbBytes_concat (bits : List Bool) (bit : Bool) :
    lsbBytes (bits ++ [bit]) =
      if (bits.length + 1) % 8 = 0 then
        lsbBytes bits ++ [byteOf (behindBlocks 8 bits ++ [bit]).reverse]
      else lsbBytes bits := by
  rw [lsbBytes, blocks_concat (by decide)]
  split
  · rw [List.map_append]
    rfl
  · rfl

/-- The bits of bytes in front of a list give these bytes first. -/
theorem lsbBytes_append (bytes : List UInt8) (rest : List Bool) :
    lsbBytes (bytes.flatMap lsbBits ++ rest) = bytes ++ lsbBytes rest := by
  induction bytes with
  | nil => rfl
  | cons byte bytes ih =>
    have eight : (lsbBits byte).length = 8 := by
      rw [lsbBits, List.length_reverse, length_byteBits]
    have first : byteOf (lsbBits byte).reverse = byte := by
      rw [lsbBits, List.reverse_reverse, byteOf_byteBits]
    rw [lsbBytes] at ih ⊢
    rw [List.flatMap_cons, List.append_assoc, blocks_append (by decide) eight, List.map_cons, ih,
      first, List.cons_append]

end GrReveng
