import GrReveng.PacketDeframer.Runs

/-!
# The announced end in integer arithmetic

When the sum of the length computation lies inside `int`, the end of a variable packet is the
number of bits of its parts. `Config.Valid` is the condition under which this holds for every
value of a length byte. The samples of a well-formed frame are then a whole packet, and those of
a header whose length byte exceeds the maximum are dropped.
-/

namespace GrReveng.PacketDeframer

open Reactive

variable {cfg : Config}

/-- The bytes that the length computation adds up. -/
def announcedBytes (cfg : Config) (u : List Int8) : Int :=
  cfg.pktLenOffset.toInt + 1 + (lengthWord cfg u).toInt + cfg.pktLenAdj.toInt

/-- The end announced by a length word is the number of its bits, wrapped around in `int`. -/
theorem target_bmod (framed : cfg.Framed) (mode : cfg.fixedLen = false) (u : List Int8) :
    (target cfg u).toInt = (8 * announcedBytes cfg u).bmod (2 ^ 32) := by
  obtain ⟨nonnegative, small⟩ := framed.offset mode
  have header : (Int32.ofNat cfg.headerBits).toInt = 8 * cfg.pktLenOffset.toInt + 8 := by
    rw [Int32.toInt_ofNat', Config.headerBits, Config.offsetBits,
      show Int32.size = 2 ^ 32 from rfl]
    exact (Int.bmod_eq_of_le (by omega) (by omega)).trans (by omega)
  have scaled : ∀ word : Int32, (word * 8).toInt = (word.toInt * 8).bmod (2 ^ 32) :=
    fun word => Int32.toInt_mul word 8
  simp only [target, mode, Bool.false_eq_true, ↓reduceIte, targetLen, UInt32.toInt32_add,
    UInt32.toInt32_ofNat', Int32.toInt32_toUInt32, Int32.toInt_add, header, scaled,
    Int.bmod_add_bmod, Int.add_bmod_bmod]
  rw [announcedBytes]
  congr 1
  omega

/-- The end announced by a length word, when the sum has a place in `int`. -/
theorem target_toInt (framed : cfg.Framed) (mode : cfg.fixedLen = false) {u : List Int8}
    (low : -(2 : Int) ^ 31 ≤ 8 * announcedBytes cfg u)
    (high : 8 * announcedBytes cfg u < 2 ^ 31) :
    (target cfg u).toInt = 8 * announcedBytes cfg u := by
  rw [target_bmod framed mode]
  exact Int.bmod_eq_of_le (by omega) (by omega)

/-- The arguments are lengths, and no length byte of binary samples makes the sum leave `int`. -/
structure Config.Valid (cfg : Config) : Prop where
  /-- A fixed packet has a positive length. -/
  fixed : cfg.fixedLen = true → 1 ≤ cfg.pktLen.toInt
  /-- The offset and the adjustment count bytes, and the longest packet has an `int` length. -/
  lengths : cfg.fixedLen = false → 0 ≤ cfg.pktLenOffset.toInt ∧ 0 ≤ cfg.pktLenAdj.toInt ∧
    8 * (cfg.pktLenOffset.toInt + 256 + cfg.pktLenAdj.toInt) < 2 ^ 31

/-- Valid arguments frame a capture. -/
theorem Config.Valid.framed (valid : cfg.Valid) : cfg.Framed where
  fixed := valid.fixed
  offset := fun mode => by have := valid.lengths mode; omega

/-- The byte that binary samples have at the place of the length byte. -/
def lengthByte (cfg : Config) (u : List Int8) : Nat :=
  msbValue (((u.drop cfg.offsetBits).take 8).map lsb)

/-- A length byte is a byte. -/
theorem lengthByte_lt (u : List Int8) : lengthByte cfg u < 256 := by
  refine Nat.lt_of_lt_of_le (msbValue_lt _) ?_
  have bits : (((u.drop cfg.offsetBits).take 8).map lsb).length ≤ 8 := by
    simp only [List.length_map, List.length_take]
    omega
  exact Nat.pow_le_pow_right (by decide) bits

/-- The length byte is the packed byte behind the offset. -/
theorem packedByte_length {u : List Int8} (long : cfg.headerBits ≤ u.length) :
    ∃ byte : UInt8, (packBytes (u.map lsb))[cfg.pktLenOffset.toInt.toNat]? = some byte ∧
      byte.toNat = lengthByte cfg u := by
  rw [Config.headerBits, Config.offsetBits] at long
  refine ⟨_, getElem?_packBytes (by simpa using long), ?_⟩
  rw [toNat_byteOf (by simp only [List.length_take, List.length_drop, List.length_map]; omega),
    lengthByte, List.map_take, List.map_drop, Config.offsetBits]

/-- Binary samples leave the value of their byte in the length word. -/
theorem lengthWord_binary {u : List Int8} (binary : ∀ x ∈ u, Binary x) :
    (lengthWord cfg u).toInt = lengthByte cfg u :=
  shiftInAll_binary
    (fun x member => binary x (List.mem_of_mem_drop (List.mem_of_mem_take member)))
    (by simp only [List.length_take]; omega)

/-- The end of a packet of binary samples is the number of bits of its parts. -/
theorem Config.Valid.target (valid : cfg.Valid) (mode : cfg.fixedLen = false) {u : List Int8}
    (binary : ∀ x ∈ u, Binary x) :
    (PacketDeframer.target cfg u).toInt =
      8 * (cfg.pktLenOffset.toInt + 1 + lengthByte cfg u + cfg.pktLenAdj.toInt) := by
  obtain ⟨offset, adjust, small⟩ := valid.lengths mode
  have byte := @lengthByte_lt cfg u
  have word := @lengthWord_binary cfg _ binary
  have sum := target_toInt valid.framed mode (u := u)
    (by rw [announcedBytes, word]; omega) (by rw [announcedBytes, word]; omega)
  rw [sum, announcedBytes, word]

/-- Samples whose number is the announced end, behind a header that is not refused, are a whole
packet. -/
theorem complete_of_target {u : List Int8} (known : Known cfg u) (nonempty : u ≠ [])
    (accepted : ¬ Refused cfg u) (exact : (target cfg u).toInt = u.length) : Complete cfg u := by
  refine ⟨?_, known, by omega, by omega, nonempty⟩
  rintro front back rfl later reached
  have positive := List.length_pos_iff.mpr later
  rw [target_append reached, List.length_append] at exact
  refine ⟨by omega, fun refused => accepted ?_⟩
  obtain ⟨mode, long, excess⟩ := refused
  refine ⟨mode, by rw [List.length_append]; omega, ?_⟩
  rwa [lengthWord_append long]

/-- In fixed length mode any samples of the packet length are a whole packet. -/
theorem complete_fixed (mode : cfg.fixedLen = true) {u : List Int8} (nonempty : u ≠ [])
    (length : cfg.pktLen.toInt = u.length) : Complete cfg u :=
  complete_of_target (.inl mode) nonempty
    (fun refused => by have := refused.1; simp [mode] at this)
    (by simp only [target, mode, ↓reduceIte, length])

/-- A header with a refused length byte is dropped when it does not end the packet. -/
theorem dropped_of_refused {u : List Int8} (refused : Refused cfg u)
    (exact : u.length = cfg.headerBits) (further : (u.length : Int) < (target cfg u).toInt) :
    Dropped cfg u := by
  have header : 0 < cfg.headerBits := by simp [Config.headerBits]
  refine ⟨?_, refused, further, List.length_pos_iff.mp (by omega)⟩
  rintro front back rfl later reached
  have positive := List.length_pos_iff.mpr later
  have mode := refused.1
  have long := reached.long mode
  rw [List.length_append] at exact
  omega

/-- The zero samples up to the end they announce are a whole packet. -/
theorem complete_zeros (valid : cfg.Valid) : ∃ count, Complete cfg (List.replicate count 0) := by
  cases mode : cfg.fixedLen with
  | true =>
    have positive := valid.fixed mode
    refine ⟨cfg.pktLen.toInt.toNat, complete_fixed mode ?_ ?_⟩
    · rw [ne_eq, List.replicate_eq_nil_iff]
      omega
    · rw [List.length_replicate]
      omega
  | false =>
    obtain ⟨offset, adjust, small⟩ := valid.lengths mode
    have zeros : ∀ count, ∀ x ∈ List.replicate count (0 : Int8), Binary x :=
      fun count x member => .inl (List.eq_of_mem_replicate member)
    have byte : ∀ count, lengthByte cfg (List.replicate count 0) = 0 := by
      intro count
      rw [lengthByte, List.drop_replicate, List.take_replicate, List.map_replicate]
      generalize min 8 (count - cfg.offsetBits) = n
      induction n with
      | zero => rfl
      | succ n ih => rw [List.replicate_succ', msbValue_concat, ih]; rfl
    let bits := 8 * (cfg.pktLenOffset.toInt.toNat + 1 + cfg.pktLenAdj.toInt.toNat)
    have count : bits = 8 * (cfg.pktLenOffset.toInt.toNat + 1 + cfg.pktLenAdj.toInt.toNat) := rfl
    have total := valid.target mode (zeros bits)
    rw [byte] at total
    refine ⟨bits, complete_of_target (.inr ?_) ?_ (fun refused => ?_) ?_⟩
    · rw [Config.headerBits, Config.offsetBits, List.length_replicate]; omega
    · rw [ne_eq, List.replicate_eq_nil_iff]; omega
    · obtain ⟨positive, excess⟩ := refused.2.2
      rw [Int32.lt_iff_toInt_lt] at positive excess
      have word := @lengthWord_binary cfg _ (zeros bits)
      rw [word, byte] at excess
      have zero : (0 : Int32).toInt = 0 := rfl
      omega
    · rw [total, List.length_replicate]; omega

end GrReveng.PacketDeframer
