import GrReveng.Library.BitPacking
import GrReveng.Library.BitStuffing
import GrReveng.PatternDump.Format

/-!
# HDLC data

`hdlc_data_decode` removes the zeros that bit stuffing inserts and collects bytes in one loop. Its
three counters are functions of the bits read so far: the run of ones is the run at their end, and
the incomplete byte is what the unstuffed bits have behind their last whole byte.
-/

namespace GrReveng.PatternDump

open Python

/-- The variables of the loop after unstuffed bits and a run of ones. -/
def hdlcAfter (unstuffed : List Bool) (ones : Nat) : HdlcState where
  out := hexBytes (lsbBytes unstuffed)
  obyte := msbValue (behindBlocks 8 unstuffed).reverse
  bits := (behindBlocks 8 unstuffed).length
  ones := ones

/-- An incomplete byte is not written. -/
theorem flush_hdlcAfter (unstuffed : List Bool) (ones : Nat) :
    (hdlcAfter unstuffed ones).flush = hdlcAfter unstuffed ones := by
  have short : (hdlcAfter unstuffed ones).bits ≠ 8 := by
    change (behindBlocks 8 unstuffed).length ≠ 8
    rw [length_behindBlocks]
    omega
  rw [HdlcState.flush, if_neg short]

/-- A further bit joins the incomplete byte, which is written when the bit completes it. -/
theorem flush_concat (unstuffed : List Bool) (bit : Bool) (ones : Nat) :
    HdlcState.flush
      { out := hexBytes (lsbBytes unstuffed)
        obyte := msbValue (behindBlocks 8 unstuffed ++ [bit]).reverse
        bits := (behindBlocks 8 unstuffed).length + 1
        ones := ones } = hdlcAfter (unstuffed ++ [bit]) ones := by
  have rest := length_behindBlocks 8 unstuffed
  rw [HdlcState.flush, hdlcAfter, lsbBytes_concat, behindBlocks_concat (by decide)]
  by_cases complete : (unstuffed.length + 1) % 8 = 0
  · have eight : (behindBlocks 8 unstuffed).length + 1 = 8 := by omega
    have byte : (behindBlocks 8 unstuffed ++ [bit]).reverse.length = 8 := by
      rw [List.length_reverse, List.length_append, List.length_singleton, eight]
    have digits : zfill 2 (hexDigits (msbValue (behindBlocks 8 unstuffed ++ [bit]).reverse)) =
        hexByte (byteOf (behindBlocks 8 unstuffed ++ [bit]).reverse) := by
      rw [← toNat_byteOf byte, zfill_hexDigits]
    rw [if_pos eight, if_pos complete, if_pos complete, digits, hexBytes, hexBytes,
      List.flatMap_append, List.flatMap_singleton]
    rfl
  · have short : (behindBlocks 8 unstuffed).length + 1 ≠ 8 := by omega
    rw [if_neg short, if_neg complete, if_neg complete, List.length_append, List.length_singleton]

/-- The bit of the current byte that a one sets. -/
theorem obyte_or (rest : List Bool) :
    msbValue rest.reverse ||| (1 <<< rest.length) = msbValue (rest ++ [true]).reverse := by
  have below := msbValue_lt rest.reverse
  rw [List.length_reverse] at below
  rw [List.reverse_concat, msbValue_cons, List.length_reverse, Nat.or_comm, Nat.shiftLeft_eq,
    Nat.one_mul]
  have sum := Nat.two_pow_add_eq_or_of_lt below 1
  rw [Nat.mul_one] at sum
  rw [← sum]
  change _ = 1 * 2 ^ rest.length + _
  rw [Nat.one_mul]

/-- The bit of the current byte that a zero leaves. -/
theorem obyte_zero (rest : List Bool) :
    msbValue (rest ++ [false]).reverse = msbValue rest.reverse := by
  rw [List.reverse_concat, msbValue_cons]
  exact (congrArg (· + _) (Nat.zero_mul _)).trans (Nat.zero_add _)

/-- One iteration: a zero behind five ones ends the run only, any other bit joins the byte. -/
theorem hdlcStep_bitSample (bits : List Bool) (bit : Bool) :
    hdlcStep (hdlcAfter (unstuff 5 bits) (trailingOnes bits)) (bitSample bit) =
      hdlcAfter (unstuff 5 (bits ++ [bit])) (trailingOnes (bits ++ [bit])) := by
  rw [unstuff_concat, trailingOnes_concat, hdlcStep]
  cases bit with
  | false =>
    have zero : bitSample false = 0 := rfl
    rw [if_pos zero, if_neg Bool.false_ne_true]
    by_cases stuffed : trailingOnes bits = 5
    · have same : ({ hdlcAfter (unstuff 5 bits) (trailingOnes bits) with
          bits := if (hdlcAfter (unstuff 5 bits) (trailingOnes bits)).ones ≠ 5 then
              (hdlcAfter (unstuff 5 bits) (trailingOnes bits)).bits + 1
            else (hdlcAfter (unstuff 5 bits) (trailingOnes bits)).bits
          ones := 0 } : HdlcState) = hdlcAfter (unstuff 5 bits) 0 := by
        simp only [hdlcAfter, stuffed, ne_eq, not_true_eq_false, ↓reduceIte]
      rw [same, flush_hdlcAfter, if_pos ⟨rfl, stuffed⟩, List.append_nil]
    · have joins : ¬ (false = false ∧ trailingOnes bits = 5) := fun both => stuffed both.2
      rw [if_neg joins, ← flush_concat, obyte_zero]
      simp only [hdlcAfter, ne_eq, stuffed, not_false_eq_true, ↓reduceIte]
  | true =>
    rw [if_neg (by decide), if_pos rfl, if_neg fun both => Bool.noConfusion both.1, ← flush_concat,
      ← obyte_or]
    rfl

/-- The variables of the loop after any bits. -/
theorem foldl_hdlcStep (bits : List Bool) :
    (bits.map bitSample).foldl hdlcStep ⟨[], 0, 0, 0⟩ =
      hdlcAfter (unstuff 5 bits) (trailingOnes bits) := by
  induction bits using List.reverseRecOn with
  | nil => rfl
  | append_singleton bits bit ih =>
    rw [List.map_append, List.foldl_append, ih]
    exact hdlcStep_bitSample bits bit

/-- The decoder writes the whole bytes of the unstuffed bits. -/
theorem hdlcDataDecode_eq (bits : List Bool) :
    hdlcDataDecode (bits.map bitSample) = hexBytes (lsbBytes (unstuff 5 bits)) := by
  rw [hdlcDataDecode, foldl_hdlcStep]
  rfl

/-- HDLC data. Of stuffed bytes with any bits behind them the decoder writes these bytes first, of
the stuffed bytes alone it writes them and nothing else, and of any bits it writes the whole bytes
that are left when each zero behind exactly five ones is removed. -/
theorem hdlc_inverse (bytes : List UInt8) (t bits : List Bool) :
    hexBytes bytes <+:
        hdlcDataDecode ((stuff 5 (bytes.flatMap lsbBits) ++ t).map bitSample) ∧
      hdlcDataDecode ((stuff 5 (bytes.flatMap lsbBits)).map bitSample) = hexBytes bytes ∧
      hdlcDataDecode (bits.map bitSample) = hexBytes (lsbBytes (unstuff 5 bits)) := by
  have returned : unstuff 5 (stuff 5 (bytes.flatMap lsbBits)) = bytes.flatMap lsbBits :=
    unstuff_stuff (by decide) _
  refine ⟨?_, ?_, hdlcDataDecode_eq bits⟩
  · obtain ⟨more, whole⟩ := unstuff_prefix 5 (stuff 5 (bytes.flatMap lsbBits)) t
    rw [returned] at whole
    rw [hdlcDataDecode_eq, ← whole, lsbBytes_append, hexBytes, hexBytes, List.flatMap_append]
    exact List.prefix_append _ _
  · have all := lsbBytes_append bytes []
    rw [List.append_nil] at all
    rw [hdlcDataDecode_eq, returned, all]
    exact congrArg hexBytes (List.append_nil bytes)

/-- A byte with six ones in a row, which is sent with a zero behind the fifth. -/
example : hdlcDataDecode ((stuff 5 (lsbBits 0x7e)).map bitSample) = "7e".toList := by decide

end GrReveng.PatternDump
