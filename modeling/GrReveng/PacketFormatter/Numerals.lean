import GrReveng.PacketFormatter.Variables

/-!
# The numbers of a selection

`bits`, `hex` and `int` show the same bits. The text of `bits` is their binary numeral and that of
`int` the decimal numeral of the same number; the text of `hex` has two digits for each byte that is
begun, and denotes this number with the zeros behind the last bit. So `hex` and `int` determine
each other and the bits, given how many bits there are.
-/

namespace GrReveng.PacketFormatter

open Python

/-- The text of `int` from that of `hex` and the number of bits. -/
def intOfHex (n : Nat) (hex : Text) : Option Text :=
  (numeralValue 16 hex).map fun value => decimal (value / 2 ^ (8 * ((n + 7) / 8) - n) : Nat)

/-- The text of `hex` from that of `int` and the number of bits. -/
def hexOfInt (n : Nat) (int : Text) : Option Text :=
  (numeralValue 10 int).map fun value =>
    hexBytes (packBytes (msbBits (8 * ((n + 7) / 8)) (value * 2 ^ (8 * ((n + 7) / 8) - n))))

/-- Three texts denote some bits: in binary, as their bytes, and in decimal. -/
structure Denote (selected : List Bool) (bits hex int : Text) : Prop where
  /-- The first text is the numeral of the bits. -/
  binary : bits = binary selected
  /-- It has a digit for each bit. -/
  bits_length : bits.length = selected.length
  /-- It denotes the number of the bits. -/
  bits_value : numeralValue 2 bits = some (msbValue selected)
  /-- The second text has two digits for each byte that is begun. -/
  hex_length : hex.length = 2 * ((selected.length + 7) / 8)
  /-- They are digits in lower case. -/
  hex_digits : ∀ c ∈ hex, c ∈ "0123456789abcdef".toList
  /-- They denote the same number, with the zeros that fill up the last byte. -/
  hex_value : numeralValue 16 hex =
    some (msbValue selected * 2 ^ (8 * ((selected.length + 7) / 8) - selected.length))
  /-- The third text is the decimal numeral of this number. -/
  int_decimal : int = decimal (msbValue selected)
  /-- The third text can be recovered from the second. -/
  int_of_hex : intOfHex selected.length hex = some int
  /-- The second text can be recovered from the third. -/
  hex_of_int : hexOfInt selected.length int = some hex

/-- The zeros behind the last byte fill it up. -/
theorem padding_eq (n : Nat) : padding n = 8 * ((n + 7) / 8) - n := by
  rw [padding]
  omega

/-- The digits of bytes are in lower case. -/
theorem hexDigit_mem : ∀ digit < 16, hexDigit digit ∈ "0123456789abcdef".toList := by decide

/-- The number that the bytes of a selection denote. -/
theorem msbValue_padded (selected : List Bool) :
    msbValue (selected ++ List.replicate (padding selected.length) false) =
      msbValue selected * 2 ^ (8 * ((selected.length + 7) / 8) - selected.length) := by
  rw [msbValue_append, msbValue_zeros, Nat.add_zero, List.length_replicate, padding_eq]

/-- The digits of the bytes of a selection denote the number of the bits and the zeros. -/
theorem numeralValue_hex (selected : List Bool) :
    numeralValue 16 (hexBytes (packbits (selected.map bitByte))) =
      some (msbValue selected * 2 ^ (8 * ((selected.length + 7) / 8) - selected.length)) := by
  rw [numeralValue_hexBytes, unpackBytes_packbits, msbValue_padded]

/-- The bytes of a selection are those of its number with the zeros. -/
theorem packBytes_msbBits (selected : List Bool) :
    packBytes (msbBits (8 * ((selected.length + 7) / 8))
      (msbValue selected * 2 ^ (8 * ((selected.length + 7) / 8) - selected.length))) =
        packbits (selected.map bitByte) := by
  have width : (selected ++ List.replicate (padding selected.length) false).length =
      8 * ((selected.length + 7) / 8) := by
    rw [List.length_append, List.length_replicate, padding_eq]
    omega
  rw [← msbValue_padded, ← width, msbBits_msbValue, packbits_bits]

/-- The texts of a selection denote it. -/
theorem denote_texts (selected : List Bool) :
    Denote selected (binary selected) (hexBytes (packbits (selected.map bitByte)))
      (decimal (msbValue selected)) where
  binary := rfl
  bits_length := length_binary selected
  bits_value := numeralValue_binary selected
  hex_length := by rw [length_hexBytes, length_packbits]
  hex_digits := by
    intro c member
    obtain ⟨digit, small, rfl⟩ := mem_hexBytes member
    exact hexDigit_mem digit small
  hex_value := numeralValue_hex selected
  int_decimal := rfl
  int_of_hex := by
    rw [intOfHex, numeralValue_hex, Option.map_some,
      Nat.mul_div_cancel _ (Nat.two_pow_pos _)]
  hex_of_int := by
    rw [hexOfInt, numeralValue_decimal, Option.map_some, packBytes_msbBits]

/-- Selections of one length with the same bytes are equal. -/
theorem eq_of_hex {left right : List Bool} (length : left.length = right.length)
    (same : hexBytes (packbits (left.map bitByte)) = hexBytes (packbits (right.map bitByte))) :
    left = right := by
  have values := congrArg (numeralValue 16) same
  rw [numeralValue_hex, numeralValue_hex, length] at values
  apply eq_of_msbValue_eq length
  exact Nat.eq_of_mul_eq_mul_right (Nat.two_pow_pos _) (Option.some.inj values)

/-- Selections of one length with the same number are equal. -/
theorem eq_of_int {left right : List Bool} (length : left.length = right.length)
    (same : decimal (msbValue left) = decimal (msbValue right)) : left = right :=
  eq_of_msbValue_eq length (Int.ofNat.inj (decimal_injective same))

/-- The bits, their bytes and their number, as the format shows a selection that is not empty,
denote the same bits; and a selection of the same length that is shown with the same bytes, or as
the same number, has the same bits. -/
theorem selection_denoted (metadata : Entries) (place : Address) (bits : List Bool)
    (given : place.selected bits ≠ []) :
    ∃ binaryText hexText intText,
      formatOutput (variableOf .bits place) metadata (packet bits) = .ok binaryText ∧
      formatOutput (variableOf .hex place) metadata (packet bits) = .ok hexText ∧
      formatOutput (variableOf .int place) metadata (packet bits) = .ok intText ∧
      Denote (place.selected bits) binaryText hexText intText ∧
      ∀ metadata' place' bits',
        (Address.selected place' bits').length = (place.selected bits).length →
        formatOutput (variableOf .hex place') metadata' (packet bits') = .ok hexText ∨
          formatOutput (variableOf .int place') metadata' (packet bits') = .ok intText →
        place'.selected bits' = place.selected bits := by
  refine ⟨binary (place.selected bits), hexBytes (packbits ((place.selected bits).map bitByte)),
    decimal (msbValue (place.selected bits)), ?_, ?_, ?_, denote_texts _, ?_⟩
  · rw [formatOutput_variableOf, shown_bits]
  · rw [formatOutput_variableOf]
    rfl
  · rw [formatOutput_variableOf, shown_int given]
  · intro metadata' place' bits' length texts
    rw [formatOutput_variableOf, formatOutput_variableOf] at texts
    cases texts with
    | inl hex => exact eq_of_hex length (Except.ok.inj hex)
    | inr int =>
      have given' : place'.selected bits' ≠ [] := by
        rw [← List.length_pos_iff_ne_nil, length]
        exact List.length_pos_of_ne_nil given
      rw [shown_int given'] at int
      exact eq_of_int length (Except.ok.inj int)

/-- Three bits of a packet, with leading zeros and not a whole byte. -/
theorem selection_denoted_bits :
    ∃ binaryText hexText intText,
      formatOutput (variableOf .bits (.starting (-3))) [] (packet [true, false, true, true]) =
        .ok binaryText ∧
      formatOutput (variableOf .hex (.starting (-3))) [] (packet [true, false, true, true]) =
        .ok hexText ∧
      formatOutput (variableOf .int (.starting (-3))) [] (packet [true, false, true, true]) =
        .ok intText ∧
      Denote [false, true, true] binaryText hexText intText := by
  obtain ⟨binaryText, hexText, intText, first, second, third, denoted, -⟩ :=
    selection_denoted [] (.starting (-3)) [true, false, true, true] (by decide)
  exact ⟨binaryText, hexText, intText, first, second, third, denoted⟩

end GrReveng.PacketFormatter
