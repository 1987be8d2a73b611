import GrReveng.Library.BitPacking
import GrReveng.Library.PyText
import Mathlib.Algebra.Order.Field.Rat
import Mathlib.Data.List.Induction

/-!
# Numerals

Numerals in the bases up to sixteen, with lower-case digits, and the numbers they denote. A
numeral that `str` prints reads back with `int`, a fraction padded with zeros reads back behind a
point, and the digits of some bytes denote the number of their bits.
-/

namespace GrReveng.Python

/-- The number that a digit denotes in a base up to sixteen. -/
def digitOf (base : Nat) (c : Char) : Option Nat :=
  (List.range base).find? fun digit => hexDigit digit = c

/-- The number that a text of digits denotes. -/
def numeralValue (base : Nat) (text : Text) : Option Nat :=
  text.foldlM (fun value c => (digitOf base c).map fun digit => base * value + digit) 0

/-- Different numbers below sixteen have different digits. -/
theorem hexDigit_inj :
    ∀ left < 16, ∀ right < 16, hexDigit left = hexDigit right → left = right := by
  decide

/-- A digit denotes its number. -/
theorem digitOf_hexDigit {base digit : Nat} (small : digit < base) (bound : base ≤ 16) :
    digitOf base (hexDigit digit) = some digit := by
  rw [digitOf, List.find?_range_eq_some]
  refine ⟨by simp, List.mem_range.mpr small, fun other smaller => ?_⟩
  have different : hexDigit other ≠ hexDigit digit := fun same =>
    absurd (hexDigit_inj other (by omega) digit (by omega) same) (Nat.ne_of_lt smaller)
  simpa using different

/-- One digit more multiplies the number by the base and adds its own. -/
theorem numeralValue_concat (base : Nat) (text : Text) (c : Char) :
    numeralValue base (text ++ [c]) = (numeralValue base text).bind fun value =>
      (digitOf base c).map fun digit => base * value + digit := by
  rw [numeralValue, List.foldlM_append]
  simp [numeralValue]

/-- One digit more, below the base. -/
theorem numeralValue_digit {base digit value : Nat} {text : Text} (small : digit < base)
    (bound : base ≤ 16) (front : numeralValue base text = some value) :
    numeralValue base (text ++ [hexDigit digit]) = some (base * value + digit) := by
  rw [numeralValue_concat, front, digitOf_hexDigit small bound]
  rfl

/-- The numeral of a number denotes it. -/
theorem numeralValue_toDigits {base : Nat} (two : 2 ≤ base) (bound : base ≤ 16) (n : Nat) :
    numeralValue base (Nat.toDigits base n) = some n := by
  induction n using Nat.strong_induction_on with
  | h n ih =>
    have single : ∀ digit < base, numeralValue base [hexDigit digit] = some digit := by
      intro digit small
      have one := @numeralValue_digit base digit 0 [] small bound rfl
      rw [List.nil_append, Nat.mul_zero, Nat.zero_add] at one
      exact one
    rw [Nat.toDigits_eq_if (by omega)]
    split
    · next small => exact single n small
    · next large =>
      have front := ih (n / base) (Nat.div_lt_self (by omega) two)
      have last := numeralValue_digit (Nat.mod_lt n (by omega)) bound front
      rw [Nat.div_add_mod] at last
      exact last

/-- The digits of the numbers below ten. -/
theorem hexDigit_of_decimal_char {c : Char} (low : '0' ≤ c) (high : c ≤ '9') :
    c.toNat - '0'.toNat < 10 ∧ hexDigit (c.toNat - '0'.toNat) = c := by
  have least : 48 ≤ c.toNat := low
  have most : c.toNat ≤ 57 := high
  have zero : '0'.toNat = 48 := rfl
  have small : c.toNat - '0'.toNat < 10 := by omega
  have same : (hexDigit (c.toNat - '0'.toNat)).toNat = c.toNat := by
    rw [hexDigit, Nat.toNat_digitChar_of_lt_ten small]
    omega
  exact ⟨small, Char.toNat_inj.mp same⟩

/-- A digit of `int` in a base up to ten. -/
theorem digitValue_eq_digitOf {base : Nat} (bound : base ≤ 10) (c : Char) :
    digitValue base c = digitOf base c := by
  have decimals : ∀ digit < 10, '0' ≤ hexDigit digit ∧ hexDigit digit ≤ '9' := by decide
  rw [digitValue]
  split
  · next inside =>
    obtain ⟨-, digit⟩ := hexDigit_of_decimal_char inside.1 inside.2.1
    have found := digitOf_hexDigit inside.2.2 (by omega : base ≤ 16)
    rw [digit] at found
    exact found.symm
  · next outside =>
    symm
    rw [digitOf, List.find?_range_eq_none]
    intro digit small
    have different : hexDigit digit ≠ c := by
      intro same
      have range := decimals digit (by omega)
      rw [same] at range
      have here := hexDigit_of_decimal_char range.1 range.2
      have number := hexDigit_inj _ (by omega) digit (by omega) (here.2.trans same.symm)
      exact outside ⟨range.1, range.2, by omega⟩
    simpa using different

/-- A numeral of `int` in a base up to ten. -/
theorem digitsValue_eq_numeralValue {base : Nat} (bound : base ≤ 10) {text : Text}
    (some : text ≠ []) : digitsValue base text = numeralValue base text := by
  rw [digitsValue, if_neg some, numeralValue]
  congr 1
  funext value c
  rw [digitValue_eq_digitOf bound]

/-- The numeral of a negative number. -/
theorem decimal_neg {n : Int} (negative : n < 0) : decimal n = '-' :: decimal (-n).toNat := by
  rw [decimal_natCast, decimal, Int.toString_eq_repr, Int.repr_eq_if, if_neg (by omega)]
  simp

/-- The characters of a numeral. -/
theorem mem_decimal {n : Int} {c : Char} (member : c ∈ decimal n) : c.isDigit = true ∨ c = '-' := by
  by_cases negative : n < 0
  · rw [decimal_neg negative] at member
    cases List.mem_cons.mp member with
    | inl sign => exact .inr sign
    | inr digit => exact .inl (isDigit_of_mem_decimal digit)
  · rw [← Int.toNat_of_nonneg (by omega : 0 ≤ n)] at member
    exact .inl (isDigit_of_mem_decimal member)

/-- A numeral has characters. -/
theorem decimal_some (n : Int) : decimal n ≠ [] := by
  by_cases negative : n < 0
  · rw [decimal_neg negative]
    exact List.cons_ne_nil _ _
  · rw [← Int.toNat_of_nonneg (by omega : 0 ≤ n)]
    exact decimal_ne_nil n.toNat

/-- A digit is no white space and no sign. -/
theorem digit_facts {c : Char} (digit : c.isDigit = true) :
    isSpace c = false ∧ c ≠ '-' ∧ c ≠ '+' := by
  have range : 48 ≤ c.toNat ∧ c.toNat ≤ 57 := Char.isDigit_iff_toNat.mp digit
  have minus : '-'.toNat = 45 := rfl
  have plus : '+'.toNat = 43 := rfl
  refine ⟨decide_eq_false (by omega), ?_, ?_⟩ <;> rintro rfl <;> omega

/-- Nothing is stripped from a text without white space. -/
theorem strip_eq {text : Text} (free : ∀ c ∈ text, isSpace c = false) :
    ((text.dropWhile isSpace).reverse.dropWhile isSpace).reverse = text := by
  have behind : ∀ c ∈ text.reverse, isSpace c = false := fun c member =>
    free c (List.mem_reverse.mp member)
  rw [dropWhile_of_free free, dropWhile_of_free behind, List.reverse_reverse]

/-- `int` of digits. -/
theorem pyInt_of_digits {base n : Nat} (bound : base ≤ 10) {text : Text}
    (digits : ∀ c ∈ text, c.isDigit = true) (given : text ≠ [])
    (value : numeralValue base text = some n) : pyInt base text = .ok n := by
  have free := fun c member => (digit_facts (digits c member)).1
  have number := (digitsValue_eq_numeralValue bound given).trans value
  unfold pyInt
  rw [strip_eq free]
  cases text with
  | nil => exact absurd rfl given
  | cons c rest =>
    obtain ⟨-, minus, plus⟩ := digit_facts (digits c List.mem_cons_self)
    simp [number, minus, plus]

/-- `int` of digits behind a minus sign. -/
theorem pyInt_of_negative {base n : Nat} (bound : base ≤ 10) {text : Text}
    (digits : ∀ c ∈ text, c.isDigit = true) (given : text ≠ [])
    (value : numeralValue base text = some n) : pyInt base ('-' :: text) = .ok (-n) := by
  have free : ∀ c ∈ text, isSpace c = false := fun c member => (digit_facts (digits c member)).1
  have signed : ∀ c ∈ '-' :: text, isSpace c = false := by
    intro c member
    cases List.mem_cons.mp member with
    | inl sign => rw [sign]; rfl
    | inr digit => exact free c digit
  have number := (digitsValue_eq_numeralValue bound given).trans value
  unfold pyInt
  rw [strip_eq signed]
  simp [dropWhile_of_free free, number]

/-- The decimal numeral of a natural number denotes it. -/
theorem numeralValue_decimal (n : Nat) : numeralValue 10 (decimal n) = some n := by
  rw [decimal_natCast]
  exact numeralValue_toDigits (by decide) (by decide) n

/-- `int` reads back what `str` prints. -/
theorem pyInt_decimal (n : Int) : pyInt 10 (decimal n) = .ok n := by
  have digits : ∀ k : Nat, ∀ c ∈ decimal k, c.isDigit = true := fun k c => isDigit_of_mem_decimal
  by_cases negative : n < 0
  · have magnitude := pyInt_of_negative (by decide) (digits _) (decimal_ne_nil _)
      (numeralValue_decimal (-n).toNat)
    rw [decimal_neg negative, magnitude]
    congr 1
    omega
  · rw [← Int.toNat_of_nonneg (by omega : 0 ≤ n)]
    exact pyInt_of_digits (by decide) (digits _) (decimal_ne_nil _) (numeralValue_decimal n.toNat)

/-- Different numbers have different numerals. -/
theorem decimal_injective {left right : Int} (same : decimal left = decimal right) :
    left = right := by
  have read := pyInt_decimal left
  rw [same, pyInt_decimal] at read
  exact (Except.ok.inj read).symm

/-- The number that a decimal numeral denotes, with or without a point in it. -/
def pointValue (text : Text) : Option ℚ :=
  match text.splitOn '.' with
  | [whole] => (digitsValue 10 whole).map fun n : Nat => (n : ℚ)
  | [whole, fraction] => do
    let n ← digitsValue 10 whole
    let part ← digitsValue 10 fraction
    return (n : ℚ) + part / 10 ^ fraction.length
  | _ => none

/-- Zeros in front of a numeral do not change its number. -/
theorem numeralValue_zeros {base : Nat} (positive : 0 < base) (bound : base ≤ 16) (count : Nat)
    (text : Text) :
    numeralValue base (List.replicate count '0' ++ text) = numeralValue base text := by
  induction count with
  | zero => rfl
  | succ count ih =>
    have zero : digitOf base '0' = some 0 := digitOf_hexDigit positive bound
    rw [← ih, List.replicate_succ, List.cons_append, numeralValue, List.foldlM_cons, zero]
    rfl

/-- A number below a power of ten has at most as many digits. -/
theorem length_decimal_le {n width : Nat} (positive : 0 < width) (small : n < 10 ^ width) :
    (decimal n).length ≤ width := by
  rw [decimal_natCast]
  exact (Nat.length_toDigits_le_iff (by decide) positive).mpr small

/-- Filling up with zeros gives the wanted length. -/
theorem length_zfill {width : Nat} {text : Text} (fits : text.length ≤ width) :
    (zfill width text).length = width := by
  rw [zfill, List.length_append, List.length_replicate]
  omega

/-- A numeral filled up with zeros denotes its number. -/
theorem digitsValue_zfill (width n : Nat) : digitsValue 10 (zfill width (decimal n)) = some n := by
  have given : zfill width (decimal n) ≠ [] := by
    rw [zfill]
    exact List.append_ne_nil_of_right_ne_nil _ (decimal_ne_nil n)
  rw [digitsValue_eq_numeralValue (by decide) given, zfill,
    numeralValue_zeros (by decide) (by decide), numeralValue_decimal]

/-- There is no point in a filled up numeral. -/
theorem point_not_mem_zfill (width n : Nat) : '.' ∉ zfill width (decimal n) := by
  intro member
  rw [zfill, List.mem_append] at member
  cases member with
  | inl zero => exact absurd (List.eq_of_mem_replicate zero) (by decide)
  | inr digit => exact absurd (isDigit_of_mem_decimal digit) (by decide)

/-- Behind the point, a numeral filled up to some places is the number of units of the last one. -/
theorem pointValue_zfill {width part : Nat} (whole : Nat) (positive : 0 < width)
    (small : part < 10 ^ width) :
    pointValue (decimal whole ++ '.' :: zfill width (decimal part)) =
      some ((whole : ℚ) + part / 10 ^ width) := by
  have free : '.' ∉ decimal whole := by simpa [zfill] using point_not_mem_zfill 0 whole
  have units : digitsValue 10 (decimal whole) = some whole := by
    simpa [zfill] using digitsValue_zfill 0 whole
  have places := length_zfill (length_decimal_le positive small)
  rw [pointValue, List.splitOn_append_cons_self, List.splitOn_eq_singleton free,
    List.splitOn_eq_singleton (point_not_mem_zfill width part)]
  simp [units, digitsValue_zfill, places]

/-- The binary numeral of some bits. -/
def binary (bits : List Bool) : Text := bits.map fun bit => hexDigit bit.toNat

/-- A binary numeral has a digit for each bit. -/
@[simp] theorem length_binary (bits : List Bool) : (binary bits).length = bits.length :=
  List.length_map _

/-- The digits of a binary numeral. -/
theorem mem_binary {bits : List Bool} {c : Char} (member : c ∈ binary bits) :
    c = '0' ∨ c = '1' := by
  obtain ⟨bit, -, rfl⟩ := List.mem_map.mp member
  cases bit with
  | false => exact .inl rfl
  | true => exact .inr rfl

/-- A binary numeral denotes the number of its bits. -/
theorem numeralValue_binary (bits : List Bool) :
    numeralValue 2 (binary bits) = some (msbValue bits) := by
  induction bits using List.reverseRecOn with
  | nil => rfl
  | append_singleton bits bit ih =>
    have last := numeralValue_digit (Nat.lt_succ_of_le bit.toNat_le) (by decide) ih
    rw [binary, List.map_append, msbValue_concat]
    exact last

/-- `int` of a binary numeral. -/
theorem pyInt_binary {bits : List Bool} (given : bits ≠ []) :
    pyInt 2 (binary bits) = .ok (msbValue bits) := by
  apply pyInt_of_digits (by decide)
  · intro c member
    cases mem_binary member with
    | inl zero => rw [zero]; rfl
    | inr one => rw [one]; rfl
  · simpa [binary] using given
  · exact numeralValue_binary bits

/-- Two digits for each byte. -/
@[simp] theorem length_hexBytes (bytes : List UInt8) :
    (hexBytes bytes).length = 2 * bytes.length := by
  induction bytes with
  | nil => rfl
  | cons byte bytes ih =>
    rw [hexBytes, List.flatMap_cons, List.length_append, length_hexByte, ← hexBytes, ih,
      List.length_cons]
    omega

/-- The digits of some bytes denote the number of their bits. -/
theorem numeralValue_hexBytes (bytes : List UInt8) :
    numeralValue 16 (hexBytes bytes) = some (msbValue (unpackBytes bytes)) := by
  induction bytes using List.reverseRecOn with
  | nil => rfl
  | append_singleton bytes byte ih =>
    have small := byte.toNat_lt
    have high := numeralValue_digit (by omega : byte.toNat / 16 < 16) (by decide) ih
    have low := numeralValue_digit (by omega : byte.toNat % 16 < 16) (by decide) high
    rw [List.append_assoc] at low
    have bits : msbValue (unpackBytes [byte]) = byte.toNat := by
      rw [unpackBytes, List.flatMap_singleton, byteBits, msbValue_msbBits]
      exact Nat.mod_eq_of_lt small
    have text : hexBytes (bytes ++ [byte]) =
        hexBytes bytes ++ ([hexDigit (byte.toNat / 16)] ++ [hexDigit (byte.toNat % 16)]) := by
      rw [hexBytes, List.flatMap_append, List.flatMap_singleton]
      rfl
    rw [text, low, unpackBytes_append, msbValue_append, bits, length_unpackBytes]
    congr 1
    simp only [List.length_singleton]
    omega

end GrReveng.Python
