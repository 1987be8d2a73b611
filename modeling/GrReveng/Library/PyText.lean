import Mathlib.Algebra.Order.Ring.Int
import Mathlib.Data.List.Infix
import Mathlib.Data.Rat.Defs

/-!
# Byte strings of Python 2

The string operations, slices and number formats of Python 2 that a program about text uses. A
byte string is the list of its characters. Operations that can raise return an error of the
exception class.
-/

namespace GrReveng.Python

/-- Exception classes below `StandardError`. -/
inductive PyError
  /-- `IndexError`. -/
  | indexError
  /-- `ValueError`. -/
  | valueError
  /-- `TypeError`. -/
  | typeError
  /-- `AttributeError`. -/
  | attributeError
  /-- `OverflowError`. -/
  | overflowError
  /-- `IOError`. -/
  | ioError
  deriving DecidableEq

/-- A byte string. -/
abbrev Text := List Char

/-- `text.replace(old, new, 1)` for an old text that is not empty. -/
def replaceFirst (old new : Text) : Text → Text
  | [] => []
  | c :: rest =>
    if old <+: c :: rest then new ++ (c :: rest).drop old.length
    else c :: replaceFirst old new rest

/-- `text.replace(old, new)` for an old text of two characters. -/
def replacePairs (first second : Char) (new : Text) : Text → Text
  | c :: d :: rest =>
    if c = first ∧ d = second then new ++ replacePairs first second new rest
    else c :: replacePairs first second new (d :: rest)
  | [c] => [c]
  | [] => []

/-- A text without the two characters stays as it is. -/
theorem replacePairs_of_absent {first second : Char} {text : Text}
    (absent : ¬[first, second] <:+: text) (new : Text) :
    replacePairs first second new text = text := by
  fun_induction replacePairs first second new text with
  | case1 c d rest same ih => exact absurd ⟨[], rest, by rw [same.1, same.2]; rfl⟩ absent
  | case2 c d rest other ih => rw [ih fun inside => absent (List.infix_cons inside)]
  | case3 c => rfl
  | case4 => rfl

/-- `text.rstrip(c)` for one character. -/
def rstrip (c : Char) (text : Text) : Text := (text.reverse.dropWhile fun d => d = c).reverse

/-- The contained text of a match of `%\(([^\)]+)\)` at the beginning of a text. -/
def placeholderHere : Text → Option Text
  | '%' :: '(' :: rest =>
    let inside := rest.takeWhile fun c => c ≠ ')'
    if inside ≠ [] ∧ inside.length < rest.length then some inside else none
  | _ => none

/-- The contained texts of the leftmost non-overlapping matches of `%\(([^\)]+)\)`. The number
counts the characters that the current match still covers. -/
def placeholdersBehind : Nat → Text → List Text
  | _, [] => []
  | covered + 1, _ :: rest => placeholdersBehind covered rest
  | 0, c :: rest =>
    match placeholderHere (c :: rest) with
    | some inside => inside :: placeholdersBehind (inside.length + 2) rest
    | none => placeholdersBehind 0 rest

/-- The first groups of `re.finditer(r'%\(([^\)]+)\)', text)`. -/
def placeholders (text : Text) : List Text := placeholdersBehind 0 text

/-- The whole match of a first group. -/
def wholeMatch (inside : Text) : Text := '%' :: '(' :: inside ++ [')']

/-- A bound of a slice of `length` elements, clipped as Python clips it. -/
def sliceBound (length : Nat) (bound : Int) : Nat :=
  if bound < 0 then (bound + length).toNat else min bound.toNat length

/-- `xs[start:stop]`. -/
def slice {α : Type} (start stop : Option Int) (xs : List α) : List α :=
  let first := (start.map (sliceBound xs.length)).getD 0
  let last := (stop.map (sliceBound xs.length)).getD xs.length
  (xs.drop first).take (last - first)

/-- `xs[k]`, or nothing where it raises `IndexError`. -/
def item {α : Type} (k : Int) (xs : List α) : Option α :=
  if 0 ≤ k then xs[k.toNat]?
  else if -(xs.length : Int) ≤ k then xs[(k + xs.length).toNat]?
  else none

/-! ## Numbers -/

/-- White space of the C locale. -/
def isSpace (c : Char) : Bool := c.toNat = 32 ∨ 9 ≤ c.toNat ∧ c.toNat ≤ 13

/-- The value of a digit character below a base. -/
def digitValue (base : Nat) (c : Char) : Option Nat :=
  if '0' ≤ c ∧ c ≤ '9' ∧ c.toNat - '0'.toNat < base then some (c.toNat - '0'.toNat) else none

/-- The value of a numeral that is not empty. -/
def digitsValue (base : Nat) (digits : Text) : Option Nat :=
  if digits = [] then none
  else digits.foldlM (fun value c => (digitValue base c).map fun d => base * value + d) 0

/-- `int(text, base)` without the prefixes of a base: white space around the number and behind
its sign is allowed. -/
def pyInt (base : Nat) (text : Text) : Except PyError Int :=
  let stripped := ((text.dropWhile isSpace).reverse.dropWhile isSpace).reverse
  let value := match stripped with
    | '-' :: rest => (digitsValue base (rest.dropWhile isSpace)).map fun n : Nat => -(n : Int)
    | '+' :: rest => (digitsValue base (rest.dropWhile isSpace)).map fun n : Nat => (n : Int)
    | rest => (digitsValue base rest).map fun n : Nat => (n : Int)
  match value with
  | some n => .ok n
  | none => .error .valueError

/-- `str(n)` of an integer. -/
def decimal (n : Int) : Text := (toString n).toList

/-- The hexadecimal digit of a value below sixteen. -/
def hexDigit (n : Nat) : Char := (Nat.digitChar n)

/-- `'%02x' % byte`. -/
def hexByte (byte : UInt8) : Text := [hexDigit (byte.toNat / 16), hexDigit (byte.toNat % 16)]

/-- `hex(n)[2:]`. -/
def hexDigits (n : Nat) : Text := Nat.toDigits 16 n

/-- `text.zfill(width)` of a text without a sign. -/
def zfill (width : Nat) (text : Text) : Text := List.replicate (width - text.length) '0' ++ text

/-- `xrange(0, stop, step)`. -/
def xrange (stop step : Nat) : List Nat := (List.range ((stop + step - 1) / step)).map (step * ·)

/-- The quotient rounded to the nearest integer, and to the even one of two. -/
def roundHalfEven (dividend divisor : Nat) : Nat :=
  let quotient := dividend / divisor
  let rest := dividend % divisor
  if 2 * rest < divisor ∨ (2 * rest = divisor ∧ quotient % 2 = 0) then quotient else quotient + 1

/-- A double. -/
inductive Double
  /-- A number; zero has two signs. -/
  | finite (negative : Bool) (magnitude : ℚ)
  /-- An infinity. -/
  | infinite (negative : Bool)
  /-- Not a number. -/
  | nan

/-- `float(n)` of an integer: fifty-three significant bits, rounded half to even. -/
def Double.ofInt (n : Int) : Except PyError Double :=
  let bits := n.natAbs.log2 + 1
  let unit := 2 ^ (bits - 53)
  let magnitude := roundHalfEven n.natAbs unit * unit
  if magnitude < 2 ^ 1024 then .ok (.finite (n < 0) magnitude) else .error .overflowError

/-- `'%.6f' % x`. -/
def Double.fixedSix : Double → Text
  | finite negative magnitude =>
    let millionths := roundHalfEven (magnitude.num.natAbs * 10 ^ 6) magnitude.den
    let fraction := decimal (millionths % 10 ^ 6 : Nat)
    (if negative then ['-'] else []) ++ decimal (millionths / 10 ^ 6 : Nat) ++
      '.' :: (List.replicate (6 - fraction.length) '0' ++ fraction)
  | infinite negative => (if negative then ['-'] else []) ++ ['i', 'n', 'f']
  | nan => ['n', 'a', 'n']

/-- The character `\`. -/
def backslash : Char := Char.ofNat 92

/-- The single quote. -/
def singleQuote : Char := Char.ofNat 39

/-- The double quote. -/
def doubleQuote : Char := Char.ofNat 34

/-- One character of `repr(text)` between these quotes. -/
def reprChar (quote c : Char) : Text :=
  if c = quote ∨ c = backslash then [backslash, c]
  else if c.toNat = 9 then [backslash, 't']
  else if c.toNat = 10 then [backslash, 'n']
  else if c.toNat = 13 then [backslash, 'r']
  else if c.toNat < 32 ∨ 127 ≤ c.toNat then backslash :: 'x' :: hexByte (UInt8.ofNat c.toNat)
  else [c]

/-- `repr(text)` without its quotes, which are double when the text has single quotes only. -/
def reprInside (text : Text) : Text :=
  let quote := if singleQuote ∈ text ∧ doubleQuote ∉ text then doubleQuote else singleQuote
  text.flatMap (reprChar quote)

/-- `''.join(['%02x' % byte for byte in bytes])`. -/
def hexBytes (bytes : List UInt8) : Text := bytes.flatMap hexByte

/-- The character at the end is stripped. -/
theorem rstrip_concat (c : Char) (text : Text) : rstrip c (text ++ [c]) = rstrip c text := by
  simp [rstrip]

/-- Nothing is dropped from a text whose characters all stay. -/
theorem dropWhile_of_free {drops : Char → Bool} {text : Text}
    (free : ∀ c ∈ text, drops c = false) : text.dropWhile drops = text := by
  cases text with
  | nil => rfl
  | cons c rest => rw [List.dropWhile_cons_of_neg (by simp [free c List.mem_cons_self])]

/-- Nothing is stripped from a text without the character. -/
theorem rstrip_of_not_mem {c : Char} {text : Text} (free : c ∉ text) : rstrip c text = text := by
  have stays : ∀ d ∈ text.reverse, decide (d = c) = false := by
    intro d member
    apply decide_eq_false
    intro same
    exact free (same ▸ List.mem_reverse.mp member)
  rw [rstrip, dropWhile_of_free stays, List.reverse_reverse]

/-- A slice of a mapped list. -/
theorem slice_map {α β : Type} (f : α → β) (start stop : Option Int) (xs : List α) :
    slice start stop (xs.map f) = (slice start stop xs).map f := by
  simp [slice]

/-- The whole list as a slice. -/
theorem slice_none {α : Type} (xs : List α) : slice none none xs = xs := by
  simp [slice]

/-- A bound inside of the list. -/
theorem sliceBound_inside {length n : Nat} (inside : n ≤ length) :
    sliceBound length n = n := by
  rw [sliceBound, if_neg (by omega), Int.toNat_natCast, Nat.min_eq_left inside]

/-- A bound that counts from the end of the list. -/
theorem sliceBound_behind {length n : Nat} (positive : 0 < n) :
    sliceBound length (-n) = length - n := by
  rw [sliceBound, if_pos (by omega)]
  omega

/-- The slice between two places. -/
theorem slice_between {α : Type} (front middle back : List α) :
    slice (some front.length) (some (front.length + middle.length : Nat))
      (front ++ middle ++ back) = middle := by
  have inside : front.length + middle.length ≤ (front ++ middle ++ back).length := by
    rw [List.length_append, List.length_append]
    omega
  simp only [slice, Option.map_some, Option.getD_some, sliceBound_inside inside,
    sliceBound_inside (Nat.le_of_add_right_le inside)]
  rw [List.append_assoc, List.drop_left, Nat.add_sub_cancel_left, List.take_left]

/-- The slice between a place and another one that counts from the end. -/
theorem slice_between_last {α : Type} (front middle : List α) {back : List α}
    (nonempty : back ≠ []) :
    slice (some front.length) (some (-back.length)) (front ++ middle ++ back) = middle := by
  have inside : front.length ≤ (front ++ middle ++ back).length := by
    rw [List.append_assoc, List.length_append]
    omega
  simp only [slice, Option.map_some, Option.getD_some, sliceBound_inside inside,
    sliceBound_behind (List.length_pos_iff.mpr nonempty)]
  rw [List.length_append, Nat.add_sub_cancel, List.length_append, Nat.add_sub_cancel_left,
    List.append_assoc, List.drop_left, List.take_left]

/-- The slice behind a place that counts from the end. -/
theorem slice_last {α : Type} (front : List α) {back : List α} (nonempty : back ≠ []) :
    slice (some (-back.length)) none (front ++ back) = back := by
  simp only [slice, Option.map_some, Option.map_none, Option.getD_some, Option.getD_none,
    sliceBound_behind (List.length_pos_iff.mpr nonempty)]
  rw [List.length_append, Nat.add_sub_cancel, List.drop_left, Nat.add_sub_cancel_left,
    List.take_length]

/-- Indices of a list. -/
theorem item_isSome_iff {α : Type} (k : Int) (xs : List α) :
    (item k xs).isSome ↔ -(xs.length : Int) ≤ k ∧ k < xs.length := by
  unfold item
  split
  · rw [isSome_getElem?]
    omega
  · split
    · rw [isSome_getElem?]
      omega
    · simp only [Option.isSome_none, Bool.false_eq_true, false_iff]
      omega

/-- One element of a list from an index inside of it. -/
theorem take_one_drop {α : Type} (xs : List α) (n : Nat) : (xs.drop n).take 1 = xs[n]?.toList := by
  rw [List.take_one, List.head?_drop]

/-- The slice from an index to the next one is what stands there, except at the index `-1`. The
next one is zero then, which is not behind the last element but in front of the first. -/
theorem slice_succ {α : Type} (k : Int) (xs : List α) :
    slice (some k) (some (k + 1)) xs = if k = -1 then [] else (item k xs).toList := by
  change (xs.drop (sliceBound xs.length k)).take
    (sliceBound xs.length (k + 1) - sliceBound xs.length k) = _
  by_cases last : k = -1
  · rw [if_pos last, last]
    simp [sliceBound]
  rw [if_neg last]
  by_cases natural : 0 ≤ k
  · rw [item, if_pos natural, sliceBound, if_neg (by omega), sliceBound, if_neg (by omega)]
    by_cases inside : k < xs.length
    · rw [show min (k + 1).toNat xs.length - min k.toNat xs.length = 1 by omega,
        show min k.toNat xs.length = k.toNat by omega, take_one_drop]
    · rw [show min (k + 1).toNat xs.length - min k.toNat xs.length = 0 by omega, List.take_zero,
        List.getElem?_eq_none (by omega)]
      rfl
  · rw [item, if_neg natural, sliceBound, if_pos (by omega), sliceBound, if_pos (by omega)]
    by_cases inside : -(xs.length : Int) ≤ k
    · rw [if_pos inside, show (k + 1 + xs.length).toNat - (k + xs.length).toNat = 1 by omega,
        take_one_drop]
    · rw [if_neg inside, show (k + 1 + xs.length).toNat - (k + xs.length).toNat = 0 by omega,
        List.take_zero]
      rfl

/-- The numeral of a natural number. -/
theorem decimal_natCast (n : Nat) : decimal n = Nat.toDigits 10 n := by
  rw [decimal, Int.toString_eq_repr, Int.repr_eq_if, if_pos (Int.natCast_nonneg n),
    Int.toNat_natCast, Nat.toList_repr]

/-- A numeral of a natural number has digits only. -/
theorem isDigit_of_mem_decimal {n : Nat} {c : Char} (member : c ∈ decimal n) :
    c.isDigit = true := by
  rw [decimal_natCast] at member
  exact Nat.isDigit_of_mem_toDigits (by decide) (by decide) member

/-- A numeral is not empty. -/
theorem decimal_ne_nil (n : Nat) : decimal n ≠ [] := by
  rw [decimal_natCast]
  exact Nat.toDigits_ne_nil

/-- A digit of a byte is one of sixteen. -/
theorem mem_hexByte {byte : UInt8} {c : Char} (member : c ∈ hexByte byte) :
    ∃ digit < 16, c = hexDigit digit := by
  have small := byte.toNat_lt
  cases List.mem_cons.mp member with
  | inl high => exact ⟨byte.toNat / 16, by omega, high⟩
  | inr rest => exact ⟨byte.toNat % 16, by omega, List.mem_singleton.mp rest⟩

/-- The digits of some bytes. -/
theorem mem_hexBytes {bytes : List UInt8} {c : Char} (member : c ∈ hexBytes bytes) :
    ∃ digit < 16, c = hexDigit digit := by
  obtain ⟨byte, -, digit⟩ := List.mem_flatMap.mp member
  exact mem_hexByte digit

/-- The two digits of a byte, however they are written. -/
theorem zfill_hexDigits (byte : UInt8) : zfill 2 (hexDigits byte.toNat) = hexByte byte := by
  have small := byte.toNat_lt
  rw [zfill, hexDigits, hexByte, hexDigit, hexDigit, Nat.toDigits_eq_if (by decide)]
  by_cases digit : byte.toNat < 16
  · rw [if_pos digit, Nat.div_eq_of_lt digit, Nat.mod_eq_of_lt digit]
    rfl
  · rw [if_neg digit, Nat.toDigits_of_lt_base (by omega)]
    rfl

/-- A byte has two digits. -/
@[simp] theorem length_hexByte (byte : UInt8) : (hexByte byte).length = 2 := rfl

end GrReveng.Python
