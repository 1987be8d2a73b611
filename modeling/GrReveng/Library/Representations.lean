import GrReveng.Library.Numerals

/-!
# Reading representations back

`repr` writes the printable characters of a byte string as they are and the others as escape
sequences. What it writes between its quotes is printable and can be read back, whichever quotes
it took. A text of lines is split at their ends.
-/

namespace GrReveng.Python

/-- The characters of bytes, as `chr` makes them. -/
def characters (bytes : List UInt8) : Text := bytes.map fun byte => Char.ofNat byte.toNat

/-- A text that `repr` wrote between its quotes, read back. -/
def unescape : Text → Option Text
  | [] => some []
  | c :: rest =>
    if c = backslash then
      match rest with
      | 'x' :: high :: low :: rest =>
        (numeralValue 16 [high, low]).bind fun n => (unescape rest).map (Char.ofNat n :: ·)
      | 't' :: rest => (unescape rest).map ('\t' :: ·)
      | 'n' :: rest => (unescape rest).map ('\n' :: ·)
      | 'r' :: rest => (unescape rest).map ('\r' :: ·)
      | d :: rest =>
        if d = backslash ∨ d = singleQuote ∨ d = doubleQuote then (unescape rest).map (d :: ·)
        else none
      | [] => none
    else (unescape rest).map (c :: ·)

/-- The character of a byte has its value. -/
theorem toNat_ofNat_byte {n : Nat} (small : n < 256) : (Char.ofNat n).toNat = n := by
  have valid : n.isValidChar := .inl (by omega)
  rw [Char.ofNat, dif_pos valid]
  rfl

/-- The characters of bytes are below 256. -/
theorem characters_small {bytes : List UInt8} {c : Char} (member : c ∈ characters bytes) :
    c.toNat < 256 := by
  have ⟨byte, _, same⟩ := List.mem_map.mp member
  rw [← same, toNat_ofNat_byte byte.toNat_lt]
  exact byte.toNat_lt

/-- Bytes are determined by their characters. -/
theorem characters_injective {left right : List UInt8} (same : characters left = characters right) :
    left = right := by
  apply List.map_injective_iff.mpr _ same
  intro x y equal
  have value := congrArg Char.toNat equal
  rw [toNat_ofNat_byte x.toNat_lt, toNat_ofNat_byte y.toNat_lt] at value
  exact UInt8.toNat_inj.mp value

/-- A character as it is. -/
theorem unescape_plain {c : Char} (plain : c ≠ backslash) (rest : Text) :
    unescape (c :: rest) = (unescape rest).map (c :: ·) := by
  rw [unescape.eq_def]
  exact if_neg plain

/-- A character behind a backslash. -/
theorem unescape_quoted {c : Char} (quoted : c = backslash ∨ c = singleQuote ∨ c = doubleQuote)
    (rest : Text) : unescape (backslash :: c :: rest) = (unescape rest).map (c :: ·) := by
  rcases quoted with same | same | same
  all_goals
    rw [same, unescape.eq_def]
    rfl

/-- The two digits of a byte denote it. -/
theorem numeralValue_hexByte (byte : UInt8) : numeralValue 16 (hexByte byte) = some byte.toNat := by
  have small := byte.toNat_lt
  have high := @numeralValue_digit 16 (byte.toNat / 16) 0 [] (by omega) (by decide) rfl
  have both := @numeralValue_digit 16 (byte.toNat % 16) _ _ (by omega) (by decide) high
  rw [show 16 * (16 * 0 + byte.toNat / 16) + byte.toNat % 16 = byte.toNat by omega] at both
  exact both

/-- A character as two digits. -/
theorem unescape_digits (byte : UInt8) (rest : Text) :
    unescape (backslash :: 'x' :: (hexByte byte ++ rest)) =
      (unescape rest).map (Char.ofNat byte.toNat :: ·) := by
  rw [unescape.eq_def]
  change (numeralValue 16 (hexByte byte)).bind _ = _
  rw [numeralValue_hexByte]
  rfl

/-- What is written for a character is read as this character. -/
theorem unescape_reprChar {quote c : Char} (quotes : quote = singleQuote ∨ quote = doubleQuote)
    (small : c.toNat < 256) (rest : Text) :
    unescape (reprChar quote c ++ rest) = (unescape rest).map (c :: ·) := by
  unfold reprChar
  split
  case isTrue quoted =>
    apply unescape_quoted
    cases quoted with
    | inl same => rw [same]; exact .inr quotes
    | inr same => exact .inl same
  case isFalse plain =>
    rw [not_or] at plain
    split
    case isTrue tab =>
      have same : c = '\t' := Char.toNat_inj.mp tab
      rw [same, unescape.eq_def]
      rfl
    case isFalse =>
      split
      case isTrue newline =>
        have same : c = '\n' := Char.toNat_inj.mp newline
        rw [same, unescape.eq_def]
        rfl
      case isFalse =>
        split
        case isTrue back =>
          have same : c = '\r' := Char.toNat_inj.mp back
          rw [same, unescape.eq_def]
          rfl
        case isFalse =>
          split
          case isTrue =>
            have digits := unescape_digits (UInt8.ofNat c.toNat) rest
            rw [UInt8.toNat_ofNat', Nat.mod_eq_of_lt small, Char.ofNat_toNat] at digits
            exact digits
          case isFalse => exact unescape_plain plain.2 rest

/-- What `repr` writes between its quotes is read back. -/
theorem unescape_reprInside {text : Text} (small : ∀ c ∈ text, c.toNat < 256) :
    unescape (reprInside text) = some text := by
  unfold reprInside
  dsimp only
  have quotes : ∀ decides : Prop, ∀ _ : Decidable decides,
      (if decides then doubleQuote else singleQuote) = singleQuote ∨
        (if decides then doubleQuote else singleQuote) = doubleQuote := by
    intro decides _
    split
    · exact .inr rfl
    · exact .inl rfl
  have either := quotes (singleQuote ∈ text ∧ doubleQuote ∉ text) inferInstance
  generalize (if singleQuote ∈ text ∧ doubleQuote ∉ text then doubleQuote else singleQuote) = quote
    at either
  clear quotes
  induction text with
  | nil => rfl
  | cons c text ih =>
    rw [List.flatMap_cons, unescape_reprChar either (small c List.mem_cons_self),
      ih fun d member => small d (List.mem_cons_of_mem c member)]
    rfl

/-- Different bytes are written differently. -/
theorem reprInside_injective {left right : List UInt8}
    (same : reprInside (characters left) = reprInside (characters right)) : left = right := by
  have first := @unescape_reprInside (characters left) fun c => characters_small
  have second := @unescape_reprInside (characters right) fun c => characters_small
  rw [same, second] at first
  exact (characters_injective (Option.some.inj first)).symm

/-- Bytes that were written as two digits each, read back. -/
def readBytes : Text → Option (List UInt8)
  | [] => some []
  | high :: low :: rest =>
    (numeralValue 16 [high, low]).bind fun n => (readBytes rest).map (UInt8.ofNat n :: ·)
  | [_] => none

/-- The digits of bytes are read back. -/
theorem readBytes_hexBytes (bytes : List UInt8) : readBytes (hexBytes bytes) = some bytes := by
  induction bytes with
  | nil => rfl
  | cons byte bytes ih =>
    change (numeralValue 16 (hexByte byte)).bind
      (fun n => (readBytes (hexBytes bytes)).map (UInt8.ofNat n :: ·)) = _
    rw [numeralValue_hexByte, ih, Option.bind_some, Option.map_some, UInt8.ofNat_toNat]

/-- A character that can be printed. -/
def Printable (c : Char) : Prop := 32 ≤ c.toNat ∧ c.toNat < 127

instance (c : Char) : Decidable (Printable c) :=
  inferInstanceAs (Decidable (32 ≤ c.toNat ∧ c.toNat < 127))

/-- The characters of escape sequences. -/
def escapes : Text := backslash :: "tnrx0123456789abcdef".toList

/-- A backslash and a letter. -/
theorem mem_escapes_of_pair {c d : Char} (letter : c ∈ escapes) (member : d ∈ [backslash, c]) :
    d ∈ escapes := by
  cases List.mem_cons.mp member with
  | inl slash => exact slash ▸ List.mem_cons_self
  | inr other => exact List.mem_singleton.mp other ▸ letter

/-- The digits of a byte. -/
theorem mem_escapes_of_digit {byte : UInt8} {d : Char} (member : d ∈ hexByte byte) :
    d ∈ escapes := by
  have ⟨digit, small, same⟩ := mem_hexByte member
  have all : ∀ digit < 16, hexDigit digit ∈ escapes := by decide
  exact same ▸ all digit small

/-- A character is written as it is, behind a backslash if it is a quote or a backslash, or as an
escape sequence. -/
theorem mem_reprChar {quote c d : Char} (member : d ∈ reprChar quote c) :
    d ∈ escapes ∨ d = c ∧ (c = quote ∨ Printable c) := by
  unfold reprChar at member
  split at member
  case isTrue quoted =>
    cases List.mem_cons.mp member with
    | inl slash => exact .inl (slash ▸ List.mem_cons_self)
    | inr other =>
      rw [List.mem_singleton.mp other]
      cases quoted with
      | inl same => exact .inr ⟨rfl, .inl same⟩
      | inr same => exact .inl (same ▸ List.mem_cons_self)
  case isFalse =>
    split at member
    case isTrue => exact .inl (mem_escapes_of_pair (by decide) member)
    case isFalse =>
      split at member
      case isTrue => exact .inl (mem_escapes_of_pair (by decide) member)
      case isFalse =>
        split at member
        case isTrue => exact .inl (mem_escapes_of_pair (by decide) member)
        case isFalse =>
          split at member
          case isTrue =>
            rcases List.mem_append.mp (show d ∈ [backslash, 'x'] ++ _ from member) with pair | hex
            · exact .inl (mem_escapes_of_pair (by decide) pair)
            · exact .inl (mem_escapes_of_digit hex)
          case isFalse inside =>
            rw [not_or] at inside
            exact .inr ⟨List.mem_singleton.mp member, .inr ⟨by omega, by omega⟩⟩

/-- What `repr` writes for a text. -/
theorem mem_reprInside {text : Text} {d : Char} (member : d ∈ reprInside text) :
    d ∈ escapes ∨ d ∈ text ∧ Printable d := by
  have ⟨c, listed, written⟩ := List.mem_flatMap.mp member
  cases mem_reprChar written with
  | inl escape => exact .inl escape
  | inr same =>
    right
    rw [same.1]
    refine ⟨listed, ?_⟩
    cases same.2 with
    | inr printable => exact printable
    | inl quote =>
      rw [quote]
      split
      · decide
      · decide

/-- What `repr` writes can be printed. -/
theorem printable_reprInside {text : Text} {d : Char} (member : d ∈ reprInside text) :
    Printable d := by
  have all : escapes.all (fun c => decide (Printable c)) = true := by decide
  cases mem_reprInside member with
  | inl escape => exact of_decide_eq_true (List.all_eq_true.mp all d escape)
  | inr same => exact same.2

/-- The representation of a text without `%` has none. -/
theorem percent_not_mem_reprInside {text : Text} (free : '%' ∉ text) : '%' ∉ reprInside text := by
  intro member
  cases mem_reprInside member with
  | inl escape => exact absurd escape (by decide)
  | inr same => exact free same.1

/-- Bytes without 37 have no `%` among their characters. -/
theorem percent_not_mem_characters {bytes : List UInt8} (free : 37 ∉ bytes) :
    '%' ∉ characters bytes := by
  intro member
  have ⟨byte, listed, same⟩ := List.mem_map.mp member
  have value := congrArg Char.toNat same
  rw [toNat_ofNat_byte byte.toNat_lt] at value
  have percent : byte = 37 := UInt8.toNat_inj.mp value
  exact free (percent ▸ listed)

/-- The end of a line is not printed. -/
theorem newline_not_printable : ¬Printable '\n' := by decide

/-- Lines with an end each are split at their ends. -/
theorem splitOn_lines {lines : List Text} (whole : ∀ line ∈ lines, '\n' ∉ line) :
    (lines.flatMap fun line => line ++ ['\n']).splitOn '\n' = lines ++ [[]] := by
  induction lines with
  | nil => rfl
  | cons line lines ih =>
    have later := ih fun other member => whole other (List.mem_cons_of_mem line member)
    rw [List.flatMap_cons, List.append_assoc, List.singleton_append,
      List.splitOn_append_cons_self, List.splitOn_eq_singleton (whole line List.mem_cons_self),
      later]
    rfl

end GrReveng.Python
