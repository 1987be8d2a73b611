import GrReveng.PacketFormatter.Fields
import GrReveng.PacketFormatter.Numerals

/-!
# Reading texts back

No variable of bits loses any: the text of a selection tells its bits when their number is known.
The text of `ascii` can be printed and is read back as `repr` is, and a log of reports is read back
line by line.
-/

namespace GrReveng.PacketFormatter

open Python

/-- The bits of characters. -/
def characterBits (text : Text) : List Bool :=
  unpackBytes (text.map fun c => UInt8.ofNat c.toNat)

/-- The bits of the characters of bytes. -/
theorem characterBits_characters (bytes : List UInt8) :
    characterBits (characters bytes) = unpackBytes bytes := by
  have same : (characters bytes).map (fun c => UInt8.ofNat c.toNat) = bytes := by
    rw [characters, List.map_map]
    apply List.map_id''
    intro byte
    rw [Function.comp_apply, toNat_ofNat_byte byte.toNat_lt, UInt8.ofNat_toNat]
  rw [characterBits, same]

/-- The text of `ascii` can be printed, and is read back as the bits that were selected with the
zeros that fill up the last byte. -/
theorem ascii_reads_back (metadata : Entries) (place : Address) (bits : List Bool) :
    ∃ text, formatOutput (variableOf .ascii place) metadata (packet bits) = .ok text ∧
      (∀ c ∈ text, Printable c) ∧
      (unescape text).map characterBits =
        some (place.selected bits ++
          List.replicate (padding (place.selected bits).length) false) := by
  refine ⟨reprInside (characters (packbits ((place.selected bits).map bitByte))), ?_,
    fun c => printable_reprInside, ?_⟩
  · rw [formatOutput_variableOf]
    rfl
  · rw [unescape_reprInside fun c => characters_small, Option.map_some, characterBits_characters,
      unpackBytes_packbits]

/-- Selections of one length with the same bytes are equal. -/
theorem eq_of_packbits {left right : List Bool} (length : left.length = right.length)
    (same : packbits (left.map bitByte) = packbits (right.map bitByte)) : left = right := by
  have bits := congrArg unpackBytes same
  rw [unpackBytes_packbits, unpackBytes_packbits] at bits
  exact (List.append_inj bits length).1

/-- Selections of one length with the same text are equal. -/
theorem shown_injective {tipe : BitType} {left right : List Bool}
    (length : left.length = right.length) (same : tipe.shown left = tipe.shown right) :
    left = right := by
  cases tipe with
  | bits =>
    rw [shown_bits, shown_bits, Except.ok.injEq] at same
    apply eq_of_msbValue_eq length
    have values := congrArg (numeralValue 2) same
    rw [numeralValue_binary, numeralValue_binary] at values
    exact Option.some.inj values
  | hex => exact eq_of_hex length (Except.ok.inj same)
  | int =>
    by_cases empty : left = []
    · rw [empty] at length ⊢
      exact (List.eq_nil_of_length_eq_zero length.symm).symm
    · have some : right ≠ [] := by
        rwa [← List.length_pos_iff_ne_nil, ← length, List.length_pos_iff_ne_nil]
      rw [shown_int empty, shown_int some, Except.ok.injEq] at same
      exact eq_of_int length same
  | ascii => exact eq_of_packbits length (reprInside_injective (Except.ok.inj same))

/-- The length of a slice depends on the length of the list. -/
theorem length_selected {left right : List Bool} (length : left.length = right.length)
    (place : Address) : (place.selected left).length = (place.selected right).length := by
  simp only [Address.selected, slice, List.length_take, List.length_drop, length]

/-- A variable in a format without others shows two packets of one length alike exactly when it
selects the same bits of them, whatever their metadata. -/
theorem variable_tells (tipe : BitType) (place : Address) {left right : List Bool}
    (length : left.length = right.length) {before after : Text} (front : '%' ∉ before)
    (behind : '%' ∉ after) (metadata metadata' : Entries) :
    formatOutput (before ++ (variableOf tipe place ++ after)) metadata (packet left) =
        formatOutput (before ++ (variableOf tipe place ++ after)) metadata' (packet right) ↔
      place.selected left = place.selected right := by
  rw [formatOutput_addressed _ _ _ _ front behind, formatOutput_addressed _ _ _ _ front behind]
  constructor
  · intro same
    apply @shown_injective tipe _ _ (length_selected length place)
    cases first : tipe.shown (place.selected left) with
    | error e =>
      cases second : tipe.shown (place.selected right) with
      | error e' =>
        rw [first, second] at same
        exact congrArg Except.error (Except.error.inj same)
      | ok text' =>
        rw [first, second] at same
        contradiction
    | ok text =>
      cases second : tipe.shown (place.selected right) with
      | error e' =>
        rw [first, second] at same
        contradiction
      | ok text' =>
        rw [first, second] at same
        have whole := List.append_cancel_left (Except.ok.inj same)
        rw [List.append_cancel_right whole]
  · intro same
    rw [same]

/-- Two packets of two bytes that differ in the second one. -/
theorem variable_tells_bytes :
    (formatOutput ("> ".toList ++ (variableOf .hex (.range 0 8) ++ [])) []
        (packet (unpackBytes [1, 2])) =
      formatOutput ("> ".toList ++ (variableOf .hex (.range 0 8) ++ [])) []
        (packet (unpackBytes [1, 3]))) ∧
    formatOutput ("> ".toList ++ (variableOf .ascii (.index 15) ++ [])) []
        (packet (unpackBytes [1, 2])) ≠
      formatOutput ("> ".toList ++ (variableOf .ascii (.index 15) ++ [])) []
        (packet (unpackBytes [1, 3])) := by
  have length : (unpackBytes [1, 2]).length = (unpackBytes [1, 3]).length := by decide
  have label : '%' ∉ "> ".toList := by decide
  have first := variable_tells .hex (.range 0 8) length label List.not_mem_nil [] []
  have last := variable_tells .ascii (.index 15) length label List.not_mem_nil [] []
  exact ⟨first.mpr (by decide), fun same => absurd (last.mp same) (by decide)⟩

/-- The lines of a report, with the end that the log adds. -/
def reportLines (name : Text) (entries : List (Line × Text)) : List Text :=
  name :: (entries.map fun (line, text) => line.label ++ text) ++ [[]]

/-- A report and the end of its line are its lines. -/
theorem reportText_lines (name : Text) (entries : List (Line × Text)) :
    reportText name entries ++ ['\n'] =
      (reportLines name entries).flatMap fun line => line ++ ['\n'] := by
  rw [reportText, reportLines, List.cons_append, List.flatMap_cons, List.flatMap_append,
    List.flatMap_map]
  simp

/-- What is in front of the bytes of a packet. -/
def packetLabel : Text := "Full Packet: ".toList

/-- The bytes of a packet in a line that shows them. -/
def bytesOfLine (line : Text) : Option (List UInt8) :=
  if packetLabel <+: line then readBytes (line.drop packetLabel.length) else none

/-- The packets in a log of reports. -/
def readLog (log : Text) : List (List UInt8) := (log.splitOn '\n').filterMap bytesOfLine

section Fields

variable {name : Text} {head counted tail : List UInt8} {length : UInt8}

/-- The lines of a report of fields. -/
def fieldsLines (name : Text) (head : List UInt8) (length : UInt8) (counted tail : List UInt8) :
    List Text :=
  reportLines name ((fieldLines head.length tail.length).zip (fieldTexts head length counted tail))

/-- The lines of a report of fields, one by one. -/
theorem fieldsLines_eq (name : Text) (head : List UInt8) (length : UInt8)
    (counted tail : List UInt8) :
    fieldsLines name head length counted tail =
      [name, packetLabel ++ hexBytes (head ++ [length] ++ counted ++ tail),
        "transmitter_id: ".toList ++ hexBytes head,
        "Packet Length: ".toList ++ decimal length.toNat,
        "Message: ".toList ++ reprInside (characters counted),
        "Checksum: ".toList ++ hexBytes tail, []] := rfl

/-- No line of a report of fields has an end in it. -/
theorem newline_not_mem_fieldsLines (named : '\n' ∉ name) :
    ∀ line ∈ fieldsLines name head length counted tail, '\n' ∉ line := by
  have digits : ∀ bytes, '\n' ∉ hexBytes bytes := fun bytes member =>
    absurd (mem_hexBytes member) (by decide)
  have number : ∀ n, '\n' ∉ decimal n := by
    intro n member
    cases mem_decimal member with
    | inl digit => exact absurd digit (by decide)
    | inr sign => exact absurd sign (by decide)
  have message : '\n' ∉ reprInside (characters counted) := fun member =>
    newline_not_printable (printable_reprInside member)
  simp only [fieldsLines_eq, List.mem_cons, List.not_mem_nil, or_false]
  rintro line (rfl | rfl | rfl | rfl | rfl | rfl | rfl)
  · exact named
  · exact List.not_mem_append (by decide) (digits _)
  · exact List.not_mem_append (by decide) (digits _)
  · exact List.not_mem_append (by decide) (number _)
  · exact List.not_mem_append (by decide) message
  · exact List.not_mem_append (by decide) (digits _)
  · exact List.not_mem_nil

/-- Another label is no label of a packet. -/
theorem bytesOfLine_other {c : Char} (other : c ≠ 'F') (rest : Text) :
    bytesOfLine (c :: rest) = none := by
  rw [bytesOfLine, if_neg]
  intro found
  exact other (List.cons_prefix_cons.mp (show 'F' :: _ <+: c :: rest from found)).1.symm

/-- The lines of a report of fields show one packet. -/
theorem filterMap_fieldsLines (silent : bytesOfLine name = none) :
    (fieldsLines name head length counted tail).filterMap bytesOfLine =
      [head ++ [length] ++ counted ++ tail] := by
  have packet : ∀ bytes, bytesOfLine (packetLabel ++ hexBytes bytes) = some bytes := by
    intro bytes
    rw [bytesOfLine, if_pos (List.prefix_append _ _), List.drop_left, readBytes_hexBytes]
  have others : ∀ texts : List Text, (∀ text ∈ texts, bytesOfLine text = none) →
      texts.filterMap bytesOfLine = [] := fun texts none => List.filterMap_eq_nil_iff.mpr none
  rw [fieldsLines_eq, List.filterMap_cons_none silent, List.filterMap_cons_some (packet _),
    others]
  simp only [List.mem_cons, List.not_mem_nil, or_false]
  rintro text (rfl | rfl | rfl | rfl | rfl)
  · exact bytesOfLine_other (by decide) _
  · exact bytesOfLine_other (by decide) _
  · exact bytesOfLine_other (by decide) _
  · exact bytesOfLine_other (by decide) _
  · rfl

end Fields

end GrReveng.PacketFormatter
