import GrReveng.Library.Representations
import GrReveng.PacketFormatter.Variables

/-!
# Reports of fields

A report is a format with the name of the message on its first line and a label and a variable on
each of the others. Where no text that it shows has a `%`, it shows on each line what the variable
selects. The report of the example flow graph splits a packet with a length byte into its fields.
-/

namespace GrReveng.PacketFormatter

open Python

/-- A line of a report behind the first one. -/
structure Line where
  /-- The text in front of the variable. -/
  label : Text
  /-- The type of the variable. -/
  tipe : BitType
  /-- Its address. -/
  place : Address

/-- The line in the format. -/
def Line.text (line : Line) : Text := line.label ++ (variableOf line.tipe line.place ++ ['\n'])

/-- A format with the name and these lines. -/
def reportFormat (lines : List Line) : Text :=
  wholeMatch "name".toList ++ '\n' :: lines.flatMap Line.text

/-- What a report shows: the name, and behind each label its text. -/
def reportText (name : Text) (entries : List (Line × Text)) : Text :=
  name ++ '\n' :: entries.flatMap fun (line, text) => line.label ++ (text ++ ['\n'])

/-- The pieces of a line. -/
def Line.pieces (line : Line) : List Piece :=
  line.label.map .literal ++ [.placeholder (addressed line.tipe line.place), .literal '\n']

/-- The pieces of a report. -/
def reportPieces (lines : List Line) : List Piece :=
  .placeholder "name".toList :: .literal '\n' :: lines.flatMap Line.pieces

/-- The pieces of a report are written as its format. -/
theorem sources_reportPieces (lines : List Line) :
    sources (reportPieces lines) = reportFormat lines := by
  have each : ∀ line, sources (Line.pieces line) = line.text := by
    intro line
    rw [Line.pieces, sources_append, sources_literals]
    rfl
  have all : sources (lines.flatMap Line.pieces) = lines.flatMap Line.text := by
    rw [sources, List.flatMap_assoc]
    exact congrArg lines.flatMap (funext each)
  rw [reportFormat, ← all]
  rfl

/-- A format of pieces whose placeholders have values, none of which has a `%`. -/
theorem formatOutput_sources {metadata : Entries} {bits : Value} {parts : List Piece}
    (literals : .literal '%' ∉ parts)
    (enclosed : ∀ inside, .placeholder inside ∈ parts → Enclosed inside)
    (texts : ∀ inside, .placeholder inside ∈ parts →
      ∃ text, valueOf metadata bits inside = .ok (some text) ∧ '%' ∉ text) :
    formatOutput (sources parts) metadata bits =
      .ok (rendering (values metadata bits) parts) := by
  have whole := pieces_sources literals enclosed
  have each : ∀ inside ∈ placeholders (sources parts),
      ∃ text, valueOf metadata bits inside = .ok (some text) ∧ '%' ∉ text := by
    intro inside member
    rw [← insides_pieces, whole] at member
    have ⟨part, listed, same⟩ := List.mem_filterMap.mp member
    cases part with
    | literal c => contradiction
    | placeholder other => exact texts inside (Option.some.inj same ▸ listed)
  have evaluates : Evaluates (sources parts) metadata bits := fun inside member =>
    have ⟨text, given, _⟩ := each inside member
    ⟨some text, given⟩
  have fresh : Fresh (values metadata bits) (sources parts) := by
    apply fresh_of_free (by rwa [whole])
    intro inside member
    have ⟨text, given, free⟩ := each inside member
    exact ⟨text, by rw [values, given], free⟩
  rw [formatOutput_of_fresh evaluates fresh, whole]

section Report

variable {metadata : Entries} {name : Text} {bits : List Bool}

/-- The value of the name. -/
theorem values_name (named : get metadata "name".toList (.str "None".toList) = .str name) :
    valueOf metadata (packet bits) "name".toList = .ok (some name) := by
  have whole : (packet bits).slice none none = .ok (.array (bitElements bits)) := by
    rw [slice_packet, slice_none, packet_eq]
  have value := @valueOf_array metadata (packet bits) "name".toList none none (bitElements bits)
    rfl whole
  change valueOf metadata (packet bits) "name".toList =
    (Except.ok (some (get metadata "name".toList (.str "None".toList))) >>= _) at value
  rw [value, named]
  rfl

variable {entries : List (Line × Text)}

/-- The rendering of lines whose variables have these texts. -/
theorem rendering_lines
    (texts : ∀ entry ∈ entries,
      entry.1.tipe.shown (entry.1.place.selected bits) = .ok entry.2) :
    rendering (values metadata (packet bits)) ((entries.map Prod.fst).flatMap Line.pieces) =
      entries.flatMap fun (line, text) => line.label ++ (text ++ ['\n']) := by
  induction entries with
  | nil => rfl
  | cons entry entries ih =>
    have ⟨line, text⟩ := entry
    have shown := texts (line, text) List.mem_cons_self
    have value : values metadata (packet bits) (addressed line.tipe line.place) = some text := by
      rw [values, valueOf_addressed, shown]
      rfl
    have later := ih fun other member => texts other (List.mem_cons_of_mem _ member)
    have here : rendering (values metadata (packet bits)) line.pieces =
        line.label ++ (text ++ ['\n']) := by
      rw [Line.pieces, rendering_append, rendering_literals, rendering_placeholder value]
      rfl
    rw [List.map_cons, List.flatMap_cons, rendering_append, later, here]
    rfl

/-- The characters of a report are those of the labels, and line ends. -/
theorem literal_mem_reportPieces {c : Char}
    (member : .literal c ∈ reportPieces (entries.map Prod.fst)) :
    c = '\n' ∨ ∃ entry ∈ entries, c ∈ entry.1.label := by
  simp only [reportPieces, Line.pieces, List.mem_cons, List.mem_flatMap, List.mem_append,
    List.mem_map, Piece.literal.injEq, reduceCtorEq, false_or, List.not_mem_nil, or_false,
    exists_eq_right] at member
  rcases member with newline | ⟨line, ⟨entry, listed, same⟩, label | newline⟩
  · exact .inl newline
  · exact .inr ⟨entry, listed, same ▸ label⟩
  · exact .inl newline

/-- The variables of a report are the name and those of the lines. -/
theorem placeholder_mem_reportPieces {inside : Text}
    (member : .placeholder inside ∈ reportPieces (entries.map Prod.fst)) :
    inside = "name".toList ∨
      ∃ entry ∈ entries, inside = addressed entry.1.tipe entry.1.place := by
  simp only [reportPieces, Line.pieces, List.mem_cons, List.mem_flatMap, List.mem_append,
    List.mem_map, Piece.placeholder.injEq, reduceCtorEq, false_or, List.not_mem_nil, or_false,
    and_false, exists_false] at member
  rcases member with same | ⟨line, ⟨entry, listed, same⟩, place⟩
  · exact .inl same
  · exact .inr ⟨entry, listed, same ▸ place⟩

/-- A report that shows no `%` shows the name and behind each label what its variable selects. -/
theorem formatOutput_report
    (named : get metadata "name".toList (.str "None".toList) = .str name) (clean : '%' ∉ name)
    (labels : ∀ entry ∈ entries, '%' ∉ entry.1.label)
    (texts : ∀ entry ∈ entries,
      entry.1.tipe.shown (entry.1.place.selected bits) = .ok entry.2)
    (free : ∀ entry ∈ entries, '%' ∉ entry.2) :
    formatOutput (reportFormat (entries.map Prod.fst)) metadata (packet bits) =
      .ok (reportText name entries) := by
  have value := @values_name metadata name bits named
  have first : values metadata (packet bits) "name".toList = some name := by rw [values, value]
  have literals : .literal '%' ∉ reportPieces (entries.map Prod.fst) := by
    intro member
    rcases literal_mem_reportPieces member with newline | ⟨entry, listed, label⟩
    · exact absurd newline (by decide)
    · exact labels entry listed label
  rw [← sources_reportPieces, formatOutput_sources literals]
  · have later := @rendering_lines metadata bits entries texts
    rw [rendering] at later
    rw [reportPieces, rendering_placeholder first, rendering, List.flatMap_cons, later]
    rfl
  · intro inside member
    rcases placeholder_mem_reportPieces member with same | ⟨entry, _, same⟩
    · exact same ▸ ⟨by decide, by decide⟩
    · exact same ▸ enclosed_addressed entry.1.tipe entry.1.place
  · intro inside member
    rcases placeholder_mem_reportPieces member with same | ⟨entry, listed, same⟩
    · exact ⟨name, same ▸ value, clean⟩
    · refine ⟨entry.2, ?_, free entry listed⟩
      rw [same, valueOf_addressed, texts entry listed]
      rfl

end Report

/-- Bits of whole bytes are packed into these bytes. -/
theorem packbits_unpackBytes (bytes : List UInt8) :
    packbits ((unpackBytes bytes).map bitByte) = bytes := by
  have whole : padding (unpackBytes bytes).length = 0 := by
    rw [padding, length_unpackBytes]
    omega
  rw [packbits_bits, whole]
  simp

/-- Whole bytes are shown in hexadecimal. -/
theorem shown_hex_bytes (bytes : List UInt8) :
    BitType.hex.shown (unpackBytes bytes) = .ok (hexBytes bytes) := by
  simp only [BitType.shown, packbits_unpackBytes]
  rfl

/-- Whole bytes are shown as their characters. -/
theorem shown_ascii_bytes (bytes : List UInt8) :
    BitType.ascii.shown (unpackBytes bytes) = .ok (reprInside (characters bytes)) := by
  simp only [BitType.shown, packbits_unpackBytes]
  rfl

/-- One byte is shown as its value. -/
theorem shown_int_byte (byte : UInt8) :
    BitType.int.shown (unpackBytes [byte]) = .ok (decimal byte.toNat) := by
  have bits : unpackBytes [byte] = msbBits 8 byte.toNat := List.flatMap_singleton _ _
  have nonempty : unpackBytes [byte] ≠ [] := by
    rw [← List.length_pos_iff_ne_nil, length_unpackBytes]
    exact Nat.succ_pos 7
  rw [shown_int nonempty, bits, msbValue_msbBits, Nat.mod_eq_of_lt byte.toNat_lt]

/-- The text of bytes in hexadecimal has no `%`. -/
theorem hexBytes_free (bytes : List UInt8) : '%' ∉ hexBytes bytes := fun member =>
  absurd (mem_hexBytes member) (by decide)

/-- A number has no `%`. -/
theorem decimal_free (n : Int) : '%' ∉ decimal n := by
  intro member
  cases mem_decimal member with
  | inl digit => exact absurd digit (by decide)
  | inr sign => exact absurd sign (by decide)

/-- A variable that reads bytes in the middle of a packet. -/
theorem selected_range_bytes {first last : Int} {front middle back : List UInt8}
    (start : first = (8 * front.length : Nat))
    (stop : last = (8 * front.length + 8 * middle.length : Nat)) :
    (Address.range first last).selected (unpackBytes (front ++ middle ++ back)) =
      unpackBytes middle := by
  have between := slice_between (unpackBytes front) (unpackBytes middle) (unpackBytes back)
  rw [length_unpackBytes, length_unpackBytes, ← unpackBytes_append, ← unpackBytes_append] at between
  rw [start, stop]
  exact between

/-- The bits of some bytes are some. -/
theorem unpackBytes_ne_nil {bytes : List UInt8} (nonempty : bytes ≠ []) :
    unpackBytes bytes ≠ [] := by
  have positive := List.length_pos_iff.mpr nonempty
  rw [← List.length_pos_iff_ne_nil, length_unpackBytes]
  omega

/-- A variable that reads bytes up to a place that counts from the end. -/
theorem selected_range_last {first last : Int} {front middle back : List UInt8}
    (nonempty : back ≠ []) (start : first = (8 * front.length : Nat))
    (stop : last = -(8 * back.length : Nat)) :
    (Address.range first last).selected (unpackBytes (front ++ middle ++ back)) =
      unpackBytes middle := by
  have between := slice_between_last (unpackBytes front) (unpackBytes middle)
    (unpackBytes_ne_nil nonempty)
  rw [length_unpackBytes, length_unpackBytes, ← unpackBytes_append, ← unpackBytes_append] at between
  rw [start, stop]
  exact between

/-- A variable that reads the last bytes. -/
theorem selected_starting_last {first : Int} {front back : List UInt8} (nonempty : back ≠ [])
    (start : first = -(8 * back.length : Nat)) :
    (Address.starting first).selected (unpackBytes (front ++ back)) = unpackBytes back := by
  have behind := slice_last (unpackBytes front) (unpackBytes_ne_nil nonempty)
  rw [length_unpackBytes, ← unpackBytes_append] at behind
  rw [start]
  exact behind

/-- The lines for packets with some bytes in front of the length byte and some behind those that it
counts. -/
def fieldLines (offset adjust : Nat) : List Line :=
  [⟨"Full Packet: ".toList, .hex, .all⟩,
    ⟨"transmitter_id: ".toList, .hex, .range 0 (8 * offset : Nat)⟩,
    ⟨"Packet Length: ".toList, .int, .range (8 * offset : Nat) (8 * offset + 8 : Nat)⟩,
    ⟨"Message: ".toList, .ascii, .range (8 * offset + 8 : Nat) (-(8 * adjust : Nat))⟩,
    ⟨"Checksum: ".toList, .hex, .starting (-(8 * adjust : Nat))⟩]

/-- The texts of these lines for a packet with these fields. -/
def fieldTexts (head : List UInt8) (length : UInt8) (counted tail : List UInt8) : List Text :=
  [hexBytes (head ++ [length] ++ counted ++ tail), hexBytes head, decimal length.toNat,
    reprInside (characters counted), hexBytes tail]

/-- The report of a packet with these fields. -/
def fieldsText (name : Text) (head : List UInt8) (length : UInt8) (counted tail : List UInt8) :
    Text :=
  reportText name
    ((fieldLines head.length tail.length).zip (fieldTexts head length counted tail))

section Fields

variable {head counted tail : List UInt8} {length : UInt8}

/-- The variables of the lines select the fields. -/
theorem shown_fields (nonempty : tail ≠ []) :
    ∀ entry ∈ (fieldLines head.length tail.length).zip (fieldTexts head length counted tail),
      entry.1.tipe.shown (entry.1.place.selected
        (unpackBytes (head ++ [length] ++ counted ++ tail))) = .ok entry.2 := by
  have first := @selected_range_bytes 0 (8 * head.length : Nat) [] head
    ([length] ++ counted ++ tail) rfl (by simp)
  have second := @selected_range_bytes (8 * head.length : Nat) (8 * head.length + 8 : Nat) head
    [length] (counted ++ tail) rfl rfl
  have third := @selected_range_last (8 * head.length + 8 : Nat) (-(8 * tail.length : Nat))
    (head ++ [length]) counted tail nonempty (by simp; omega) rfl
  have last := @selected_starting_last (-(8 * tail.length : Nat)) (head ++ [length] ++ counted) tail
    nonempty rfl
  simp only [List.nil_append, ← List.append_assoc] at first second
  simp only [fieldLines, fieldTexts, List.zip_cons_cons, List.zip_nil_left, List.mem_cons,
    List.not_mem_nil, or_false]
  rintro entry (rfl | rfl | rfl | rfl | rfl)
  all_goals dsimp only
  · rw [Address.selected, Address.bounds, slice_none, shown_hex_bytes]
  · rw [first, shown_hex_bytes]
  · rw [second, shown_int_byte]
  · rw [third, shown_ascii_bytes]
  · rw [last, shown_hex_bytes]

/-- A report of the fields of a packet that shows no `%`. -/
theorem formatOutput_fields {metadata : Entries} {name : Text} (nonempty : tail ≠ [])
    (named : get metadata "name".toList (.str "None".toList) = .str name) (clean : '%' ∉ name)
    (message : 37 ∉ counted) :
    formatOutput (reportFormat (fieldLines head.length tail.length)) metadata
        (packet (unpackBytes (head ++ [length] ++ counted ++ tail))) =
      .ok (fieldsText name head length counted tail) := by
  have quiet := percent_not_mem_reprInside (percent_not_mem_characters message)
  apply formatOutput_report named clean _ (shown_fields nonempty) _
  · simp only [fieldLines, fieldTexts, List.zip_cons_cons, List.zip_nil_left, List.mem_cons,
      List.not_mem_nil, or_false]
    rintro entry (rfl | rfl | rfl | rfl | rfl)
    all_goals
      dsimp only
      decide
  · simp only [fieldLines, fieldTexts, List.zip_cons_cons, List.zip_nil_left, List.mem_cons,
      List.not_mem_nil, or_false]
    rintro entry (rfl | rfl | rfl | rfl | rfl)
    · exact hexBytes_free _
    · exact hexBytes_free _
    · exact decimal_free _
    · exact quiet
    · exact hexBytes_free _

end Fields

end GrReveng.PacketFormatter
