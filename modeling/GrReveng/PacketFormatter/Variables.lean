import GrReveng.Library.Numerals
import GrReveng.PacketFormatter.Template

/-!
# Variables of bits

The four variables that show bits, `bits`, `hex`, `int` and `ascii`, and the addresses that select
a part of the packet for them. A variable with an address shows the slice that the address reads,
wherever it stands in a format without other variables.
-/

namespace GrReveng.PacketFormatter

open Python

/-- The byte that holds a bit. -/
def bitByte (bit : Bool) : UInt8 := if bit then 1 else 0

/-- An array of bits, one in each byte. -/
def packet (bits : List Bool) : Value := .bytes (bits.map bitByte)

/-- The elements of an array of bits. -/
def bitElements (bits : List Bool) : List Element := (bits.map bitByte).map Element.ofByte

/-- A packet is an array. -/
theorem packet_eq (bits : List Bool) : packet bits = .array (bitElements bits) := rfl

/-- A slice of a packet is the packet of a slice. -/
theorem slice_packet (start stop : Option Int) (bits : List Bool) :
    (packet bits).slice start stop = .ok (packet (slice start stop bits)) := by
  rw [packet_eq, Value.slice, packet_eq, bitElements, slice_map, slice_map]
  rfl

/-- The bits of a packet, written one after the other. -/
theorem joined_bitElements (bits : List Bool) : joined (bitElements bits) = binary bits := by
  induction bits with
  | nil => rfl
  | cons bit bits ih =>
    rw [bitElements, List.map_cons, List.map_cons, joined, List.flatMap_cons]
    rw [bitElements, joined] at ih
    rw [ih]
    cases bit with
    | false => rfl
    | true => rfl

/-- The types that show bits. -/
inductive BitType
  /-- The bits themselves. -/
  | bits
  /-- Their bytes in hexadecimal. -/
  | hex
  /-- The number they denote. -/
  | int
  /-- Their bytes as characters. -/
  | ascii
  deriving DecidableEq

/-- The name of a type. -/
def BitType.text : BitType → Text
  | bits => "bits".toList
  | hex => "hex".toList
  | int => "int".toList
  | ascii => "ascii".toList

/-- `tmp` for a type and the bits that are selected. -/
def BitType.shown (tipe : BitType) (selected : List Bool) : Except PyError Text :=
  let lBites := packbits (selected.map bitByte)
  match tipe with
  | bits => .ok (joined (bitElements selected))
  | hex => .ok (lBites.flatMap hexByte)
  | int => (pyInt 2 (joined (bitElements selected))).map decimal
  | ascii => .ok (reprInside (lBites.map fun byte => Char.ofNat byte.toNat))

/-- The text of a type that shows bits. -/
theorem render_shown (metadata : Entries) (tipe : BitType) (selected : List Bool) :
    render metadata tipe.text (bitElements selected) (packbits (selected.map bitByte)) =
      (tipe.shown selected).map fun text => some (.str text) := by
  cases tipe with
  | int =>
    change (pyInt 2 (joined (bitElements selected)) >>= fun value =>
      Except.ok (some (Value.str (decimal value)))) =
        ((pyInt 2 (joined (bitElements selected))).map decimal).map _
    cases pyInt 2 (joined (bitElements selected)) with
    | error e => rfl
    | ok value => rfl
  | _ => rfl

/-- The value of a match that names a type and has an address without an error. -/
theorem valueOf_packet {metadata : Entries} {inside : Text} {start stop : Option Int}
    {tipe : BitType} (named : placeholderType inside = tipe.text)
    (range : address ((rstrip ']' inside).splitOn '[') = .ok (start, stop)) (bits : List Bool) :
    valueOf metadata (packet bits) inside = (tipe.shown (slice start stop bits)).map some := by
  have memory : (bitElements (slice start stop bits)).flatMap Element.memory =
      (slice start stop bits).map bitByte := Except.ok.inj (byteArray_bytes _)
  have value := @valueOf_array metadata (packet bits) inside start stop
    (bitElements (slice start stop bits)) range (slice_packet start stop bits)
  rw [value, named, memory, render_shown]
  cases tipe.shown (slice start stop bits) with
  | error e => rfl
  | ok text => rfl

/-- What may stand behind the type of a variable. -/
inductive Address
  /-- Nothing: all bits. -/
  | all
  /-- `[k]`. -/
  | index (k : Int)
  /-- `[a:b]`. -/
  | range (a b : Int)
  /-- `[a:]`. -/
  | starting (a : Int)

/-- The text between the brackets. -/
def Address.inner : Address → Option Text
  | all => none
  | index k => some (decimal k)
  | range a b => some (decimal a ++ ':' :: decimal b)
  | starting a => some (decimal a ++ [':'])

/-- The address in a format. -/
def Address.text (place : Address) : Text :=
  match place.inner with
  | none => []
  | some inner => '[' :: inner ++ [']']

/-- The bounds of the slice that the loop reads. -/
def Address.bounds : Address → Option Int × Option Int
  | all => (none, none)
  | index k => (some k, some (k + 1))
  | range a b => (some a, some b)
  | starting a => (some a, none)

/-- What stands between the parentheses of a variable with an address. -/
def addressed (tipe : BitType) (place : Address) : Text := tipe.text ++ place.text

/-- The variable of a type with an address, `%(T[k])`. -/
def variableOf (tipe : BitType) (place : Address) : Text := wholeMatch (addressed tipe place)

/-- The bits that an address selects. -/
def Address.selected (place : Address) (bits : List Bool) : List Bool :=
  slice place.bounds.1 place.bounds.2 bits

/-- The characters between the brackets of an address. -/
theorem Address.mem_inner {place : Address} {inner : Text} (given : place.inner = some inner)
    {c : Char} (member : c ∈ inner) : c.isDigit = true ∨ c = '-' ∨ c = ':' := by
  have number : ∀ n : Int, c ∈ decimal n → c.isDigit = true ∨ c = '-' ∨ c = ':' := by
    intro n digit
    cases mem_decimal digit with
    | inl digit => exact .inl digit
    | inr sign => exact .inr (.inl sign)
  cases place with
  | all => contradiction
  | index k =>
    cases given
    exact number k member
  | range a b =>
    cases given
    cases List.mem_append.mp member with
    | inl start => exact number a start
    | inr behind =>
      cases List.mem_cons.mp behind with
      | inl colon => exact .inr (.inr colon)
      | inr stop => exact number b stop
  | starting a =>
    cases given
    cases List.mem_append.mp member with
    | inl start => exact number a start
    | inr colon => exact .inr (.inr (List.mem_singleton.mp colon))

/-- No other characters stand between the brackets of an address. -/
theorem Address.free_inner {place : Address} {inner : Text} (given : place.inner = some inner)
    {c : Char} (other : c.isDigit = false ∧ c ≠ '-' ∧ c ≠ ':') : c ∉ inner := by
  intro member
  rcases Address.mem_inner given member with digit | sign | colon
  · rw [other.1] at digit
    contradiction
  · exact other.2.1 sign
  · exact other.2.2 colon

/-- The names of the types have lower-case letters only. -/
theorem BitType.mem_text {tipe : BitType} {c : Char} (member : c ∈ tipe.text) :
    c ≠ '[' ∧ c ≠ ']' ∧ c ≠ ')' ∧ c ≠ '%' := by
  have letters : ∀ tipe : BitType, tipe.text.all
      (fun c => c ≠ '[' ∧ c ≠ ']' ∧ c ≠ ')' ∧ c ≠ '%') = true := by
    intro tipe
    cases tipe <;> decide
  exact of_decide_eq_true (List.all_eq_true.mp (letters tipe) c member)

/-- The parts of a variable with an address. -/
theorem parts_addressed (tipe : BitType) (place : Address) :
    (rstrip ']' (addressed tipe place)).splitOn '[' = tipe.text :: place.inner.toList := by
  have letters := fun c => @BitType.mem_text tipe c
  have name : '[' ∉ tipe.text := fun member => (letters _ member).1 rfl
  have ends : ']' ∉ tipe.text := fun member => (letters _ member).2.1 rfl
  rw [addressed, Address.text]
  cases given : place.inner with
  | none =>
    dsimp only
    rw [List.append_nil, rstrip_of_not_mem ends, List.splitOn_eq_singleton name]
    rfl
  | some inner =>
    have brackets : '[' ∉ inner ∧ ']' ∉ inner :=
      ⟨Address.free_inner given (by decide), Address.free_inner given (by decide)⟩
    have free : ']' ∉ tipe.text ++ '[' :: inner := by
      simp [ends, brackets.2]
    dsimp only
    rw [← List.append_assoc, rstrip_concat, rstrip_of_not_mem free, List.splitOn_append_cons_self,
      List.splitOn_eq_singleton name, List.splitOn_eq_singleton brackets.1]
    rfl

/-- The bounds that the loop reads from an address. -/
theorem address_addressed (tipe : BitType) (place : Address) :
    address ((rstrip ']' (addressed tipe place)).splitOn '[') = .ok place.bounds := by
  have colon : ∀ n : Int, ':' ∉ decimal n := by
    intro n member
    cases mem_decimal member <;> contradiction
  rw [parts_addressed]
  cases place with
  | all => rfl
  | index k =>
    change address [tipe.text, decimal k] = _
    rw [address, List.splitOn_eq_singleton (colon k)]
    change (pyInt 10 (decimal k) >>= fun start => .ok (some start, some (start + 1))) = _
    rw [pyInt_decimal]
    rfl
  | range a b =>
    change address [tipe.text, decimal a ++ ':' :: decimal b] = _
    rw [address, List.splitOn_append_cons_self, List.splitOn_eq_singleton (colon a),
      List.splitOn_eq_singleton (colon b)]
    change (pyInt 10 (decimal a) >>= fun start => if decimal b = [] then .ok (some start, none)
      else pyInt 10 (decimal b) >>= fun stop => .ok (some start, some stop)) = _
    simp only [pyInt_decimal, if_neg (decimal_some b)]
    rfl
  | starting a =>
    change address [tipe.text, decimal a ++ [':']] = _
    rw [address, List.splitOn_append_cons_self, List.splitOn_eq_singleton (colon a)]
    change (pyInt 10 (decimal a) >>= fun start => if ([] : Text) = [] then .ok (some start, none)
      else _) = _
    rw [pyInt_decimal]
    rfl

/-- A variable with an address is a match. -/
theorem enclosed_addressed (tipe : BitType) (place : Address) :
    Enclosed (addressed tipe place) := by
  have closed : ')' ∉ tipe.text := fun member => (BitType.mem_text member).2.2.1 rfl
  have named : tipe.text ≠ [] := by cases tipe <;> decide
  constructor
  · exact List.append_ne_nil_of_left_ne_nil named _
  · rw [addressed, Address.text]
    cases given : place.inner with
    | none => simpa using closed
    | some inner =>
      have free := @Address.free_inner place inner given ')' (by decide)
      simp [closed, free]

/-- The value of a variable with an address. -/
theorem valueOf_addressed (metadata : Entries) (tipe : BitType) (place : Address)
    (bits : List Bool) :
    valueOf metadata (packet bits) (addressed tipe place) =
      (tipe.shown (place.selected bits)).map some := by
  have named : placeholderType (addressed tipe place) = tipe.text := by
    rw [placeholderType, parts_addressed]
    rfl
  exact valueOf_packet named (address_addressed tipe place) bits

/-- A variable with an address in a format without others. -/
theorem formatOutput_addressed (metadata : Entries) (tipe : BitType) (place : Address)
    (bits : List Bool) {before after : Text} (front : '%' ∉ before) (behind : '%' ∉ after) :
    formatOutput (before ++ (variableOf tipe place ++ after)) metadata (packet bits) =
      (tipe.shown (place.selected bits)).map fun text => before ++ (text ++ after) := by
  rw [variableOf, formatOutput_single front (enclosed_addressed tipe place) behind,
    valueOf_addressed]
  cases tipe.shown (place.selected bits) with
  | error e => rfl
  | ok text => rfl

/-- A variable with an address on its own. -/
theorem formatOutput_variableOf (metadata : Entries) (tipe : BitType) (place : Address)
    (bits : List Bool) :
    formatOutput (variableOf tipe place) metadata (packet bits) =
      tipe.shown (place.selected bits) := by
  rw [variableOf, formatOutput_wholeMatch (enclosed_addressed tipe place), valueOf_addressed]
  cases tipe.shown (place.selected bits) with
  | error e => rfl
  | ok text => rfl

/-- The bits are shown as a binary numeral. -/
theorem shown_bits (selected : List Bool) :
    BitType.bits.shown selected = .ok (binary selected) :=
  congrArg Except.ok (joined_bitElements selected)

/-- The zeros behind the last byte of some bits. -/
def padding (n : Nat) : Nat := (8 - n % 8) % 8

/-- The bytes of bits, the last one filled up with zeros. -/
theorem packbits_bits (selected : List Bool) :
    packbits (selected.map bitByte) =
      packBytes (selected ++ List.replicate (padding selected.length) false) := by
  have bits : (selected.map bitByte).map (fun byte => decide (byte ≠ 0)) = selected := by
    rw [List.map_map]
    apply List.map_id''
    intro bit
    cases bit with
    | false => rfl
    | true => rfl
  rw [packbits, bits, List.length_map]
  rfl

/-- There are as many bytes as hold the bits. -/
theorem length_packbits (selected : List Bool) :
    (packbits (selected.map bitByte)).length = (selected.length + 7) / 8 := by
  rw [packbits_bits, length_packBytes, List.length_append, List.length_replicate, padding]
  omega

/-- The bits of these bytes are those that were packed and zeros. -/
theorem unpackBytes_packbits (selected : List Bool) :
    unpackBytes (packbits (selected.map bitByte)) =
      selected ++ List.replicate (padding selected.length) false := by
  rw [packbits_bits, unpackBytes_packBytes_take]
  apply List.take_of_length_le
  rw [List.length_append, List.length_replicate, padding]
  omega

/-- Bits are shown as the number they denote. -/
theorem shown_int {selected : List Bool} (given : selected ≠ []) :
    BitType.int.shown selected = .ok (decimal (msbValue selected)) := by
  change (pyInt 2 (joined (bitElements selected))).map decimal = _
  rw [joined_bitElements, pyInt_binary given]
  rfl

/-- No bits denote no number. -/
theorem shown_int_nil : BitType.int.shown [] = .error .valueError := rfl

/-- A character has a text in `repr`. -/
theorem reprChar_ne_nil (quote c : Char) : reprChar quote c ≠ [] := by
  unfold reprChar
  split
  · exact List.cons_ne_nil _ _
  split
  · exact List.cons_ne_nil _ _
  split
  · exact List.cons_ne_nil _ _
  split
  · exact List.cons_ne_nil _ _
  split
  · exact List.cons_ne_nil _ _
  · exact List.cons_ne_nil _ _

/-- A text with characters has a text in `repr`. -/
theorem reprInside_ne_nil {text : Text} (given : text ≠ []) : reprInside text ≠ [] := by
  cases text with
  | nil => contradiction
  | cons c rest =>
    unfold reprInside
    dsimp only
    rw [List.flatMap_cons]
    exact List.append_ne_nil_of_left_ne_nil (reprChar_ne_nil _ c) _

/-- Some bits have a text that is not empty. -/
theorem shown_some (tipe : BitType) {selected : List Bool} (given : selected ≠ []) :
    ∃ text, tipe.shown selected = .ok text ∧ text ≠ [] := by
  have positive := List.length_pos_of_ne_nil given
  have bytes := length_packbits selected
  cases tipe with
  | bits =>
    refine ⟨_, shown_bits selected, ?_⟩
    rw [← List.length_pos_iff_ne_nil, length_binary]
    exact positive
  | hex =>
    refine ⟨_, rfl, ?_⟩
    rw [← List.length_pos_iff_ne_nil]
    change 0 < (hexBytes (packbits (selected.map bitByte))).length
    rw [length_hexBytes]
    omega
  | int => exact ⟨_, shown_int given, decimal_some _⟩
  | ascii =>
    refine ⟨_, rfl, ?_⟩
    apply reprInside_ne_nil
    rw [← List.length_pos_iff_ne_nil, List.length_map]
    omega

/-- No bits have an empty text of the other types. -/
theorem shown_nil {tipe : BitType} (other : tipe ≠ .int) : tipe.shown [] = .ok [] := by
  cases tipe with
  | int => contradiction
  | _ => rfl

end GrReveng.PacketFormatter
