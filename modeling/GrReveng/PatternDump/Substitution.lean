import GrReveng.PatternDump.Hdlc

/-!
# The variables of the output format

`format_output` replaces its variables one after the other, each in what the earlier ones have
left behind. All of them begin with a per cent sign and have no other one, and `%[ascii]` is the
only one whose value can have any. So the result is the simultaneous substitution exactly when no
value completes a later variable, alone or together with the text around it.
-/

namespace GrReveng.PatternDump

open Python PacketFormatter

/-- The bytes of a dump of bits, as `numpy.packbits` packs them. -/
def dumpBites (bits : List Bool) : List UInt8 :=
  packbits (bits.map fun bit => if bit then 1 else 0)

/-- The variables in front of `%[ascii]`. The time is one of them when it is relative. -/
def earlyVariables (cfg : Output) (now : Now) (bits : List Bool) : List (Rule Char) :=
  (if cfg.relTime = .relative then [("%s".toList, timeStr now.diff)] else []) ++
    [("%[bits]".toList, bitsText (bits.map bitSample)),
      ("%[hex]".toList, hexText (dumpBites bits))]

/-- The variable whose value is text from the air. -/
def asciiVariable (bits : List Bool) : Rule Char :=
  ("%[ascii]".toList, asciiText (dumpBites bits))

/-- The variables behind `%[ascii]`. -/
def lateVariables (bits : List Bool) : List (Rule Char) :=
  [("%[man-bits]".toList, manDecode (bits.map bitSample)),
    ("%[pwm-bits]".toList, pwmDecode (bits.map bitSample)),
    ("%[hdlcd]".toList, hdlcDataDecode (bits.map bitSample))]

/-- The variables of a format, in the order of their replacement, with their values for a dump. -/
def formatVariables (cfg : Output) (now : Now) (bits : List Bool) : List (Rule Char) :=
  earlyVariables cfg now bits ++ asciiVariable bits :: lateVariables bits

/-- A variable that the text does not have is not replaced. -/
theorem replaceVariable_eq (name : String) (value out : Text) :
    replaceVariable name value out = replaceAll name.toList value out := by
  rw [replaceVariable]
  split
  · rfl
  · rename_i absent
    rw [replaceAll_of_absent value (occurrences_of_missing absent)]

/-- Bits convert to bytes. -/
theorem sampleBytes_bitSample (bits : List Bool) :
    sampleBytes (bits.map bitSample) = .ok (bits.map fun bit => if bit then 1 else 0) := by
  induction bits with
  | nil => rfl
  | cons bit bits ih =>
    rw [sampleBytes] at ih ⊢
    rw [List.map_cons, List.mapM_cons, ih]
    cases bit <;> rfl

/-- For bits `format_output` is a sequence of passes. -/
theorem formatOutput_bits {cfg : Output} (timed : cfg.relTime ≠ .absolute) (now : Now)
    (bits : List Bool) :
    formatOutput cfg now (bits.map bitSample) =
      .ok (replaceEach (formatVariables cfg now bits) cfg.outputFmt) := by
  rw [formatOutput, sampleBytes_bitSample]
  simp only [replaceVariable_eq]
  cases mode : cfg.relTime with
  | none =>
    rw [formatVariables, earlyVariables, mode]
    rfl
  | relative =>
    rw [formatVariables, earlyVariables, mode]
    rfl
  | absolute => exact absurd mode timed

/-- Characters of all values but that of `%[ascii]`. -/
def plainChar (c : Char) : Bool := c.isDigit || c ∈ "abcdefx.".toList

/-- A text of such characters. -/
def Plain (text : Text) : Prop := ∀ c ∈ text, plainChar c = true

/-- A plain text has no per cent sign. -/
theorem Plain.free {text : Text} (plain : Plain text) : '%' ∉ text := by
  intro member
  have sign := plain '%' member
  revert sign
  decide

/-- Hexadecimal digits are plain. -/
theorem plain_hexBytes (bytes : List UInt8) : Plain (hexBytes bytes) := by
  have digits : ∀ digit < 16, plainChar (hexDigit digit) = true := by decide
  intro c member
  obtain ⟨digit, small, rfl⟩ := mem_hexBytes member
  exact digits digit small

/-- The hexadecimal text is that of the bytes. -/
theorem hexText_eq (bites : List UInt8) : hexText bites = hexBytes bites := by
  rw [hexText, hexBytes]
  simp only [zfill_hexDigits]

/-- Digits and a point are plain. -/
theorem plain_timeStr (diff : TimeDelta) : Plain (timeStr diff) := by
  have digit : ∀ c : Char, c.isDigit = true → plainChar c = true := by
    intro c number
    rw [plainChar, number, Bool.true_or]
  intro c member
  rw [timeStr, List.mem_append, List.mem_cons, zfill, List.mem_append] at member
  rcases member with second | point | zero | fraction
  · exact digit c (isDigit_of_mem_decimal second)
  · rw [point]
    decide
  · rw [List.eq_of_mem_replicate zero]
    decide
  · exact digit c (isDigit_of_mem_decimal fraction)

/-- The bits of a dump as they are printed. -/
theorem bitsText_bitSample (bits : List Bool) :
    bitsText (bits.map bitSample) = bits.map fun bit => if bit then '1' else '0' := by
  rw [bitsText, List.flatMap_map, List.map_eq_flatMap]
  congr 1
  funext bit
  cases bit <;> decide

/-- Zeros and ones are plain. -/
theorem plain_bitsText (bits : List Bool) : Plain (bitsText (bits.map bitSample)) := by
  rw [bitsText_bitSample]
  intro c member
  obtain ⟨bit, -, rfl⟩ := List.mem_map.mp member
  cases bit <;> decide

/-- Decoded symbols are plain. -/
theorem plain_decodeSymbols (size : Nat) (zero one l : List Int8) :
    Plain (decodeSymbols size zero one l) := by
  intro c member
  obtain ⟨i, -, rfl⟩ := List.mem_map.mp member
  dsimp only
  split
  · decide
  · split <;> decide

/-- The values in front of and behind that of `%[ascii]` have no per cent sign. -/
theorem free_values (cfg : Output) (now : Now) (bits : List Bool) :
    ∀ rule ∈ earlyVariables cfg now bits ++ lateVariables bits, '%' ∉ rule.2 := by
  have each : ∀ rule ∈ ("%s".toList, timeStr now.diff) ::
      ("%[bits]".toList, bitsText (bits.map bitSample)) ::
      ("%[hex]".toList, hexText (dumpBites bits)) :: lateVariables bits, Plain rule.2 := by
    simp only [lateVariables, List.forall_mem_cons]
    refine ⟨plain_timeStr now.diff, plain_bitsText bits, ?_, plain_decodeSymbols _ _ _ _,
      plain_decodeSymbols _ _ _ _, ?_, fun rule member => absurd member List.not_mem_nil⟩
    · rw [hexText_eq]
      exact plain_hexBytes _
    · rw [hdlcDataDecode_eq]
      exact plain_hexBytes _
  intro rule member
  apply Plain.free
  apply each rule
  cases mode : cfg.relTime <;> simp [earlyVariables, mode] at member ⊢ <;> tauto

/-- The names of all variables. -/
def variableNames : List Text :=
  ["%s".toList, "%[bits]".toList, "%[hex]".toList, "%[ascii]".toList, "%[man-bits]".toList,
    "%[pwm-bits]".toList, "%[hdlcd]".toList]

/-- No name is a part of another one's beginning. -/
theorem separate_formatVariables {cfg : Output} (timed : cfg.relTime ≠ .absolute) (now : Now)
    (bits : List Bool) : Separate '%' (formatVariables cfg now bits) := by
  have marked : ∀ name ∈ variableNames, Marked '%' name := by decide
  apply Separate.of_words marked (by decide)
  cases mode : cfg.relTime with
  | none =>
    have names : (formatVariables cfg now bits).map Prod.fst = variableNames.tail := by
      rw [formatVariables, earlyVariables, mode]
      rfl
    rw [names]
    exact List.tail_sublist _
  | relative =>
    have names : (formatVariables cfg now bits).map Prod.fst = variableNames := by
      rw [formatVariables, earlyVariables, mode]
      rfl
    rw [names]
  | absolute => exact absurd mode timed

/-- A plain text completes no `%[ascii]` when it begins with a text that no end of this name
begins with. -/
theorem foreign_of_start {value start : Text} (plain : Plain value) (front : start <+: value)
    (clash : ∀ part ∈ "[ascii]".toList.tails, ¬ start <+: part) :
    Foreign value "%[ascii]".toList := by
  have bracket : ∀ part ∈ "[ascii]".toList.tails, part ≠ [] → ']' ∈ part := by decide
  intro part some ending
  have inside : part ∈ "[ascii]".toList.tails := (List.mem_tails _ _).mpr ending
  constructor
  · intro found
    have last := plain ']' (found.subset (bracket part inside some))
    revert last
    decide
  · intro found
    exact clash part inside (front.trans found)

/-- A plain text that begins with a digit completes no `%[ascii]`. -/
theorem foreign_of_digit {value : Text} (plain : Plain value) (some : value ≠ [])
    (digit : ∀ c ∈ value.head?, c.isDigit = true) : Foreign value "%[ascii]".toList := by
  cases value with
  | nil => contradiction
  | cons c rest =>
    apply foreign_of_start plain (List.prefix_append [c] rest)
    intro part inside found
    have letters : "[ascii]".toList.all (fun c => !c.isDigit) = true := by decide
    have member : c ∈ "[ascii]".toList :=
      ((List.mem_tails _ _).mp inside).subset (found.subset List.mem_cons_self)
    have letter := List.all_eq_true.mp letters c member
    rw [digit c rfl] at letter
    contradiction

/-- The hexadecimal text of some bytes completes no `%[ascii]`: no two characters of this name
are digits. -/
theorem foreign_hexBytes {bytes : List UInt8} (some : bytes ≠ []) :
    Foreign (hexBytes bytes) "%[ascii]".toList := by
  cases bytes with
  | nil => contradiction
  | cons byte bytes =>
    have pairs : ∀ part ∈ "[ascii]".toList.tails, 2 ≤ part.length →
        (part.take 2).all plainChar = false := by decide
    have front : hexByte byte <+: hexBytes (byte :: bytes) := List.prefix_append _ _
    apply foreign_of_start (plain_hexBytes (byte :: bytes)) front
    intro part inside found
    have two := found.length_le
    rw [length_hexByte] at two
    have digits : (part.take 2).all plainChar = true := by
      rw [← length_hexByte byte, ← List.prefix_iff_eq_take.mp found, List.all_eq_true]
      intro c member
      apply plain_hexBytes [byte] c
      simpa [hexBytes] using member
    rw [pairs part inside two] at digits
    contradiction

/-- A dump of some bits has some bytes. -/
theorem dumpBites_ne_nil {bits : List Bool} (some : bits ≠ []) : dumpBites bits ≠ [] := by
  have long := List.length_pos_iff.mpr some
  apply List.ne_nil_of_length_pos
  rw [dumpBites, packbits, length_packBytes, List.length_append, List.length_map,
    List.length_replicate, List.length_map]
  omega

/-- For a dump of some bits no value in front of `%[ascii]` completes it. -/
theorem foreign_earlyVariables (cfg : Output) (now : Now) {bits : List Bool} (some : bits ≠ []) :
    ∀ rule ∈ earlyVariables cfg now bits, Foreign rule.2 "%[ascii]".toList := by
  have time : Foreign (timeStr now.diff) "%[ascii]".toList := by
    apply foreign_of_digit (plain_timeStr now.diff) (by simp [timeStr])
    intro c first
    rw [timeStr, List.head?_append_of_ne_nil _ (decimal_ne_nil _)] at first
    exact isDigit_of_mem_decimal (List.mem_of_mem_head? first)
  have printed : Foreign (bitsText (bits.map bitSample)) "%[ascii]".toList := by
    apply foreign_of_digit (plain_bitsText bits)
    · simpa [bitsText_bitSample] using some
    · rw [bitsText_bitSample]
      intro c first
      obtain ⟨bit, -, rfl⟩ := List.mem_map.mp (List.mem_of_mem_head? first)
      cases bit <;> decide
  have hex : Foreign (hexText (dumpBites bits)) "%[ascii]".toList := by
    rw [hexText_eq]
    exact foreign_hexBytes (dumpBites_ne_nil some)
  intro rule member
  rw [earlyVariables, List.mem_append] at member
  cases member with
  | inl early =>
    split at early
    · rw [List.mem_singleton.mp early]
      exact time
    · contradiction
  | inr later =>
    cases List.mem_cons.mp later with
    | inl first => rw [first]; exact printed
    | inr second => rw [List.mem_singleton.mp second]; exact hex

/-- Formatting of dumps. With `rel_time` either `None` or `True` the output is the format with each
variable replaced where it stands in the format exactly when no value completes a later variable:
in the format with the earlier variables replaced it stands as often as in the format. -/
theorem format_simultaneous {cfg : Output} (timed : cfg.relTime ≠ .absolute) (now : Now)
    (bits : List Bool) :
    formatOutput cfg now (bits.map bitSample) =
        .ok (substituteAll (formatVariables cfg now bits) cfg.outputFmt) ↔
      NoneCompleted (formatVariables cfg now bits) cfg.outputFmt := by
  rw [formatOutput_bits timed, Except.ok.injEq]
  apply replaceEach_middle_iff (separate_formatVariables timed now bits)
    (free_values cfg now bits)
  by_cases empty : bits = []
  · left
    rw [empty]
    decide
  · exact .inr (foreign_earlyVariables cfg now empty)

/-- Twelve seconds and 345 microseconds after the start, on a clock whose formats are not used. -/
def shortlyAfter : Now := ⟨⟨0, 12, 345, by decide, by decide⟩, fun _ => .error .valueError⟩

/-- A dump of eight bytes that spell a variable. -/
def spelledVariable : List Bool :=
  unpackBytes ("%[hdlcd]".toList.map fun c => UInt8.ofNat c.toNat)

/-- The text from the air is taken for a variable. -/
theorem spelledVariable_replaced :
    formatOutput ⟨"%[ascii]".toList, .none⟩ shortlyAfter (spelledVariable.map bitSample) =
        .ok "a4da162636c626ba".toList ∧
      formatOutput ⟨"%[ascii]".toList, .none⟩ shortlyAfter (spelledVariable.map bitSample) ≠
        .ok (substituteAll (formatVariables ⟨"%[ascii]".toList, .none⟩ shortlyAfter spelledVariable)
          "%[ascii]".toList) := by
  decide +kernel

/-- The documented format is filled in as it stands. -/
theorem format_simultaneous_shortlyAfter :
    formatOutput ⟨"%s,%[man-bits]".toList, .relative⟩ shortlyAfter
        ([false, true, true, false].map bitSample) = .ok "12.000345,01".toList ∧
      NoneCompleted (formatVariables ⟨"%s,%[man-bits]".toList, .relative⟩ shortlyAfter
        [false, true, true, false]) "%s,%[man-bits]".toList := by
  have timed : (Output.mk "%s,%[man-bits]".toList .relative).relTime ≠ .absolute := by decide
  exact ⟨by decide +kernel, (format_simultaneous timed shortlyAfter
    [false, true, true, false]).mp (by decide +kernel)⟩

end GrReveng.PatternDump
