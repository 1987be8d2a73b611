import GrReveng.Library.Bursts
import GrReveng.PatternDump.Hdlc
import GrReveng.PatternDump.LineCodes
import GrReveng.PatternDump.Parts
import GrReveng.PatternDump.Session

/-!
# Captures of bursts

The use that the block is documented for: bursts of encoded data behind the pattern are captured
over a long time, and the log is read afterwards. With a format that shows the decoded data in its
last column the log has one line for each burst, and from it every symbol of a line code and every
byte of stuffed frames is read back.
-/

namespace GrReveng.PatternDump

open Python PacketFormatter

/-- What is read from the lines of a log. -/
def readCapture {α : Type} (reader : Text → α) (log : Text) : List α :=
  (log.splitOn '\n').dropLast.map reader

/-- The last column of a line whose columns are separated by commas. -/
def lastColumn (line : Text) : Text := line.rtakeWhile (· ≠ ',')

/-- The symbol that a character shows. -/
def readSymbol (c : Char) : Option Bool :=
  if c = '1' then some true else if c = '0' then some false else none

/-- The symbols in the last column of a line. -/
def readSymbols (line : Text) : List (Option Bool) := (lastColumn line).map readSymbol

/-- The bytes in the last column of a line. -/
def readFrame (line : Text) : Option (List UInt8) := readBytes (lastColumn line)

/-- The symbol of a character that shows one. -/
theorem readSymbol_symbolText (symbol : Option Bool) : readSymbol (symbolText symbol) = symbol := by
  cases symbol with
  | none => rfl
  | some bit => cases bit <;> rfl

/-- The last column is behind the last comma. -/
theorem lastColumn_append (front : Text) {column : Text} (free : ',' ∉ column) :
    lastColumn (front ++ ([','] ++ column)) = column := by
  have before : ∀ c ∈ column.reverse, decide (c ≠ ',') = true := by
    intro c member
    rw [decide_eq_true_iff]
    rintro rfl
    exact free (List.mem_reverse.mp member)
  rw [lastColumn, List.rtakeWhile, List.reverse_append, List.reverse_append, List.append_assoc,
    List.takeWhile_append_of_pos before]
  simp

/-- The line of a dump in the log. -/
def dumpLine (parts : List Part) (now : Now) (data : List Int8) : Text :=
  parts.flatMap (Part.value now (data.map lsb))

/-- The lines of bursts. -/
def captureLines (parts : List Part) (moment : Nat → Moment) (bursts : List (Burst Int8)) :
    List Text :=
  bursts.mapIdx fun i burst => dumpLine parts (moment i).now burst.data

section Captures

variable {setup : Setup} {parts : List Part} {bursts : List (Burst Int8)} {rest : List Int8}

/-- Bursts of bits that a block takes one by one and shows each in a line. -/
structure Captured (setup : Setup) (parts : List Part) (bursts : List (Burst Int8))
    (rest : List Int8) : Prop where
  /-- There is a pattern. -/
  nonempty : setup.queues.pattern ≠ []
  /-- There is data. -/
  positive : 0 < setup.queues.dumpLen
  /-- The bursts can be told apart. -/
  distinct : Distinct setup.queues.pattern setup.queues.dumpLen bursts rest
  /-- Their data is bits. -/
  binary : ∀ burst ∈ bursts, ∀ x ∈ burst.data, Binary x
  /-- The format has these parts. -/
  separable : Separable setup.output parts
  /-- No character of the data is a `%`. -/
  clear : ∀ burst ∈ bursts, Unambiguous parts (burst.data.map lsb)
  /-- The labels do not end the line. -/
  single : ∀ part ∈ parts, '\n' ∉ part.source

/-- A line is not broken where its labels are not. -/
theorem newline_not_mem_dumpLine (single : ∀ part ∈ parts, '\n' ∉ part.source) (now : Now)
    (data : List Int8) : '\n' ∉ dumpLine parts now data := by
  intro member
  have ⟨part, listed, inside⟩ := List.mem_flatMap.mp member
  cases part with
  | label text => exact single (.label text) listed inside
  | shown what => exact newline_not_mem_value now _ what inside

/-- The dumps of a transmission with what they meet. -/
theorem Captured.entries (captured : Captured setup parts bursts rest) (moment : Nat → Moment) :
    PatternDump.entries setup moment (burstStream setup.queues.pattern bursts rest) =
      bursts.mapIdx fun i burst => (moment i, burst.data) := by
  have taken : setup.queues.taken = setup.queues.dumpLen := Nat.max_eq_right captured.positive
  have each : bursts.map (List.take setup.queues.dumpLen ∘ Burst.data) = bursts.map Burst.data := by
    apply List.map_congr_left
    intro burst member
    exact List.take_of_length_le (Nat.le_of_eq (captured.distinct.length burst member))
  rw [PatternDump.entries, scanned, taken,
    scan_burstStream captured.nonempty captured.positive captured.distinct, List.map_map, each,
    Reactive.mapIdx_map]

variable {faults : SessionFaults} {moment : Nat → Moment} {before : Text}
  {chunks : List (List Int8)}

/-- The log of a session in which nothing fails has the lines of the bursts. -/
theorem Captured.log (captured : Captured setup parts bursts rest)
    (stream : chunks.flatten = burstStream setup.queues.pattern bursts rest)
    (works : DumpWorks setup faults (session setup faults moment before chunks)) :
    (session setup faults moment before chunks).contents.splitOn '\n' =
      captureLines parts moment bursts ++ [[]] := by
  have lines : (session setup faults moment before chunks).contents =
      (captureLines parts moment bursts).flatMap fun line => line ++ ['\n'] := by
    rw [session_complete works, stream, captured.entries, captureLines,
      List.mapIdx_eq_zipIdx_map, List.mapIdx_eq_zipIdx_map, List.flatMap_map, List.flatMap_map]
    apply List.flatMap_congr
    rintro ⟨burst, i⟩ member
    have listed := List.fst_mem_of_mem_zipIdx member
    have shown := formatOutput_parts captured.separable (captured.clear burst listed) (moment i).now
    rw [map_bitSample_lsb (captured.binary burst listed)] at shown
    rw [lineOf, shown]
    rfl
  rw [lines, splitOn_lines]
  intro line member
  obtain ⟨i, inside, same⟩ := List.mem_mapIdx.mp member
  rw [← same]
  exact newline_not_mem_dumpLine captured.single _ _

/-- What is read from the lines of a log is what is read from the line of each burst. -/
theorem Captured.read (captured : Captured setup parts bursts rest)
    (stream : chunks.flatten = burstStream setup.queues.pattern bursts rest)
    (works : DumpWorks setup faults (session setup faults moment before chunks)) {α : Type}
    (reader : Text → α) (value : List Int8 → α)
    (reads : ∀ burst ∈ bursts, ∀ now, reader (dumpLine parts now burst.data) = value burst.data) :
    readCapture reader (session setup faults moment before chunks).contents =
      bursts.map (value ∘ Burst.data) := by
  rw [readCapture, captured.log stream works, List.dropLast_concat]
  apply List.ext_getElem?
  intro i
  rw [List.getElem?_map, captureLines, List.getElem?_mapIdx, List.getElem?_map]
  cases found : bursts[i]? with
  | none => rfl
  | some burst => exact congrArg some (reads burst (List.mem_of_getElem? found) (moment i).now)

end Captures

/-- The parts of a format with a variable in the last column. -/
def columns (front : List Part) (what : Variable) : List Part :=
  front ++ [.label [','], .shown what]

/-- The variable that decodes a line code. -/
def LineCode.variable : LineCode → Variable
  | manchester => .manBits
  | pwm => .pwmBits

section Columns

variable {front : List Part} {setup : Setup} {bursts : List (Burst Int8)} {rest : List Int8}
  {faults : SessionFaults} {moment : Nat → Moment} {before : Text} {chunks : List (List Int8)}

/-- The last column of a line has the value of its variable. -/
theorem lastColumn_dumpLine {what : Variable} (other : what ≠ .ascii) (now : Now)
    (data : List Int8) :
    lastColumn (dumpLine (columns front what) now data) = what.value now (data.map lsb) := by
  have free : ',' ∉ what.value now (data.map lsb) := fun member =>
    absurd (plain_value now _ other _ member) (by decide)
  have line : dumpLine (columns front what) now data =
      front.flatMap (Part.value now (data.map lsb)) ++
        ([','] ++ what.value now (data.map lsb)) := by
    rw [dumpLine, columns, List.flatMap_append, List.flatMap_cons, List.flatMap_singleton]
    rfl
  rw [line, lastColumn_append _ free]

/-- The symbols of the data are in the last column of its line. -/
theorem readSymbols_dumpLine {code : LineCode} (now : Now) {data : List Int8}
    (whole : code.size ∣ data.length) (binary : ∀ x ∈ data, Binary x) :
    readSymbols (dumpLine (columns front code.variable) now data) =
      code.blockCode.decodeAll data := by
  have other : code.variable ≠ .ascii := by cases code <;> decide
  have decoded : code.variable.value now (data.map lsb) =
      code.decode ((data.map lsb).map bitSample) := by cases code <;> rfl
  rw [readSymbols, lastColumn_dumpLine other, decoded, map_bitSample_lsb binary,
    code.decode_whole whole, List.map_map]
  exact (List.map_congr_left fun symbol _ => readSymbol_symbolText symbol).trans (List.map_id _)

/-- However a transmission is cut, and whatever does not complete the pattern is between its
bursts: the log of a session in which nothing fails has one line for each burst, and the symbols
of their data are read back from it, one by one. -/
theorem bursts_read_back {code : LineCode} (whole : code.size ∣ setup.queues.dumpLen)
    (captured : Captured setup (columns front code.variable) bursts rest)
    (stream : chunks.flatten = burstStream setup.queues.pattern bursts rest)
    (works : DumpWorks setup faults (session setup faults moment before chunks)) :
    let log := (session setup faults moment before chunks).contents
    log.splitOn '\n' = captureLines (columns front code.variable) moment bursts ++ [[]] ∧
      readCapture readSymbols log = bursts.map (code.blockCode.decodeAll ∘ Burst.data) ∧
      ∀ words : List (List Bool), bursts.map Burst.data = words.map code.encode →
        readCapture readSymbols log = words.map (List.map some) := by
  intro log
  have symbols : readCapture readSymbols log =
      bursts.map (code.blockCode.decodeAll ∘ Burst.data) := by
    apply captured.read stream works readSymbols code.blockCode.decodeAll
    intro burst member now
    exact readSymbols_dumpLine now (captured.distinct.length burst member ▸ whole)
      (captured.binary burst member)
  refine ⟨captured.log stream works, symbols, fun words sent => ?_⟩
  rw [symbols, ← List.map_map, sent, List.map_map]
  exact List.map_congr_left fun word _ => code.blockCode.decodeAll_encodeAll word

/-- The complete bytes of stuffed bits. -/
def frameBytes (data : List Int8) : List UInt8 := lsbBytes (unstuff 5 (data.map lsb))

/-- The bytes of the data are in the last column of its line. -/
theorem readFrame_dumpLine (now : Now) (data : List Int8) :
    readFrame (dumpLine (columns front .hdlcd) now data) = some (frameBytes data) := by
  rw [readFrame, lastColumn_dumpLine (by decide), Variable.value, hdlcDataDecode_eq,
    readBytes_hexBytes]
  rfl

/-- Stuffed bytes in front of other bits are the first bytes. -/
theorem frameBytes_stuffed (bytes : List UInt8) (more : List Bool) :
    bytes <+: frameBytes ((stuff 5 (bytes.flatMap lsbBits) ++ more).map bitSample) := by
  have samples : ∀ bits : List Bool, (bits.map bitSample).map lsb = bits := by
    intro bits
    rw [List.map_map]
    exact (List.map_congr_left fun bit _ => lsb_bitSample bit).trans (List.map_id bits)
  have ⟨behind, whole⟩ := unstuff_prefix 5 (stuff 5 (bytes.flatMap lsbBits)) more
  rw [unstuff_stuff (by decide)] at whole
  rw [frameBytes, samples, ← whole, lsbBytes_append]
  exact List.prefix_append _ _

/-- However a transmission of stuffed frames is cut, and whatever does not complete the pattern is
between them: from the log of a session in which nothing fails the complete bytes of every frame
are read back, and these begin with the bytes that were stuffed. -/
theorem frames_read_back (captured : Captured setup (columns front .hdlcd) bursts rest)
    (stream : chunks.flatten = burstStream setup.queues.pattern bursts rest)
    (works : DumpWorks setup faults (session setup faults moment before chunks)) :
    let log := (session setup faults moment before chunks).contents
    readCapture readFrame log = bursts.map (some ∘ frameBytes ∘ Burst.data) ∧
      ∀ frames : List (List UInt8 × List Bool),
        bursts.map Burst.data = (frames.map fun (bytes, more) =>
          (stuff 5 (bytes.flatMap lsbBits) ++ more).map bitSample) →
        List.Forall₂ (fun read frame => ∃ bytes, read = some bytes ∧ frame.1 <+: bytes)
          (readCapture readFrame log) frames := by
  intro log
  have read : readCapture readFrame log = bursts.map (some ∘ frameBytes ∘ Burst.data) := by
    apply captured.read stream works readFrame (some ∘ frameBytes)
    intro burst _ now
    exact readFrame_dumpLine now burst.data
  refine ⟨read, fun frames sent => ?_⟩
  rw [read, ← List.map_map, ← List.map_map, sent, List.map_map, List.map_map,
    List.forall₂_map_left_iff]
  apply List.forall₂_same.mpr
  intro frame _
  exact ⟨_, rfl, frameBytes_stuffed frame.1 frame.2⟩

end Columns

/-- Two Manchester encoded bits behind three ones, in the documented format. -/
def threeOnes : Setup :=
  ⟨⟨[1, 1, 1], 4⟩, ⟨"%s,%[man-bits]".toList, .relative⟩, some "capture".toList, true⟩

/-- Two bursts. A burst whose ones were damaged is in front of the second one. -/
def twoBursts : List (Burst Int8) :=
  [⟨[1, 0], [1, 0, 0, 1]⟩, ⟨[0, 1, 0, 1, 1, 0, 0, 1, 0], [0, 1, 1, 0]⟩]

/-- A third burst that is cut short. -/
def cutBurst : List Int8 := [1, 1, 1, 0, 1]

/-- The bursts can be told apart. -/
theorem distinct_twoBursts : Distinct [1, 1, 1] 4 twoBursts cutBurst where
  found := by decide
  length := by decide
  ends := fun tail found => by
    have cut : some [0, 1] = some tail := found
    rw [← Option.some.inj cut]
    decide

/-- The block takes them one by one. Its format is a time, a comma and the decoded data. -/
theorem captured_twoBursts :
    Captured threeOnes (columns [.shown .time] .manBits) twoBursts cutBurst where
  nonempty := by decide
  positive := by decide
  distinct := distinct_twoBursts
  binary := List.forall_mem_cons.mpr
    ⟨binary_of_all rfl, List.forall_mem_singleton.mpr (binary_of_all rfl)⟩
  separable := ⟨by decide, rfl, by decide, fun _ => rfl⟩
  clear := fun _ _ listed => absurd listed (by decide)
  single := by decide

/-- The bits of the two bursts are read back. -/
theorem bursts_read_back_twoBursts :
    readCapture readSymbols (session threeOnes noSessionFaults
        (fun _ => quietMoment shortlyAfter) [] [burstStream [1, 1, 1] twoBursts cutBurst]
        ).contents = [[some true, some false], [some false, some true]] :=
  (@bursts_read_back [.shown .time] threeOnes twoBursts cutBurst noSessionFaults
    (fun _ => quietMoment shortlyAfter) [] [burstStream [1, 1, 1] twoBursts cutBurst] .manchester
    (by decide) captured_twoBursts List.flatten_singleton
    ⟨rfl, ⟨none, by rfl⟩, by decide +kernel⟩).2.2 [[true, false], [false, true]] rfl

/-- The data behind a flag, in the last column. -/
def behindFlag : Setup :=
  ⟨⟨[0, 1, 1, 1, 1, 1, 1, 0], 10⟩, ⟨"%s,%[hdlcd]".toList, .relative⟩, some "frames".toList, false⟩

/-- A byte that looks like a flag, and one bit more. -/
def oneFrame : List (Burst Int8) := [⟨[1, 1], [0, 1, 1, 1, 1, 1, 0, 1, 0, 1]⟩]

/-- The block takes the frame. -/
theorem captured_oneFrame : Captured behindFlag (columns [.shown .time] .hdlcd) oneFrame [0] where
  nonempty := by decide
  positive := by decide
  distinct := ⟨by decide, by decide, nofun⟩
  binary := List.forall_mem_singleton.mpr (binary_of_all rfl)
  separable := ⟨by decide, rfl, by decide, fun _ => rfl⟩
  clear := fun _ _ listed => absurd listed (by decide)
  single := by decide

/-- The byte is read back. -/
theorem frames_read_back_oneFrame :
    List.Forall₂ (fun read frame => ∃ bytes, read = some bytes ∧ frame.1 <+: bytes)
      (readCapture readFrame (session behindFlag noSessionFaults
        (fun _ => quietMoment shortlyAfter) [] [burstStream behindFlag.queues.pattern oneFrame [0]]
        ).contents) [([0x7e], [true])] :=
  (@frames_read_back [.shown .time] behindFlag oneFrame [0] noSessionFaults
    (fun _ => quietMoment shortlyAfter) [] [burstStream behindFlag.queues.pattern oneFrame [0]]
    captured_oneFrame List.flatten_singleton ⟨rfl, ⟨none, by rfl⟩, by decide +kernel⟩).2
      [([0x7e], [true])] (by decide)

end GrReveng.PatternDump
