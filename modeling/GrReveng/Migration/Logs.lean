import GrReveng.Migration
import GrReveng.PatternDump.Parts
import GrReveng.PatternDump.Session
import GrReveng.Receiver

/-!
# From one log to the other

An output format of `pattern_dump` with its variables of bits is translated into one for
`packet_formatter`. Where the sync word does not overlap itself, a flow graph with the deprecated
block and one with the deframer and the formatter then write the same log file.
-/

namespace GrReveng.Migration

open Python Reactive PacketDeframer PacketFormatter Transport Receiver

/-- A variable that both blocks have. -/
inductive Shared
  /-- The bits themselves. -/
  | bits
  /-- Their bytes in hexadecimal. -/
  | hex
  /-- Their bytes as characters. -/
  | ascii
  deriving DecidableEq

/-- The variable of `pattern_dump`. -/
def Shared.deprecated : Shared → PatternDump.Variable
  | bits => .bits
  | hex => .hex
  | ascii => .ascii

/-- The type of the variable of `packet_formatter`. -/
def Shared.tipe : Shared → BitType
  | bits => .bits
  | hex => .hex
  | ascii => .ascii

/-- What a variable shows. -/
def Shared.value (samples : List Bool) : Shared → Text
  | bits => binary samples
  | hex => hexBytes (packbits (samples.map bitByte))
  | ascii => reprInside (characters (packbits (samples.map bitByte)))

/-- A part of an output format. -/
inductive Part
  /-- A text that is shown as it is. -/
  | label (text : Text)
  /-- A variable. -/
  | shown (what : Shared)
  deriving DecidableEq

/-- A part in a format of `pattern_dump`. -/
def Part.deprecated : Part → PatternDump.Part
  | label text => .label text
  | shown what => .shown what.deprecated

/-- A part in a format of `packet_formatter`. -/
def Part.migrated : Part → Text
  | label text => text
  | shown what => variableOf what.tipe .all

/-- What a part shows. -/
def Part.value (samples : List Bool) : Part → Text
  | label text => text
  | shown what => what.value samples

/-- The format of `packet_formatter`. -/
def migratedFormat (parts : List Part) : Text := parts.flatMap Part.migrated

/-- What both formats show. -/
def shownText (parts : List Part) (samples : List Bool) : Text := parts.flatMap (Part.value samples)

/-- The parts of a format of `pattern_dump`. -/
abbrev deprecatedParts (parts : List Part) : List PatternDump.Part := parts.map Part.deprecated

section Formats

variable {parts : List Part} {samples : List Bool}

/-- `pattern_dump` shows the parts of its format. -/
theorem formatOutput_deprecated {cfg : PatternDump.Output}
    (separable : PatternDump.Separable cfg (deprecatedParts parts))
    (clear : PatternDump.Unambiguous (deprecatedParts parts) samples) (now : PatternDump.Now) :
    PatternDump.formatOutput cfg now (samples.map bitSample) = .ok (shownText parts samples) := by
  rw [PatternDump.formatOutput_parts separable clear, List.flatMap_map, shownText]
  congr 1
  apply List.flatMap_congr
  intro part _
  cases part with
  | label text => rfl
  | shown what =>
    cases what with
    | bits =>
      change PatternDump.bitsText (samples.map bitSample) = binary samples
      rw [PatternDump.bitsText_bitSample, binary]
      apply List.map_congr_left
      intro bit _
      cases bit <;> rfl
    | hex => exact PatternDump.hexText_eq _
    | ascii => rfl

/-- What is shown in the place of a variable has no `%`. -/
theorem value_free (clear : PatternDump.Unambiguous (deprecatedParts parts) samples)
    {what : Shared} (member : .shown what ∈ parts) : '%' ∉ what.value samples := by
  cases what with
  | bits =>
    intro inside
    have ⟨bit, _, same⟩ := List.mem_map.mp inside
    cases bit <;> contradiction
  | hex => exact hexBytes_free _
  | ascii =>
    have listed : .shown .ascii ∈ deprecatedParts parts := List.mem_map_of_mem member
    exact percent_not_mem_reprInside (percent_not_mem_characters (clear listed))

/-- The pieces of a part in a format of `packet_formatter`. -/
def Part.pieces : Part → List Piece
  | label text => text.map .literal
  | shown what => [.placeholder (addressed what.tipe .all)]

/-- The format of `packet_formatter` is the source of its pieces. -/
theorem migratedFormat_eq_sources (parts : List Part) :
    migratedFormat parts = sources (parts.flatMap Part.pieces) := by
  rw [migratedFormat, sources, List.flatMap_assoc]
  congr 1
  funext part
  cases part with
  | label text => exact (sources_literals text).symm
  | shown what => exact (List.flatMap_singleton _ _).symm

/-- The value of a variable of the format. -/
theorem valueOf_shown (metadata : Entries) (samples : List Bool) (what : Shared) :
    valueOf metadata (packet samples) (addressed what.tipe .all) =
      .ok (some (what.value samples)) := by
  have all : Address.all.selected samples = samples := slice_none samples
  rw [valueOf_addressed, all]
  cases what with
  | bits => rw [Shared.tipe, shown_bits]; rfl
  | _ => rfl

/-- The pieces are rendered as the parts. -/
theorem rendering_pieces (metadata : Entries) (samples : List Bool) (parts : List Part) :
    rendering (values metadata (packet samples)) (parts.flatMap Part.pieces) =
      shownText parts samples := by
  rw [rendering, List.flatMap_assoc, shownText]
  congr 1
  funext part
  cases part with
  | label text => exact rendering_literals text
  | shown what =>
    have given : values metadata (packet samples) (addressed what.tipe .all) =
        some (what.value samples) := by rw [values, valueOf_shown]
    exact (rendering_placeholder given []).trans (List.append_nil _)

/-- The characters of the pieces are those of the labels. -/
theorem literal_mem_pieces {c : Char} (member : .literal c ∈ parts.flatMap Part.pieces) :
    ∃ text, .label text ∈ parts ∧ c ∈ text := by
  obtain ⟨part, listed, inside⟩ := List.mem_flatMap.mp member
  cases part with
  | label text =>
    obtain ⟨other, found, same⟩ := List.mem_map.mp inside
    exact ⟨text, listed, Piece.literal.inj same ▸ found⟩
  | shown what =>
    have same := List.mem_singleton.mp inside
    contradiction

/-- The variables of the pieces are those of the parts. -/
theorem placeholder_mem_pieces {name : Text}
    (member : .placeholder name ∈ parts.flatMap Part.pieces) :
    ∃ what, .shown what ∈ parts ∧ name = addressed what.tipe .all := by
  obtain ⟨part, listed, found⟩ := List.mem_flatMap.mp member
  cases part with
  | label text =>
    obtain ⟨c, _, same⟩ := List.mem_map.mp found
    contradiction
  | shown what => exact ⟨what, listed, Piece.placeholder.inj (List.mem_singleton.mp found)⟩

/-- `packet_formatter` shows the parts of its format. -/
theorem formatOutput_migrated (labels : ∀ part ∈ deprecatedParts parts, part.Clean)
    (clear : PatternDump.Unambiguous (deprecatedParts parts) samples) (metadata : Entries) :
    formatOutput (migratedFormat parts) metadata (packet samples) =
      .ok (shownText parts samples) := by
  rw [migratedFormat_eq_sources, formatOutput_sources, rendering_pieces]
  · intro member
    have ⟨text, listed, sign⟩ := literal_mem_pieces member
    exact labels (.label text) (List.mem_map_of_mem listed) sign
  · intro name member
    obtain ⟨what, _, rfl⟩ := placeholder_mem_pieces member
    exact enclosed_addressed what.tipe .all
  · intro name member
    obtain ⟨what, listed, rfl⟩ := placeholder_mem_pieces member
    exact ⟨what.value samples, valueOf_shown metadata samples what, value_free clear listed⟩

end Formats

/-- A session of `packet_formatter` with a log file in which nothing fails. -/
structure FormatterWorks (setup : PacketFormatter.Setup) (opens : Bool)
    (session : PacketFormatter.Session) : Prop where
  /-- The file was opened. -/
  opened : setup.opened opens = true
  /-- The session ends without an exception. -/
  returns : ∃ last, session.final = .ok last
  /-- No operation raised. -/
  working : ∀ effect ∈ session.effects, effect.succeeded = true

section Sessions

variable {cfg : PacketDeframer.Config} {parts : List Part}

/-- The formatter reads the bits of a packet that is not packed. -/
theorem bitsOf_samples (unpacked : cfg.packBytes = false) (reading : Option Timeval)
    {u : List Int8} (binary : ∀ x ∈ u, Binary x) :
    bitsOf (pdu cfg reading (payload cfg u)) = packet (u.map lsb) := by
  rw [bitsOf, payload, if_neg (by simp [pdu, unpacked]), if_neg (by simp [unpacked])]
  change Value.bytes (u.map Int8.toUInt8) = Value.bytes ((u.map lsb).map bitByte)
  rw [List.map_map]
  congr 1
  apply List.map_congr_left
  intro x member
  exact (bit_toUInt8 (binary x member)).symm

/-- The line of a packet in the log of `packet_formatter`. -/
theorem line_migrated {float : ℚ → Double} {target : PacketFormatter.Config}
    (format : target.formatStr = migratedFormat parts)
    (labels : ∀ part ∈ deprecatedParts parts, part.Clean)
    (unpacked : cfg.packBytes = false) (reading : Option Timeval) (faults : Faults)
    {u : List Int8} (binary : ∀ x ∈ u, Binary x)
    (clear : PatternDump.Unambiguous (deprecatedParts parts) (u.map lsb)) :
    (received float (pdu cfg reading (payload cfg u)) faults).line target =
      shownText parts (u.map lsb) ++ ['\n'] := by
  apply Call.line_of_formats
  refine ⟨_, _, rfl, ?_⟩
  rw [textOf, readPdu_received]
  change formatOutput target.formatStr _ _ = _
  rw [bitsOf_samples unpacked reading binary, format]
  exact formatOutput_migrated labels clear _

/-- The constructor takes over a format that has no backslash in front of an `n`. -/
theorem config_migrated {target : PacketFormatter.Setup}
    (format : target.formatStr = migratedFormat parts)
    (plain : ¬[backslash, 'n'] <:+: migratedFormat parts) :
    target.config.formatStr = migratedFormat parts := by
  rw [← format] at plain ⊢
  exact replacePairs_of_absent plain ['\n']

/-- The line of a dump in the log of `pattern_dump`. -/
theorem line_deprecated {setup : PatternDump.Setup}
    (separable : PatternDump.Separable setup.output (deprecatedParts parts))
    (moment : PatternDump.Moment) {u : List Int8} (binary : ∀ x ∈ u, Binary x)
    (clear : PatternDump.Unambiguous (deprecatedParts parts) (u.map lsb)) :
    PatternDump.lineOf setup (moment, u) = shownText parts (u.map lsb) ++ ['\n'] := by
  have formatted := formatOutput_deprecated separable clear moment.now
  rw [map_bitSample_lsb binary] at formatted
  rw [PatternDump.lineOf, formatted]

/-- Items that are numbered and then make the same text. -/
theorem flatMap_mapIdx {α β γ : Type} {f : Nat → α → β} {g : β → List γ} {h : α → List γ}
    {items : List α} (same : ∀ i, ∀ a ∈ items, g (f i a) = h a) :
    (items.mapIdx f).flatMap g = items.flatMap h := by
  induction items generalizing f with
  | nil => rfl
  | cons a items ih =>
    have later := @ih (fun i => f (i + 1)) fun i b member =>
      same (i + 1) b (List.mem_cons_of_mem a member)
    rw [List.mapIdx_cons, List.flatMap_cons, List.flatMap_cons, same 0 a List.mem_cons_self, later]

/-- The packets of a fixed length that is positive have this length, and the samples of the
stream. -/
theorem mem_scan_fixed (positive : 1 ≤ cfg.pktLen.toInt) {stream u : List Int8}
    (member : u ∈ scan cfg.sync cfg.pktLen.toInt.toNat stream) :
    u.length = cfg.pktLen.toInt.toNat ∧ ∀ x ∈ u, x ∈ stream :=
  mem_scanFrom (by omega) member

/-- The dumps of the deprecated block are the packets. -/
theorem scanned_deprecated (positive : 1 ≤ cfg.pktLen.toInt) (stream : List Int8) :
    PatternDump.scanned (deprecated cfg) stream =
      scan cfg.sync cfg.pktLen.toInt.toNat stream := by
  have taken : (deprecated cfg).taken = cfg.pktLen.toInt.toNat :=
    Nat.max_eq_right (show 1 ≤ cfg.pktLen.toInt.toNat by omega)
  have whole : ∀ u ∈ scan cfg.sync cfg.pktLen.toInt.toNat stream,
      u.take (deprecated cfg).dumpLen = u := fun u member =>
    List.take_of_length_le (Nat.le_of_eq (mem_scan_fixed positive member).1)
  rw [PatternDump.scanned, taken]
  exact (List.map_congr_left whole).trans (List.map_id _)

/-- In fixed length mode and unpacked, for a sync word that does not overlap itself: the deprecated
block and its replacement write the same log file, the parts of the format for each dump. -/
theorem logs_agree (mode : cfg.fixedLen = true) (positive : 1 ≤ cfg.pktLen.toInt)
    (unpacked : cfg.packBytes = false) (nonempty : cfg.sync ≠ []) (free : ¬HasBorder cfg.sync)
    {stream : List Int8} (binary : ∀ x ∈ stream, Binary x)
    (clear : ∀ u ∈ scan cfg.sync cfg.pktLen.toInt.toNat stream,
      PatternDump.Unambiguous (deprecatedParts parts) (u.map lsb))
    {setup : PatternDump.Setup} (queues : setup.queues = deprecated cfg)
    (separable : PatternDump.Separable setup.output (deprecatedParts parts))
    {faults : PatternDump.SessionFaults} {moment : Nat → PatternDump.Moment} {before : Text}
    {chunks : List (List Int8)} (whole : chunks.flatten = stream)
    (dumps : PatternDump.DumpWorks setup faults
      (PatternDump.session setup faults moment before chunks))
    {target : PacketFormatter.Setup} (truncates : target.append = false)
    (format : target.formatStr = migratedFormat parts)
    (plain : ¬[backslash, 'n'] <:+: migratedFormat parts) {float : ℚ → Double}
    {clock : Nat → Option Timeval} {garbage : Uninitialised} {faults' : Nat → Faults}
    {opens headline : Bool} {before' : Text} {chunks' : List (List Int8)}
    (whole' : chunks'.flatten = stream) {stopFaults : Faults}
    (works : FormatterWorks target opens (PacketFormatter.session target opens headline before'
      (callsFor float cfg clock faults' (published cfg garbage chunks')) stopFaults)) :
    let lines := (scan cfg.sync cfg.pktLen.toInt.toNat stream).flatMap fun u =>
      shownText parts (u.map lsb) ++ ['\n']
    (PatternDump.session setup faults moment before chunks).contents = lines ∧
      (PacketFormatter.session target opens headline before'
        (callsFor float cfg clock faults' (published cfg garbage chunks')) stopFaults).contents =
          lines := by
  intro lines
  have bits : ∀ u ∈ scan cfg.sync cfg.pktLen.toInt.toNat stream, ∀ x ∈ u, Binary x :=
    fun u member x listed => binary x ((mem_scan_fixed positive member).2 x listed)
  constructor
  · rw [PatternDump.session_complete dumps, whole, PatternDump.entries, queues,
      scanned_deprecated positive]
    apply flatMap_mapIdx
    intro i u member
    exact line_deprecated separable (moment i) (bits u member) (clear u member)
  · have packets := deframer_scan mode positive nonempty free garbage chunks'
    rw [PacketFormatter.session_complete works.opened works.returns works.working, truncates,
      packets, whole', callsFor, mapIdx_map]
    apply flatMap_mapIdx
    intro i u member
    exact line_migrated (config_migrated format plain) separable.labels unpacked (clock i)
      (faults' i) (bits u member) (clear u member)

end Sessions

/-- Four bits in hexadecimal and as they are. -/
def exampleParts : List Part := [.label "0x".toList, .shown .hex, .label " = ".toList, .shown .bits]

/-- A deprecated block with this format. -/
def exampleDump : PatternDump.Setup :=
  ⟨deprecated (fourBehind [1, 1, 0]), ⟨"0x%[hex] = %[bits]".toList, .relative⟩,
    some "dumps".toList, false⟩

/-- The format of the deprecated block has these parts. -/
theorem separable_exampleParts :
    PatternDump.Separable exampleDump.output (deprecatedParts exampleParts) where
  timed := by decide
  format := rfl
  labels := by decide
  relative := fun listed => absurd listed (by decide)

/-- A formatter with this format. -/
def exampleTarget : PacketFormatter.Setup :=
  ⟨"0x%(hex) = %(bits)".toList, "packets".toList, "file".toList, false, true⟩

/-- Two packets behind one zero and two zeros. -/
def exampleStream : List Int8 := [0, 1, 1, 0, 1, 0, 1, 0, 0, 0, 1, 1, 0, 0, 1, 1, 1]

/-- The two logs of the example. -/
theorem logs_agree_example :
    (PatternDump.session exampleDump PatternDump.noSessionFaults
        (fun _ => PatternDump.quietMoment PatternDump.shortlyAfter) [] [exampleStream]).contents =
      (PacketFormatter.session exampleTarget true false []
        (callsFor exactFloat (fourBehind [1, 1, 0]) (fun _ => none) (fun _ => noFaults)
          (published (fourBehind [1, 1, 0]) ⟨0, 0, false⟩ [exampleStream])) noFaults).contents := by
  have both := @logs_agree (fourBehind [1, 1, 0]) exampleParts rfl (by decide) rfl (by decide)
    (by decide) exampleStream (binary_of_all rfl) (fun _ _ listed => absurd listed (by decide))
    exampleDump rfl separable_exampleParts PatternDump.noSessionFaults
    (fun _ => PatternDump.quietMoment PatternDump.shortlyAfter) [] [exampleStream] rfl
    ⟨rfl, ⟨none, by rfl⟩, by decide +kernel⟩ exampleTarget rfl (by decide) (by decide) exactFloat
    (fun _ => none) ⟨0, 0, false⟩ (fun _ => noFaults) true false [] [exampleStream] rfl noFaults
    ⟨rfl, ⟨⟨none⟩, by rfl⟩, by decide +kernel⟩
  exact both.1.trans both.2.symm

end GrReveng.Migration
