import GrReveng.PacketDeframer.Announced
import GrReveng.PacketDeframer.Packing
import GrReveng.PacketDeframer.WholeBytes
import GrReveng.PacketFormatter.Template

/-!
# From the deframer to the formatter

The messages of `packet_deframer` arrive at `handle_pdu` of `packet_formatter`, once from a block
that packs bytes and once from one that keeps samples. The formatter unpacks the bytes, so the
two should not be distinguishable. They are not exactly when the deframer has no incomplete byte
to lose: in variable length mode, and in fixed length mode when the packet length is a whole
number of bytes.
-/

namespace GrReveng.Transport

open Python Reactive PacketDeframer PacketFormatter

/-- The dictionary of the metadata. `float` gives the double of a time stamp. -/
def metadataEntries (float : ℚ → Double) (metadata : Meta) : Entries :=
  [(.str "name".toList, .str metadata.name.toList),
    (.str "packed".toList, .bool metadata.packed),
    (.str "ts".toList, .float (float metadata.ts))]

/-- The call of `handle_pdu` for a message. -/
def received (float : ℚ → Double) (pdu : Pdu) (faults : Faults) : Call :=
  ⟨some (.dict (metadataEntries float pdu.metadata), .bytes pdu.data), faults⟩

/-- The bits of a message, as `handle_pdu` reads them. -/
def bitsOf (pdu : Pdu) : Value :=
  if pdu.metadata.packed then unpackbits pdu.data else .bytes pdu.data

/-- A message is read without an exception. -/
theorem readPdu_received (float : ℚ → Double) (pdu : Pdu) :
    readPdu (.dict (metadataEntries float pdu.metadata)) (.bytes pdu.data) =
      .ok (metadataEntries float pdu.metadata, bitsOf pdu) := by
  have flag : get (metadataEntries float pdu.metadata) "packed".toList (.bool false) =
      .bool pdu.metadata.packed := by
    simp [PacketFormatter.get, metadataEntries]
  rw [readPdu_dict _ rfl, flag, bitsOf, byteArray_bytes]
  cases pdu.metadata.packed with
  | true => rfl
  | false => rfl

/-- Messages of which the formatter makes the same text are handled alike. -/
theorem handlePdu_congr {float : ℚ → Double} {cfg : PacketFormatter.Config} {p q : Pdu}
    (same : formatOutput cfg.formatStr (metadataEntries float p.metadata) (bitsOf p) =
      formatOutput cfg.formatStr (metadataEntries float q.metadata) (bitsOf q))
    (s : PacketFormatter.State) (faults : Faults) :
    handlePdu cfg s (received float p faults) = handlePdu cfg s (received float q faults) := by
  simp only [handlePdu, received, readPdu_received, same]
  rfl

/-- A binary sample is its bit as a byte. -/
theorem bit_toUInt8 {x : Int8} (binary : Binary x) :
    (if lsb x then 1 else 0 : UInt8) = x.toUInt8 := by
  cases binary with
  | inl zero => rw [zero]; decide
  | inr one => rw [one]; decide

/-- Unpacking the packed bytes returns all whole bytes of the samples. -/
theorem unpackbits_packBytes {u : List Int8} (binary : ∀ x ∈ u, Binary x) :
    unpackbits (packBytes (u.map lsb)) =
      .bytes ((u.take (8 * (u.length / 8))).map Int8.toUInt8) := by
  rw [unpackbits, unpackBytes_packBytes_take, List.length_map, ← List.map_take, List.map_map]
  congr 1
  apply List.map_congr_left
  intro x member
  exact bit_toUInt8 (binary x (List.mem_of_mem_take member))

/-- What the formatter reads of a packet that was packed: the whole bytes of its samples. -/
theorem bitsOf_packed (cfg : PacketDeframer.Config) (reading : Option Timeval) {u : List Int8}
    (binary : ∀ x ∈ u, Binary x) :
    bitsOf (pdu (cfg.withPacking true) reading (bytesOf (payload (cfg.withPacking false) u))) =
      .bytes ((u.take (8 * (u.length / 8))).map Int8.toUInt8) := by
  rw [← payload_bytesOf, ← unpackbits_packBytes binary]
  rfl

/-- What the formatter reads of a packet that was not packed: its samples. -/
theorem bitsOf_unpacked (cfg : PacketDeframer.Config) (reading : Option Timeval) (u : List Int8) :
    bitsOf (pdu (cfg.withPacking false) reading (payload (cfg.withPacking false) u)) =
      .bytes (u.map Int8.toUInt8) := rfl

/-- The formatter handles these messages alike, one by one, in every state and for every
failure. -/
def HandledAlike (float : ℚ → Double) (cfg : PacketFormatter.Config) (left right : List Pdu) :
    Prop :=
  List.Forall₂
    (fun p q => ∀ s faults,
      handlePdu cfg s (received float p faults) = handlePdu cfg s (received float q faults))
    left right

/-- Packing cannot be told from the outputs of the formatter on a stream, whatever its format. The
clock readings of the two deframers may differ when the format does not read them. -/
def Hidden (float : ℚ → Double) (cfg : PacketDeframer.Config) (garbage garbage' : Uninitialised)
    (chunks chunks' : List (List Int8)) : Prop :=
  ∀ (target : PacketFormatter.Config) (clock clock' : Nat → Option Timeval),
    (ReadsTime target.formatStr → clock = clock') →
      HandledAlike float target (messages (cfg.withPacking true) clock garbage chunks)
        (messages (cfg.withPacking false) clock' garbage' chunks')

/-- Lists made from the same items are related when the items at each place are. -/
theorem forall₂_mapIdx_iff {α β γ δ : Type} {R : γ → δ → Prop} {f : Nat → β → γ}
    {g : Nat → α → δ} {h : α → β} (items : List α) :
    List.Forall₂ R ((items.map h).mapIdx f) (items.mapIdx g) ↔
      ∀ i a, items[i]? = some a → R (f i (h a)) (g i a) := by
  rw [List.forall₂_iff_get]
  constructor
  · intro related i a found
    have ⟨inside, item⟩ := List.getElem?_eq_some_iff.mp found
    have here := related.2 i (by simpa using inside) (by simpa using inside)
    simpa [item] using here
  · intro each
    refine ⟨by simp, fun i _ inside => ?_⟩
    rw [List.length_mapIdx] at inside
    have here := each i items[i] (List.getElem?_eq_getElem inside)
    simpa using here

/-- The messages of the packing block are those of the other one with their data packed. -/
theorem handledAlike_iff {float : ℚ → Double} {target : PacketFormatter.Config}
    {cfg : PacketDeframer.Config} {clock clock' : Nat → Option Timeval}
    {garbage garbage' : Uninitialised} {chunks chunks' : List (List Int8)}
    (same : chunks.flatten = chunks'.flatten) :
    HandledAlike float target (messages (cfg.withPacking true) clock garbage chunks)
        (messages (cfg.withPacking false) clock' garbage' chunks') ↔
      ∀ i data, (published (cfg.withPacking false) garbage' chunks')[i]? = some data →
        ∀ s faults,
          handlePdu target s
              (received float (pdu (cfg.withPacking true) (clock i) (bytesOf data)) faults) =
            handlePdu target s
              (received float (pdu (cfg.withPacking false) (clock' i) data) faults) := by
  rw [HandledAlike, messages, messages, published_bytesOf garbage garbage' same]
  exact forall₂_mapIdx_iff _

/-- Without an incomplete byte the formatter handles the messages alike. -/
theorem hidden_of_whole {float : ℚ → Double} {cfg : PacketDeframer.Config}
    (positive : cfg.fixedLen = true → 1 ≤ cfg.pktLen.toInt) (whole : cfg.partialBits = 0)
    (garbage garbage' : Uninitialised) {chunks chunks' : List (List Int8)}
    (binary : ∀ x ∈ chunks'.flatten, Binary x) (same : chunks.flatten = chunks'.flatten) :
    Hidden float cfg garbage garbage' chunks chunks' := by
  intro target clock clock' timed
  rw [handledAlike_iff same]
  intro i data found s faults
  have ⟨u, packet, payloads⟩ := @published_samples (cfg.withPacking false) positive garbage' chunks'
    binary data (List.mem_of_getElem? found)
  have all : u.take (8 * (u.length / 8)) = u := by
    have incomplete := packet.incomplete
    change u.length % 8 = cfg.partialBits at incomplete
    exact List.take_of_length_le (by omega)
  apply handlePdu_congr
  rw [payloads, bitsOf_packed cfg (clock i) packet.binary, bitsOf_unpacked, all]
  apply formatOutput_congr
  · rfl
  · intro reads
    rw [timed reads]
    rfl

/-- Without a packet there is nothing to handle. -/
theorem hidden_of_silent {float : ℚ → Double} {cfg : PacketDeframer.Config}
    {garbage garbage' : Uninitialised} {chunks chunks' : List (List Int8)}
    (same : chunks.flatten = chunks'.flatten)
    (silent : published (cfg.withPacking false) garbage' chunks' = []) :
    Hidden float cfg garbage garbage' chunks chunks' := by
  intro target clock clock' _
  rw [handledAlike_iff same, silent]
  intro i data found
  simp at found

/-- The characters of bits that are written one after the other. -/
theorem length_joined_bits {u : List Int8} (binary : ∀ x ∈ u, Binary x) :
    (joined ((u.map Int8.toUInt8).map Element.ofByte)).length = u.length := by
  induction u with
  | nil => rfl
  | cons x u ih =>
    have digit : (Element.ofByte x.toUInt8).text.length = 1 := by
      cases binary x List.mem_cons_self with
      | inl zero => rw [zero]; decide
      | inr one => rw [one]; decide
    rw [List.map_cons, List.map_cons, joined, List.flatMap_cons, List.length_append, digit,
      List.length_cons, Nat.add_comm]
    exact congrArg (· + 1) (ih fun y member => binary y (List.mem_cons_of_mem x member))

/-- A formatter that prints all bits of every message. -/
def bitsPrinter : PacketFormatter.Config := ⟨bitsFormat, true, true⟩

/-- Nothing fails. -/
def noFaults : Faults := ⟨false, false, false, false, false, false, false⟩

/-- The formatter prints the bits of a message. -/
theorem handlePdu_bitsPrinter (float : ℚ → Double) {pdu : Pdu} {data : List UInt8}
    (bits : bitsOf pdu = .bytes data) :
    (handlePdu bitsPrinter ⟨none⟩ (received float pdu noFaults)).emitted =
      [⟨.print (joined (data.map Element.ofByte)), true⟩] := by
  have text := formatOutput_bits (metadataEntries float pdu.metadata) (data.map Element.ofByte)
  rw [← Value.bytes, ← bits] at text
  simp only [handlePdu, received, readPdu_received, bitsPrinter, text]
  rfl

/-- A packet with an incomplete byte is printed differently when it was packed. -/
theorem not_hidden_of_packet {float : ℚ → Double} {cfg : PacketDeframer.Config}
    (positive : cfg.fixedLen = true → 1 ≤ cfg.pktLen.toInt) (incomplete : cfg.partialBits ≠ 0)
    (garbage garbage' : Uninitialised) {chunks chunks' : List (List Int8)}
    (binary : ∀ x ∈ chunks'.flatten, Binary x) (same : chunks.flatten = chunks'.flatten)
    (nonempty : published (cfg.withPacking false) garbage' chunks' ≠ []) :
    ¬Hidden float cfg garbage garbage' chunks chunks' := by
  intro hidden
  cases datas : published (cfg.withPacking false) garbage' chunks' with
  | nil => exact nonempty datas
  | cons data rest =>
    have ⟨u, packet, payloads⟩ := @published_samples (cfg.withPacking false) positive garbage'
      chunks' binary data (by rw [datas]; exact List.mem_cons_self)
    have alike := (handledAlike_iff same).mp
      (hidden bitsPrinter (fun _ => none) (fun _ => none) fun _ => rfl) 0 data (by rw [datas]; rfl)
      ⟨none⟩ noFaults
    have emitted := congrArg Reaction.emitted alike
    rw [payloads, handlePdu_bitsPrinter float (bitsOf_packed cfg none packet.binary),
      handlePdu_bitsPrinter float (bitsOf_unpacked cfg none u)] at emitted
    have texts := congrArg List.length
      (Operation.print.inj (congrArg Effect.operation (List.head_eq_of_cons_eq emitted)))
    rw [length_joined_bits packet.binary, length_joined_bits
      (fun x member => packet.binary x (List.mem_of_mem_take member)), List.length_take] at texts
    have place := packet.incomplete
    change u.length % 8 = cfg.partialBits at place
    omega

/-- A configuration whose packets end with a whole byte. -/
theorem partialBits_eq_zero_iff {cfg : PacketDeframer.Config}
    (positive : cfg.fixedLen = true → 1 ≤ cfg.pktLen.toInt) :
    cfg.partialBits = 0 ↔ cfg.fixedLen = false ∨ 8 ∣ cfg.pktLen.toInt := by
  cases mode : cfg.fixedLen with
  | false => simp [partialBits_variable mode]
  | true =>
    have length := positive mode
    rw [partialBits_fixed mode, toUInt32_toNat (show 0 ≤ cfg.pktLen.toInt by omega)]
    simp only [Bool.true_eq_false, false_or]
    omega

/-- In fixed length mode some binary stream has a whole packet. -/
theorem exists_packet {cfg : PacketDeframer.Config} (mode : cfg.fixedLen = true)
    (positive : 1 ≤ cfg.pktLen.toInt) (sync : ∀ x ∈ cfg.sync, Binary x) (garbage : Uninitialised) :
    ∃ stream : List Int8, (∀ x ∈ stream, Binary x) ∧ published cfg garbage [stream] ≠ [] := by
  have framed : cfg.Framed :=
    ⟨fun _ => positive, fun other => absurd (mode.symm.trans other) (by decide)⟩
  have ⟨lead, clean, started⟩ := exists_capture framed garbage
  let zeros : List Int8 := List.replicate cfg.pktLen.toInt.toNat 0
  have count : zeros.length = cfg.pktLen.toInt.toNat := List.length_replicate
  have complete : Complete cfg zeros := by
    apply complete_fixed mode
    · intro empty
      rw [empty, List.length_nil] at count
      omega
    · omega
  refine ⟨lead ++ zeros, ?_, ?_⟩
  · intro x member
    cases List.mem_append.mp member with
    | inl first => exact clean sync x first
    | inr zero => exact .inl (List.eq_of_mem_replicate zero)
  · rw [published, PacketDeframer.run, feed_eq_work, List.flatten_singleton,
      work_append_published (react cfg) zeros started, (work_complete framed complete).2.1]
    simp

/-- Packing is hidden from the outputs of the formatter, for every format, on a stream: exactly
when packets end with a whole byte or the stream has no packet; and on all streams: exactly when
packets end with a whole byte or the sync word is none of bits. -/
theorem packing_hidden (float : ℚ → Double) {cfg : PacketDeframer.Config}
    (positive : cfg.fixedLen = true → 1 ≤ cfg.pktLen.toInt) :
    (∀ garbage garbage' chunks chunks', (∀ x ∈ chunks'.flatten, Binary x) →
      chunks.flatten = chunks'.flatten →
        (Hidden float cfg garbage garbage' chunks chunks' ↔
          (cfg.fixedLen = false ∨ 8 ∣ cfg.pktLen.toInt) ∨
            published (cfg.withPacking false) garbage' chunks' = [])) ∧
    ((∀ garbage garbage' chunks chunks', (∀ x ∈ chunks'.flatten, Binary x) →
      chunks.flatten = chunks'.flatten → Hidden float cfg garbage garbage' chunks chunks') ↔
        (cfg.fixedLen = false ∨ 8 ∣ cfg.pktLen.toInt) ∨ ∃ x ∈ cfg.sync, ¬Binary x) := by
  have whole := partialBits_eq_zero_iff positive
  have stream : ∀ garbage garbage' chunks chunks', (∀ x ∈ chunks'.flatten, Binary x) →
      chunks.flatten = chunks'.flatten →
        (Hidden float cfg garbage garbage' chunks chunks' ↔
          (cfg.fixedLen = false ∨ 8 ∣ cfg.pktLen.toInt) ∨
            published (cfg.withPacking false) garbage' chunks' = []) := by
    intro garbage garbage' chunks chunks' binary same
    rw [← whole]
    constructor
    · intro hidden
      by_contra neither
      rw [not_or] at neither
      exact not_hidden_of_packet positive neither.1 garbage garbage' binary same neither.2 hidden
    · intro either
      cases either with
      | inl aligned => exact hidden_of_whole positive aligned garbage garbage' binary same
      | inr silent => exact hidden_of_silent same silent
  refine ⟨stream, ?_, ?_⟩
  · intro hidden
    rw [← whole]
    by_contra neither
    rw [not_or] at neither
    have mode : cfg.fixedLen = true := by
      by_contra variableLen
      exact neither.1 (partialBits_variable (Bool.eq_false_iff.mpr variableLen))
    have sync : ∀ x ∈ cfg.sync, Binary x := by
      intro x member
      by_contra foreign
      exact neither.2 ⟨x, member, foreign⟩
    obtain ⟨samples, binary, packet⟩ := @exists_packet (cfg.withPacking false) mode
      (positive mode) sync ⟨0, 0, false⟩
    have clean : ∀ x ∈ [samples].flatten, Binary x := by
      rw [List.flatten_singleton]
      exact binary
    exact not_hidden_of_packet positive neither.1 ⟨0, 0, false⟩ ⟨0, 0, false⟩ clean rfl packet
      (hidden ⟨0, 0, false⟩ ⟨0, 0, false⟩ [samples] [samples] clean rfl)
  · intro either garbage garbage' chunks chunks' binary same
    cases either with
    | inl aligned =>
      exact hidden_of_whole positive (whole.mpr aligned) garbage garbage' binary same
    | inr foreign =>
      obtain ⟨x, member, other⟩ := foreign
      exact hidden_of_silent same
        (@published_foreign (cfg.withPacking false) x member other garbage' chunks' binary)

/-- The double of a time stamp that needs no rounding. -/
def exactFloat (stamp : ℚ) : Double := .finite (stamp < 0) (if stamp < 0 then -stamp else stamp)

/-- Ten bits behind a one and a zero: the packing block loses the last two. -/
theorem tenSamples_not_hidden :
    ¬Hidden exactFloat tenSamples ⟨0, 0, false⟩ ⟨0, 0, false⟩
      [[1, 0, 1, 0, 1, 1, 0, 0, 1, 0, 1, 1]] [[1, 0, 1, 0, 1, 1, 0, 0, 1, 0, 1, 1]] := by
  apply not_hidden_of_packet
  · decide
  · decide
  · exact binary_of_all rfl
  · rfl
  · decide

/-- Packets of ten bits are not hidden on all streams, packets of sixteen are. -/
theorem packing_hidden_tenSamples :
    (¬∀ garbage garbage' chunks chunks', (∀ x ∈ chunks'.flatten, Binary x) →
      chunks.flatten = chunks'.flatten →
        Hidden exactFloat tenSamples garbage garbage' chunks chunks') ∧
    ∀ garbage garbage' chunks chunks', (∀ x ∈ chunks'.flatten, Binary x) →
      chunks.flatten = chunks'.flatten →
        Hidden exactFloat { tenSamples with pktLen := 16 } garbage garbage' chunks chunks' := by
  have ten := (@packing_hidden exactFloat tenSamples (by decide)).2
  have sixteen := (@packing_hidden exactFloat { tenSamples with pktLen := 16 } (by decide)).2
  constructor
  · intro hidden
    cases ten.mp hidden with
    | inl aligned =>
      revert aligned
      decide
    | inr foreign =>
      obtain ⟨x, member, other⟩ := foreign
      exact other (@binary_of_all tenSamples.sync rfl x member)
  · exact sixteen.mpr (.inl (by decide))

end GrReveng.Transport
