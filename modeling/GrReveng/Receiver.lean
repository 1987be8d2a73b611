import GrReveng.Library.Channels
import GrReveng.PacketDeframer.Recovery
import GrReveng.PacketFormatter.Lifecycle
import GrReveng.PacketFormatter.ReadBack
import GrReveng.Transport

/-!
# The receiver

The deframer and the formatter as the two ends of a message connection. The blocks run on threads of
their own: the deframer goes on with its samples while messages wait for the formatter. Whatever the
schedule, the formatter does with the messages what it does with the packets of the stream in their
order. Behind a transmission of frames a report of fields shows every good frame, once and in order.
-/

namespace GrReveng.Receiver

open Python Reactive PacketDeframer PacketFormatter Transport

/-- The deframer with the clock readings of its messages. -/
def deframer (cfg : PacketDeframer.Config) (clock : Nat → Option Timeval) :
    cfg.State × Nat → Int8 → Reaction (cfg.State × Nat) Pdu StdException :=
  labelled (react cfg) fun i data => pdu cfg (clock i) data

/-- The formatter with the failures during its calls. -/
def formatter (float : ℚ → Double) (target : PacketFormatter.Config) (faults : Nat → Faults) :
    PacketFormatter.State × Nat → Pdu → Reaction (PacketFormatter.State × Nat) Effect PyError :=
  numbered (handlePdu target) fun i message => received float message (faults i)

/-- The calls of the formatter for packets with these data. -/
def callsFor (float : ℚ → Double) (cfg : PacketDeframer.Config) (clock : Nat → Option Timeval)
    (faults : Nat → Faults) (datas : List (List UInt8)) : List Call :=
  datas.mapIdx fun i data => received float (pdu cfg (clock i) data) (faults i)

section Schedules

variable {float : ℚ → Double} {cfg : PacketDeframer.Config} {clock : Nat → Option Timeval}
  {target : PacketFormatter.Config} {faults : Nat → Faults}

/-- The messages of the deframer. -/
theorem work_deframer (garbage : Uninitialised) (stream : List Int8) :
    (work (deframer cfg clock) (PacketDeframer.make cfg garbage, 0) stream).published =
      messages cfg clock garbage [stream] := by
  rw [deframer, work_labelled, messages, published, PacketDeframer.run, feed_eq_work,
    List.flatten_singleton]
  simp only [Nat.zero_add]

/-- The formatter on messages. -/
theorem work_formatter (t : PacketFormatter.State) (pdus : List Pdu) :
    (work (formatter float target faults) (t, 0) pdus).published =
      (PacketFormatter.run target t
        (pdus.mapIdx fun i message => received float message (faults i))).published := by
  rw [formatter, work_numbered, PacketFormatter.run]
  simp only [Nat.zero_add]

/-- The calls for the messages of the deframer. -/
theorem callsFor_messages (garbage : Uninitialised) (stream : List Int8) :
    ((messages cfg clock garbage [stream]).mapIdx fun i message =>
      received float message (faults i)) =
        callsFor float cfg clock faults (published cfg garbage [stream]) := by
  rw [messages, List.mapIdx_mapIdx]
  rfl

/-- The first messages make the first calls. -/
theorem mapIdx_prefix {α β : Type} (f : Nat → α → β) {front all : List α} (first : front <+: all) :
    front.mapIdx f <+: all.mapIdx f := by
  have ⟨rest, split⟩ := first
  rw [← split, List.mapIdx_append]
  exact List.prefix_append _ _

variable {network : Network (cfg.State × Nat) (PacketFormatter.State × Nat) Int8 Pdu Effect
  StdException PyError}

/-- At any time the formatter has handled the first messages of the deframer, and all of them when
nothing is left to do. -/
theorem network_log {garbage : Uninitialised} {t : PacketFormatter.State} {stream : List Int8}
    (steps : Network.Steps (deframer cfg clock) (formatter float target faults)
      (Network.start (PacketDeframer.make cfg garbage, 0) (t, 0) stream) network) :
    (∃ handled, handled <+: callsFor float cfg clock faults (published cfg garbage [stream]) ∧
      network.log = (PacketFormatter.run target t handled).published) ∧
    (Network.Settled (deframer cfg clock) (formatter float target faults) network →
      network.log = (PacketFormatter.run target t
        (callsFor float cfg clock faults (published cfg garbage [stream]))).published) := by
  have ⟨handled, first, log⟩ := Network.log_handled steps
  rw [work_deframer] at first
  rw [work_formatter] at log
  refine ⟨⟨_, ?_, log⟩, fun settled => ?_⟩
  · have early := mapIdx_prefix (fun i message => received float message (faults i)) first
    rwa [callsFor_messages] at early
  · rw [Network.settled_log steps settled, Network.outcome, work_deframer, work_formatter,
      callsFor_messages]

/-- Whatever the schedule, at any time the formatter has done what it does in a run on the first
packets of the stream, and when nothing is left to do it has done so for all of them. Every schedule
can go on to such an end. -/
theorem receiver_log (framed : cfg.Framed) (garbage : Uninitialised) (t : PacketFormatter.State)
    (stream : List Int8)
    (steps : Network.Steps (deframer cfg clock) (formatter float target faults)
      (Network.start (PacketDeframer.make cfg garbage, 0) (t, 0) stream) network) :
    let calls := callsFor float cfg clock faults
      ((frames cfg.sync cfg.extent [] stream).map (payload cfg))
    (∃ handled, handled <+: calls ∧
      network.log = (PacketFormatter.run target t handled).published) ∧
    (Network.Settled (deframer cfg clock) (formatter float target faults) network →
      network.log = (PacketFormatter.run target t calls).published) ∧
    ∃ last, Network.Steps (deframer cfg clock) (formatter float target faults) network last ∧
      Network.Settled (deframer cfg clock) (formatter float target faults) last := by
  have packets := published_packets framed garbage [stream]
  rw [List.flatten_singleton, PacketDeframer.packets] at packets
  obtain ⟨early, all⟩ := network_log steps
  obtain ⟨last, rest, settled, _⟩ := Network.settles steps
  rw [packets] at early all
  exact ⟨early, all, last, rest, settled⟩

end Schedules

section Working

variable {target : PacketFormatter.Config} {t : PacketFormatter.State}

/-- The outputs work in a call. -/
structure Works (target : PacketFormatter.Config) (faults : Faults) : Prop where
  /-- The screen takes the text. -/
  print : faults.print = false
  /-- The file takes the text. -/
  file : faults.file target = false

/-- What a message that formats makes when the outputs work. -/
def delivered (target : PacketFormatter.Config) (t : PacketFormatter.State) (text : Text) :
    List Effect :=
  (outputs target t noFaults text).map fun tried => ⟨tried.1, true⟩

/-- Operations without a failure. -/
theorem attempt_working {operations : List (Operation × Bool)}
    (working : ∀ tried ∈ operations, tried.2 = false) :
    attempt operations = (operations.map fun tried => ⟨tried.1, true⟩, true) := by
  induction operations with
  | nil => rfl
  | cons first rest ih =>
    have ⟨operation, fault⟩ := first
    cases show fault = false from working _ List.mem_cons_self
    rw [attempt, ih fun tried member => working tried (List.mem_cons_of_mem _ member)]
    rfl

/-- A message that formats is delivered when the outputs work. -/
theorem handlePdu_delivers {call : Call} {text : Text} (formats : Formats target call text)
    (works : Works target call.faults) :
    handlePdu target t call = ⟨delivered target t text, .ok t⟩ := by
  have succeeded := (outputs_succeed_iff target t call.faults text).mpr
    ⟨fun _ => works.print, fun _ => works.file⟩
  have same : (outputs target t call.faults text).map Prod.fst =
      (outputs target t noFaults text).map Prod.fst := by
    rw [outputs, outputs]
    cases target.stdout <;> cases t.fp.isSome <;> cases target.flush <;> rfl
  have made : (outputs target t call.faults text).map (fun tried => Effect.mk tried.1 true) =
      delivered target t text := by
    have effects := congrArg (List.map fun operation => Effect.mk operation true) same
    rw [List.map_map, List.map_map] at effects
    exact effects
  rw [handlePdu_formatted t formats, if_pos succeeded,
    attempt_working ((attempt_succeeds_iff _).mp succeeded), made]

/-- Messages that format are delivered one after the other. -/
theorem run_delivers {calls : List Call} {texts : List Text}
    (formats : List.Forall₂ (Formats target) calls texts)
    (works : ∀ call ∈ calls, Works target call.faults) :
    (PacketFormatter.run target t calls).published = texts.flatMap (delivered target t) := by
  induction formats with
  | nil => rfl
  | cons here _ ih =>
    have step := @handlePdu_delivers target t _ _ here (works _ List.mem_cons_self)
    have later := ih fun call member => works call (List.mem_cons_of_mem _ member)
    rw [PacketFormatter.run] at later ⊢
    rw [(work_cons _ _ step).2.1, later]
    rfl

/-- The lines of some texts. -/
def linesOf (texts : List Text) : Text := texts.flatMap fun text => text ++ ['\n']

/-- Delivered texts are on the screen, if there is one, as lines. -/
theorem displayed_delivered (texts : List Text) :
    (texts.flatMap (delivered target t)).flatMap Effect.displayed =
      if target.stdout then linesOf texts else [] := by
  have single : ∀ text, (delivered target t text).flatMap Effect.displayed =
      if target.stdout then text ++ ['\n'] else [] := by
    intro text
    rw [delivered, outputs]
    cases target.stdout <;> cases t.fp.isSome <;> cases target.flush <;>
      simp [Effect.displayed]
  rw [List.flatMap_assoc]
  simp only [single, linesOf]
  cases target.stdout <;> simp

/-- Delivered texts are in the file, if there is one, as lines. -/
theorem written_delivered (texts : List Text) :
    (texts.flatMap (delivered target t)).flatMap Effect.written =
      if t.fp.isSome then linesOf texts else [] := by
  have single : ∀ text, (delivered target t text).flatMap Effect.written =
      if t.fp.isSome then text ++ ['\n'] else [] := by
    intro text
    rw [delivered, outputs]
    cases target.stdout <;> cases t.fp.isSome <;> cases target.flush <;>
      simp [Effect.written]
  rw [List.flatMap_assoc]
  simp only [single, linesOf]
  cases t.fp.isSome <;> simp

end Working

/-- The text a report of fields shows for an item that should be received. -/
def reportOf (name : Text) : Item → Option Text
  | .frame head counted tail =>
    some (fieldsText name head (UInt8.ofNat counted.length) counted tail)
  | .overlong _ _ => none

/-- The reports of a transmission. -/
def reportsOf (name : Text) (items : List (Item × List Int8)) : List Text :=
  items.filterMap fun entry => reportOf name entry.1

/-- An item that should be received has no `%` in the bytes that its length byte counts. -/
def PercentFree : Item → Prop
  | .frame _ counted _ => 37 ∉ counted
  | .overlong _ _ => True

section Frames

variable {float : ℚ → Double} {cfg : PacketDeframer.Config} {target : PacketFormatter.Config}

/-- The formatter reads the bits of whole bytes, whether they were packed or not. -/
theorem bitsOf_bytes (reading : Option Timeval) (bytes : List UInt8) :
    bitsOf (pdu cfg reading (payload cfg (samples bytes))) = packet (unpackBytes bytes) := by
  have bits : (samples bytes).map Int8.toUInt8 = (unpackBytes bytes).map bitByte := by
    rw [samples, List.map_map]
    apply List.map_congr_left
    intro bit _
    cases bit with
    | false => rfl
    | true => rfl
  rw [bitsOf, payload]
  cases packing : cfg.packBytes with
  | true =>
    rw [if_pos (by exact packing), if_pos rfl]
    change unpackbits (packBytes ((samples bytes).map lsb)) = _
    rw [map_lsb_samples, packBytes_unpackBytes]
    rfl
  | false =>
    rw [if_neg (by simp [pdu, packing]), if_neg Bool.false_ne_true]
    change Value.bytes ((samples bytes).map Int8.toUInt8) = _
    rw [bits]
    rfl

/-- The name that the formatter reads. -/
theorem get_name (reading : Option Timeval) (data : List UInt8) :
    get (metadataEntries float (pdu cfg reading data).metadata) "name".toList
      (.str "None".toList) = .str cfg.name.toList := by
  simp [PacketFormatter.get, metadataEntries, pdu]

/-- A good frame is reported. -/
theorem formats_frame {head counted tail : List UInt8} (reading : Option Timeval) (faults : Faults)
    (format : target.formatStr = reportFormat (fieldLines head.length tail.length))
    (nonempty : tail ≠ []) (clean : '%' ∉ cfg.name.toList) (message : 37 ∉ counted) :
    Formats target
      (received float
        (pdu cfg reading (payload cfg (samples (Item.frame head counted tail).bytes))) faults)
      (fieldsText cfg.name.toList head (UInt8.ofNat counted.length) counted tail) := by
  refine ⟨_, _, rfl, ?_⟩
  rw [textOf, readPdu_received]
  change formatOutput target.formatStr _ _ = _
  rw [bitsOf_bytes, format, Item.bytes]
  exact formatOutput_fields nonempty (get_name reading _) clean message

/-- Items of a list with their numbers are related when they are with any number. -/
theorem forall₂_mapIdx {α β γ : Type} {R : β → γ → Prop} {f : Nat → α → β} {items : List α}
    {others : List γ} (related : List.Forall₂ (fun a c => ∀ i, R (f i a) c) items others) :
    List.Forall₂ R (items.mapIdx f) others := by
  rw [List.forall₂_iff_get] at related ⊢
  refine ⟨by rw [List.length_mapIdx, related.1], fun i inside other => ?_⟩
  rw [List.get_eq_getElem, List.getElem_mapIdx]
  exact related.2 i _ other i

/-- The calls for the frames of a transmission format to their reports. -/
theorem formats_frames {clock : Nat → Option Timeval} {faults : Nat → Faults}
    {items : List (Item × List Int8)} (adjusted : 1 ≤ cfg.pktLenAdj.toInt)
    (clean : '%' ∉ cfg.name.toList)
    (format : target.formatStr =
      reportFormat (fieldLines cfg.pktLenOffset.toInt.toNat cfg.pktLenAdj.toInt.toNat))
    (fits : ∀ entry ∈ items, entry.1.Fits cfg) (free : ∀ entry ∈ items, PercentFree entry.1) :
    List.Forall₂ (Formats target)
      (callsFor float cfg clock faults (items.filterMap fun entry =>
        entry.1.message.map fun bytes => payload cfg (samples bytes)))
      (reportsOf cfg.name.toList items) := by
  apply forall₂_mapIdx
  induction items with
  | nil => exact .nil
  | cons entry items ih =>
    have later := ih (fun other member => fits other (List.mem_cons_of_mem _ member))
      fun other member => free other (List.mem_cons_of_mem _ member)
    have ⟨item, next⟩ := entry
    cases item with
    | overlong head length => exact later
    | frame head counted tail =>
      have ⟨offset, _, adjust, _⟩ := fits _ List.mem_cons_self
      have lengths : cfg.pktLenOffset.toInt.toNat = head.length ∧
          cfg.pktLenAdj.toInt.toNat = tail.length := ⟨by omega, by omega⟩
      rw [lengths.1, lengths.2] at format
      have nonempty : tail ≠ [] := by
        rw [← List.length_pos_iff_ne_nil]
        omega
      refine .cons (fun i => ?_) later
      exact formats_frame (clock i) (faults i) format nonempty clean (free _ List.mem_cons_self)

/-- The lines that show an item which should be received. -/
def linesOfItem (name : Text) : Item → List Text
  | .frame head counted tail =>
    fieldsLines name head (UInt8.ofNat counted.length) counted tail
  | .overlong _ _ => []

/-- The lines of reports are those of the items. -/
theorem linesOf_reports (name : Text) (items : List (Item × List Int8)) :
    linesOf (reportsOf name items) =
      (items.flatMap fun entry => linesOfItem name entry.1).flatMap fun line => line ++ ['\n'] := by
  induction items with
  | nil => rfl
  | cons entry items ih =>
    have ⟨item, gap⟩ := entry
    cases item with
    | overlong head length => exact ih
    | frame head counted tail =>
      have text := reportText_lines name
        ((fieldLines head.length tail.length).zip
          (fieldTexts head (UInt8.ofNat counted.length) counted tail))
      rw [List.flatMap_cons, List.flatMap_append, ← ih]
      exact congrArg (· ++ _) text

/-- A log of reports is read back as the items that should be received. -/
theorem readLog_reports {name : Text} (named : '\n' ∉ name) (other : ¬packetLabel <+: name)
    (items : List (Item × List Int8)) :
    readLog (linesOf (reportsOf name items)) = items.filterMap fun entry => entry.1.message := by
  have silent : bytesOfLine name = none := if_neg other
  have whole : ∀ line ∈ items.flatMap fun entry => linesOfItem name entry.1, '\n' ∉ line := by
    intro line member
    have ⟨⟨item, _⟩, _, inside⟩ := List.mem_flatMap.mp member
    cases item with
    | overlong head length => contradiction
    | frame head counted tail => exact newline_not_mem_fieldsLines named line inside
  rw [readLog, linesOf_reports, splitOn_lines whole, List.filterMap_append]
  change _ ++ [] = _
  rw [List.append_nil, List.filterMap_flatMap, List.filterMap_eq_flatMap_toList]
  apply List.flatMap_congr
  intro entry _
  have ⟨item, _⟩ := entry
  cases item with
  | overlong head length => rfl
  | frame head counted tail => exact filterMap_fieldsLines silent

end Frames

/-- A deframer and a formatter that report the frames of a transmission, and a transmission whose
frames they can tell apart. -/
structure Reporting (cfg : PacketDeframer.Config) (target : PacketFormatter.Config)
    (faults : Nat → Faults) (gap : List Int8) (items : List (Item × List Int8)) : Prop where
  /-- The arguments of the deframer make sense. -/
  valid : cfg.Valid
  /-- Frames announce their length. -/
  mode : cfg.fixedLen = false
  /-- There is a sync word. -/
  nonempty : cfg.sync ≠ []
  /-- A frame ends with bytes that its length does not count. -/
  adjusted : 1 ≤ cfg.pktLenAdj.toInt
  /-- The name has no `%`. -/
  clean : '%' ∉ cfg.name.toList
  /-- The formatter shows the fields of a frame. -/
  format : target.formatStr =
    reportFormat (fieldLines cfg.pktLenOffset.toInt.toNat cfg.pktLenAdj.toInt.toNat)
  /-- Its outputs work. -/
  works : ∀ i, Works target (faults i)
  /-- The items have the layout that the deframer expects. -/
  fits : ∀ entry ∈ items, entry.1.Fits cfg
  /-- Their messages have no `%`. -/
  free : ∀ entry ∈ items, PercentFree entry.1
  /-- The gaps complete no sync word. -/
  gaps : GapsClean cfg.sync gap items

section Transmissions

variable {float : ℚ → Double} {cfg : PacketDeframer.Config} {target : PacketFormatter.Config}
  {clock : Nat → Option Timeval} {faults : Nat → Faults} {gap : List Int8}
  {items : List (Item × List Int8)}
  {network : Network (cfg.State × Nat) (PacketFormatter.State × Nat) Int8 Pdu Effect
    StdException PyError}

/-- At any time the first good frames of a transmission have been delivered, and all of them when
nothing is left to do. -/
theorem network_delivers (reporting : Reporting cfg target faults gap items)
    (garbage : Uninitialised) (t : PacketFormatter.State)
    (steps : Network.Steps (deframer cfg clock) (formatter float target faults)
      (Network.start (PacketDeframer.make cfg garbage, 0) (t, 0)
        (transmission cfg.sync gap items)) network) :
    (∃ early, early <+: reportsOf cfg.name.toList items ∧
      network.log = early.flatMap (delivered target t)) ∧
    (Network.Settled (deframer cfg clock) (formatter float target faults) network →
      network.log = (reportsOf cfg.name.toList items).flatMap (delivered target t)) := by
  have spaced := spaced_of_clean reporting.nonempty reporting.gaps
  have received := published_packets reporting.valid.framed garbage
    [transmission cfg.sync gap items]
  rw [List.flatten_singleton, packets,
    frames_transmission reporting.valid reporting.mode reporting.fits spaced] at received
  obtain ⟨⟨handled, first, log⟩, all⟩ := network_log steps
  rw [received] at first all
  have formats := @formats_frames float cfg target clock faults items reporting.adjusted
    reporting.clean reporting.format reporting.fits reporting.free
  have working : ∀ call ∈ callsFor float cfg clock faults (items.filterMap fun entry =>
      entry.1.message.map fun bytes => payload cfg (samples bytes)),
      Works target call.faults := by
    intro call member
    obtain ⟨i, inside, same⟩ := List.mem_mapIdx.mp member
    rw [← same]
    exact reporting.works i
  constructor
  · refine ⟨(reportsOf cfg.name.toList items).take handled.length, List.take_prefix _ _, ?_⟩
    have some := List.forall₂_take handled.length formats
    rw [← List.prefix_iff_eq_take.mp first] at some
    rw [log, run_delivers some fun call member => working call (first.subset member)]
  · intro settled
    rw [all settled, run_delivers formats working]

/-- Whatever the schedule, at any time the first good frames of a transmission have been reported,
and when nothing is left to do the screen and the file have the reports of all of them. -/
theorem receiver_reports (reporting : Reporting cfg target faults gap items)
    (garbage : Uninitialised) (t : PacketFormatter.State)
    (steps : Network.Steps (deframer cfg clock) (formatter float target faults)
      (Network.start (PacketDeframer.make cfg garbage, 0) (t, 0)
        (transmission cfg.sync gap items)) network) :
    (∃ early, early <+: reportsOf cfg.name.toList items ∧
      network.log = early.flatMap (delivered target t)) ∧
    (Network.Settled (deframer cfg clock) (formatter float target faults) network →
      network.log.flatMap Effect.displayed =
        (if target.stdout then linesOf (reportsOf cfg.name.toList items) else []) ∧
      network.log.flatMap Effect.written =
        if t.fp.isSome then linesOf (reportsOf cfg.name.toList items) else []) := by
  have ⟨early, all⟩ := network_delivers reporting garbage t steps
  refine ⟨early, fun settled => ?_⟩
  rw [all settled]
  exact ⟨displayed_delivered _, written_delivered _⟩

/-- When nothing is left to do, the bytes of all good frames can be read back from the screen and
from the file. -/
theorem receiver_reads_back (reporting : Reporting cfg target faults gap items)
    (garbage : Uninitialised) (t : PacketFormatter.State)
    (steps : Network.Steps (deframer cfg clock) (formatter float target faults)
      (Network.start (PacketDeframer.make cfg garbage, 0) (t, 0)
        (transmission cfg.sync gap items)) network)
    (named : '\n' ∉ cfg.name.toList) (other : ¬packetLabel <+: cfg.name.toList)
    (settled : Network.Settled (deframer cfg clock) (formatter float target faults) network) :
    let messages := items.filterMap fun entry => entry.1.message
    (target.stdout = true → readLog (network.log.flatMap Effect.displayed) = messages) ∧
      (t.fp.isSome = true → readLog (network.log.flatMap Effect.written) = messages) := by
  intro messages
  have ⟨_, all⟩ := network_delivers reporting garbage t steps
  rw [all settled, displayed_delivered, written_delivered]
  constructor
  · intro screen
    rw [if_pos screen]
    exact readLog_reports named other items
  · intro opened
    rw [if_pos opened]
    exact readLog_reports named other items

end Transmissions

/-! ## The example flow graph -/

/-- The sync word `0xd391`. -/
def exampleSync : List Int8 := [1, 1, 0, 1, 0, 0, 1, 1, 1, 0, 0, 1, 0, 0, 0, 1]

/-- The deframer of the example flow graph. -/
def exampleDeframer : PacketDeframer.Config :=
  ⟨"RevengTestSrc", exampleSync, false, 2, 0, 4, 1, false⟩

/-- The format string of the example flow graph, with `\\n` for the ends of the lines. -/
def exampleFormat : Text :=
  "%(name)\\nFull Packet: %(hex)\\ntransmitter_id: %(hex[0:32])\\n".toList ++
    "Packet Length: %(int[32:40])\\nMessage: %(ascii[40:-8])\\nChecksum: %(hex[-8:])\\n".toList

/-- The formatter of the example flow graph. -/
def exampleFormatter : PacketFormatter.Config × PacketFormatter.State :=
  PacketFormatter.make exampleFormat [] "stdout".toList true true

/-- The formatter of the example flow graph makes reports of fields. -/
theorem exampleFormatter_format :
    exampleFormatter.1.formatStr = reportFormat (fieldLines 4 1) := by
  decide +kernel

/-- The packet of the example flow graph. -/
def exampleItem : Item :=
  .frame [0xde, 0xad, 0xbe, 0xef]
    [0x48, 0x65, 0x6c, 0x6c, 0x6f, 0x20, 0x77, 0x6f, 0x72, 0x6c, 0x64, 0x21] [0x55]

/-- The deframer of the example flow graph while the clock cannot be read. -/
abbrev exampleProduce := deframer exampleDeframer fun _ => none

/-- The formatter of the example flow graph. -/
abbrev exampleConsume := formatter exactFloat exampleFormatter.1 fun _ => noFaults

/-- Two packets of the example flow graph. -/
def exampleItems : List (Item × List Int8) := [(exampleItem, [0, 0]), (exampleItem, [0])]

/-- The arguments of the example are valid. -/
theorem valid_exampleDeframer : exampleDeframer.Valid :=
  ⟨fun mode => by simp [exampleDeframer] at mode, fun _ => by decide⟩

/-- The blocks of the example flow graph can handle the packets to the end. -/
theorem example_settles :
    ∃ last, Network.Steps exampleProduce exampleConsume
        (Network.start (PacketDeframer.make exampleDeframer ⟨0, 0, false⟩, 0)
          (exampleFormatter.2, 0) (transmission exampleSync [0] exampleItems)) last ∧
      Network.Settled exampleProduce exampleConsume last := by
  have ⟨last, steps, settled, _⟩ := Network.settles (@Relation.ReflTransGen.refl _
    (Network.Step exampleProduce exampleConsume)
    (Network.start (PacketDeframer.make exampleDeframer ⟨0, 0, false⟩, 0)
      (exampleFormatter.2, 0) (transmission exampleSync [0] exampleItems)))
  exact ⟨last, steps, settled⟩

/-- In the end the formatter has handled the packets of the example. -/
theorem receiver_log_example :
    ∃ last, Network.Steps exampleProduce exampleConsume
        (Network.start (PacketDeframer.make exampleDeframer ⟨0, 0, false⟩, 0)
          (exampleFormatter.2, 0) (transmission exampleSync [0] exampleItems)) last ∧
      last.log = (PacketFormatter.run exampleFormatter.1 exampleFormatter.2
        (callsFor exactFloat exampleDeframer (fun _ => none) (fun _ => noFaults)
          ((frames exampleSync exampleDeframer.extent []
            (transmission exampleSync [0] exampleItems)).map
              (payload exampleDeframer)))).published :=
  have ⟨last, steps, settled⟩ := example_settles
  ⟨last, steps, (receiver_log valid_exampleDeframer.framed ⟨0, 0, false⟩ exampleFormatter.2 _
    steps).2.1 settled⟩

/-- The report of the example packet. -/
def exampleReport : Text :=
  "RevengTestSrc\nFull Packet: deadbeef0c48656c6c6f20776f726c642155\n".toList ++
    "transmitter_id: deadbeef\nPacket Length: 12\nMessage: Hello world!\n".toList ++
    "Checksum: 55\n\n".toList

/-- The blocks of the example flow graph report its packets. -/
theorem reporting_example :
    Reporting exampleDeframer exampleFormatter.1 (fun _ => noFaults) [0] exampleItems where
  valid := valid_exampleDeframer
  mode := rfl
  nonempty := by decide
  adjusted := by decide
  clean := by decide
  format := exampleFormatter_format
  works := fun _ => ⟨rfl, by decide⟩
  fits := by
    simp only [exampleItems, List.mem_cons, List.not_mem_nil, or_false]
    rintro entry (rfl | rfl)
    all_goals exact ⟨by decide, by decide, by decide, by decide⟩
  free := by
    simp only [exampleItems, List.mem_cons, List.not_mem_nil, or_false]
    rintro entry (rfl | rfl)
    all_goals
      change 37 ∉ [_, _, _, _, _, _, _, _, _, _, _, _]
      decide
  gaps := ⟨OccursAt.all_of_lt (by decide) (by decide), OccursAt.all_of_lt (by decide) (by decide),
    OccursAt.all_of_lt (by decide) (by decide)⟩

/-- However the blocks of the example flow graph take turns, the reports come out. -/
theorem receiver_reports_example :
    ∃ last, Network.Steps exampleProduce exampleConsume
        (Network.start (PacketDeframer.make exampleDeframer ⟨0, 0, false⟩, 0)
          (exampleFormatter.2, 0) (transmission exampleSync [0] exampleItems)) last ∧
      last.log.flatMap Effect.displayed = exampleReport ++ exampleReport := by
  have ⟨last, steps, settled⟩ := example_settles
  have reported := receiver_reports reporting_example ⟨0, 0, false⟩ exampleFormatter.2 steps
  refine ⟨last, steps, (reported.2 settled).1.trans ?_⟩
  decide +kernel

/-- The bytes of the example packets can be read from its screen. -/
theorem receiver_reads_back_example :
    ∃ last, Network.Steps exampleProduce exampleConsume
        (Network.start (PacketDeframer.make exampleDeframer ⟨0, 0, false⟩, 0)
          (exampleFormatter.2, 0) (transmission exampleSync [0] exampleItems)) last ∧
      readLog (last.log.flatMap Effect.displayed) = [exampleItem.bytes, exampleItem.bytes] :=
  have ⟨last, steps, settled⟩ := example_settles
  ⟨last, steps, (receiver_reads_back reporting_example ⟨0, 0, false⟩ exampleFormatter.2 steps
    (by decide) (by decide) settled).1 rfl⟩

end GrReveng.Receiver
