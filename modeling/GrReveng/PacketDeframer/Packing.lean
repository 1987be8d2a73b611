import GrReveng.PacketDeframer.Capture

/-!
# Packing does not touch the framing

The block that packs bytes and the block that keeps samples, with the same other arguments and on
the same stream, go through the same events in lock step, and the packed data are the bytes of
the unpacked data. This holds for any arguments and any samples: where the integer arithmetic
wraps it wraps alike, because packets end at byte boundaries in variable length mode, and where
one block stops with an exception the other stops too.
-/

namespace GrReveng.PacketDeframer

open Reactive

variable {cfg : Config}

/-- What a transition does to the framing. -/
inductive Event
  /-- A capture starts. -/
  | start
  /-- A capture is dropped without a message. -/
  | squelch
  /-- A message is published. -/
  | publish
  /-- The search or the capture goes on. -/
  | proceed
  /-- An exception stops the block. -/
  | stop
  deriving DecidableEq

/-- The event of a transition. -/
def event (t : cfg.Transition) : Event :=
  match t.after with
  | .error _ => .stop
  | .ok next =>
    if t.emitted ≠ [] then .publish
    else if t.before.inSync then if next.inSync then .proceed else .squelch
    else if next.inSync then .start else .proceed

/-- The arguments with packing switched on or off. -/
def Config.withPacking (cfg : Config) (packing : Bool) : Config := { cfg with packBytes := packing }

/-- The bytes of unpacked data: their number is the number of whole groups of eight samples, and
each is the value of the least significant bits of its group. -/
def bytesOf (data : List UInt8) : List UInt8 := packBytes (data.map fun x => lsb x.toInt8)

/-- The packing and the unpacking block have the same framing members and store the same
samples. -/
structure Aligned (u : List Int8) (packed : (cfg.withPacking true).State)
    (unpacked : (cfg.withPacking false).State) : Prop where
  /-- The search registers. -/
  search : packed.search = unpacked.search
  /-- The capture flags. -/
  inSync : packed.inSync = unpacked.inSync
  /-- The length flags. -/
  haveLen : packed.haveLen = unpacked.haveLen
  /-- The packet lengths. -/
  pktLen : packed.pktLen = unpacked.pktLen
  /-- The samples stored as bytes. -/
  bytes : Stores (cfg.withPacking true) u packed
  /-- The samples stored as they are. -/
  samples : Stores (cfg.withPacking false) u unpacked

/-- The blocks agree on the framing, and in a capture on the stored samples. -/
structure Matched (packed : (cfg.withPacking true).State)
    (unpacked : (cfg.withPacking false).State) : Prop where
  /-- The search registers. -/
  search : packed.search = unpacked.search
  /-- The capture flags. -/
  inSync : packed.inSync = unpacked.inSync
  /-- The packet lengths. -/
  pktLen : packed.pktLen = unpacked.pktLen
  /-- The members that a capture sets. -/
  capture : unpacked.inSync = true → ∃ u, Aligned u packed unpacked

/-- Fresh blocks match, whatever the uninitialised members are. -/
theorem matched_make (garbage garbage' : Uninitialised) :
    Matched (make (cfg.withPacking true) garbage) (make (cfg.withPacking false) garbage') :=
  ⟨rfl, rfl, rfl, fun running => by simp [make] at running⟩

/-- The data published for stored samples correspond. -/
theorem payload_bytesOf (u : List Int8) :
    payload (cfg.withPacking true) u = bytesOf (payload (cfg.withPacking false) u) := by
  simp [payload, bytesOf, Config.withPacking, Function.comp_def]

section Capture

variable {u : List Int8} {packed : (cfg.withPacking true).State}
  {unpacked : (cfg.withPacking false).State}

/-- The counters agree. -/
theorem Aligned.rxBitCnt (aligned : Aligned u packed unpacked) :
    packed.rxBitCnt = unpacked.rxBitCnt := by
  rw [aligned.bytes.rxBitCnt, aligned.samples.rxBitCnt]
  rfl

/-- Aligned states match. -/
theorem Aligned.matched (aligned : Aligned u packed unpacked) : Matched packed unpacked :=
  ⟨aligned.search, aligned.inSync, aligned.pktLen, fun _ => ⟨u, aligned⟩⟩

/-- Ending a capture on both sides keeps them matched. -/
theorem Aligned.ended (aligned : Aligned u packed unpacked) :
    Matched ({ packed with inSync := false } : (cfg.withPacking true).State)
      ({ unpacked with inSync := false } : (cfg.withPacking false).State) :=
  ⟨aligned.search, rfl, aligned.pktLen, fun running => by simp at running⟩

/-- Both blocks store a symbol. -/
theorem Aligned.concat (aligned : Aligned u packed unpacked) (x : Int8) :
    Aligned (u ++ [x]) (bufferSymbol (cfg.withPacking true) packed x)
      (bufferSymbol (cfg.withPacking false) unpacked x) where
  search := by simpa using aligned.search
  inSync := by simpa using aligned.inSync
  haveLen := by simpa using aligned.haveLen
  pktLen := by simpa using aligned.pktLen
  bytes := aligned.bytes.concat x
  samples := aligned.samples.concat x

/-- Only the framing members are written between two symbols. -/
theorem Aligned.framing (aligned : Aligned u packed unpacked) (inSync haveLen : Bool)
    (pktLen : Int32) :
    Aligned u
      ({ packed with inSync := inSync, haveLen := haveLen, pktLen := pktLen } :
        (cfg.withPacking true).State)
      ({ unpacked with inSync := inSync, haveLen := haveLen, pktLen := pktLen } :
        (cfg.withPacking false).State) :=
  ⟨aligned.search, rfl, rfl, rfl, ⟨aligned.bytes.1, aligned.bytes.2, aligned.bytes.3⟩,
    ⟨aligned.samples.1, aligned.samples.2, aligned.samples.3⟩⟩

/-- Both blocks complete the length alike, because the end is at a byte boundary. -/
theorem Aligned.completeLength (aligned : Aligned u packed unpacked)
    (boundary : unpacked.rxBitCnt.toNat % 8 = 0) :
    AfterRelated (Aligned u) (completeLength (cfg.withPacking true) packed)
      (completeLength (cfg.withPacking false) unpacked) := by
  have whole := @targetLen_aligned (cfg.withPacking false) _ boundary unpacked.pktLen
  have same : targetLen (cfg.withPacking true) packed.rxBitCnt packed.pktLen =
      targetLen (cfg.withPacking false) unpacked.rxBitCnt unpacked.pktLen := by
    rw [aligned.rxBitCnt, aligned.pktLen]
    rfl
  rw [completeLength_eq, completeLength_eq, same, reservePacket_aligned whole,
    reservePacket_aligned whole]
  by_cases sign : 0 ≤ (targetLen (cfg.withPacking false) unpacked.rxBitCnt
      unpacked.pktLen).toInt
  · rw [if_pos sign, aligned.inSync, aligned.pktLen]
    exact .ok (aligned.framing _ _ _)
  · rw [if_neg sign]
    exact .error _ _

/-- Both blocks add a symbol alike. -/
theorem Aligned.addSymbol (aligned : Aligned u packed unpacked) (x : Int8) :
    AfterRelated (Aligned (u ++ [x])) (addSymbol (cfg.withPacking true) packed x)
      (addSymbol (cfg.withPacking false) unpacked x) := by
  have stored := aligned.concat x
  unfold PacketDeframer.addSymbol
  generalize bufferSymbol (cfg.withPacking true) packed x = packed at stored ⊢
  generalize bufferSymbol (cfg.withPacking false) unpacked x = unpacked at stored ⊢
  dsimp only
  rw [stored.haveLen, stored.rxBitCnt, stored.pktLen]
  change AfterRelated _
    (if _ then _ else if (cfg.withPacking false).pktLenOffsetBits.toUInt32 < _ then
      if _ = ((cfg.withPacking false).pktLenOffsetBits + 8).toUInt32 then _ else _ else _) _
  split
  · exact .ok stored
  · split
    · have shifted : Aligned (u ++ [x])
          ({ packed with
            rxBitCnt := unpacked.rxBitCnt
            haveLen := unpacked.haveLen
            pktLen := unpacked.pktLen <<< 1 ||| x.toInt32 } : (cfg.withPacking true).State)
          ({ unpacked with pktLen := unpacked.pktLen <<< 1 ||| x.toInt32 } :
            (cfg.withPacking false).State) :=
        ⟨stored.search, stored.inSync, rfl, rfl,
          ⟨stored.rxBitCnt.symm.trans stored.bytes.rxBitCnt, stored.bytes.packet,
            stored.bytes.tmpByte⟩,
          ⟨stored.samples.rxBitCnt, stored.samples.packet, stored.samples.tmpByte⟩⟩
      split
      · rename_i last
        exact shifted.completeLength (by rw [last]; exact lengthEnd_boundary cfg)
      · exact .ok shifted
    · exact .ok stored

/-- Published data of aligned states correspond. -/
theorem Aligned.published (aligned : Aligned u packed unpacked) :
    packed.packet.map Int8.toUInt8 = bytesOf (unpacked.packet.map Int8.toUInt8) := by
  rw [aligned.bytes.packet, aligned.samples.packet, packet_captured, packet_captured,
    payload_bytesOf]

end Capture

section Reactions

variable {packed : (cfg.withPacking true).State} {unpacked : (cfg.withPacking false).State}

/-- Both blocks start a capture alike; where the packet length is negative both stop. -/
theorem Matched.startCapture (matched : Matched packed unpacked) :
    AfterRelated Matched (startCapture (cfg.withPacking true) packed)
      (startCapture (cfg.withPacking false) unpacked) := by
  by_cases negative : cfg.fixedLen = true ∧ unpacked.pktLen.toInt < 0
  · rw [@startCapture_error (cfg.withPacking true) packed negative.1
        (by rw [matched.pktLen]; exact negative.2),
      @startCapture_error (cfg.withPacking false) unpacked negative.1 negative.2]
    exact .error _ _
  · have length : cfg.fixedLen = true → 0 ≤ unpacked.pktLen.toInt := fun mode => by
      by_contra sign
      exact negative ⟨mode, by omega⟩
    rw [@startCapture_ok (cfg.withPacking true) packed fun mode => by
        rw [matched.pktLen]; exact length mode,
      @startCapture_ok (cfg.withPacking false) unpacked length, matched.pktLen, matched.search]
    have aligned : Aligned []
        (⟨0, 0, unpacked.search, true, cfg.fixedLen, [],
          if cfg.fixedLen then unpacked.pktLen else 0⟩ : (cfg.withPacking true).State)
        (⟨0, 0, unpacked.search, true, cfg.fixedLen, [],
          if cfg.fixedLen then unpacked.pktLen else 0⟩ : (cfg.withPacking false).State) :=
      ⟨rfl, rfl, rfl, rfl, ⟨rfl, rfl, rfl⟩, ⟨rfl, rfl, rfl⟩⟩
    exact .ok aligned.matched

/-- Both blocks search alike. -/
theorem Matched.search_react (matched : Matched packed unpacked) (x : Int8)
    (searching : unpacked.inSync = false) :
    TransitionRelated Matched Eq (fun bytes data => bytes = bytesOf data)
      (transition (react (cfg.withPacking true)) packed x)
      (transition (react (cfg.withPacking false)) unpacked x) := by
  have searching' : packed.inSync = false := matched.inSync.trans searching
  have pushed : Matched
      ({ packed with search := packed.search.push x } : (cfg.withPacking true).State)
      ({ unpacked with search := unpacked.search.push x } : (cfg.withPacking false).State) :=
    ⟨by rw [matched.search]; rfl, matched.inSync, matched.pktLen,
      fun running => by simp [searching] at running⟩
  by_cases found : unpacked.search.push x = ShiftRegister.ofWord cfg.sync
  · have found' : packed.search.push x = ShiftRegister.ofWord cfg.sync := by
      rw [matched.search]
      exact found
    exact .of_reactions matched rfl (react_search_hit searching' found')
      (react_search_hit searching found) .nil pushed.startCapture
  · have missed : packed.search.push x ≠ ShiftRegister.ofWord cfg.sync := by
      rw [matched.search]
      exact found
    exact .of_reactions matched rfl (react_search_miss searching' missed)
      (react_search_miss searching found) .nil (.ok pushed)

/-- Both blocks capture alike. -/
theorem Matched.capture_react (matched : Matched packed unpacked) (x : Int8)
    (running : unpacked.inSync = true) :
    TransitionRelated Matched Eq (fun bytes data => bytes = bytesOf data)
      (transition (react (cfg.withPacking true)) packed x)
      (transition (react (cfg.withPacking false)) unpacked x) := by
  have running' : packed.inSync = true := matched.inSync.trans running
  obtain ⟨u, aligned⟩ := matched.capture running
  have results := aligned.addSymbol x
  have left : react (cfg.withPacking true) packed x = _ := if_pos running'
  have right : react (cfg.withPacking false) unpacked x = _ := if_pos running
  generalize addSymbol (cfg.withPacking true) packed x = added at results left
  generalize addSymbol (cfg.withPacking false) unpacked x = added' at results right
  cases results with
  | error e e' => exact .of_reactions matched rfl left right .nil (.error _ _)
  | @ok next next' stored =>
    dsimp only at left right
    have same : (next.haveLen = true ∧ next.pktLen.toUInt32 ≤ next.rxBitCnt) ↔
        (next'.haveLen = true ∧ next'.pktLen.toUInt32 ≤ next'.rxBitCnt) := by
      rw [stored.haveLen, stored.pktLen, stored.rxBitCnt]
    by_cases ends : next'.haveLen = true ∧ next'.pktLen.toUInt32 ≤ next'.rxBitCnt
    · rw [if_pos (same.mpr ends)] at left
      rw [if_pos ends] at right
      exact .of_reactions matched rfl left right (.cons stored.published .nil) (.ok stored.ended)
    · rw [if_neg fun bad => ends (same.mp bad)] at left
      rw [if_neg ends] at right
      exact .of_reactions matched rfl left right .nil (.ok stored.matched)

/-- Both blocks react to a sample alike. -/
theorem Matched.react (matched : Matched packed unpacked) (x : Int8) :
    TransitionRelated Matched Eq (fun bytes data => bytes = bytesOf data)
      (transition (react (cfg.withPacking true)) packed x)
      (transition (react (cfg.withPacking false)) unpacked x) := by
  cases running : unpacked.inSync with
  | true => exact matched.capture_react x running
  | false => exact matched.search_react x running

end Reactions

/-- Related transitions are the same event. -/
theorem event_related {left : (cfg.withPacking true).Transition}
    {right : (cfg.withPacking false).Transition}
    (related : TransitionRelated Matched Eq (fun bytes data => bytes = bytesOf data) left right) :
    event left = event right := by
  obtain ⟨before, -, emitted, after⟩ := related
  have empty : left.emitted = [] ↔ right.emitted = [] := by
    rw [← List.length_eq_zero_iff, emitted.length_eq, List.length_eq_zero_iff]
  unfold event
  generalize left.after = l at after ⊢
  generalize right.after = r at after ⊢
  cases after with
  | ok next => simp only [ne_eq, empty, before.inSync, next.inSync]
  | error e e' => rfl

/-- On the same stream, split over work calls in any two ways, the blocks make matched
transitions. -/
theorem histories_matched (garbage garbage' : Uninitialised) {chunks chunks' : List (List Int8)}
    (same : chunks.flatten = chunks'.flatten) :
    List.Forall₂ (TransitionRelated Matched Eq fun bytes data => bytes = bytesOf data)
      (run (cfg.withPacking true) garbage chunks).history
      (run (cfg.withPacking false) garbage' chunks').history := by
  rw [run, run, feed_eq_work, feed_eq_work, same]
  refine (work_related ?_ (List.forall₂_same.mpr fun _ _ => rfl) (matched_make garbage garbage')).1
  intro packed unpacked x y _ _ matched equal
  cases equal
  exact matched.react x

/-- The packed data are the bytes of the unpacked data. -/
theorem published_bytesOf (garbage garbage' : Uninitialised) {chunks chunks' : List (List Int8)}
    (same : chunks.flatten = chunks'.flatten) :
    published (cfg.withPacking true) garbage chunks =
      (published (cfg.withPacking false) garbage' chunks').map bytesOf := by
  rw [← List.forall₂_eq_eq_eq, List.forall₂_map_right_iff]
  exact published_related (histories_matched garbage garbage' same)

/-- Packing does not touch the framing: on the same stream, split over work calls in any two ways,
both blocks go through the same events, and the packed data are the bytes of the unpacked. -/
theorem packing_transparent (garbage garbage' : Uninitialised) {chunks chunks' : List (List Int8)}
    (same : chunks.flatten = chunks'.flatten) :
    (run (cfg.withPacking true) garbage chunks).history.map event =
        (run (cfg.withPacking false) garbage' chunks').history.map event ∧
      published (cfg.withPacking true) garbage chunks =
        (published (cfg.withPacking false) garbage' chunks').map bytesOf := by
  constructor
  · rw [← List.forall₂_eq_eq_eq, List.forall₂_map_left_iff, List.forall₂_map_right_iff]
    exact (histories_matched garbage garbage' same).imp fun _ _ related => event_related related
  · exact published_bytesOf garbage garbage' same

/-- Packets of ten samples behind a one and a zero. -/
def tenSamples : Config := ⟨"", [1, 0], true, 10, -1, 0, 0, false⟩

/-- Ten samples that are not binary, split differently for the two blocks. The packed block drops
the last two. -/
theorem packing_transparent_tenSamples :
    published (tenSamples.withPacking true) ⟨0, 0, false⟩
        [[1, 0, 3, 2, -1, -2, 0, 0], [0, 1, 1, 1]] = [[0xa1]] ∧
      published (tenSamples.withPacking false) ⟨7, 9, true⟩
        [[1, 0, 3, 2, -1], [-2, 0, 0, 0, 1, 1, 1]] = [[3, 2, 255, 254, 0, 0, 0, 1, 1, 1]] := by
  have samples : published (tenSamples.withPacking false) ⟨7, 9, true⟩
      [[1, 0, 3, 2, -1], [-2, 0, 0, 0, 1, 1, 1]] = [[3, 2, 255, 254, 0, 0, 0, 1, 1, 1]] := by
    decide
  have packed := (@packing_transparent tenSamples ⟨0, 0, false⟩ ⟨7, 9, true⟩
    [[1, 0, 3, 2, -1, -2, 0, 0], [0, 1, 1, 1]] [[1, 0, 3, 2, -1], [-2, 0, 0, 0, 1, 1, 1]]
    (by rfl)).2
  rw [samples] at packed
  exact ⟨packed.trans (by decide), samples⟩

end GrReveng.PacketDeframer
