import GrReveng.Library.Transmissions
import GrReveng.PacketDeframer.Decoder
import GrReveng.PacketDeframer.RoundTrip

/-!
# Recovery

Whatever bits the deframer has been fed, also a sync word that was none and a capture that takes
its samples for a length, enough zeros bring it back: from then on it behaves as a fresh block
does. So every packet that is sent behind them is received, in both modes, and at most one packet
is made of what came before.
-/

namespace GrReveng.PacketDeframer

open Reactive

variable {cfg : Config}

/-- The extent of a layout is decided and complete within its longest packet. -/
theorem Layout.extent_bounded (layout : Layout) {rest : List Int8}
    (long : layout.longest ≤ rest.length) :
    ∃ reach, layout.extent rest = some reach ∧ reach.count ≤ layout.longest := by
  cases layout with
  | fixed bits => exact ⟨⟨bits, true⟩, rfl, Nat.le_refl _⟩
  | counted offset adjust largest =>
    have bits : (((rest.drop (8 * offset)).take 8).map lsb).length ≤ 8 := by
      rw [List.length_map, List.length_take]
      exact Nat.min_le_left 8 _
    have byte : lengthBehind offset rest < 256 :=
      Nat.lt_of_lt_of_le (msbValue_lt _) (Nat.pow_le_pow_right (by decide) bits)
    rw [longest] at long ⊢
    rw [extent, if_neg (by omega)]
    split
    · exact ⟨_, rfl, by dsimp only; omega⟩
    · exact ⟨_, rfl, by dsimp only; omega⟩

/-- With valid arguments the packets of bits are decided by their own samples. -/
theorem Config.Valid.prompt (valid : cfg.Valid) :
    Prompt cfg.extent Binary cfg.layout.longest where
  stable := by
    intro xs ys reach decided
    cases mode : cfg.fixedLen with
    | true => rwa [extent_fixed mode] at decided ⊢
    | false => rwa [extent_append mode (headerBits_le_count mode decided).2]
  own := by
    intro xs ys reach decided fits
    cases mode : cfg.fixedLen with
    | true => rwa [extent_fixed mode] at decided ⊢
    | false =>
      have header := (headerBits_le_count mode decided).1
      rwa [extent_append mode (by omega)] at decided
  bounded := by
    intro xs binary long
    rw [valid.extent_eq binary]
    exact cfg.layout.extent_bounded long

/-- In fixed length mode any samples of the packet length are a whole packet. -/
theorem whole_fixed (mode : cfg.fixedLen = true) {body : List Int8}
    (length : (body.length : Int) = cfg.pktLen.toInt) : Whole cfg.extent body true := by
  intro more
  rw [extent_fixed mode, Option.some.injEq, Extent.mk.injEq]
  exact ⟨by omega, rfl⟩

/-- In variable length mode the samples of a capture that ends with the last of them end with the
length byte, or the end was known before and is theirs. -/
theorem capture_ends (mode : cfg.fixedLen = false) {u : List Int8} (nonempty : u ≠ [])
    (long : cfg.headerBits ≤ u.length)
    (opened : ∀ front back, u = front ++ back → back ≠ [] → Open cfg front) :
    u.length = cfg.headerBits ∨ cfg.headerBits < u.length ∧
      (u.length : Int) ≤ (target cfg u).toInt ∧ ¬cfg.Refuses (lengthWord cfg u) := by
  have whole := List.dropLast_append_getLast nonempty
  have length := congrArg List.length whole
  rw [List.length_append, List.length_singleton] at length
  have before := opened u.dropLast [u.getLast nonempty] whole.symm (List.cons_ne_nil _ _)
  by_cases header : cfg.headerBits ≤ u.dropLast.length
  · have ⟨below, accepted⟩ := before (.inr header)
    have same := @target_append cfg u.dropLast (.inr header) [u.getLast nonempty]
    have word := lengthWord_append header [u.getLast nonempty]
    rw [whole] at same word
    right
    rw [same, word]
    exact ⟨by omega, by omega, fun refuses => accepted ⟨mode, header, refuses⟩⟩
  · left
    omega

/-- The samples of a complete packet are a whole one. -/
theorem Complete.whole {u : List Int8} (complete : Complete cfg u) :
    Whole cfg.extent u true := by
  intro more
  have reached := complete.reached
  have sign := complete.sign
  cases mode : cfg.fixedLen with
  | true =>
    have last := List.dropLast_append_getLast complete.nonempty
    have length := congrArg List.length last
    rw [List.length_append, List.length_singleton] at length
    have below := (complete.opened u.dropLast _ last.symm (List.cons_ne_nil _ _) (.inl mode)).1
    rw [target, if_pos mode] at reached below sign
    rw [extent_fixed mode, Option.some.injEq, Extent.mk.injEq]
    exact ⟨by omega, rfl⟩
  | false =>
    have long := complete.known.long mode
    rw [extent_append mode long, extent_long mode long, if_neg (by omega)]
    rcases capture_ends mode complete.nonempty long complete.opened with header |
      ⟨behind, further, accepted⟩
    · rw [if_pos (by omega), header]
    · rw [if_neg (by omega), if_neg accepted, Option.some.injEq, Extent.mk.injEq]
      exact ⟨by omega, rfl⟩

/-- The samples of a dropped header are a whole packet that is not kept. -/
theorem Dropped.whole {u : List Int8} (dropped : Dropped cfg u) : Whole cfg.extent u false := by
  intro more
  have ⟨mode, long, refuses⟩ := dropped.refused
  have further := dropped.further
  rw [extent_append mode long, extent_long mode long, if_neg (by omega)]
  rcases capture_ends mode dropped.nonempty long dropped.opened with header | ⟨_, _, accepted⟩
  · rw [if_neg (by omega), if_pos refuses, header]
  · exact absurd refuses accepted

/-- The samples of an item are a whole packet, which is kept if the item is a frame. -/
theorem whole_item (valid : cfg.Valid) (mode : cfg.fixedLen = false) {item : Item}
    (fits : item.Fits cfg) : Whole cfg.extent (samples item.bytes) item.message.isSome := by
  cases item with
  | frame head counted tail => exact (complete_frame valid mode fits).whole
  | overlong head length => exact (dropped_overlong valid mode fits).whole

/-- Gaps that do not complete the sync word between items space their samples. -/
theorem spaced_of_separated (nonempty : cfg.sync ≠ []) {gap : List Int8}
    {items : List (Item × List Int8)} (separated : Separated cfg.sync gap items) :
    Spaced cfg.sync cfg.sync gap (items.map fun entry => (samples entry.1.bytes, entry.2)) := by
  induction items generalizing gap with
  | nil => exact absent_of_quiet (ShiftRegister.quiet_ofWord separated)
  | cons entry items ih =>
    exact ⟨found_of_finds (ShiftRegister.finds_ofWord nonempty separated.1), ih separated.2⟩

/-- Gaps that do not complete the sync word space the items of a transmission. -/
theorem spaced_of_clean (nonempty : cfg.sync ≠ []) {gap : List Int8}
    {items : List (Item × List Int8)} (clean : GapsClean cfg.sync gap items) :
    Spaced cfg.sync [] gap (items.map fun entry => (samples entry.1.bytes, entry.2)) := by
  have finds := @ShiftRegister.finds_empty _ cfg.sync gap nonempty clean.1
  cases items with
  | nil =>
    have front := finds.quiet
    rw [List.dropLast_append_of_ne_nil nonempty] at front
    exact absent_of_quiet front.front
  | cons entry items => exact ⟨found_of_finds finds, spaced_of_separated nonempty clean.2⟩

/-- The gaps behind the items of a transmission do not complete the sync word. -/
def GapsBehindClean (sync : List Int8) : List (Item × List Int8) → Prop
  | [] => True
  | (_, next) :: items => Separated sync next items

/-- A transmission is what is sent for its items. -/
theorem transmission_eq_sent (gap : List Int8) (items : List (Item × List Int8)) :
    transmission cfg.sync gap items =
      sent cfg.sync gap (items.map fun entry => (samples entry.1.bytes, entry.2)) := by
  rw [transmission, sent, List.flatMap_map]

section Noise

variable {noise : List Int8} {count : Nat}

/-- Behind enough zeros the packets are those of a stream that begins with the zeros. -/
theorem packets_silence (valid : cfg.Valid) (loud : ∃ x ∈ cfg.sync, x ≠ 0)
    (binary : ∀ x ∈ noise, Binary x)
    (long : cfg.layout.longest + 2 * cfg.sync.length ≤ count + 2) (later : List Int8) :
    (∃ extra : List (List Int8), extra.length ≤ 1 ∧
      packets cfg (noise ++ List.replicate count 0) = packets cfg noise ++ extra) ∧
    packets cfg (noise ++ List.replicate count 0 ++ later) =
      packets cfg (noise ++ List.replicate count 0) ++
        packets cfg (List.replicate count 0 ++ later) := by
  have clean : ∀ x ∈ noise ++ List.replicate count 0, Binary x := by
    intro x member
    cases List.mem_append.mp member with
    | inl front => exact binary x front
    | inr zero => exact .inl (List.eq_of_mem_replicate zero)
  have ⟨y, member, _⟩ := loud
  exact frames_silence valid.prompt (List.ne_nil_of_mem member) (silent_replicate loud count)
    (by rw [List.length_replicate]; exact long) clean [] later

/-- Behind enough zeros a run on bits goes on like a run of a fresh block that has seen the zeros
only, and at most one packet is completed by them. Neither the split into work calls nor the
uninitialised members matter, and the samples behind the zeros may have any value. -/
theorem silence_forgets (valid : cfg.Valid) (loud : ∃ x ∈ cfg.sync, x ≠ 0)
    (binary : ∀ x ∈ noise, Binary x)
    (long : cfg.layout.longest + 2 * cfg.sync.length ≤ count + 2) (garbage : Uninitialised)
    (later : List Int8) :
    (∃ extra : List (List UInt8), extra.length ≤ 1 ∧
      published cfg garbage [noise, List.replicate count 0] =
        published cfg garbage [noise] ++ extra) ∧
    ∀ garbage' chunks, chunks.flatten = noise ++ List.replicate count 0 ++ later →
      published cfg garbage' chunks = published cfg garbage [noise, List.replicate count 0] ++
        published cfg garbage [List.replicate count 0, later] := by
  have ⟨⟨extra, single, more⟩, rest⟩ := packets_silence valid loud binary long later
  have received := published_packets valid.framed
  constructor
  · refine ⟨extra.map (payload cfg), by rwa [List.length_map], ?_⟩
    rw [received, received, ← List.map_append]
    simp only [List.flatten_cons, List.flatten_nil, List.append_nil, more]
  · intro garbage' chunks stream
    rw [received, received, received, ← List.map_append, stream, rest]
    simp only [List.flatten_cons, List.flatten_nil, List.append_nil]

/-- The samples of an item are kept as its message. -/
theorem keptBody_item (valid : cfg.Valid) (mode : cfg.fixedLen = false) {item : Item}
    (fits : item.Fits cfg) :
    (keptBody cfg.extent (samples item.bytes)).map (payload cfg) =
      item.message.map fun bytes => payload cfg (samples bytes) := by
  rw [(whole_item valid mode fits).keptBody]
  cases item with
  | frame head counted tail => rfl
  | overlong head length => rfl

/-- The packets of a transmission are its frames. -/
theorem frames_transmission (valid : cfg.Valid) (mode : cfg.fixedLen = false) {context : List Int8}
    {gap : List Int8} {items : List (Item × List Int8)} (fits : ∀ entry ∈ items, entry.1.Fits cfg)
    (spaced : Spaced cfg.sync context gap
      (items.map fun entry => (samples entry.1.bytes, entry.2))) :
    (frames cfg.sync cfg.extent context (transmission cfg.sync gap items)).map (payload cfg) =
      items.filterMap fun entry => entry.1.message.map fun bytes =>
        payload cfg (samples bytes) := by
  have whole : ∀ entry ∈ items.map fun entry => (samples entry.1.bytes, entry.2),
      ∃ kept, Whole cfg.extent entry.1 kept := by
    intro entry member
    have ⟨origin, listed, same⟩ := List.mem_map.mp member
    rw [← same]
    exact ⟨_, whole_item valid mode (fits origin listed)⟩
  rw [transmission_eq_sent, frames_sent whole spaced, List.filterMap_map, List.map_filterMap]
  apply List.filterMap_congr
  intro entry member
  exact keptBody_item valid mode (fits entry member)

/-- Behind any bits and enough zeros every frame of a transmission is received, in its order, and at
most one packet is made of the bits in front. -/
theorem recovers (valid : cfg.Valid) (mode : cfg.fixedLen = false)
    (loud : ∃ x ∈ cfg.sync, x ≠ 0) (binary : ∀ x ∈ noise, Binary x)
    (long : cfg.layout.longest + 2 * cfg.sync.length ≤ count + 2)
    {items : List (Item × List Int8)} (fits : ∀ entry ∈ items, entry.1.Fits cfg)
    (clean : GapsBehindClean cfg.sync items) (garbage : Uninitialised)
    {chunks : List (List Int8)}
    (stream : chunks.flatten = noise ++ transmission cfg.sync (List.replicate count 0) items) :
    ∃ extra : List (List UInt8), extra.length ≤ 1 ∧
      published cfg garbage chunks = published cfg garbage [noise] ++ extra ++
        items.filterMap fun entry => entry.1.message.map fun bytes =>
          payload cfg (samples bytes) := by
  have nonempty : cfg.sync ≠ [] := List.ne_nil_of_mem loud.choose_spec.1
  have spaced : Spaced cfg.sync [] (List.replicate count 0)
      (items.map fun entry => (samples entry.1.bytes, entry.2)) := by
    cases items with
    | nil => exact (silent_replicate loud count).absent
    | cons entry items =>
      exact ⟨behindWord_replicate loud count, spaced_of_separated nonempty clean⟩
  have received := published_packets valid.framed
  have frames := frames_transmission valid mode fits spaced
  obtain ⟨later, parts⟩ : ∃ later, transmission cfg.sync (List.replicate count 0) items =
      List.replicate count 0 ++ later := ⟨_, rfl⟩
  rw [parts, ← packets] at frames
  rw [parts, ← List.append_assoc] at stream
  obtain ⟨⟨extra, single, more⟩, rest⟩ := packets_silence valid loud binary long later
  refine ⟨extra.map (payload cfg), by rwa [List.length_map], ?_⟩
  rw [received, received, stream, rest, more, List.map_append, List.map_append, frames]
  simp only [List.flatten_cons, List.flatten_nil, List.append_nil]

/-- A sync word and one more bit, then silence, and the two frames behind it are received. -/
theorem recovers_smallFrames :
    ∃ extra : List (List UInt8), extra.length ≤ 1 ∧
      published smallFrames ⟨0, 0, false⟩
          [[1, 0, 1], transmission [1, 0] (List.replicate 2066 0) smallItems] =
        published smallFrames ⟨0, 0, false⟩ [[1, 0, 1]] ++ extra ++
          [[7, 2, 1, 2, 3], [9, 1, 170, 4]] := by
  have valid : smallFrames.Valid :=
    ⟨fun mode => by simp [smallFrames] at mode, fun _ => by decide⟩
  have fits : ∀ entry ∈ smallItems, entry.1.Fits smallFrames := by
    simp only [smallItems, List.mem_cons, List.not_mem_nil, or_false]
    rintro entry (rfl | rfl | rfl)
    · exact ⟨by decide, by decide, by decide, by decide⟩
    · exact ⟨by decide, by decide, by decide⟩
    · exact ⟨by decide, by decide, by decide, by decide⟩
  have clean : GapsBehindClean smallFrames.sync smallItems :=
    ⟨OccursAt.all_of_lt (by decide) (by decide), OccursAt.all_of_lt (by decide) (by decide),
      OccursAt.all_of_lt (by decide) (by decide)⟩
  exact @recovers smallFrames [1, 0, 1] 2066 valid rfl ⟨1, by decide, by decide⟩
    (binary_of_all rfl) (by decide) smallItems fits clean ⟨0, 0, false⟩
    [[1, 0, 1], transmission [1, 0] (List.replicate 2066 0) smallItems]
    (by rw [List.flatten_cons, List.flatten_singleton]; rfl)

end Noise

/-- In fixed length mode all packets that are sent are received, whatever their samples. -/
theorem fixed_round_trip (mode : cfg.fixedLen = true) (positive : 1 ≤ cfg.pktLen.toInt)
    {gap : List Int8} {bodies : List (List Int8 × List Int8)}
    (lengths : ∀ entry ∈ bodies, (entry.1.length : Int) = cfg.pktLen.toInt)
    (spaced : Spaced cfg.sync [] gap bodies) (garbage : Uninitialised) {chunks : List (List Int8)}
    (stream : chunks.flatten = sent cfg.sync gap bodies) :
    published cfg garbage chunks = bodies.map (payload cfg ∘ Prod.fst) := by
  have framed : cfg.Framed :=
    ⟨fun _ => positive, fun other => absurd (mode.symm.trans other) (by decide)⟩
  have whole : ∀ entry ∈ bodies, Whole cfg.extent entry.1 true := fun entry member =>
    whole_fixed mode (lengths entry member)
  rw [published_packets framed, stream, packets,
    frames_sent (fun entry member => ⟨true, whole entry member⟩) spaced, List.map_filterMap,
    ← List.filterMap_eq_map]
  apply List.filterMap_congr
  intro entry member
  rw [(whole entry member).keptBody]
  rfl

/-- Packets of four samples. -/
def fours : Config := ⟨"", [1, 0], true, 4, -1, 0, 0, false⟩

/-- The arguments are valid. -/
theorem valid_fours : fours.Valid :=
  ⟨fun _ => by decide, fun mode => by simp [fours] at mode⟩

/-- A capture of two samples is completed by the zeros and forgotten. -/
theorem silence_forgets_fours :
    published fours ⟨0, 0, false⟩ [[1, 1, 0, 1, 1, 0, 0, 0], [0, 0, 0, 1, 0, 5, 6, 7, 8]] =
        published fours ⟨0, 0, false⟩ [[1, 1, 0, 1, 1], List.replicate 6 0] ++
          published fours ⟨0, 0, false⟩ [List.replicate 6 0, [1, 0, 5, 6, 7, 8]] ∧
      published fours ⟨0, 0, false⟩ [[1, 1, 0, 1, 1, 0, 0, 0], [0, 0, 0, 1, 0, 5, 6, 7, 8]] =
        [[1, 1, 0, 0], [5, 6, 7, 8]] := by
  have loud : ∃ x ∈ fours.sync, x ≠ 0 := ⟨1, by decide, by decide⟩
  have forgets := @silence_forgets fours [1, 1, 0, 1, 1] 6 valid_fours loud
    (binary_of_all rfl) (by decide) ⟨0, 0, false⟩ [1, 0, 5, 6, 7, 8]
  exact ⟨forgets.2 ⟨0, 0, false⟩ _ rfl, by decide⟩

/-- Two packets of samples that are no bits. -/
theorem fixed_round_trip_fours :
    published fours ⟨0, 0, false⟩ [[0, 1, 0, 5, 1, 0, 8], [0, 1, 0, 1, 0, 1, 0]] =
      [[5, 1, 0, 8], [1, 0, 1, 0]] := by
  have spaced : Spaced fours.sync [] [0] [([5, 1, 0, 8], [0]), ([1, 0, 1, 0], [])] :=
    ⟨by decide, by decide, rfl⟩
  exact @fixed_round_trip fours rfl (by decide) [0] [([5, 1, 0, 8], [0]), ([1, 0, 1, 0], [])]
    (by decide) spaced ⟨0, 0, false⟩ [[0, 1, 0, 5, 1, 0, 8], [0, 1, 0, 1, 0, 1, 0]] rfl

end GrReveng.PacketDeframer
