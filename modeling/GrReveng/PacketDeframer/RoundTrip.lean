import GrReveng.PacketDeframer.Announced

/-!
# Transmissions and what is received

The sending side of variable length framing: items, each a good frame or a head whose length byte
exceeds the maximum, sent with a sync word in front and gaps around them. The gaps must not
complete the sync word in another place than its own. The deframer publishes the bytes of the
good frames and nothing else (`variable_round_trip`).
-/

namespace GrReveng.PacketDeframer

open Reactive

variable {cfg : Config}

/-- The samples of bytes, most significant bit first. -/
def samples (bytes : List UInt8) : List Int8 := (unpackBytes bytes).map bitSample

/-- What is sent behind one sync word. -/
inductive Item
  /-- A good frame: the bytes before the length byte, the bytes it counts, the bytes after. -/
  | frame (head counted tail : List UInt8)
  /-- The head of a frame that is too long, up to its length byte. -/
  | overlong (head : List UInt8) (length : UInt8)

/-- The bytes of an item. -/
def Item.bytes : Item → List UInt8
  | frame head counted tail => head ++ [UInt8.ofNat counted.length] ++ counted ++ tail
  | overlong head length => head ++ [length]

/-- The message an item should be received as. -/
def Item.message : Item → Option (List UInt8)
  | frame head counted tail => some (frame head counted tail).bytes
  | overlong _ _ => none

/-- An item fits the arguments of the block. -/
def Item.Fits (cfg : Config) : Item → Prop
  | frame head counted tail => (head.length : Int) = cfg.pktLenOffset.toInt ∧
      counted.length ≤ 255 ∧ (tail.length : Int) = cfg.pktLenAdj.toInt ∧
      (0 < cfg.maxLen.toInt → (counted.length : Int) ≤ cfg.maxLen.toInt)
  | overlong head length => (head.length : Int) = cfg.pktLenOffset.toInt ∧
      0 < cfg.maxLen.toInt ∧ cfg.maxLen.toInt < length.toNat

/-- The samples sent: a gap, then each item behind a sync word and with a gap after it. -/
def transmission (sync gap : List Int8) (items : List (Item × List Int8)) : List Int8 :=
  gap ++ items.flatMap fun (item, next) => sync ++ samples item.bytes ++ next

/-- A gap that stands after an item, and the gaps behind it: between two sync words the sync word
occurs only as these two, and after the last one it does not occur again. -/
def Separated (sync : List Int8) : List Int8 → List (Item × List Int8) → Prop
  | gap, [] => ∀ i, OccursAt sync (sync ++ gap) i → i = 0
  | gap, (_, next) :: items =>
    (∀ i, OccursAt sync (sync ++ gap ++ sync) i → i = 0 ∨ i = sync.length + gap.length) ∧
      Separated sync next items

/-- The gaps of a transmission: before the first sync word it does not occur earlier. -/
def GapsClean (sync gap : List Int8) (items : List (Item × List Int8)) : Prop :=
  (∀ i, OccursAt sync (gap ++ sync) i → i = gap.length) ∧
    match items with
    | [] => True
    | (_, next) :: items => Separated sync next items

/-- The first item of a transmission, behind its gap and its sync word. -/
theorem transmission_cons (sync gap next : List Int8) (item : Item)
    (items : List (Item × List Int8)) :
    transmission sync gap ((item, next) :: items) =
      gap ++ sync ++ (samples item.bytes ++ transmission sync next items) := by
  simp [transmission]

/-- Samples of bytes are binary. -/
theorem samples_binary (bytes : List UInt8) : ∀ x ∈ samples bytes, Binary x :=
  binary_map_bitSample (unpackBytes bytes)

@[simp] theorem map_lsb_samples (bytes : List UInt8) :
    (samples bytes).map lsb = unpackBytes bytes := by
  simp [samples, Function.comp_def]

@[simp] theorem length_samples (bytes : List UInt8) :
    (samples bytes).length = 8 * bytes.length := by
  simp [samples]

/-- In packed mode the samples of bytes are published as the bytes. -/
theorem payload_samples (packed : cfg.packBytes = true) (bytes : List UInt8) :
    payload cfg (samples bytes) = bytes := by
  rw [payload, if_pos packed, map_lsb_samples, packBytes_unpackBytes]

/-- The length byte of samples is the byte behind the offset. -/
theorem lengthByte_samples {head : List UInt8} (length : UInt8) (rest : List UInt8)
    (offset : (head.length : Int) = cfg.pktLenOffset.toInt) :
    lengthByte cfg (samples (head ++ [length] ++ rest)) = length.toNat := by
  have bits : cfg.offsetBits = (unpackBytes head).length := by
    rw [Config.offsetBits, ← offset, length_unpackBytes]
    rfl
  have eight : (unpackBytes [length]).length = 8 := by simp
  rw [lengthByte, List.map_take, List.map_drop, map_lsb_samples, unpackBytes_append,
    unpackBytes_append, List.append_assoc, bits, List.drop_left, ← eight, List.take_left]
  simp only [unpackBytes, List.flatMap_singleton, byteBits, msbValue_msbBits]
  exact Nat.mod_eq_of_lt length.toNat_lt

/-- The samples of a good frame are a whole packet. -/
theorem complete_frame (valid : cfg.Valid) (mode : cfg.fixedLen = false)
    {head counted tail : List UInt8} (fits : (Item.frame head counted tail).Fits cfg) :
    Complete cfg (samples (Item.frame head counted tail).bytes) := by
  obtain ⟨offset, byte, adjust, small⟩ := fits
  have length : (UInt8.ofNat counted.length).toNat = counted.length := by
    rw [UInt8.toNat_ofNat']
    exact Nat.mod_eq_of_lt (by omega)
  have announced : lengthByte cfg (samples (Item.frame head counted tail).bytes) =
      counted.length := by
    rw [Item.bytes, List.append_assoc _ counted, lengthByte_samples _ _ offset, length]
  have total : (samples (Item.frame head counted tail).bytes).length =
      8 * (head.length + 1 + counted.length + tail.length) := by
    simp [Item.bytes]
    omega
  have binary := samples_binary (Item.frame head counted tail).bytes
  have header : cfg.headerBits = 8 * head.length + 8 := by
    rw [Config.headerBits, Config.offsetBits, ← offset]
    rfl
  refine complete_of_target (.inr (by omega)) (List.length_pos_iff.mp (by omega))
    (fun refused => ?_) ?_
  · obtain ⟨positive, excess⟩ := refused.2.2
    rw [Int32.lt_iff_toInt_lt] at positive excess
    rw [lengthWord_binary binary, announced] at excess
    have bound := small positive
    omega
  · rw [valid.target mode binary, announced, total]
    omega

/-- The samples of an overlong head are dropped. -/
theorem dropped_overlong (valid : cfg.Valid) (mode : cfg.fixedLen = false) {head : List UInt8}
    {length : UInt8} (fits : (Item.overlong head length).Fits cfg) :
    Dropped cfg (samples (Item.overlong head length).bytes) := by
  obtain ⟨offset, positive, excess⟩ := fits
  obtain ⟨_, adjust, _⟩ := valid.lengths mode
  have binary := samples_binary (Item.overlong head length).bytes
  have announced : lengthByte cfg (samples (Item.overlong head length).bytes) = length.toNat := by
    have byte := lengthByte_samples length [] offset
    rwa [List.append_nil] at byte
  have header : (samples (Item.overlong head length).bytes).length = cfg.headerBits := by
    rw [Config.headerBits, Config.offsetBits, ← offset]
    simp [Item.bytes]
    omega
  refine dropped_of_refused ⟨mode, by omega, ?_⟩ header ?_
  · rw [Config.Refuses, Int32.lt_iff_toInt_lt, Int32.lt_iff_toInt_lt, lengthWord_binary binary,
      announced]
    exact ⟨positive, excess⟩
  · rw [valid.target mode binary, announced, header, Config.headerBits, Config.offsetBits]
    omega

/-- An item is received as its message, and the block searches again with the sync word still in
the register. -/
theorem work_item (valid : cfg.Valid) (mode : cfg.fixedLen = false)
    (packed : cfg.packBytes = true) {item : Item} (fits : item.Fits cfg) :
    (work (react cfg) (captured cfg []) (samples item.bytes)).final =
        .ok (finished cfg (samples item.bytes)) ∧
      (work (react cfg) (captured cfg []) (samples item.bytes)).published =
        item.message.toList := by
  cases item with
  | frame head counted tail =>
    obtain ⟨final, published, -⟩ := work_complete valid.framed (complete_frame valid mode fits)
    exact ⟨final, by rw [published, payload_samples packed]; rfl⟩
  | overlong head length =>
    exact work_dropped valid.framed (dropped_overlong valid mode fits)

/-- A search that ends in a sync word, and the item behind it. -/
theorem work_sync_item (valid : cfg.Valid) (mode : cfg.fixedLen = false)
    (packed : cfg.packBytes = true) {item : Item} (fits : item.Fits cfg) {s : cfg.State}
    {lead : List Int8} (searching : s.inSync = false) (finds : s.search.Finds lead)
    (rest : List Int8) :
    (work (react cfg) s (lead ++ (samples item.bytes ++ rest))).published =
      item.message.toList ++
        (work (react cfg) (finished cfg (samples item.bytes)) rest).published := by
  obtain ⟨found, silent, -⟩ := work_finds valid.framed searching
    (fun fixed => by simp [mode] at fixed) finds
  obtain ⟨received, message⟩ := work_item valid mode packed fits
  rw [work_append_published (react cfg) _ found, silent, List.nil_append,
    work_append_published (react cfg) _ received, message]

/-- From the state an item leaves, the items behind it are received. -/
theorem work_separated (valid : cfg.Valid) (mode : cfg.fixedLen = false)
    (packed : cfg.packBytes = true) (nonempty : cfg.sync ≠ []) {u gap : List Int8}
    {items : List (Item × List Int8)} (fits : ∀ entry ∈ items, entry.1.Fits cfg)
    (separated : Separated cfg.sync gap items) :
    (work (react cfg) (finished cfg u) (transmission cfg.sync gap items)).published =
      items.filterMap fun entry => entry.1.message := by
  induction items generalizing u gap with
  | nil =>
    have quiet := @ShiftRegister.quiet_ofWord _ cfg.sync gap separated
    have silent := @work_quiet cfg (finished cfg u) gap rfl quiet
    simpa [transmission] using silent.2.1
  | cons entry items ih =>
    obtain ⟨item, next⟩ := entry
    have finds := @ShiftRegister.finds_ofWord _ cfg.sync gap nonempty separated.1
    have here := @work_sync_item cfg valid mode packed item (fits (item, next) (by simp))
      (finished cfg u) (gap ++ cfg.sync) rfl finds (transmission cfg.sync next items)
    have later := @ih (samples item.bytes) next (fun entry member => fits entry (by simp [member]))
      separated.2
    rw [transmission_cons, here, later]
    cases message : item.message <;> simp [message]

/-- Variable length framing is received as it was sent, also after heads that are too long. -/
theorem variable_round_trip (nonempty : cfg.sync ≠ []) (mode : cfg.fixedLen = false)
    (packed : cfg.packBytes = true) (valid : cfg.Valid) (gap : List Int8)
    (items : List (Item × List Int8)) (fits : ∀ entry ∈ items, entry.1.Fits cfg)
    (clean : GapsClean cfg.sync gap items) (garbage : Uninitialised)
    (chunks : List (List Int8)) (sent : chunks.flatten = transmission cfg.sync gap items) :
    published cfg garbage chunks = items.filterMap fun entry => entry.1.message := by
  have finds := @ShiftRegister.finds_empty _ cfg.sync gap nonempty clean.1
  rw [published, run, feed_eq_work, sent]
  cases items with
  | nil =>
    have quiet : (make cfg garbage).search.Quiet gap := by
      have front := finds.quiet
      rw [List.dropLast_append_of_ne_nil nonempty] at front
      exact front.front
    have silent := @work_quiet cfg (make cfg garbage) gap rfl quiet
    simpa [transmission] using silent.2.1
  | cons entry items =>
    obtain ⟨item, next⟩ := entry
    have here := @work_sync_item cfg valid mode packed item (fits (item, next) (by simp))
      (make cfg garbage) (gap ++ cfg.sync) rfl finds (transmission cfg.sync next items)
    have later := @work_separated cfg valid mode packed nonempty (samples item.bytes) next items
      (fun entry member => fits entry (by simp [member])) clean.2
    rw [transmission_cons, here, later]
    cases message : item.message <;> simp [message]

/-- One byte before and one after the length byte's own, and at most two in between. -/
def smallFrames : Config := ⟨"", [1, 0], false, -1, 2, 1, 1, true⟩

/-- A head that is too long between two frames; the second frame contains the sync word. -/
def smallItems : List (Item × List Int8) :=
  [(.frame [7] [1, 2] [3], [0]), (.overlong [7] 3, []), (.frame [9] [170] [4], [1, 1])]

/-- The two frames are received. -/
theorem variable_round_trip_smallFrames :
    published smallFrames ⟨0, 0, false⟩ [transmission [1, 0] [0, 0] smallItems] =
      [[7, 2, 1, 2, 3], [9, 1, 170, 4]] := by
  have valid : smallFrames.Valid :=
    ⟨fun mode => by simp [smallFrames] at mode, fun _ => by decide⟩
  have fits : ∀ entry ∈ smallItems, entry.1.Fits smallFrames := by
    simp only [smallItems, List.mem_cons, List.not_mem_nil, or_false]
    rintro entry (rfl | rfl | rfl)
    · exact ⟨by decide, by decide, by decide, by decide⟩
    · exact ⟨by decide, by decide, by decide⟩
    · exact ⟨by decide, by decide, by decide, by decide⟩
  have clean : GapsClean smallFrames.sync [0, 0] smallItems :=
    ⟨OccursAt.all_of_lt (by decide) (by decide), OccursAt.all_of_lt (by decide) (by decide),
      OccursAt.all_of_lt (by decide) (by decide), OccursAt.all_of_lt (by decide) (by decide)⟩
  exact variable_round_trip (by decide) rfl rfl valid [0, 0] smallItems fits clean ⟨0, 0, false⟩
    [transmission [1, 0] [0, 0] smallItems] (by simp; rfl)

end GrReveng.PacketDeframer
