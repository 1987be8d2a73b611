import GrReveng.PacketDeframer.Sync

/-!
# The length byte on samples that are not binary

The length is accumulated from whole samples, while the byte packer takes only their least
significant bits. The length word is the packed length byte exactly when the eight samples have
no stray bits (`StrayFree`). A negative sample makes the length negative, down to minus `2 ^ 14`,
and the adjustment may be negative too, so the end of the packet can be negative: then `reserve`
throws, and the unsigned comparison would not be the integer comparison.
-/

namespace GrReveng.PacketDeframer

open Reactive

variable {cfg : Config}

/-- The transition shifts in the last bit of the length byte. -/
def CompletesLength (t : cfg.Transition) : Prop :=
  t.before.inSync = true ∧ t.before.haveLen = false ∧
    t.before.rxBitCnt + 1 = (cfg.pktLenOffsetBits + 8).toUInt32

instance (t : cfg.Transition) : Decidable (CompletesLength t) :=
  inferInstanceAs (Decidable (_ ∧ _ ∧ _))

/-- The length that a transition which completes the length byte computes. -/
def computedLength (t : cfg.Transition) : Int32 := (t.before.pktLen <<< 1) ||| t.input.toInt32

/-- The end of the packet that it computes from this length. -/
def computedTarget (t : cfg.Transition) : Int32 :=
  targetLen cfg (t.before.rxBitCnt + 1) (computedLength t)

/-- An end of a packet that is safe: it is not negative, room for it can be reserved, and
comparing the unsigned counter with it is the comparison of integers. -/
structure SafeEnd (cfg : Config) (pktLen : Int32) : Prop where
  /-- The end is a number of bits. -/
  nonnegative : 0 ≤ pktLen.toInt
  /-- Reserving does not throw. -/
  reserves : reservePacket cfg pktLen = .ok ()
  /-- The conversion in the comparison keeps the value. -/
  compares : ∀ count : UInt32, pktLen.toUInt32 ≤ count ↔ pktLen.toInt ≤ count.toNat

/-- Every end computed in the history is safe. -/
def EndsSafe (history : List cfg.Transition) : Prop :=
  ∀ t ∈ history, CompletesLength t → SafeEnd cfg (computedTarget t)

/-- The arguments of variable length mode for which no eight samples make the length computation
leave `int`. -/
structure Config.Representable (cfg : Config) : Prop where
  /-- Variable length mode. -/
  mode : cfg.fixedLen = false
  /-- The length byte has a position. -/
  offset : 0 ≤ cfg.pktLenOffset.toInt ∧ 8 * cfg.pktLenOffset.toInt + 8 < 2 ^ 31
  /-- The smallest sum. -/
  low : -(2 : Int) ^ 31 ≤ 8 * (cfg.pktLenOffset.toInt + 1 - 2 ^ 14 + cfg.pktLenAdj.toInt)
  /-- The largest sum. -/
  high : 8 * (cfg.pktLenOffset.toInt + 2 ^ 14 + cfg.pktLenAdj.toInt) < 2 ^ 31

/-- Representable arguments frame a capture. -/
theorem Config.Representable.framed (representable : cfg.Representable) : cfg.Framed where
  fixed := fun mode => by simp [representable.mode] at mode
  offset := fun _ => representable.offset

/-- A capture that completes its length byte has consumed all bits before it but the last. -/
theorem completesLength_captured (framed : cfg.Framed) {u : List Int8} (opened : Open cfg u)
    {x : Int8} (completes : CompletesLength (transition (react cfg) (captured cfg u) x)) :
    cfg.fixedLen = false ∧ u.length + 1 = cfg.headerBits := by
  obtain ⟨-, unknown, last⟩ := completes
  have early : ¬ Known cfg u := by simpa [transition, captured] using unknown
  obtain ⟨mode, short⟩ := short_of_not_known early
  obtain ⟨-, header, small⟩ := offset_toNat framed mode
  have range := opened.length_lt framed
  have counts := congrArg UInt32.toNat last
  have one : (1 : UInt32).toNat = 1 := rfl
  simp only [transition, captured, UInt32.toNat_add, UInt32.toNat_ofNat', header, one] at counts
  exact ⟨mode, by omega⟩

/-- The counter of a capture, one symbol later. -/
theorem captured_rxBitCnt (u : List Int8) (x : Int8) :
    (captured cfg u).rxBitCnt + 1 = UInt32.ofNat (u ++ [x]).length := by
  rw [captured, List.length_append, List.length_singleton, UInt32.ofNat_add]
  rfl

/-- The length computed in a capture is the length word of its samples. -/
theorem computedLength_captured (mode : cfg.fixedLen = false) {u : List Int8} (x : Int8)
    (last : u.length + 1 = cfg.headerBits) :
    computedLength (transition (react cfg) (captured cfg u) x) = lengthWord cfg (u ++ [x]) := by
  have unknown : ¬ Known cfg u := by simp only [Known, mode, Bool.false_eq_true, false_or]; omega
  rw [← lengthWord_completes x last, computedLength, transition]
  simp only [captured, unknown, ↓reduceIte]

/-- The end computed in a capture is the end announced by its samples. -/
theorem computedTarget_captured (mode : cfg.fixedLen = false) {u : List Int8} (x : Int8)
    (last : u.length + 1 = cfg.headerBits) :
    computedTarget (transition (react cfg) (captured cfg u) x) = target cfg (u ++ [x]) := by
  rw [computedTarget, computedLength_captured mode x last, transition, captured_rxBitCnt u x,
    targetLen_completes mode (by simpa using last)]

/-- An end at a byte boundary is safe exactly when it is not negative. -/
theorem safeEnd_iff {pktLen : Int32} (aligned : pktLen.toInt % 8 = 0) :
    SafeEnd cfg pktLen ↔ 0 ≤ pktLen.toInt := by
  refine ⟨SafeEnd.nonnegative, fun sign => ⟨sign, ?_, fun count => ?_⟩⟩
  · rw [reservePacket_aligned aligned, if_pos sign]
  · rw [UInt32.le_iff_toNat_le, toUInt32_toNat sign]
    omega

/-- With representable arguments the sum never wraps. -/
theorem Config.Representable.target (representable : cfg.Representable) (u : List Int8) :
    (PacketDeframer.target cfg u).toInt = 8 * announcedBytes cfg u := by
  obtain ⟨below, above⟩ : FitsSigned 14 (lengthWord cfg u).toInt :=
    (shiftInAll_range _ (by rw [List.length_take]; omega)).mono
      (by rw [List.length_take]; omega)
  have low := representable.low
  have high := representable.high
  exact target_toInt representable.framed representable.mode (by rw [announcedBytes]; omega)
    (by rw [announcedBytes]; omega)

/-- The last eight samples of a capture whose length byte is complete are its length byte. -/
theorem lengthWord_last {past : List cfg.Transition} {u : List Int8}
    (since : samplesSince past = u) (last : u.length = cfg.headerBits) :
    lengthWord cfg u = shiftInAll 0 ((past.map Transition.input).rtake 8) := by
  obtain ⟨front, whole⟩ := List.rtakeWhile_suffix (fun t : cfg.Transition => t.before.inSync) past
  have inputs : past.map Transition.input = front.map Transition.input ++ u := by
    rw [← since, samplesSince, ← List.map_append, whole]
  rw [Config.headerBits] at last
  have tail : (past.map Transition.input).rtake 8 = u.drop cfg.offsetBits := by
    rw [inputs, List.rtake, List.length_append, List.drop_append, List.drop_of_length_le
      (show (front.map Transition.input).length ≤
        (front.map Transition.input).length + u.length - 8 by omega), List.nil_append]
    congr 1
    omega
  rw [tail, lengthWord, List.take_of_length_le (by rw [List.length_drop]; omega)]

/-- A transition completes the length byte in the capture of these samples, and computes the
length and the end that they and its own sample announce. -/
structure CompletesCapture (past : List cfg.Transition) (t : cfg.Transition) (u : List Int8) :
    Prop where
  /-- Variable length mode. -/
  mode : cfg.fixedLen = false
  /-- The step from the state of the capture. -/
  step : t = transition (react cfg) (captured cfg u) t.input
  /-- The samples before it have neither reached their end nor been refused. -/
  opened : Open cfg u
  /-- The sample is the last one of the length byte. -/
  last : u.length + 1 = cfg.headerBits
  /-- The length byte is made of the last eight samples. -/
  word : lengthWord cfg (u ++ [t.input]) =
    shiftInAll 0 (((past ++ [t]).map Transition.input).rtake 8)
  /-- The computed length. -/
  length : computedLength t = lengthWord cfg (u ++ [t.input])
  /-- The computed end. -/
  target : computedTarget t = PacketDeframer.target cfg (u ++ [t.input])

/-- In every run a transition that completes the length byte does so in some capture. -/
theorem run_completesCapture (framed : cfg.Framed) (garbage : Uninitialised)
    (chunks : List (List Int8)) {early late : List cfg.Transition} {t : cfg.Transition}
    (split : (run cfg garbage chunks).history = early ++ t :: late)
    (completes : CompletesLength t) : ∃ u, CompletesCapture early t u := by
  obtain ⟨tracks, stepped, -⟩ := (run_tracks framed garbage chunks).1 early t late split
  obtain ⟨state, opened⟩ := tracks.capture completes.1
  have since : samplesSince (early ++ [t]) = samplesSince early ++ [t.input] := by
    rw [samplesSince_concat, if_pos completes.1]
  rw [state] at stepped
  have inside := completes
  rw [stepped] at inside
  obtain ⟨mode, last⟩ := completesLength_captured framed opened inside
  have length := computedLength_captured mode t.input last
  have target := computedTarget_captured mode t.input last
  rw [← stepped] at length target
  exact ⟨samplesSince early, mode, stepped, opened, last,
    lengthWord_last since (by simpa using last), length, target⟩

/-- Every eight samples are the length byte of a capture of some run. -/
theorem exists_length_byte (framed : cfg.Framed) (mode : cfg.fixedLen = false)
    (garbage : Uninitialised) {byte : List Int8} (eight : byte.length = 8) :
    ∃ stream, ((∀ x ∈ cfg.sync, Binary x) → (∀ x ∈ byte, Binary x) → ∀ x ∈ stream, Binary x) ∧
      ∃ early t, (run cfg garbage [stream]).history = early ++ [t] ∧ CompletesLength t ∧
        ((early ++ [t]).map Transition.input).rtake 8 = byte := by
  have some : byte ≠ [] := by
    rintro rfl
    contradiction
  obtain ⟨lead, leading, started⟩ := exists_capture framed garbage
  let header : List Int8 := List.replicate cfg.offsetBits 0 ++ byte.dropLast
  have length : header.length + 1 = cfg.headerBits := by
    simp [header, Config.headerBits, eight]
  have reached := work_header framed mode (show header.length < cfg.headerBits by omega)
  have final : (work (react cfg) (make cfg garbage) (lead ++ header)).final =
      .ok (captured cfg header) := by
    rw [work_append_ok (react cfg) _ started]
    exact reached
  have history := work_concat_history (react cfg) final (byte.getLast some)
  have inputs := work_inputs (react cfg) final
  have whole : lead ++ header ++ [byte.getLast some] =
      lead ++ (List.replicate cfg.offsetBits 0 ++ byte) := by
    simp only [header, List.append_assoc, List.dropLast_append_getLast some]
  refine ⟨lead ++ header ++ [byte.getLast some], ?_,
    (work (react cfg) (make cfg garbage) (lead ++ header)).history,
    transition (react cfg) (captured cfg header) (byte.getLast some), ?_, ?_, ?_⟩
  · intro binary bits x member
    rw [whole, List.mem_append, List.mem_append] at member
    rcases member with before | zero | inside
    · exact leading binary x before
    · exact .inl (List.eq_of_mem_replicate zero)
    · exact bits x inside
  · rw [run, feed_eq_work, List.flatten_singleton]
    exact history
  · obtain ⟨-, complete, small⟩ := offset_toNat framed mode
    refine ⟨rfl, ?_, ?_⟩
    · simp only [transition, captured, Known, mode, Bool.false_eq_true, false_or,
        decide_eq_false_iff_not]
      omega
    · rw [transition, captured_rxBitCnt header (byte.getLast some), ← UInt32.toNat_inj, complete,
        UInt32.toNat_ofNat', List.length_append, List.length_singleton, length]
      exact Nat.mod_eq_of_lt (by omega)
  · rw [List.map_append, inputs, List.map_singleton]
    change (lead ++ header ++ [byte.getLast some]).rtake 8 = byte
    rw [whole, ← List.append_assoc, List.rtake, List.length_append, eight, Nat.add_sub_cancel,
      List.drop_left]

/-- In every run an end is safe exactly when the bytes it counts are not fewer than none. -/
theorem endsSafe_iff (representable : cfg.Representable) (garbage : Uninitialised)
    (chunks : List (List Int8)) :
    EndsSafe (run cfg garbage chunks).history ↔
      ∀ early t late, (run cfg garbage chunks).history = early ++ t :: late → CompletesLength t →
        0 ≤ cfg.pktLenOffset.toInt + 1 + cfg.pktLenAdj.toInt +
          (shiftInAll 0 (((early ++ [t]).map Transition.input).rtake 8)).toInt := by
  have each : ∀ early t late, (run cfg garbage chunks).history = early ++ t :: late →
      CompletesLength t → (SafeEnd cfg (computedTarget t) ↔
        0 ≤ cfg.pktLenOffset.toInt + 1 + cfg.pktLenAdj.toInt +
          (shiftInAll 0 (((early ++ [t]).map Transition.input).rtake 8)).toInt) := by
    intro early t late split completes
    obtain ⟨u, capture⟩ := run_completesCapture representable.framed garbage chunks split completes
    rw [capture.target, safeEnd_iff (target_aligned capture.mode _), representable.target,
      announcedBytes, capture.word]
    omega
  constructor
  · intro safe early t late split completes
    exact (each early t late split completes).mp (safe t (by simp [split]) completes)
  · intro condition t member completes
    obtain ⟨early, late, split⟩ := List.append_of_mem member
    exact (each early t late split completes).mpr (condition early t late split completes)

/-- The smallest length: the most negative sample and then zeros. -/
theorem exists_smallest_length (representable : cfg.Representable) (garbage : Uninitialised) :
    ∃ stream, ∃ t ∈ (run cfg garbage [stream]).history, CompletesLength t ∧
      (computedTarget t).toInt =
        8 * (cfg.pktLenOffset.toInt + 1 + cfg.pktLenAdj.toInt - 2 ^ 14) := by
  obtain ⟨stream, -, early, t, split, completes, last⟩ :=
    @exists_length_byte cfg representable.framed representable.mode garbage
      [-128, 0, 0, 0, 0, 0, 0, 0] rfl
  obtain ⟨u, capture⟩ :=
    run_completesCapture representable.framed garbage [stream] split completes
  refine ⟨stream, t, by simp [split], completes, ?_⟩
  rw [capture.target, representable.target, announcedBytes, capture.word, last,
    show (shiftInAll 0 [-128, 0, 0, 0, 0, 0, 0, 0]).toInt = -2 ^ 14 by decide]
  omega

/-- Received data and the end of a packet. A run is safe when every completed length byte counts
at least no bytes, and the runs of a block are all safe when even the smallest length does. -/
theorem ends_safe (representable : cfg.Representable) :
    (∀ garbage chunks, EndsSafe (run cfg garbage chunks).history ↔
      ∀ early t late, (run cfg garbage chunks).history = early ++ t :: late → CompletesLength t →
        0 ≤ cfg.pktLenOffset.toInt + 1 + cfg.pktLenAdj.toInt +
          (shiftInAll 0 (((early ++ [t]).map Transition.input).rtake 8)).toInt) ∧
    ((∀ garbage chunks, EndsSafe (run cfg garbage chunks).history) ↔
      2 ^ 14 ≤ cfg.pktLenOffset.toInt + 1 + cfg.pktLenAdj.toInt) := by
  refine ⟨endsSafe_iff representable, fun safe => ?_, fun large garbage chunks => ?_⟩
  · obtain ⟨stream, t, member, completes, value⟩ :=
      exists_smallest_length representable ⟨0, 0, false⟩
    have sign := (safe ⟨0, 0, false⟩ [stream] t member completes).nonnegative
    omega
  · rw [endsSafe_iff representable]
    intro early t late _ _
    obtain ⟨below, -⟩ : FitsSigned 14
        (shiftInAll 0 (((early ++ [t]).map Transition.input).rtake 8)).toInt :=
      (shiftInAll_range _ (by rw [List.rtake, List.length_drop]; omega)).mono
        (by rw [List.rtake, List.length_drop]; omega)
    omega

/-- The length byte comes right behind the sync word, and nothing is added to it. -/
def lengthFirst : Config := ⟨"", [1, 0], false, 0, -1, 0, 0, true⟩

/-- A length byte that starts with a negative sample has a negative end. -/
theorem lengthFirst_not_safe :
    ¬ EndsSafe (run lengthFirst ⟨0, 0, false⟩ [[1, 0, -128, 0, 0, 0, 0, 0, 0, 0]]).history := by
  intro safe
  have last := (safe ((run lengthFirst ⟨0, 0, false⟩
    [[1, 0, -128, 0, 0, 0, 0, 0, 0, 0]]).history.getLast (by decide)) (List.getLast_mem _)
    (by decide)).nonnegative
  revert last
  decide

/-- An adjustment that makes up for the smallest length, and one that does not. -/
theorem ends_safe_lengthFirst :
    (∀ garbage chunks,
      EndsSafe (run { lengthFirst with pktLenAdj := 16383 } garbage chunks).history) ∧
    ¬ ∀ garbage chunks, EndsSafe (run lengthFirst garbage chunks).history := by
  have large := (@ends_safe { lengthFirst with pktLenAdj := 16383 }
    ⟨rfl, by decide, by decide, by decide⟩).2
  have none := (@ends_safe lengthFirst ⟨rfl, by decide, by decide, by decide⟩).2
  exact ⟨large.mpr (by decide), fun safe => by have bound := none.mp safe; revert bound; decide⟩

end GrReveng.PacketDeframer
