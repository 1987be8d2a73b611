import GrReveng.PacketDeframer.LengthByte

/-!
# The maximum length

A refused length byte clears `d_in_sync`, but the rest of `add_symbol` and the test at the end of
the iteration run as for any other length. So the capture is dropped only when the computed end
lies ahead: the length byte and the adjustment must count at least one byte together. Otherwise
the bits received so far, the length byte included, are published at once.
-/

namespace GrReveng.PacketDeframer

open Reactive

variable {cfg : Config}

/-- The arguments of variable length mode with a maximum, for which the products of the length
computation stay inside `int`. -/
structure Config.Limited (cfg : Config) : Prop where
  /-- Variable length mode. -/
  mode : cfg.fixedLen = false
  /-- The maximum is checked. -/
  maximum : 0 < cfg.maxLen
  /-- The length byte has a position. -/
  offset : 0 ≤ cfg.pktLenOffset.toInt ∧ 8 * cfg.pktLenOffset.toInt + 8 < 2 ^ 31
  /-- The adjustment has a number of bits. -/
  adjustment : -(2 : Int) ^ 31 ≤ 8 * cfg.pktLenAdj.toInt ∧ 8 * cfg.pktLenAdj.toInt < 2 ^ 31

/-- Limited arguments frame a capture. -/
theorem Config.Limited.framed (limited : cfg.Limited) : cfg.Framed where
  fixed := fun mode => by simp [limited.mode] at mode
  offset := fun _ => limited.offset

/-- The transition completes a length byte above the maximum, and the end that it computes is a
length. -/
def RefusesLength (t : cfg.Transition) : Prop :=
  CompletesLength t ∧ cfg.Refuses (computedLength t) ∧ 0 ≤ (computedTarget t).toInt

instance (t : cfg.Transition) : Decidable (RefusesLength t) :=
  inferInstanceAs (Decidable (_ ∧ _ ∧ _))

/-- The transition publishes nothing, and the sample behind it is searched. -/
def DropsCapture (t : cfg.Transition) : Prop :=
  t.emitted = [] ∧ ∃ next, t.after = .ok next ∧ next.inSync = false

/-- Every capture with a refused length byte is dropped with this byte. -/
def HardFilter (history : List cfg.Transition) : Prop :=
  ∀ t ∈ history, RefusesLength t → DropsCapture t

/-- The byte that the last eight samples are. -/
def lastByte (past : List cfg.Transition) : Nat :=
  msbValue (((past.map Transition.input).rtake 8).map lsb)

/-- A length byte that exceeds the maximum announces a further byte, and not so many that the
sum wraps around. A sum below zero is no length. -/
def Config.AnnouncesMore (cfg : Config) (length : Nat) : Prop :=
  cfg.maxLen.toInt < length → 0 ≤ cfg.pktLenOffset.toInt + 1 + length + cfg.pktLenAdj.toInt →
    0 < length + cfg.pktLenAdj.toInt ∧
      cfg.pktLenOffset.toInt + 1 + length + cfg.pktLenAdj.toInt < 2 ^ 29

/-- The last byte is a byte. -/
theorem lastByte_lt (past : List cfg.Transition) : lastByte past < 256 := by
  have bits : (((past.map Transition.input).rtake 8).map lsb).length ≤ 8 := by
    rw [List.length_map, List.rtake, List.length_drop]
    omega
  exact Nat.lt_of_lt_of_le (msbValue_lt _) (Nat.pow_le_pow_right (by decide) bits)

/-- A refused capture is dropped exactly when the computed end lies ahead. -/
theorem dropsCapture_iff (framed : cfg.Framed) {past : List cfg.Transition} {t : cfg.Transition}
    {u : List Int8} (capture : CompletesCapture past t u) (refuses : RefusesLength t) :
    DropsCapture t ↔ (cfg.headerBits : Int) < (computedTarget t).toInt := by
  have refused := refuses.2.1
  have sign := refuses.2.2
  have last := capture.last
  have long : (u ++ [t.input]).length = cfg.headerBits := by simpa using last
  rw [capture.length] at refused
  rw [capture.target] at sign ⊢
  rw [capture.step]
  have input : (transition (react cfg) (captured cfg u) t.input).input = t.input := rfl
  rw [input]
  by_cases further : (cfg.headerBits : Int) < (target cfg (u ++ [t.input])).toInt
  · have step := react_captured_refused framed capture.opened
      ⟨capture.mode, by omega, refused⟩ (by omega)
    refine ⟨fun _ => further, fun _ => ?_⟩
    rw [DropsCapture, transition, step]
    exact ⟨rfl, finished cfg (u ++ [t.input]), rfl, rfl⟩
  · have step := react_captured_end framed capture.opened (.inr (by omega)) sign (by omega)
    refine ⟨fun drops => ?_, fun ahead => absurd ahead further⟩
    rw [DropsCapture, transition, step] at drops
    have none := drops.1
    contradiction

/-- The computed end is the number of bits announced by the last byte, wrapped around. -/
theorem computedTarget_lastByte (framed : cfg.Framed) {past : List cfg.Transition}
    {t : cfg.Transition} {u : List Int8} (capture : CompletesCapture past t u)
    (binary : ∀ p ∈ past ++ [t], Binary p.input) :
    (computedLength t).toInt = lastByte (past ++ [t]) ∧
      (computedTarget t).toInt = (8 * (cfg.pktLenOffset.toInt + 1 + lastByte (past ++ [t]) +
        cfg.pktLenAdj.toInt)).bmod (2 ^ 32) := by
  have value : (lengthWord cfg (u ++ [t.input])).toInt = lastByte (past ++ [t]) := by
    rw [capture.word, lastByte]
    apply shiftInAll_binary
    · intro x member
      obtain ⟨p, inside, rfl⟩ := List.mem_map.mp (List.mem_of_mem_drop member)
      exact binary p inside
    · rw [List.rtake, List.length_drop]
      omega
  constructor
  · rw [capture.length, value]
  · rw [capture.target, target_bmod framed capture.mode, announcedBytes, value]

/-- A completed length byte is filtered exactly when it announces more or is not refused. -/
theorem filtered_iff (limited : cfg.Limited) {past : List cfg.Transition} {t : cfg.Transition}
    {u : List Int8} (completes : CompletesLength t) (capture : CompletesCapture past t u)
    (binary : ∀ p ∈ past ++ [t], Binary p.input) :
    (RefusesLength t → DropsCapture t) ↔ cfg.AnnouncesMore (lastByte (past ++ [t])) := by
  have computed := computedTarget_lastByte limited.framed capture binary
  have refuses : cfg.Refuses (computedLength t) ↔ cfg.maxLen.toInt < lastByte (past ++ [t]) := by
    rw [Config.Refuses, and_iff_right limited.maximum, Int32.lt_iff_toInt_lt, computed.1]
  have small := lastByte_lt (past ++ [t])
  have header : (cfg.headerBits : Int) = 8 * cfg.pktLenOffset.toInt + 8 := by
    have offset := limited.offset.1
    rw [Config.headerBits, Config.offsetBits]
    omega
  have place := limited.offset
  have products := limited.adjustment
  have low := (computedTarget t).le_toInt
  have high := (computedTarget t).toInt_lt
  have wraps : (computedTarget t).toInt % (2 ^ 32 : Nat) = (8 * (cfg.pktLenOffset.toInt + 1 +
      lastByte (past ++ [t]) + cfg.pktLenAdj.toInt)) % (2 ^ 32 : Nat) := by
    rw [computed.2, Int.bmod_emod]
  constructor
  · intro filtered excess enough
    by_cases wide : cfg.pktLenOffset.toInt + 1 + lastByte (past ++ [t]) + cfg.pktLenAdj.toInt <
        2 ^ 29
    · by_cases sign : 0 ≤ (computedTarget t).toInt
      · have refused : RefusesLength t := ⟨completes, refuses.mpr excess, sign⟩
        have further := (dropsCapture_iff limited.framed capture refused).mp (filtered refused)
        omega
      · omega
    · have sign : 0 ≤ (computedTarget t).toInt := by omega
      have refused : RefusesLength t := ⟨completes, refuses.mpr excess, sign⟩
      have further := (dropsCapture_iff limited.framed capture refused).mp (filtered refused)
      omega
  · intro more refused
    apply (dropsCapture_iff limited.framed capture refused).mpr
    have excess := refuses.mp refused.2.1
    have sign := refused.2.2
    have announced := more excess
    omega

/-- In every run on binary samples the filter is hard exactly when every completed length byte
that exceeds the maximum announces more. -/
theorem hardFilter_iff (limited : cfg.Limited) (garbage : Uninitialised)
    {chunks : List (List Int8)} (binary : ∀ x ∈ chunks.flatten, Binary x) :
    HardFilter (run cfg garbage chunks).history ↔
      ∀ early t late, (run cfg garbage chunks).history = early ++ t :: late → CompletesLength t →
        cfg.AnnouncesMore (lastByte (early ++ [t])) := by
  have inputs : ∀ early t late, (run cfg garbage chunks).history = early ++ t :: late →
      ∀ p ∈ early ++ [t], Binary p.input := by
    intro early t late split p member
    apply binary
    rw [run, feed_eq_work] at split
    have present : p ∈ (work (react cfg) (make cfg garbage) chunks.flatten).history := by
      rw [split]
      cases List.mem_append.mp member with
      | inl before => exact List.mem_append_left _ before
      | inr same =>
        rw [List.mem_singleton.mp same]
        exact List.mem_append_right _ List.mem_cons_self
    exact (work_steps (react cfg) present).2
  constructor
  · intro filter early t late split completes
    obtain ⟨u, capture⟩ := run_completesCapture limited.framed garbage chunks split completes
    apply (filtered_iff limited completes capture (inputs early t late split)).mp
    exact filter t (by simp [split])
  · intro condition t member refused
    obtain ⟨early, late, split⟩ := List.append_of_mem member
    obtain ⟨u, capture⟩ := run_completesCapture limited.framed garbage chunks split refused.1
    exact (filtered_iff limited refused.1 capture (inputs early t late split)).mpr
      (condition early t late split refused.1) refused

/-- The maximum length. A run on binary samples filters hard when its refused length bytes
announce more, and the runs of a block all do when every byte above the maximum would. -/
theorem max_length (limited : cfg.Limited) :
    (∀ garbage chunks, (∀ x ∈ chunks.flatten, Binary x) →
      (HardFilter (run cfg garbage chunks).history ↔
        ∀ early t late, (run cfg garbage chunks).history = early ++ t :: late →
          CompletesLength t → cfg.AnnouncesMore (lastByte (early ++ [t])))) ∧
    ((∀ garbage chunks, (∀ x ∈ chunks.flatten, Binary x) →
      HardFilter (run cfg garbage chunks).history) ↔
        ((∀ x ∈ cfg.sync, Binary x) → ∀ length < 256, cfg.AnnouncesMore length)) := by
  refine ⟨fun garbage chunks binary => hardFilter_iff limited garbage binary, ?_, ?_⟩
  · intro filters sync length byte
    have bits := binary_map_bitSample (msbBits 8 length)
    obtain ⟨stream, binary, early, t, split, completes, last⟩ :=
      @exists_length_byte cfg limited.framed limited.mode ⟨0, 0, false⟩
        ((msbBits 8 length).map bitSample) (by simp)
    have inputs : ∀ x ∈ [stream].flatten, Binary x := by simpa using binary sync bits
    have value : lastByte (early ++ [t]) = length := by
      rw [lastByte, last, List.map_map,
        show lsb ∘ bitSample = id from funext lsb_bitSample, List.map_id, msbValue_msbBits]
      exact Nat.mod_eq_of_lt byte
    have filter := filters ⟨0, 0, false⟩ [stream] inputs
    rw [← value]
    exact (hardFilter_iff limited ⟨0, 0, false⟩ inputs).mp filter early t [] split completes
  · intro bytes garbage chunks binary
    by_cases sync : ∀ x ∈ cfg.sync, Binary x
    · rw [hardFilter_iff limited garbage binary]
      intro early t late _ _
      exact bytes sync _ (lastByte_lt _)
    · -- Without its sync word the block never captures.
      have foreign : ∃ x ∈ cfg.sync, ¬Binary x := by simpa using sync
      obtain ⟨x, member, other⟩ := foreign
      intro t present refused
      have searching := (searching_foreign member other garbage binary t present).1
      have capturing := refused.1.1
      rw [searching] at capturing
      contradiction

/-- One byte in front of the length byte, which counts itself and the byte in front of it too. No
length byte has a negative end. -/
def wholeLength : Config := ⟨"", [1, 0], false, 0, 1, 1, -2, true⟩

/-- A header whose length byte is two. -/
def headerOfTwo : List Int8 := [1, 0, 0, 0, 0, 0, 0, 0, 0, 0, 0, 0, 0, 0, 0, 0, 1, 0]

/-- The header of two bytes is published although its length byte exceeds the maximum of one. -/
theorem wholeLength_not_filtered :
    published wholeLength ⟨0, 0, false⟩ [headerOfTwo] = [[0, 2]] ∧
      ¬ HardFilter (run wholeLength ⟨0, 0, false⟩ [headerOfTwo]).history := by
  refine ⟨by decide, fun filter => ?_⟩
  have last := (filter ((run wholeLength ⟨0, 0, false⟩ [headerOfTwo]).history.getLast (by decide))
    (List.getLast_mem _) (by decide)).1
  revert last
  decide

/-- Without the adjustment every length byte above the maximum is filtered, and with it not. -/
theorem max_length_wholeLength :
    (∀ garbage chunks, (∀ x ∈ chunks.flatten, Binary x) →
      HardFilter (run { wholeLength with pktLenAdj := 0 } garbage chunks).history) ∧
    ¬ ∀ garbage chunks, (∀ x ∈ chunks.flatten, Binary x) →
      HardFilter (run wholeLength garbage chunks).history := by
  have plain := (@max_length { wholeLength with pktLenAdj := 0 }
    ⟨rfl, by decide, by decide, by decide⟩).2
  have shortened := (@max_length wholeLength ⟨rfl, by decide, by decide, by decide⟩).2
  constructor
  · apply plain.mpr
    intro _ length byte excess _
    change (1 : Int) < length at excess
    constructor
    · change 0 < (length : Int) + 0
      omega
    · change (1 : Int) + 1 + length + 0 < 2 ^ 29
      omega
  · intro filters
    have more := shortened.mp filters (binary_of_all rfl) 2 (by decide) (by decide) (by decide)
    revert more
    decide

end GrReveng.PacketDeframer
