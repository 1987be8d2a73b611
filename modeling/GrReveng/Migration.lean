import GrReveng.PacketDeframer.Announced
import GrReveng.PatternDump.Scan

/-!
# From the deprecated block to its replacement

`pattern_dump` clears its search queue behind a dump, the deframer keeps the old sync word. In
fixed length mode and unpacked, the deframer of a sync word that does not overlap itself is the
same leftmost non-overlapping scan. For a word that does, a stream tells the blocks apart: the
deframer publishes a packet where too few samples are left for a second dump.
-/

namespace GrReveng.Migration

open Reactive PacketDeframer

variable {cfg : PacketDeframer.Config}

/-- The deprecated block for the same word and length. -/
def deprecated (cfg : PacketDeframer.Config) : PatternDump.Config :=
  ⟨cfg.sync, cfg.pktLen.toInt.toNat⟩

/-- Unpacked data are the samples of the packet. -/
theorem map_toInt8_payload (unpacked : cfg.packBytes = false) (u : List Int8) :
    (payload cfg u).map UInt8.toInt8 = u := by
  simp [payload, unpacked, Function.comp_def]

/-- Fewer samples than the fixed packet length leave a capture open. -/
theorem open_fixed (mode : cfg.fixedLen = true) {u : List Int8}
    (short : (u.length : Int) < cfg.pktLen.toInt) : Open cfg u := by
  refine fun _ => ⟨?_, fun refused => by have := refused.1; simp [mode] at this⟩
  simpa only [target, mode, ↓reduceIte] using short

section Scan

variable (mode : cfg.fixedLen = true) (positive : 1 ≤ cfg.pktLen.toInt)
include mode positive

/-- A positive fixed length frames a capture. -/
theorem framed_fixed : cfg.Framed where
  fixed := fun _ => positive
  offset := fun other => by simp [mode] at other

/-- A search of the deframer, from the start or behind a packet. -/
structure Searching (s : cfg.State) : Prop where
  /-- There is no capture. -/
  inSync : s.inSync = false
  /-- The length is that of the argument. -/
  pktLen : s.pktLen = cfg.pktLen
  /-- The register is empty, or full of the word found last. -/
  register : s.search = ShiftRegister.empty ∨ s.search = ShiftRegister.ofWord cfg.sync

/-- The deframer of a word that does not overlap itself is a scanner. -/
theorem scanner (free : ¬ HasBorder cfg.sync) :
    Scanner (react cfg) cfg.sync cfg.pktLen.toInt.toNat (payload cfg) Searching
      (captured cfg []) where
  quiet := by
    intro s xs searching quiet
    have here : s.search.Quiet xs := by
      cases searching.register with
      | inl fresh => rwa [fresh]
      | inr old => rw [old]; exact quiet.ofWord free
    exact (work_quiet searching.inSync here).2.1
  finds := by
    intro s xs searching finds
    have here : s.search.Finds xs := by
      cases searching.register with
      | inl fresh => rwa [fresh]
      | inr old => rw [old]; exact finds.ofWord free
    have started := work_finds (framed_fixed mode positive) searching.inSync
      (fun _ => searching.pktLen) here
    exact ⟨started.1, started.2.1⟩
  complete := by
    intro xs count
    have packet := work_complete (framed_fixed mode positive)
      (complete_fixed mode (List.length_pos_iff.mp (by omega)) (by omega) : Complete cfg xs)
    exact ⟨finished cfg xs, ⟨rfl, captured_pktLen mode xs, .inr rfl⟩, packet.1, packet.2.1⟩
  short := by
    intro xs short
    have opened : ∀ front back, xs = front ++ back → Open cfg ([] ++ front) := by
      intro front back split
      have parts := congrArg List.length split
      rw [List.length_append] at parts
      exact open_fixed mode (by rw [List.nil_append]; omega)
    exact (work_open (framed_fixed mode positive) opened).2

/-- On every stream the deframer of a word that does not overlap itself publishes the scan. -/
theorem deframer_scan (nonempty : cfg.sync ≠ []) (free : ¬ HasBorder cfg.sync)
    (garbage : Uninitialised) (chunks : List (List Int8)) :
    published cfg garbage chunks =
      (scan cfg.sync cfg.pktLen.toInt.toNat chunks.flatten).map (payload cfg) := by
  have start : Searching (make cfg garbage) := ⟨rfl, rfl, .inl rfl⟩
  rw [published, run, feed_eq_work]
  exact (scanner mode positive free).work_scanFrom nonempty (by omega) start chunks.flatten 0

/-- Two packets of zeros with only the end of the word between them: the deframer publishes both,
and the stream is too short for two dumps behind a whole word each. -/
theorem exists_second_packet (nonempty : cfg.sync ≠ []) (binary : ∀ x ∈ cfg.sync, Binary x)
    (border : HasBorder cfg.sync) (garbage : Uninitialised) :
    ∃ stream : List Int8, (∀ x ∈ stream, Binary x) ∧
      2 ≤ (published cfg garbage [stream]).length ∧
      stream.length < 2 * (cfg.sync.length + cfg.pktLen.toInt.toNat) := by
  have framed := framed_fixed mode positive
  obtain ⟨k, front, back, below, split, short, finds⟩ :=
    ShiftRegister.exists_finds_of_border border
  let zeros : List Int8 := List.replicate cfg.pktLen.toInt.toNat 0
  have count : zeros.length = cfg.pktLen.toInt.toNat := List.length_replicate
  let rest : List Int8 := back ++ zeros
  have second : (rest.take cfg.pktLen.toInt.toNat).length = cfg.pktLen.toInt.toNat := by
    rw [List.length_take, List.length_append]
    omega
  have complete : ∀ {u : List Int8}, u.length = cfg.pktLen.toInt.toNat → Complete cfg u :=
    fun {u} length => complete_fixed mode (List.length_pos_iff.mp (by omega)) (by omega)
  obtain ⟨sync, -, -⟩ := @work_finds cfg framed (make cfg garbage) cfg.sync rfl (fun _ => rfl)
    (ShiftRegister.finds_word nonempty)
  obtain ⟨packet, one, -⟩ := work_complete framed (complete count)
  obtain ⟨again, -, -⟩ := @work_finds cfg framed (finished cfg zeros) front rfl
    (fun mode => captured_pktLen mode _) finds
  obtain ⟨done, two, -⟩ := work_complete framed (complete second)
  have ending : (cfg.sync.drop (cfg.sync.length - k)).length = k := by
    rw [List.length_drop]
    omega
  refine ⟨cfg.sync ++ (zeros ++ (front ++ rest)), ?_, ?_, ?_⟩
  · have zero : ∀ x ∈ zeros, Binary x := fun x member => .inl (List.eq_of_mem_replicate member)
    have inside : ∀ x ∈ front ++ back, Binary x := by
      intro x member
      rw [← split] at member
      exact binary x (List.mem_of_mem_drop member)
    intro x member
    simp only [rest, List.mem_append] at member inside
    rcases member with old | first | fresh | more | last
    · exact binary x old
    · exact zero x first
    · exact inside x (.inl fresh)
    · exact inside x (.inr more)
    · exact zero x last
  · rw [published, run, feed_eq_work, List.flatten_singleton,
      work_append_published (react cfg) _ sync, work_append_published (react cfg) _ packet,
      work_append_published (react cfg) _ again, one,
      ← List.take_append_drop cfg.pktLen.toInt.toNat rest,
      work_append_published (react cfg) _ done, two]
    simp only [List.length_append, List.length_singleton]
    omega
  · have parts := congrArg List.length split
    simp only [rest, List.length_append, count, ending] at parts ⊢
    omega

/-- The deprecated block and its replacement publish the same samples on every stream, as a text
and as bytes, exactly when the word does not overlap itself. -/
theorem migration_agrees_iff (unpacked : cfg.packBytes = false) (nonempty : cfg.sync ≠ [])
    (binary : ∀ x ∈ cfg.sync, Binary x) :
    (∀ garbage chunks,
      (PatternDump.published (deprecated cfg) chunks).map PatternDump.samplesOf =
        (published cfg garbage (chunks.map fun chunk => chunk.map bitSample)).map
          fun data => some (data.map UInt8.toInt8)) ↔
    ¬ HasBorder cfg.sync := by
  have scanned : ∀ chunks,
      (PatternDump.published (deprecated cfg) chunks).map PatternDump.samplesOf =
        (scan cfg.sync cfg.pktLen.toInt.toNat (chunks.flatten.map bitSample)).map some := by
    intro chunks
    rw [PatternDump.published, PatternDump.run, feed_eq_work, ← List.map_flatten]
    exact @PatternDump.work_samplesOf (deprecated cfg) nonempty
      (show 0 < cfg.pktLen.toInt.toNat by omega) chunks.flatten
  constructor
  · intro agree border
    obtain ⟨stream, bits, two, short⟩ :=
      exists_second_packet mode positive nonempty binary border ⟨0, 0, false⟩
    have samples := map_bitSample_lsb bits
    have same := congrArg List.length (agree ⟨0, 0, false⟩ [stream.map lsb])
    rw [scanned, List.length_map, List.length_map, List.map_singleton, samples,
      List.flatten_singleton, samples] at same
    have used := @length_scanFrom Int8 _ cfg.pktLen.toInt.toNat cfg.sync stream (by omega) 0
    have many := Nat.mul_le_mul_right (cfg.sync.length + cfg.pktLen.toInt.toNat) two
    rw [← same] at many
    rw [scan] at many
    omega
  · intro free garbage chunks
    rw [scanned, deframer_scan mode positive nonempty free, List.map_map, ← List.map_flatten]
    exact List.map_congr_left fun u _ => (congrArg some (map_toInt8_payload unpacked u)).symm

end Scan

/-- Packets of four samples, unpacked, behind a given word. -/
def fourBehind (sync : List Int8) : PacketDeframer.Config := ⟨"", sync, true, 4, -1, 0, 0, false⟩

/-- A word of two ones and a zero can be migrated: both blocks publish the packet in the stream. A
word of two ones can not: with a one behind the first packet the deframer publishes a second one. -/
theorem migration_examples :
    ((∀ garbage chunks,
      (PatternDump.published (deprecated (fourBehind [1, 1, 0])) chunks).map
          PatternDump.samplesOf =
        (published (fourBehind [1, 1, 0]) garbage
          (chunks.map fun chunk => chunk.map bitSample)).map
            fun data => some (data.map UInt8.toInt8)) ∧
      PatternDump.published (deprecated (fourBehind [1, 1, 0]))
        [[true, true, false], [true, false, true, true]] = ["1011"] ∧
      published (fourBehind [1, 1, 0]) ⟨0, 0, false⟩ [[1, 1, 0], [1, 0, 1, 1]] = [[1, 0, 1, 1]]) ∧
    (¬ ∀ garbage chunks,
      (PatternDump.published (deprecated (fourBehind [1, 1])) chunks).map PatternDump.samplesOf =
        (published (fourBehind [1, 1]) garbage (chunks.map fun chunk => chunk.map bitSample)).map
          fun data => some (data.map UInt8.toInt8)) ∧
      PatternDump.published (deprecated (fourBehind [1, 1]))
        [[true, true, false, true, false, false], [true, false, true, true, false]] = ["0100"] ∧
      published (fourBehind [1, 1]) ⟨0, 0, false⟩ [[1, 1, 0, 1, 0, 0], [1, 0, 1, 1, 0]] =
        [[0, 1, 0, 0], [0, 1, 1, 0]] := by
  have free := @migration_agrees_iff (fourBehind [1, 1, 0]) rfl (by decide) rfl (by decide)
    (binary_of_all rfl)
  have bordered := @migration_agrees_iff (fourBehind [1, 1]) rfl (by decide) rfl (by decide)
    (binary_of_all rfl)
  exact ⟨⟨free.mpr (by decide), by decide, by decide⟩,
    fun agree => bordered.mp agree (by decide), by decide, by decide⟩

end GrReveng.Migration
