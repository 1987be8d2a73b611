import GrReveng.PatternDump.Block
import GrReveng.Library.Scan

/-!
# The pattern dump block is a scan

The mode of the block is not stored: it dumps while the search queue equals the pattern. The two
kinds of stretches are computed here, a search and a dump, and a run over any stream is the
leftmost non-overlapping scan of the stream for the pattern.
-/

namespace GrReveng.PatternDump

open Reactive

variable {cfg : Config}

/-- The queue built by the constructor holds the pattern. -/
@[simp] theorem patternRegister_eq (cfg : Config) :
    cfg.patternRegister = ShiftRegister.ofWord cfg.pattern :=
  ShiftRegister.pushAll_empty_word cfg.pattern

/-- While the queue differs from the pattern a sample is pushed onto it. -/
theorem react_search {s : cfg.State} (bit : Int8)
    (searching : s.patternCheck ≠ ShiftRegister.ofWord cfg.pattern) :
    react cfg s bit = ⟨[], .ok { s with patternCheck := s.patternCheck.push bit }⟩ := by
  simp [react, searching]

/-- The state in which the pattern has been found and a part of the dump is there. -/
def dumping (cfg : Config) (output : ShiftRegister Int8 cfg.dumpLen) : cfg.State :=
  ⟨ShiftRegister.ofWord cfg.pattern, output⟩

/-- A search that does not meet the pattern only fills the queue. -/
theorem work_quiet {s : cfg.State} {xs : List Int8}
    (searching : s.patternCheck ≠ ShiftRegister.ofWord cfg.pattern)
    (quiet : s.patternCheck.Quiet xs) :
    (work (react cfg) s xs).final =
        .ok { s with patternCheck := s.patternCheck.pushAll xs } ∧
      (work (react cfg) s xs).published = [] := by
  induction xs generalizing s with
  | nil => exact ⟨rfl, rfl⟩
  | cons x xs ih =>
    have missed := ShiftRegister.quiet_cons.mp quiet
    have first := work_cons (react cfg) xs (react_search x searching)
    have rest := ih (s := { s with patternCheck := s.patternCheck.push x }) missed.1 missed.2
    rw [first.1, first.2.1]
    exact rest

/-- A search that meets the pattern with its last sample starts a dump. -/
theorem work_finds {s : cfg.State} {xs : List Int8}
    (searching : s.patternCheck ≠ ShiftRegister.ofWord cfg.pattern)
    (finds : s.patternCheck.Finds xs) :
    (work (react cfg) s xs).final = .ok (dumping cfg s.output) ∧
      (work (react cfg) s xs).published = [] := by
  have before : s.patternCheck.pushAll xs.dropLast ≠ ShiftRegister.ofWord cfg.pattern := by
    by_cases empty : xs.dropLast = []
    · rwa [empty]
    · exact finds.quiet xs.dropLast [] (by simp) empty
  have step := react_search (s := { s with patternCheck := s.patternCheck.pushAll xs.dropLast })
    (xs.getLast finds.nonempty) before
  dsimp only at step
  rw [finds.push_last] at step
  have last := work_last (react cfg) finds.nonempty (work_quiet searching finds.quiet) step
  exact ⟨last.1, last.2.1⟩

/-- One sample of a dump. -/
theorem react_dump {output : ShiftRegister Int8 cfg.dumpLen} (bit : Int8)
    (room : output.items.length < cfg.dumpLen) :
    react cfg (dumping cfg output) bit =
      if output.items.length + 1 = cfg.dumpLen then
        ⟨[dumpText (output.items ++ [bit])], .ok (make cfg)⟩
      else ⟨[], .ok (dumping cfg (output.push bit))⟩ := by
  have items : (output.push bit).items = output.items ++ [bit] := by
    simp [ShiftRegister.push, room]
  simp only [react, dumping, patternRegister_eq, ↓reduceIte, items, List.length_append,
    List.length_singleton]
  rfl

/-- Samples that do not complete a dump are put onto it. -/
theorem work_dump {output : ShiftRegister Int8 cfg.dumpLen} {xs : List Int8}
    (short : output.items.length + xs.length < cfg.dumpLen) :
    (work (react cfg) (dumping cfg output) xs).final = .ok (dumping cfg (output.pushAll xs)) ∧
      (work (react cfg) (dumping cfg output) xs).published = [] := by
  induction xs generalizing output with
  | nil => exact ⟨rfl, rfl⟩
  | cons x xs ih =>
    rw [List.length_cons] at short
    have step := @react_dump cfg output x (by omega)
    rw [if_neg (by omega)] at step
    have items : (output.push x).items = output.items ++ [x] := by
      simp [ShiftRegister.push, show output.items.length < cfg.dumpLen by omega]
    have first := work_cons (react cfg) xs step
    have rest := @ih (output.push x)
      (by rw [items, List.length_append, List.length_singleton]; omega)
    rw [first.1, first.2.1]
    exact rest

/-- The samples of a dump are published with the last of them, and the block is fresh again. -/
theorem work_dump_complete {xs : List Int8} (positive : 0 < cfg.dumpLen)
    (complete : xs.length = cfg.dumpLen) :
    (work (react cfg) (dumping cfg ShiftRegister.empty) xs).final = .ok (make cfg) ∧
      (work (react cfg) (dumping cfg ShiftRegister.empty) xs).published = [dumpText xs] := by
  have nonempty : xs ≠ [] := List.length_pos_iff.mp (by omega)
  have whole := List.dropLast_append_getLast nonempty
  have front : xs.dropLast.length = cfg.dumpLen - 1 := by rw [List.length_dropLast, complete]
  have nothing : (ShiftRegister.empty : ShiftRegister Int8 cfg.dumpLen).items.length = 0 := rfl
  have before := @work_dump cfg ShiftRegister.empty xs.dropLast (by omega)
  have items : ((ShiftRegister.empty : ShiftRegister Int8 cfg.dumpLen).pushAll xs.dropLast).items =
      xs.dropLast := by
    rw [ShiftRegister.items_pushAll, List.rtake]
    change List.drop (xs.dropLast.length - cfg.dumpLen) xs.dropLast = _
    rw [show xs.dropLast.length - cfg.dumpLen = 0 by omega, List.drop_zero]
  have step := react_dump (xs.getLast nonempty)
    (show ((ShiftRegister.empty : ShiftRegister Int8 cfg.dumpLen).pushAll
      xs.dropLast).items.length < cfg.dumpLen by rw [items]; omega)
  rw [items, if_pos (by omega), whole] at step
  have last := work_last (react cfg) nonempty before step
  exact ⟨last.1, last.2.1⟩

/-- A fresh block searches. -/
theorem make_searching (nonempty : cfg.pattern ≠ []) :
    (make cfg).patternCheck ≠ ShiftRegister.ofWord cfg.pattern := fun same =>
  nonempty (congrArg ShiftRegister.items same).symm

/-- The block is a scanner that begins every search fresh. -/
theorem scanner (nonempty : cfg.pattern ≠ []) (positive : 0 < cfg.dumpLen) :
    Scanner (react cfg) cfg.pattern cfg.dumpLen dumpText (· = make cfg)
      (dumping cfg ShiftRegister.empty) where
  quiet := by
    rintro s xs rfl quiet
    exact (work_quiet (make_searching nonempty) quiet).2
  finds := by
    rintro s xs rfl finds
    exact work_finds (make_searching nonempty) finds
  complete := fun xs complete => ⟨make cfg, rfl, work_dump_complete positive complete⟩
  short := by
    intro xs short
    have nothing : (ShiftRegister.empty : ShiftRegister Int8 cfg.dumpLen).items.length = 0 := rfl
    exact (work_dump (by omega)).2

/-- From any position the fresh block publishes the scan from there. -/
theorem work_scanFrom (nonempty : cfg.pattern ≠ []) (positive : 0 < cfg.dumpLen)
    (text : List Int8) (start : Nat) :
    (work (react cfg) (make cfg) (text.drop start)).published =
      (scanFrom cfg.pattern text cfg.dumpLen start).map dumpText :=
  (scanner nonempty positive).work_scanFrom nonempty positive rfl text start

/-- The sample that a character of a published text stands for. -/
def sampleOf (c : Char) : Option Int8 :=
  if c = '0' then some 0 else if c = '1' then some 1 else none

/-- The samples that a published text stands for. -/
def samplesOf (text : String) : Option (List Int8) := text.toList.mapM sampleOf

/-- The samples that are one, as ones, and the others as zeros. -/
def onesOf (output : List Int8) : List Int8 := output.map fun x => if x = 1 then 1 else 0

/-- The text of a dump has a one for each sample that is one, and zeros for the others. -/
theorem samplesOf_dumpText (output : List Int8) :
    samplesOf (dumpText output) = some (onesOf output) := by
  rw [samplesOf, dumpText, String.toList_ofList, onesOf]
  induction output with
  | nil => rfl
  | cons x output ih =>
    have first : sampleOf (if x = 1 then '1' else '0') = some (if x = 1 then 1 else 0) := by
      split <;> rfl
    rw [List.map_cons, List.mapM_cons, first, ih]
    rfl

/-- The text of bits stands for the bits. -/
theorem samplesOf_dumpText_binary {output : List Int8} (binary : ∀ x ∈ output, Binary x) :
    samplesOf (dumpText output) = some output := by
  have same : onesOf output = output.map id := by
    apply List.map_congr_left
    intro x member
    cases binary x member with
    | inl zero => rw [zero]; rfl
    | inr one => rw [one]; rfl
  rw [samplesOf_dumpText, same, List.map_id]

/-- On bits the texts that the fresh block publishes stand for the parts of the scan. -/
theorem work_samplesOf (nonempty : cfg.pattern ≠ []) (positive : 0 < cfg.dumpLen)
    (bits : List Bool) :
    (work (react cfg) (make cfg) (bits.map bitSample)).published.map samplesOf =
      (scan cfg.pattern cfg.dumpLen (bits.map bitSample)).map some := by
  have texts := work_scanFrom nonempty positive (bits.map bitSample) 0
  rw [List.drop_zero] at texts
  rw [texts, List.map_map, scan]
  apply List.map_congr_left
  intro u member
  have inside := (mem_scanFrom positive member).2
  exact samplesOf_dumpText_binary fun x listed => binary_map_bitSample bits x (inside x listed)

/-- However the stream is split over work calls, the published texts have the bits of the leftmost
non-overlapping scan of the stream for the pattern. -/
theorem published_scan (nonempty : cfg.pattern ≠ []) (positive : 0 < cfg.dumpLen)
    (chunks : List (List Bool)) :
    (published cfg chunks).map samplesOf =
      (scan cfg.pattern cfg.dumpLen (chunks.flatten.map bitSample)).map some := by
  rw [published, run, feed_eq_work, ← List.map_flatten]
  exact work_samplesOf nonempty positive chunks.flatten

/-- The pattern of two ones, with dumps of three samples. -/
def pairOfOnes : Config := ⟨[1, 1], 3⟩

/-- Four ones, a zero and two ones: the pattern ends with the second one, and the three samples
behind it are dumped. -/
theorem published_scan_pairOfOnes :
    published pairOfOnes [[false, true, true], [true, true, false, true, true, false]] =
        ["110"] ∧
      scan pairOfOnes.pattern pairOfOnes.dumpLen [0, 1, 1, 1, 1, 0, 1, 1, 0] = [[1, 1, 0]] := by
  have texts : published pairOfOnes
      [[false, true, true], [true, true, false, true, true, false]] = ["110"] := by decide
  have scanned := @published_scan pairOfOnes (by decide) (by decide)
    [[false, true, true], [true, true, false, true, true, false]]
  have bits : ["110"].map samplesOf = [[1, 1, 0]].map some := by decide
  have stream : [[false, true, true], [true, true, false, true, true, false]].flatten.map
      bitSample = [0, 1, 1, 1, 1, 0, 1, 1, 0] := by decide
  rw [texts, bits, stream] at scanned
  exact ⟨texts, (List.map_injective_iff.mpr (Option.some_injective _) scanned).symm⟩

end GrReveng.PatternDump
