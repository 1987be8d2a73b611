import GrReveng.Library.Pipelines
import GrReveng.PatternDump.Scan

/-!
# The dumps of pattern dump

The queues of the block for all arguments and all samples. The dumps are the leftmost
non-overlapping scan of the samples for the pattern also when the pattern is empty, which makes the
block cut the stream into dumps, and when the dumps are empty, which use up a sample each.
-/

namespace GrReveng.PatternDump

open Reactive

variable {cfg : Config}

/-- The queues in one iteration of the loop in `work`, with the completed dump. -/
def collect (cfg : Config) (s : cfg.State) (bit : Int8) : Reaction cfg.State (List Int8) Empty :=
  if s.patternCheck = cfg.patternRegister then
    let s := { s with output := s.output.push bit }
    if s.output.items.length = cfg.dumpLen then
      ⟨[s.output.items], .ok ⟨ShiftRegister.empty, ShiftRegister.empty⟩⟩
    else ⟨[], .ok s⟩
  else ⟨[], .ok { s with patternCheck := s.patternCheck.push bit }⟩

/-- The number of samples that a dump uses up. -/
def Config.taken (cfg : Config) : Nat := max 1 cfg.dumpLen

/-- The dumps of a stream: the leftmost non-overlapping scan for the pattern. A dump of no samples
uses up one. -/
def scanned (cfg : Config) (stream : List Int8) : List (List Int8) :=
  (scan cfg.pattern cfg.taken stream).map (List.take cfg.dumpLen)

/-- The block publishes the texts of its dumps. -/
theorem react_eq_mapped (cfg : Config) : react cfg = mapped dumpText (collect cfg) := by
  funext s bit
  rw [mapped, react, collect]
  dsimp only
  split
  · split <;> rfl
  · rfl

/-- The runs of the queues and of the block that publishes the texts. -/
theorem work_collect (s : cfg.State) (xs : List Int8) :
    (work (react cfg) s xs).published = (work (collect cfg) s xs).published.map dumpText ∧
      (work (react cfg) s xs).final = (work (collect cfg) s xs).final := by
  rw [react_eq_mapped]
  exact work_mapped dumpText (collect cfg) s xs

/-- A run that publishes nothing completes no dump. -/
theorem collect_silent {s : cfg.State} {xs : List Int8}
    (silent : (work (react cfg) s xs).published = []) :
    (work (collect cfg) s xs).published = [] := by
  rw [(work_collect s xs).1] at silent
  exact List.map_eq_nil_iff.mp silent

/-- One sample of a dump. -/
theorem collect_dump (output : ShiftRegister Int8 cfg.dumpLen) (bit : Int8) :
    collect cfg (dumping cfg output) bit =
      if (output.push bit).items.length = cfg.dumpLen then
        ⟨[(output.push bit).items], .ok (make cfg)⟩
      else ⟨[], .ok (dumping cfg (output.push bit))⟩ := by
  simp only [collect, dumping, patternRegister_eq, ↓reduceIte]
  rfl

/-- What the queue of a dump holds with its last sample. -/
theorem items_filled {xs : List Int8} (complete : xs.length = cfg.taken) (nonempty : xs ≠ []) :
    ((ShiftRegister.empty.pushAll xs.dropLast).push (xs.getLast nonempty) :
      ShiftRegister Int8 cfg.dumpLen).items = xs.take cfg.dumpLen := by
  have whole := ShiftRegister.pushAll_append
    (ShiftRegister.empty : ShiftRegister Int8 cfg.dumpLen) xs.dropLast [xs.getLast nonempty]
  rw [List.dropLast_append_getLast] at whole
  have last := congrArg ShiftRegister.items whole
  rw [ShiftRegister.items_pushAll, List.rtake] at last
  change List.drop (xs.length - cfg.dumpLen) xs =
    ((ShiftRegister.empty.pushAll xs.dropLast).push (xs.getLast nonempty) :
      ShiftRegister Int8 cfg.dumpLen).items at last
  rw [Config.taken] at complete
  rw [← last]
  by_cases some : cfg.dumpLen = 0
  · rw [some, List.take_zero, Nat.sub_zero, List.drop_length]
  · rw [show xs.length - cfg.dumpLen = 0 by omega, List.drop_zero,
      List.take_of_length_le (by omega)]

/-- The samples that a dump uses up. -/
theorem collect_complete {xs : List Int8} (complete : xs.length = cfg.taken) :
    (work (collect cfg) (dumping cfg ShiftRegister.empty) xs).final = .ok (make cfg) ∧
      (work (collect cfg) (dumping cfg ShiftRegister.empty) xs).published =
        [xs.take cfg.dumpLen] := by
  have nonempty : xs ≠ [] := List.length_pos_iff.mp (by rw [complete, Config.taken]; omega)
  have front : xs.dropLast.length = cfg.taken - 1 := by rw [List.length_dropLast, complete]
  have nothing : (ShiftRegister.empty : ShiftRegister Int8 cfg.dumpLen).items.length = 0 := rfl
  have before : (work (collect cfg) (dumping cfg ShiftRegister.empty) xs.dropLast).final =
        .ok (dumping cfg (ShiftRegister.empty.pushAll xs.dropLast)) ∧
      (work (collect cfg) (dumping cfg ShiftRegister.empty) xs.dropLast).published = [] := by
    by_cases short : cfg.dumpLen = 0
    · rw [Config.taken, short] at front
      rw [List.eq_nil_of_length_eq_zero front]
      exact ⟨rfl, rfl⟩
    · rw [Config.taken] at front
      have ⟨final, silent⟩ := @work_dump cfg ShiftRegister.empty xs.dropLast (by omega)
      rw [(work_collect _ _).2] at final
      exact ⟨final, collect_silent silent⟩
  have step := @collect_dump cfg (ShiftRegister.empty.pushAll xs.dropLast) (xs.getLast nonempty)
  have length : (xs.take cfg.dumpLen).length = cfg.dumpLen := by
    rw [List.length_take, complete, Config.taken]
    omega
  rw [items_filled complete nonempty, if_pos length] at step
  have last := work_last (collect cfg) nonempty before step
  exact ⟨last.1, last.2.1⟩

/-- Fewer samples complete no dump. -/
theorem collect_short {xs : List Int8} (short : xs.length < cfg.taken) :
    (work (collect cfg) (dumping cfg ShiftRegister.empty) xs).published = [] := by
  cases xs with
  | nil => rfl
  | cons x xs =>
    rw [Config.taken, List.length_cons] at short
    have nothing : (ShiftRegister.empty : ShiftRegister Int8 cfg.dumpLen).items.length = 0 := rfl
    apply collect_silent
    exact (work_dump (by rw [List.length_cons]; omega)).2

/-- For a pattern that is not empty the queues are a scanner. -/
theorem collect_scanner (nonempty : cfg.pattern ≠ []) :
    Scanner (collect cfg) cfg.pattern cfg.taken (List.take cfg.dumpLen) (· = make cfg)
      (dumping cfg ShiftRegister.empty) where
  quiet := by
    rintro s xs rfl quiet
    exact collect_silent (work_quiet (make_searching nonempty) quiet).2
  finds := by
    rintro s xs rfl finds
    have ⟨final, silent⟩ := work_finds (make_searching nonempty) finds
    rw [(work_collect _ _).2] at final
    exact ⟨final, collect_silent silent⟩
  complete := fun xs complete => ⟨make cfg, rfl, collect_complete complete⟩
  short := fun xs short => collect_short short

/-- Whatever the arguments and the samples, the queues complete the dumps of the scan. -/
theorem work_dumps (cfg : Config) (stream : List Int8) :
    (work (collect cfg) (make cfg) stream).published = scanned cfg stream := by
  have positive : 0 < cfg.taken := Nat.lt_of_lt_of_le Nat.one_pos (Nat.le_max_left 1 _)
  by_cases nonempty : cfg.pattern = []
  · have always : dumping cfg ShiftRegister.empty = make cfg := by
      have ⟨pattern, dumpLen⟩ := cfg
      cases nonempty
      rfl
    have complete := @collect_complete cfg
    have short := @collect_short cfg
    rw [always] at complete short
    rw [scanned, nonempty]
    exact work_scanFrom_nil positive (fun xs => @complete xs) (fun xs => @short xs) (Nat.zero_le _)
  · exact (collect_scanner nonempty).work_scanFrom nonempty positive rfl stream 0

end GrReveng.PatternDump
