import GrReveng.Library.Numerals
import GrReveng.PatternDump.Scan
import GrReveng.PatternDump.Substitution
import Mathlib.Tactic.Linarith

/-!
# Relative time

A difference of two times has days, seconds and microseconds, and a dump is stamped with its
seconds and microseconds. So the time of a dump is the elapsed time without its whole days: it is
right for the first day and begins again with each later one.
-/

namespace GrReveng.PatternDump

open Python Reactive

variable {cfg : Config}

/-- The microseconds of a day. -/
def day : Nat := 86400000000

/-- The microseconds of a difference. -/
def TimeDelta.total (diff : TimeDelta) : Int :=
  (diff.days * 86400 + diff.seconds) * 1000000 + diff.microseconds

/-- The difference of some microseconds, as the subtraction of two times normalises it. -/
def TimeDelta.ofMicroseconds (t : Int) : TimeDelta where
  days := t / day
  seconds := (t % day / 1000000).toNat
  microseconds := (t % 1000000).toNat
  seconds_lt := by simp only [day]; omega
  microseconds_lt := by omega

/-- The difference of some microseconds has as many. -/
theorem TimeDelta.total_ofMicroseconds (t : Int) : (ofMicroseconds t).total = t := by
  simp only [total, ofMicroseconds, day]
  omega

/-- The text of a difference denotes the seconds that it has without its days. -/
theorem pointValue_timeStr (diff : TimeDelta) :
    pointValue (timeStr diff) = some (((diff.total % day : Int) : ℚ) / 1000000) := by
  have seconds := diff.seconds_lt
  have microseconds := diff.microseconds_lt
  have rest : diff.total % day = diff.seconds * 1000000 + diff.microseconds := by
    simp only [TimeDelta.total, day]
    omega
  rw [timeStr, pointValue_zfill diff.seconds (by decide) microseconds, rest]
  apply congrArg some
  push_cast
  linarith

/-- The days are all that is missing. -/
theorem timeStr_exact_iff {t : Int} (started : 0 ≤ t) :
    pointValue (timeStr (.ofMicroseconds t)) = some ((t : ℚ) / 1000000) ↔ t < day := by
  rw [pointValue_timeStr, TimeDelta.total_ofMicroseconds, Option.some.injEq,
    div_left_inj' (by norm_num), Int.cast_inj]
  simp only [day]
  omega

/-- `list(self.output)` at each completed dump of a run. -/
def dumps (cfg : Config) (chunks : List (List Bool)) : List (List Int8) :=
  (run cfg chunks).history.flatMap fun t =>
    t.emitted.map fun _ => (t.before.output.push t.input).items

/-- A step on a bit keeps the dump a queue of bits. -/
theorem binary_react {s next : cfg.State} {bit : Int8} (held : ∀ x ∈ s.output.items, Binary x)
    (binary : Binary bit) (step : (react cfg s bit).after = .ok next) :
    ∀ x ∈ next.output.items, Binary x := by
  rw [react] at step
  dsimp only at step
  split at step
  · split at step
    · rw [← Except.ok.inj step]
      exact fun x member => absurd member List.not_mem_nil
    · rw [← Except.ok.inj step]
      exact ShiftRegister.forall_push held binary
  · rw [← Except.ok.inj step]
    exact held

/-- The samples of a dump are bits. -/
theorem dumps_bits {chunks : List (List Bool)} {dump : List Int8}
    (member : dump ∈ dumps cfg chunks) : ∃ bits : List Bool, dump = bits.map bitSample := by
  have binary := binary_map_bitSample chunks.flatten
  rw [dumps, run, feed_eq_work, ← List.map_flatten] at member
  have held := (@work_state_invariant _ _ _ _ (react cfg)
    (fun s : cfg.State => ∀ x ∈ s.output.items, Binary x) (make cfg) _
    (fun s bit next inside held => binary_react held (binary bit inside))
    (fun x member => absurd member List.not_mem_nil)).1
  obtain ⟨t, found, inside⟩ := List.mem_flatMap.mp member
  obtain ⟨_, -, rfl⟩ := List.mem_map.mp inside
  have samples := ShiftRegister.forall_push (held t found)
    (binary t.input (work_steps (react cfg) found).2)
  exact ⟨_, (map_bitSample_lsb samples).symm⟩

/-- The clock of a block. Its times are in microseconds. -/
structure Clock where
  /-- `start_time`. -/
  start : Int
  /-- What `datetime.now` returns when a dump is formatted. -/
  now : Nat → Int
  /-- `strftime` of a time. -/
  strftime : Int → Text → Except PyError Text

/-- The time from the start of processing to a dump. -/
def Clock.elapsed (clock : Clock) (i : Nat) : Int := clock.now i - clock.start

/-- What the call for a dump reads from the clock. -/
def Clock.reading (clock : Clock) (i : Nat) : Now :=
  ⟨.ofMicroseconds (clock.elapsed i), clock.strftime (clock.now i)⟩

/-- A clock that does not run back. -/
structure Clock.Steady (clock : Clock) : Prop where
  /-- Dumps come behind the start. -/
  started : ∀ i, clock.start ≤ clock.now i
  /-- Later dumps come later. -/
  steady : ∀ i j, i ≤ j → clock.now i ≤ clock.now j

/-- What a run prints for its dumps. -/
def printed (cfg : Config) (out : Output) (clock : Clock) (chunks : List (List Bool)) :
    List (Except PyError Text) :=
  (dumps cfg chunks).mapIdx fun i dump => formatOutput out (clock.reading i) dump

/-- The values of `time_str` in a run. -/
def times (cfg : Config) (clock : Clock) (chunks : List (List Bool)) : List Text :=
  (dumps cfg chunks).mapIdx fun i _ => timeStr (clock.reading i).diff

/-- The first text denotes a number and the second one denotes a number that is not smaller. -/
def NotLater (early late : Text) : Prop :=
  ∃ left right, pointValue early = some left ∧ pointValue late = some right ∧ left ≤ right

/-- The times of a run are its elapsed times in seconds, in order. -/
structure TellsElapsed (cfg : Config) (clock : Clock) (chunks : List (List Bool)) : Prop where
  /-- Each time is the elapsed one. -/
  exact : ∀ (i : Nat) (text : Text), (times cfg clock chunks)[i]? = some text →
    pointValue text = some ((clock.elapsed i : ℚ) / 1000000)
  /-- Times never decrease. -/
  ordered : (times cfg clock chunks).Pairwise NotLater

/-- A variable that a text cannot have is not replaced. -/
theorem replaceVariable_free {name : String} (marked : '%' ∈ name.toList) (value : Text)
    {out : Text} (free : '%' ∉ out) : replaceVariable name value out = out := by
  rw [replaceVariable, if_neg]
  intro found
  exact free (found.subset marked)

/-- With nothing else in the format the time is all that is printed. -/
theorem formatOutput_seconds (now : Now) (bits : List Bool) :
    formatOutput ⟨"%s".toList, .relative⟩ now (bits.map bitSample) = .ok (timeStr now.diff) := by
  have free := (plain_timeStr now.diff).free
  have whole : replaceAll "%s".toList (timeStr now.diff) "%s".toList = timeStr now.diff :=
    List.append_nil _
  have silent : ∀ name value, '%' ∈ name.toList →
      replaceVariable name value (timeStr now.diff) = timeStr now.diff :=
    fun name value marked => replaceVariable_free marked value free
  rw [formatOutput, sampleBytes_bitSample]
  dsimp only [pure, Except.pure, bind, Except.bind]
  rw [whole]
  simp (disch := decide) only [silent]

/-- There is a time for each dump. -/
theorem getElem?_times (clock : Clock) (chunks : List (List Bool)) (i : Nat) :
    (times cfg clock chunks)[i]? =
      if i < (dumps cfg chunks).length then some (timeStr (.ofMicroseconds (clock.elapsed i)))
      else none := by
  rw [times, List.getElem?_mapIdx]
  split
  · next inside =>
    rw [List.getElem?_eq_getElem inside]
    rfl
  · next outside =>
    rw [List.getElem?_eq_none (by omega)]
    rfl

/-- Times compare as the elapsed times without their days. -/
theorem notLater_iff (early late : Int) :
    NotLater (timeStr (.ofMicroseconds early)) (timeStr (.ofMicroseconds late)) ↔
      early % day ≤ late % day := by
  have scaled : ((early % day : Int) : ℚ) / 1000000 ≤ ((late % day : Int) : ℚ) / 1000000 ↔
      early % day ≤ late % day := by
    rw [div_le_div_iff_of_pos_right (by norm_num), Int.cast_le]
  rw [← scaled, NotLater, pointValue_timeStr, pointValue_timeStr,
    TimeDelta.total_ofMicroseconds, TimeDelta.total_ofMicroseconds]
  constructor
  · rintro ⟨left, right, first, second, le⟩
    rwa [Option.some.inj first, Option.some.inj second]
  · intro le
    exact ⟨_, _, rfl, rfl, le⟩

/-- The lines of a run whose format is the time alone are its times. -/
theorem printed_seconds (cfg : Config) (clock : Clock) (chunks : List (List Bool)) :
    printed cfg ⟨"%s".toList, .relative⟩ clock chunks = (times cfg clock chunks).map .ok := by
  apply List.ext_getElem?
  intro i
  rw [printed, times, List.getElem?_map, List.getElem?_mapIdx, List.getElem?_mapIdx]
  cases found : (dumps cfg chunks)[i]? with
  | none => rfl
  | some dump =>
    obtain ⟨bits, rfl⟩ := dumps_bits (List.mem_of_getElem? found)
    rw [Option.map_some, formatOutput_seconds]
    rfl

/-- The order of the times of a run, on the clock. -/
theorem times_ordered_iff (clock : Clock) (chunks : List (List Bool)) :
    (times cfg clock chunks).Pairwise NotLater ↔
      ∀ i j, i < j → j < (dumps cfg chunks).length →
        clock.elapsed i % day ≤ clock.elapsed j % day := by
  rw [pairwise_readings_iff (getElem?_times clock chunks)]
  simp only [notLater_iff]

/-- Relative time. The text that a call puts in place of `%s` is the elapsed time exactly in the
first day. In a run of a steady clock the lines with nothing but this text are the elapsed times,
in order, exactly when every dump is taken in the first day. They are in order exactly when the
elapsed times are without their days. -/
theorem relative_time (cfg : Config) {clock : Clock} (steady : clock.Steady)
    (chunks : List (List Bool)) :
    (∀ (t : Nat) (strftime : Text → Except PyError Text),
      (∀ fmt dump, formatOutput ⟨fmt, .relative⟩ ⟨.ofMicroseconds t, strftime⟩ dump =
        formatOutput ⟨replaceAll "%s".toList (timeStr (.ofMicroseconds t)) fmt, .none⟩
          ⟨.ofMicroseconds t, strftime⟩ dump) ∧
      (pointValue (timeStr (.ofMicroseconds t)) = some ((t : ℚ) / 1000000) ↔ t < day)) ∧
    printed cfg ⟨"%s".toList, .relative⟩ clock chunks = (times cfg clock chunks).map .ok ∧
    (TellsElapsed cfg clock chunks ↔
      ∀ i < (dumps cfg chunks).length, clock.elapsed i < day) ∧
    ((times cfg clock chunks).Pairwise NotLater ↔
      ∀ i j, i < j → j < (dumps cfg chunks).length →
        clock.elapsed i % day ≤ clock.elapsed j % day) := by
  have started : ∀ i, 0 ≤ clock.elapsed i := fun i => Int.sub_nonneg.mpr (steady.started i)
  have exact := forall_readings_iff (@getElem?_times cfg clock chunks)
    (P := fun i text => pointValue text = some ((clock.elapsed i : ℚ) / 1000000))
  simp only [timeStr_exact_iff (started _)] at exact
  refine ⟨fun t strftime => ⟨fun fmt dump => rfl, ?_⟩, printed_seconds cfg clock chunks,
    ⟨fun tells => exact.mp tells.exact, fun first => ?_⟩, times_ordered_iff clock chunks⟩
  · have here := timeStr_exact_iff (Int.natCast_nonneg t)
    rw [Int.cast_natCast, Nat.cast_lt] at here
    exact here
  · constructor
    · exact exact.mpr first
    · rw [times_ordered_iff]
      intro i j before inside
      rw [Int.emod_eq_of_lt (started i) (first i (by omega)),
        Int.emod_eq_of_lt (started j) (first j inside)]
      exact Int.sub_le_sub_right (steady.steady i j (Nat.le_of_lt before)) clock.start

/-- Dumps of one sample behind a one. -/
def behindOne : Config := ⟨[1], 1⟩

/-- A microsecond before the end of the first day, and the end of it. -/
def acrossDay : Clock := ⟨0, fun i => if i = 0 then 86399999999 else 86400000000, fun _ => .ok⟩

/-- The clock does not run back. -/
theorem steady_acrossDay : acrossDay.Steady := by
  constructor
  · intro i
    simp only [acrossDay]
    split <;> omega
  · intro i j le
    simp only [acrossDay]
    split <;> split <;> omega

/-- The second of two dumps is taken a day after the start and printed with no time elapsed. -/
theorem behindOne_not_ordered :
    acrossDay.Steady ∧ acrossDay.elapsed 1 = day ∧
      printed behindOne ⟨"%s".toList, .relative⟩ acrossDay [[true, false], [true, true]] =
        [.ok "86399.999999".toList, .ok "0.000000".toList] ∧
      pointValue "0.000000".toList = some 0 ∧
      ¬ TellsElapsed behindOne acrossDay [[true, false], [true, true]] ∧
      ¬ (times behindOne acrossDay [[true, false], [true, true]]).Pairwise NotLater := by
  have disorder :
      ¬ (times behindOne acrossDay [[true, false], [true, true]]).Pairwise NotLater := by
    rw [times_ordered_iff]
    intro ordered
    have back := ordered 0 1 (by decide) (by decide)
    revert back
    decide
  refine ⟨steady_acrossDay, rfl, by decide +kernel, by decide +kernel, ?_, disorder⟩
  exact fun tells => disorder tells.ordered

/-- The two dumps across the end of the first day, and two dumps of the first two microseconds. -/
theorem relative_time_behindOne :
    ¬ TellsElapsed behindOne acrossDay [[true, false], [true, true]] ∧
      TellsElapsed behindOne ⟨0, fun i => i, fun _ => .ok⟩ [[true, false], [true, true]] := by
  have ticks : (Clock.mk 0 (fun i => i) fun _ => .ok).Steady :=
    ⟨fun i => Int.natCast_nonneg i, fun i j le => Int.ofNat_le.mpr le⟩
  constructor
  · intro tells
    have first := (relative_time behindOne steady_acrossDay
      [[true, false], [true, true]]).2.2.1.mp tells 1 (by decide)
    revert first
    decide
  · apply (relative_time behindOne ticks [[true, false], [true, true]]).2.2.1.mpr
    intro i inside
    have count : (dumps behindOne [[true, false], [true, true]]).length = 2 := by decide
    simp only [Clock.elapsed, day]
    omega

end GrReveng.PatternDump
