import GrReveng.PacketDeframer.Block
import Mathlib.Algebra.Order.Field.Rat
import Mathlib.Tactic.Linarith

/-!
# Time stamps

The microseconds of a clock reading are divided by `100000`, so a time stamp counts each of them
ten times. It is the time of its reading only when the reading has no microseconds, and time
stamps run back where the seconds grow by less than this error shrinks.
-/

namespace GrReveng.PacketDeframer

open Reactive

variable {cfg : Config}

/-- The time of a reading in seconds. -/
def Timeval.time (reading : Timeval) : ℚ := reading.sec + reading.usec / 1000000

/-- Readings with less than a second of microseconds, which never run back. -/
structure SteadyClock (clock : Nat → Timeval) : Prop where
  /-- The microseconds are a part of a second. -/
  usec : ∀ i, 0 ≤ (clock i).usec ∧ (clock i).usec < 1000000
  /-- The time does not decrease. -/
  steady : ∀ i j, i ≤ j → (clock i).time ≤ (clock j).time

/-- The entries `ts` of the messages of a run whose clock readings succeed. -/
def timeStamps (cfg : Config) (clock : Nat → Timeval) (garbage : Uninitialised)
    (chunks : List (List Int8)) : List ℚ :=
  (messages cfg (fun i => some (clock i)) garbage chunks).map fun message => message.metadata.ts

/-- The time stamps of a run are the times of their readings, in order. -/
structure FollowsClock (cfg : Config) (clock : Nat → Timeval) (garbage : Uninitialised)
    (chunks : List (List Int8)) : Prop where
  /-- Each time stamp is the time of its reading. -/
  exact : ∀ (i : Nat) (ts : ℚ), (timeStamps cfg clock garbage chunks)[i]? = some ts →
    ts = (clock i).time
  /-- Time stamps never decrease. -/
  ordered : (timeStamps cfg clock garbage chunks).Pairwise (· ≤ ·)

/-- There is a time stamp for each message, made of the reading taken for it. -/
theorem getElem?_timeStamps (clock : Nat → Timeval) (garbage : Uninitialised)
    (chunks : List (List Int8)) (i : Nat) :
    (timeStamps cfg clock garbage chunks)[i]? =
      if i < (published cfg garbage chunks).length then some (timeStamp (some (clock i)))
      else none := by
  rw [timeStamps, messages, List.getElem?_map, List.getElem?_mapIdx, Option.map_map]
  split <;> rename_i inside
  · rw [List.getElem?_eq_getElem inside]
    rfl
  · rw [List.getElem?_eq_none (by omega)]
    rfl

/-- A time stamp is exact when there are no microseconds. -/
theorem timeStamp_eq_time_iff (reading : Timeval) :
    timeStamp (some reading) = reading.time ↔ reading.usec = 0 := by
  rw [timeStamp, Timeval.time]
  constructor
  · intro same
    have none : (reading.usec : ℚ) = 0 := by linarith
    exact_mod_cast none
  · intro none
    rw [none]
    norm_num

/-- Time stamps compare as the seconds with ten times the microseconds. -/
theorem timeStamp_le_iff (early late : Timeval) :
    timeStamp (some early) ≤ timeStamp (some late) ↔
      early.usec - late.usec ≤ 100000 * (late.sec - early.sec) := by
  have scaled : timeStamp (some early) ≤ timeStamp (some late) ↔
      (early.usec : ℚ) - late.usec ≤ 100000 * (late.sec - early.sec) := by
    simp only [timeStamp]
    constructor
    · intro le
      linarith
    · intro le
      linarith
  rw [scaled]
  exact_mod_cast Iff.rfl

/-- The order of the time stamps of a run, on the readings. -/
theorem timeStamps_ordered_iff (clock : Nat → Timeval) (garbage : Uninitialised)
    (chunks : List (List Int8)) :
    (timeStamps cfg clock garbage chunks).Pairwise (· ≤ ·) ↔
      ∀ i j, i < j → j < (published cfg garbage chunks).length →
        (clock i).usec - (clock j).usec ≤ 100000 * ((clock j).sec - (clock i).sec) := by
  rw [pairwise_readings_iff (getElem?_timeStamps clock garbage chunks)]
  simp only [timeStamp_le_iff]

/-- Time stamps and the clock. For a steady clock they are the times of their readings, and in
order, exactly when no reading taken for a message has microseconds. They are in order exactly
when from a message to a later one the microseconds shrink by at most `100000` for each second. -/
theorem timestamps_follow (cfg : Config) {clock : Nat → Timeval} (steady : SteadyClock clock)
    (garbage : Uninitialised) (chunks : List (List Int8)) :
    (FollowsClock cfg clock garbage chunks ↔
      ∀ i < (published cfg garbage chunks).length, (clock i).usec = 0) ∧
    ((timeStamps cfg clock garbage chunks).Pairwise (· ≤ ·) ↔
      ∀ i j, i < j → j < (published cfg garbage chunks).length →
        (clock i).usec - (clock j).usec ≤ 100000 * ((clock j).sec - (clock i).sec)) := by
  have exact := forall_readings_iff (@getElem?_timeStamps cfg clock garbage chunks)
    (P := fun i ts => ts = (clock i).time)
  simp only [timeStamp_eq_time_iff] at exact
  refine ⟨⟨fun follows => exact.mp follows.exact, fun whole => ?_⟩,
    timeStamps_ordered_iff clock garbage chunks⟩
  constructor
  · exact exact.mpr whole
  · rw [pairwise_readings_iff (getElem?_timeStamps clock garbage chunks)]
    intro i j before inside
    rw [(timeStamp_eq_time_iff (clock i)).mpr (whole i (by omega)),
      (timeStamp_eq_time_iff (clock j)).mpr (whole j inside)]
    exact steady.steady i j (Nat.le_of_lt before)

/-- Packets of one sample behind the sync word. -/
def singles : Config := ⟨"", [1, 0], true, 1, -1, 0, 0, false⟩

/-- A reading shortly before a full second and one at it. -/
def acrossSecond : Nat → Timeval
  | 0 => ⟨0, 900000⟩
  | _ => ⟨1, 0⟩

/-- The second of two messages has the smaller time stamp. -/
theorem singles_not_ordered :
    timeStamps singles acrossSecond ⟨0, 0, false⟩ [[1, 0, 1, 1, 0, 1]] = [9, 1] ∧
      ¬ FollowsClock singles acrossSecond ⟨0, 0, false⟩ [[1, 0, 1, 1, 0, 1]] := by
  have stamps : timeStamps singles acrossSecond ⟨0, 0, false⟩ [[1, 0, 1, 1, 0, 1]] = [9, 1] := by
    rw [timeStamps, messages, show published singles ⟨0, 0, false⟩ [[1, 0, 1, 1, 0, 1]] =
      [[1], [1]] by decide]
    norm_num [pdu, timeStamp, acrossSecond]
  refine ⟨stamps, fun follows => ?_⟩
  have ordered := follows.ordered
  rw [stamps] at ordered
  norm_num at ordered

/-- The clock that runs across the second, and one that shows whole seconds. -/
theorem timestamps_follow_singles :
    ¬ FollowsClock singles acrossSecond ⟨0, 0, false⟩ [[1, 0, 1]] ∧
      FollowsClock singles (fun i => ⟨i, 0⟩) ⟨0, 0, false⟩ [[1, 0, 1, 1, 0, 1]] := by
  have across : SteadyClock acrossSecond := by
    constructor
    · intro i
      cases i with
      | zero => exact ⟨by decide, by decide⟩
      | succ i => exact ⟨le_refl 0, (by decide : (0 : Int) < 1000000)⟩
    · intro i j le
      cases i with
      | zero => cases j <;> norm_num [Timeval.time, acrossSecond]
      | succ i =>
        cases j with
        | zero => contradiction
        | succ j => exact le_refl _
  have seconds : SteadyClock fun i => ⟨i, 0⟩ := by
    refine ⟨fun _ => ⟨le_refl 0, (by decide : (0 : Int) < 1000000)⟩, fun i j le => ?_⟩
    have later : (i : ℚ) ≤ j := by exact_mod_cast le
    simpa [Timeval.time] using later
  constructor
  · intro follows
    have whole := (timestamps_follow singles across ⟨0, 0, false⟩ [[1, 0, 1]]).1.mp follows 0
      (by decide)
    contradiction
  · apply (timestamps_follow singles seconds ⟨0, 0, false⟩ [[1, 0, 1, 1, 0, 1]]).1.mpr
    intro i inside
    rfl

end GrReveng.PacketDeframer
