import GrReveng.PacketDeframer.LengthByte

/-!
# What the bits above the least significant one change

Two continuations of a capture that agree in the least significant bit of every sample. The
packed bytes are the same, but the length word takes whole samples, so the captures end alike,
with the packed length byte as their length, exactly when the samples of the length byte have no
stray bits on either side.
-/

namespace GrReveng.PacketDeframer

open Reactive

variable {cfg : Config}

/-- How a capture ends. -/
inductive Ending
  /-- A message with these data. -/
  | published (data : List UInt8)
  /-- The length byte was refused. -/
  | squelched
  /-- An exception. -/
  | stopped
  deriving DecidableEq

/-- The number of samples after which the capture of a state ends, and how it ends. -/
def captureEnd (cfg : Config) : cfg.State → List Int8 → Option (Nat × Ending)
  | _, [] => none
  | s, x :: xs =>
    match react cfg s x with
    | ⟨_, .error _⟩ => some (1, .stopped)
    | ⟨emitted, .ok next⟩ =>
      if next.inSync then (captureEnd cfg next xs).map fun (count, ending) => (count + 1, ending)
      else
        match emitted with
        | [] => some (1, .squelched)
        | data :: _ => some (1, .published data)

/-- The samples at the place of the length byte. -/
def lengthSamples (cfg : Config) (u : List Int8) : List Int8 := (u.drop cfg.offsetBits).take 8

/-- When the samples complete the length byte, the length computed from them is the packed byte
at the index of the length byte. -/
def LengthIsByte (cfg : Config) (s : cfg.State) (u : List Int8) : Prop :=
  ∀ now x, (work (react cfg) s (u.take (cfg.headerBits - 1))).final = .ok now →
    u[cfg.headerBits - 1]? = some x →
      ∃ byte, (packBytes (u.map lsb))[cfg.pktLenOffset.toInt.toNat]? = some byte ∧
        (computedLength (transition (react cfg) now x)).toInt = byte.toNat

/-- Two continuations of a capture end alike, and both lengths are the packed bytes. -/
structure EndAlike (cfg : Config) (s : cfg.State) (u v : List Int8) : Prop where
  /-- They end at the same sample, in the same way and with the same data. -/
  ends : captureEnd cfg s u = captureEnd cfg s v
  /-- The length of the first. -/
  first : LengthIsByte cfg s u
  /-- The length of the second. -/
  second : LengthIsByte cfg s v

/-- There are eight samples at the place of a complete length byte. -/
theorem length_lengthSamples {u : List Int8} (long : cfg.headerBits ≤ u.length) :
    (lengthSamples cfg u).length = 8 := by
  rw [Config.headerBits] at long
  rw [lengthSamples, List.length_take, List.length_drop]
  omega

/-- The last of them completes the length word that they make. -/
theorem computedLength_lengthSamples (mode : cfg.fixedLen = false) {u : List Int8}
    (long : cfg.headerBits ≤ u.length) (index : cfg.headerBits - 1 < u.length) :
    computedLength (transition (react cfg) (captured cfg (u.take (cfg.headerBits - 1)))
      u[cfg.headerBits - 1]) = shiftInAll 0 (lengthSamples cfg u) := by
  have header : cfg.headerBits = cfg.offsetBits + 8 := rfl
  have split : u.take (cfg.headerBits - 1) ++ [u[cfg.headerBits - 1]] = u.take cfg.headerBits := by
    rw [List.take_append_getElem index]
    congr 1
  have before : (u.take (cfg.headerBits - 1)).length + 1 = cfg.headerBits := by
    rw [List.length_take]
    omega
  have complete : cfg.headerBits ≤ (u.take cfg.headerBits).length := by
    rw [List.length_take]
    omega
  have same := lengthWord_append complete (u.drop cfg.headerBits)
  rw [List.take_append_drop] at same
  rw [computedLength_captured mode _ before, split, ← same, lengthWord, lengthSamples]

/-- The length of a continuation is its packed byte exactly when the samples of the length byte
have no stray bits. -/
theorem lengthIsByte_iff (framed : cfg.Framed) (mode : cfg.fixedLen = false) (u : List Int8) :
    LengthIsByte cfg (captured cfg []) u ↔
      (cfg.headerBits ≤ u.length → StrayFree (lengthSamples cfg u)) := by
  have header : cfg.headerBits = cfg.offsetBits + 8 := rfl
  have short : (u.take (cfg.headerBits - 1)).length < cfg.headerBits := by
    rw [List.length_take]
    omega
  have reached := work_header framed mode short
  by_cases long : cfg.headerBits ≤ u.length
  · have index : cfg.headerBits - 1 < u.length := by omega
    have computed := computedLength_lengthSamples mode long index
    have exactly := shiftInAll_eq_iff (length_lengthSamples long)
    obtain ⟨byte, stored, value⟩ := packedByte_length long
    constructor
    · intro isByte _
      obtain ⟨byte', stored', value'⟩ := isByte _ _ reached (List.getElem?_eq_getElem index)
      rw [stored] at stored'
      cases Option.some.inj stored'
      rw [computed] at value'
      exact exactly.mp (value'.trans (by rw [value]; rfl))
    · intro clean now x state found
      rw [reached] at state
      cases Except.ok.inj state
      rw [List.getElem?_eq_getElem index] at found
      cases Option.some.inj found
      refine ⟨byte, stored, ?_⟩
      rw [computed, value]
      exact exactly.mpr (clean long)
  · refine ⟨fun _ reached => absurd reached long, fun _ now x _ found => ?_⟩
    rw [List.getElem?_eq_none (by omega)] at found
    contradiction

/-- The two captures agree in what decides about their end. -/
structure SameFraming (cfg : Config) (u v : List Int8) : Prop where
  /-- The packed bits are the same. -/
  bits : u.map lsb = v.map lsb
  /-- Complete length words are the same. -/
  length : cfg.headerBits ≤ u.length → lengthWord cfg u = lengthWord cfg v

section LockStep

variable {u v : List Int8}

/-- The numbers of samples are the same. -/
theorem SameFraming.count (same : SameFraming cfg u v) : u.length = v.length := by
  simpa using congrArg List.length same.bits

/-- The end is known in both or in none. -/
theorem SameFraming.known (same : SameFraming cfg u v) : Known cfg u ↔ Known cfg v := by
  rw [Known, Known, same.count]

/-- A known end is the same. -/
theorem SameFraming.target (same : SameFraming cfg u v) (known : Known cfg u) :
    target cfg u = target cfg v := by
  unfold PacketDeframer.target
  split <;> rename_i mode
  · rfl
  · rw [same.length (known.resolve_left mode)]

/-- The length byte is refused in both or in none. -/
theorem SameFraming.refused (same : SameFraming cfg u v) : Refused cfg u ↔ Refused cfg v := by
  unfold Refused
  rw [same.count]
  constructor
  · rintro ⟨mode, long, excess⟩
    exact ⟨mode, long, by rwa [← same.length (by rw [same.count]; exact long)]⟩
  · rintro ⟨mode, long, excess⟩
    exact ⟨mode, long, by rwa [same.length (by rw [same.count]; exact long)]⟩

/-- Both captures are open or none. -/
theorem SameFraming.open_iff (same : SameFraming cfg u v) : Open cfg u ↔ Open cfg v := by
  constructor
  · intro opened known
    obtain ⟨below, accepted⟩ := opened (same.known.mpr known)
    rw [same.target (same.known.mpr known), same.count] at below
    exact ⟨below, fun refused => accepted (same.refused.mpr refused)⟩
  · intro opened known
    obtain ⟨below, accepted⟩ := opened (same.known.mp known)
    rw [← same.target known, ← same.count] at below
    exact ⟨below, fun refused => accepted (same.refused.mp refused)⟩

end LockStep

/-- A captured sample that completes a length byte with a negative end stops the block. -/
theorem react_captured_negative (framed : cfg.Framed) {u : List Int8} {x : Int8}
    (opened : Open cfg u) (known : Known cfg (u ++ [x]))
    (negative : (target cfg (u ++ [x])).toInt < 0) :
    react cfg (captured cfg u) x = ⟨[], .error .lengthError⟩ := by
  rcases react_captured framed opened x with joined | ends | refused | stopped
  · have below := (joined.1 known).1
    omega
  · have sign := ends.2.1
    omega
  · have further := refused.2.2.1
    omega
  · exact stopped.2.2.2

/-- What the samples agree on, they agree on up to every sample. -/
theorem SameFraming.front {front front' back back' : List Int8}
    (same : SameFraming cfg (front ++ back) (front' ++ back'))
    (count : front.length = front'.length) :
    SameFraming cfg front front' := by
  have bits := same.bits
  rw [List.map_append, List.map_append] at bits
  refine ⟨(List.append_inj bits (by simpa using count)).1, fun long => ?_⟩
  rw [← lengthWord_append long back, ← @lengthWord_append cfg front' (by omega) back']
  exact same.length (by rw [List.length_append]; omega)

/-- The packed data of captures with the same bits are the same. -/
theorem payload_eq (packed : cfg.packBytes = true) {u v : List Int8}
    (same : SameFraming cfg u v) : payload cfg u = payload cfg v := by
  rw [payload, payload, if_pos packed, if_pos packed, same.bits]

/-- Packed captures with the same framing end alike. -/
theorem captureEnd_eq (framed : cfg.Framed) (packed : cfg.packBytes = true)
    {u v more more' : List Int8} (opened : Open cfg u) (count : u.length = v.length)
    (same : SameFraming cfg (u ++ more) (v ++ more')) :
    captureEnd cfg (captured cfg u) more = captureEnd cfg (captured cfg v) more' := by
  have total := same.count
  rw [List.length_append, List.length_append, count] at total
  induction more generalizing u v more' with
  | nil =>
    cases List.length_eq_zero_iff.mp
      (show more'.length = 0 by rw [List.length_nil] at total; omega)
    rfl
  | cons x more ih =>
    obtain _ | ⟨y, more'⟩ := more'
    · rw [List.length_cons, List.length_nil] at total
      omega
    rw [List.append_cons, List.append_cons v] at same
    have longer : (u ++ [x]).length = (v ++ [y]).length := by simp [count]
    have here := same.front longer
    have opened' := ((SameFraming.front (List.append_assoc u [x] more ▸
      List.append_assoc v [y] more' ▸ same) count).open_iff).mp opened
    have length : (u ++ [x]).length = u.length + 1 := by simp
    rcases react_captured framed opened x with joined | ends | refused | negative
    · have joined' := react_captured_open framed opened' (here.open_iff.mp joined.1)
      have rest := ih joined.1 longer same (by simp at total ⊢; omega)
      simp only [captureEnd, joined.2, joined']
      have running : (captured cfg (u ++ [x])).inSync = true := rfl
      have running' : (captured cfg (v ++ [y])).inSync = true := rfl
      rw [if_pos running, if_pos running', rest]
    · obtain ⟨known, sign, reached, step⟩ := ends
      have target := here.target known
      have step' := react_captured_end framed opened' (here.known.mp known)
        (by rw [← target]; exact sign) (by rw [← target]; omega)
      simp only [captureEnd, step, step', finished, payload_eq packed here]
      rfl
    · obtain ⟨refused, last, further, step⟩ := refused
      have target := here.target (.inr refused.2.1)
      have step' := react_captured_refused framed opened' (here.refused.mp refused)
        (by rw [← target]; omega)
      simp only [captureEnd, step, step', finished]
      rfl
    · obtain ⟨mode, last, sign, step⟩ := negative
      have known : Known cfg (u ++ [x]) := .inr (by omega)
      have target := here.target known
      have step' := react_captured_negative framed opened' (here.known.mp known)
        (by rw [← target]; exact sign)
      simp only [captureEnd, step, step']

/-- In every run the state in which a capture starts is the same. -/
theorem started_captured (framed : cfg.Framed) (garbage : Uninitialised)
    (chunks : List (List Int8)) {early : List cfg.Transition} {t : cfg.Transition}
    {late : List cfg.Transition} {s : cfg.State}
    (split : (run cfg garbage chunks).history = early ++ t :: late) (starts : Starts t)
    (after : t.after = .ok s) : s = captured cfg [] := by
  obtain ⟨tracks, stepped, -⟩ := (run_tracks framed garbage chunks).1 early t late split
  obtain ⟨searching, next, after', running⟩ := starts
  rw [after] at after'
  cases Except.ok.inj after'
  rw [stepped, transition] at after
  by_cases found : t.before.search.push t.input = ShiftRegister.ofWord cfg.sync
  · rw [react_starts framed searching tracks.fixed found] at after
    exact (Except.ok.inj after).symm
  · rw [react_search_miss searching found] at after
    cases Except.ok.inj after
    simp [searching] at running

/-- Only the least significant bits matter to a capture that has just started, and its length is
the packed length byte, exactly when the samples of the length byte have no stray bits. -/
theorem least_significant_bits (mode : cfg.fixedLen = false) (packed : cfg.packBytes = true)
    (offset : 0 ≤ cfg.pktLenOffset.toInt ∧ 8 * cfg.pktLenOffset.toInt + 8 < 2 ^ 31)
    (garbage : Uninitialised) (chunks : List (List Int8)) {early : List cfg.Transition}
    {t : cfg.Transition} {late : List cfg.Transition} {s : cfg.State}
    (split : (run cfg garbage chunks).history = early ++ t :: late) (starts : Starts t)
    (after : t.after = .ok s) (u v : List Int8) (agree : u.map lsb = v.map lsb) :
    EndAlike cfg s u v ↔ (cfg.headerBits ≤ u.length →
      StrayFree (lengthSamples cfg u) ∧ StrayFree (lengthSamples cfg v)) := by
  have framed : cfg.Framed := ⟨fun fixed => by simp [mode] at fixed, fun _ => offset⟩
  have count : u.length = v.length := by simpa using congrArg List.length agree
  cases started_captured framed garbage chunks split starts after
  have first := lengthIsByte_iff framed mode u
  have second := lengthIsByte_iff framed mode v
  constructor
  · intro alike long
    exact ⟨first.mp alike.first long, second.mp alike.second (by omega)⟩
  · intro clean
    have same : SameFraming cfg u v := by
      refine ⟨agree, fun long => ?_⟩
      have bits : (lengthSamples cfg u).map lsb = (lengthSamples cfg v).map lsb := by
        rw [lengthSamples, lengthSamples, List.map_take, List.map_drop, agree, List.map_take,
          List.map_drop]
      have left := (shiftInAll_eq_iff (length_lengthSamples long)).mpr (clean long).1
      have right := (shiftInAll_eq_iff (length_lengthSamples (count ▸ long))).mpr (clean long).2
      rw [bits, ← right] at left
      exact Int32.toInt_inj.mp left
    exact ⟨@captureEnd_eq cfg framed packed [] [] u v (open_nil framed) rfl same,
      first.mpr fun long => (clean long).1, second.mpr fun long => (clean (by omega)).2⟩

/-- Zeros but for a two as the eighth sample. -/
def strayTwo : List Int8 := [0, 0, 0, 0, 0, 0, 0, 2] ++ List.replicate 16 0

/-- The two adds two bytes to the packet, while the packed length byte is that of zeros. -/
theorem lengthFirst_not_alike :
    ∃ early t s, (run lengthFirst ⟨0, 0, false⟩ [[1, 0]]).history = early ++ [t] ∧ Starts t ∧
      t.after = .ok s ∧ strayTwo.map lsb = (List.replicate 24 0).map lsb ∧
      captureEnd lengthFirst s strayTwo = some (24, .published [0, 0, 0]) ∧
      captureEnd lengthFirst s (List.replicate 24 0) = some (8, .published [0]) ∧
      ¬ EndAlike lengthFirst s strayTwo (List.replicate 24 0) := by
  refine ⟨(run lengthFirst ⟨0, 0, false⟩ [[1, 0]]).history.take 1,
    (run lengthFirst ⟨0, 0, false⟩ [[1, 0]]).history.getLast (by decide),
    captured lengthFirst [], by rfl, ⟨by decide, captured lengthFirst [], by rfl, by decide⟩,
    by rfl, by decide, by decide, by decide, fun alike => ?_⟩
  have ends := alike.ends
  revert ends
  decide

/-- The second bit of a three lands where the sample before it has put a one. -/
theorem least_significant_bits_lengthFirst :
    EndAlike lengthFirst (captured lengthFirst []) [1, 3, 0, 0, 0, 0, 0, 0, 1]
      [1, 1, 0, 0, 0, 0, 0, 0, 1] :=
  (@least_significant_bits lengthFirst rfl rfl (by decide) ⟨0, 0, false⟩ [[1, 0]]
    ((run lengthFirst ⟨0, 0, false⟩ [[1, 0]]).history.take 1)
    ((run lengthFirst ⟨0, 0, false⟩ [[1, 0]]).history.getLast (by decide)) []
    (captured lengthFirst []) (by rfl) ⟨by decide, captured lengthFirst [], by rfl, by decide⟩
    (by rfl) [1, 3, 0, 0, 0, 0, 0, 0, 1] [1, 1, 0, 0, 0, 0, 0, 0, 1] (by decide)).mpr fun _ =>
      ⟨(shiftInAll_eq_iff rfl).mp (by decide), (shiftInAll_eq_iff rfl).mp (by decide)⟩

end GrReveng.PacketDeframer
