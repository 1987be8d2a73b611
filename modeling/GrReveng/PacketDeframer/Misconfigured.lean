import GrReveng.PacketDeframer.Decoder

/-!
# Arguments that make no sense

The constructor checks none of its arguments. A fixed length of zero makes packets of one sample, a
negative one stops the block at the first sync word, and with a negative offset the first sync word
begins a capture that finds no length byte for nearly `2 ^ 32` samples.
-/

namespace GrReveng.PacketDeframer

open Reactive

variable {cfg : Config}

/-- The search before the first sync word. -/
theorem work_absent {stream : List Int8} (garbage : Uninitialised)
    (absent : behindWord cfg.sync [] stream = none) :
    (work (react cfg) (make cfg garbage) stream).final =
        .ok { make cfg garbage with search := (make cfg garbage).search.pushAll stream } ∧
      (work (react cfg) (make cfg garbage) stream).published = [] := by
  have quiet := @work_quiet cfg (make cfg garbage) stream rfl (quiet_of_absent absent)
  exact ⟨quiet.1, quiet.2.1⟩

/-- The first sync word of a stream, found by a state that has only searched. -/
theorem work_first {stream rest : List Int8} (garbage : Uninitialised)
    (found : behindWord cfg.sync [] stream = some rest) :
    ∃ front last, ∃ s : cfg.State, stream = front ++ last :: rest ∧ s.inSync = false ∧
      s.pktLen = cfg.pktLen ∧
      (work (react cfg) (make cfg garbage) front).final = .ok s ∧
      (work (react cfg) (make cfg garbage) front).published = [] ∧
      s.search.push last = ShiftRegister.ofWord cfg.sync := by
  have ⟨front, split, nonempty, ends, before⟩ := behindWord_eq_some found
  have finds : (make cfg garbage).search.Finds front :=
    finds_of_found (behindWord_last nonempty ends before)
  have ⟨final, published⟩ := work_absent garbage before
  have whole := List.dropLast_append_getLast nonempty
  refine ⟨front.dropLast, front.getLast nonempty, _, ?_, rfl, rfl, final, published,
    finds.push_last⟩
  rw [← List.singleton_append, ← List.append_assoc, whole, split]

/-- The state at the start of a capture of a fixed length of zero. -/
theorem startCapture_zero (mode : cfg.fixedLen = true) (zero : cfg.pktLen = 0) {s : cfg.State}
    (length : s.pktLen = cfg.pktLen) (found : s.search = ShiftRegister.ofWord cfg.sync) :
    startCapture cfg s = .ok (captured cfg []) := by
  have sign : cfg.fixedLen = true → 0 ≤ s.pktLen.toInt := by
    intro _
    rw [length, zero]
    decide
  rw [startCapture_ok sign, found]
  simp [captured, Known, target, mode, length]

/-- A capture of a fixed length of zero ends with its first sample. -/
theorem react_captured_zero (mode : cfg.fixedLen = true) (zero : cfg.pktLen = 0) (x : Int8) :
    react cfg (captured cfg []) x = ⟨[payload cfg [x]], .ok (finished cfg [x])⟩ := by
  have known : (captured cfg []).haveLen = true := decide_eq_true (.inl mode)
  have stored := @bufferSymbol_captured cfg [] x
  have length : (captured cfg []).pktLen = 0 := (captured_pktLen mode []).trans zero
  have after : (captured cfg [x]).haveLen = true := decide_eq_true (.inl mode)
  have length' : (captured cfg [x]).pktLen = 0 := (captured_pktLen mode [x]).trans zero
  have same : bufferSymbol cfg (captured cfg []) x = captured cfg [x] := by
    rw [stored, known, length, List.nil_append]
    rw [← after, ← length']
  have capturing : (captured cfg []).inSync = true := rfl
  rw [react, if_pos capturing, addSymbol_of_haveLen x known, same]
  dsimp only
  rw [if_pos ⟨after, by rw [length']; exact UInt32.zero_le⟩, packet_captured]
  rfl

/-- The block with a fixed length of zero is a receiver of frames of one sample. -/
theorem framer_zero (mode : cfg.fixedLen = true) (zero : cfg.pktLen = 0) :
    Framer (react cfg) cfg.sync (fun _ => some ⟨1, true⟩) (payload cfg) (Searches cfg)
      (captured cfg []) where
  quiet := fun _ _ _ searches absent => searches.quiet absent
  finds := by
    rintro context s xs searches found
    rw [← searches.register] at found
    have finds := finds_of_found found
    have ⟨final, published, _⟩ := work_quiet searches.idle finds.quiet
    have last := finds.push_last
    have step : react cfg { s with search := s.search.pushAll xs.dropLast }
        (xs.getLast finds.nonempty) = ⟨[], .ok (captured cfg [])⟩ := by
      have started := @startCapture_zero cfg mode zero
        { s with search := (s.search.pushAll xs.dropLast).push (xs.getLast finds.nonempty) }
        (searches.length mode) last
      have hit := @react_search_hit cfg { s with search := s.search.pushAll xs.dropLast }
        (xs.getLast finds.nonempty) searches.idle last
      rw [hit, started]
    have ended := work_last (react cfg) finds.nonempty ⟨final, published⟩ step
    exact ⟨ended.1, ended.2.1⟩
  complete := by
    intro rest reach decided fits
    rw [← Option.some.inj decided] at fits ⊢
    cases rest with
    | nil => contradiction
    | cons x rest =>
      have step := react_captured_zero mode zero x
      have start : (work (react cfg) (captured cfg []) []).final = .ok (captured cfg []) := rfl
      have ended := work_concat (react cfg) start step
      exact ⟨_, searches_finished [x], ended.1, ended.2⟩
  short := by
    intro rest short
    have empty : rest.length < 1 := short ⟨1, true⟩ rfl
    rw [List.eq_nil_of_length_eq_zero (by omega : rest.length = 0)]
    rfl

/-- A negative fixed length stops the block at the first sync word. -/
theorem work_negative_length (mode : cfg.fixedLen = true) (negative : cfg.pktLen.toInt < 0)
    (garbage : Uninitialised) (stream : List Int8) :
    (work (react cfg) (make cfg garbage) stream).published = [] ∧
      ((∃ last, (work (react cfg) (make cfg garbage) stream).final = .ok last) ↔
        behindWord cfg.sync [] stream = none) := by
  cases found : behindWord cfg.sync [] stream with
  | none =>
    obtain ⟨final, published⟩ := work_absent garbage found
    exact ⟨published, iff_of_true ⟨_, final⟩ rfl⟩
  | some rest =>
    obtain ⟨front, last, s, split, idle, length, final, published, hit⟩ := work_first garbage found
    have step : react cfg s last = ⟨[], .error .lengthError⟩ := by
      rw [react_search_hit idle hit, startCapture_error mode (by rwa [length])]
    have stops := work_cons_error (react cfg) rest (congrArg Reaction.after step)
    rw [split, work_append_published (react cfg) _ final, published,
      work_append_ok (react cfg) _ final, stops]
    constructor
    · rw [Run.published, List.flatMap_singleton, transition, step]
      rfl
    · refine iff_of_false ?_ (Option.some_ne_none rest)
      rintro ⟨_, ends⟩
      contradiction

/-- The start of a capture in variable length mode. -/
theorem startCapture_variable (mode : cfg.fixedLen = false) (s : cfg.State) :
    ∃ next, startCapture cfg s = .ok next ∧ next.inSync = true ∧ next.haveLen = false ∧
      next.rxBitCnt = 0 :=
  ⟨_, startCapture_ok (by simp [mode]), rfl, mode, rfl⟩

/-- The end of the length byte behind a negative offset. -/
theorem toInt_lengthEnd (low : -2 ^ 28 ≤ cfg.pktLenOffset.toInt)
    (negative : cfg.pktLenOffset.toInt < 0) :
    (cfg.pktLenOffsetBits + 8).toInt = 8 * cfg.pktLenOffset.toInt + 8 := by
  have product : cfg.pktLenOffsetBits.toInt = 8 * cfg.pktLenOffset.toInt := by
    rw [Config.pktLenOffsetBits, Int32.toInt_mul]
    change (cfg.pktLenOffset.toInt * 8).bmod (2 ^ 32) = _
    rw [Int.bmod_eq_of_le (by omega) (by omega)]
    omega
  rw [Int32.toInt_add, product]
  change (8 * cfg.pktLenOffset.toInt + 8).bmod (2 ^ 32) = _
  exact Int.bmod_eq_of_le (by omega) (by omega)

/-- A sample that is not counted as the end of the length byte leaves the length unknown. -/
theorem addSymbol_unknown {s : cfg.State} (capturing : s.inSync = true)
    (unknown : s.haveLen = false) {x : Int8}
    (unmet : (bufferSymbol cfg s x).rxBitCnt ≠ (cfg.pktLenOffsetBits + 8).toUInt32) :
    ∃ next, addSymbol cfg s x = .ok next ∧ next.inSync = true ∧ next.haveLen = false ∧
      next.rxBitCnt = s.rxBitCnt + 1 := by
  have kept : (bufferSymbol cfg s x).haveLen = false := by rw [bufferSymbol_haveLen, unknown]
  rw [addSymbol]
  dsimp only
  rw [if_neg (by rw [kept]; exact Bool.false_ne_true)]
  by_cases behind : cfg.pktLenOffsetBits.toUInt32 < (bufferSymbol cfg s x).rxBitCnt
  · rw [if_pos behind, if_neg unmet]
    exact ⟨_, rfl, by simp [capturing], kept, by simp⟩
  · rw [if_neg behind]
    exact ⟨_, rfl, by simp [capturing], kept, by simp⟩

/-- A capture that has no length byte yet goes on with every sample. -/
theorem react_stuck (low : -2 ^ 28 ≤ cfg.pktLenOffset.toInt)
    (negative : cfg.pktLenOffset.toInt < 0) {s : cfg.State} (capturing : s.inSync = true)
    (unknown : s.haveLen = false)
    (room : (s.rxBitCnt.toNat : Int) + 1 < 2 ^ 32 + 8 * cfg.pktLenOffset.toInt + 8) (x : Int8) :
    ∃ next, react cfg s x = ⟨[], .ok next⟩ ∧ next.inSync = true ∧ next.haveLen = false ∧
      next.rxBitCnt.toNat = s.rxBitCnt.toNat + 1 := by
  have stop := toInt_lengthEnd low negative
  have count : (s.rxBitCnt + 1).toNat = s.rxBitCnt.toNat + 1 := by
    rw [UInt32.toNat_add]
    change (s.rxBitCnt.toNat + 1) % 2 ^ 32 = _
    exact Nat.mod_eq_of_lt (by omega)
  have unmet : (bufferSymbol cfg s x).rxBitCnt ≠ (cfg.pktLenOffsetBits + 8).toUInt32 := by
    intro same
    have numbers := congrArg UInt32.toNat same
    have small := (cfg.pktLenOffsetBits + 8).toUInt32.toNat_lt
    rw [bufferSymbol_rxBitCnt, count] at numbers
    rcases toInt_toUInt32 (cfg.pktLenOffsetBits + 8) with plain | wrapped
    · omega
    · omega
  obtain ⟨next, step, still, open', number⟩ := addSymbol_unknown capturing unknown unmet
  refine ⟨next, ?_, still, open', by rw [number, count]⟩
  rw [react, if_pos capturing, step]
  dsimp only
  rw [if_neg (by rw [open']; exact fun both => Bool.false_ne_true both.1)]

/-- Such a capture publishes nothing and stays one. -/
theorem work_stuck (low : -2 ^ 28 ≤ cfg.pktLenOffset.toInt)
    (negative : cfg.pktLenOffset.toInt < 0) {s : cfg.State} {xs : List Int8}
    (capturing : s.inSync = true) (unknown : s.haveLen = false)
    (room : (s.rxBitCnt.toNat : Int) + xs.length < 2 ^ 32 + 8 * cfg.pktLenOffset.toInt + 8) :
    (work (react cfg) s xs).published = [] ∧
      ∃ last, (work (react cfg) s xs).final = .ok last ∧ last.inSync = true ∧
        last.haveLen = false := by
  induction xs generalizing s with
  | nil => exact ⟨rfl, s, rfl, capturing, unknown⟩
  | cons x xs ih =>
    rw [List.length_cons] at room
    have ⟨next, step, still, open', number⟩ :=
      react_stuck low negative capturing unknown (by omega) x
    have ⟨published, ends⟩ := ih still open' (by omega)
    have ⟨final, emitted, _⟩ := work_cons (react cfg) xs step
    rw [final, emitted, published]
    exact ⟨rfl, ends⟩

/-- With a negative offset nothing is published, and the first sync word begins a capture that goes
on without a length. -/
theorem work_negative_offset (mode : cfg.fixedLen = false)
    (low : -2 ^ 28 ≤ cfg.pktLenOffset.toInt) (negative : cfg.pktLenOffset.toInt < 0)
    (garbage : Uninitialised) {stream : List Int8}
    (short : (stream.length : Int) < 2 ^ 32 + 8 * cfg.pktLenOffset.toInt + 8) :
    (work (react cfg) (make cfg garbage) stream).published = [] ∧
      ∃ last, (work (react cfg) (make cfg garbage) stream).final = .ok last ∧
        (last.inSync = true ↔ behindWord cfg.sync [] stream ≠ none) ∧
        (last.inSync = true → last.haveLen = false) := by
  cases found : behindWord cfg.sync [] stream with
  | none =>
    have ⟨final, published⟩ := work_absent garbage found
    have idle : (make cfg garbage).inSync = false := rfl
    exact ⟨published, _, final, iff_of_false (by simp [idle]) (by simp), by simp [idle]⟩
  | some rest =>
    have ⟨front, last, s, split, idle, length, final, published, hit⟩ := work_first garbage found
    have ⟨next, started, capturing, unknown, count⟩ :=
      startCapture_variable mode { s with search := s.search.push last }
    have step := react_search_hit idle hit
    rw [started] at step
    have ended := work_concat (react cfg) final step
    have parts := congrArg List.length split
    rw [List.length_append, List.length_cons] at parts
    have ⟨silent, state, ends, stuck, lacking⟩ :=
      @work_stuck cfg low negative next rest capturing unknown (by
        rw [count]
        change ((0 : Nat) : Int) + _ < _
        omega)
    rw [split, ← List.singleton_append, ← List.append_assoc,
      work_append_published (react cfg) _ ended.1, ended.2, published,
      work_append_ok (react cfg) _ ended.1]
    exact ⟨silent, state, ends, iff_of_true stuck (Option.some_ne_none rest), fun _ => lacking⟩

/-- What a block with unusable arguments does with a stream, however it is split over work calls.
With a fixed length of zero every sync word is followed by a packet of one sample; with a negative
one the first sync word raises; and with a negative offset the block is stuck behind the first sync
word in a capture without a length. -/
theorem misconfigured (garbage : Uninitialised) (chunks : List (List Int8)) :
    (cfg.fixedLen = true → cfg.pktLen = 0 →
      published cfg garbage chunks =
        (frames cfg.sync (fun _ => some ⟨1, true⟩) [] chunks.flatten).map (payload cfg)) ∧
    (cfg.fixedLen = true → cfg.pktLen.toInt < 0 →
      published cfg garbage chunks = [] ∧
        ((∃ last, (run cfg garbage chunks).final = .ok last) ↔
          behindWord cfg.sync [] chunks.flatten = none)) ∧
    (cfg.fixedLen = false → -2 ^ 28 ≤ cfg.pktLenOffset.toInt → cfg.pktLenOffset.toInt < 0 →
      (chunks.flatten.length : Int) < 2 ^ 32 + 8 * cfg.pktLenOffset.toInt + 8 →
        published cfg garbage chunks = [] ∧
          ∃ last, (run cfg garbage chunks).final = .ok last ∧
            (last.inSync = true ↔ behindWord cfg.sync [] chunks.flatten ≠ none) ∧
            (last.inSync = true → last.haveLen = false)) := by
  rw [published, run, feed_eq_work]
  refine ⟨fun mode zero => ?_, fun mode negative => ?_, fun mode low negative short => ?_⟩
  · exact (framer_zero mode zero).work_frames ⟨rfl, fun _ => rfl, rfl⟩ chunks.flatten
  · exact work_negative_length mode negative garbage chunks.flatten
  · exact work_negative_offset mode low negative garbage short

/-- A block that looks for two ones and does not check its arguments. -/
def behindOnes (fixedLen : Bool) (pktLen pktLenOffset : Int32) : Config :=
  ⟨"", [1, 1], fixedLen, pktLen, 0, pktLenOffset, 0, false⟩

/-- The three kinds of arguments behind two ones. -/
theorem misconfigured_behindOnes :
    published (behindOnes true 0 0) ⟨0, 0, false⟩ [[1, 1], [0, 1]] =
        (frames [1, 1] (fun _ => some ⟨1, true⟩) [] [1, 1, 0, 1]).map
          (payload (behindOnes true 0 0)) ∧
      (¬∃ last, (run (behindOnes true (-1) 0) ⟨0, 0, false⟩ [[0], [1, 1]]).final = .ok last) ∧
      published (behindOnes false 0 (-1)) ⟨0, 0, false⟩
        [[1, 1], [1, 1, 1, 1, 1, 1, 1, 1]] = [] ∧
      ∃ last, (run (behindOnes false 0 (-1)) ⟨0, 0, false⟩
        [[1, 1], [1, 1, 1, 1, 1, 1, 1, 1]]).final = .ok last ∧
          last.inSync = true ∧ last.haveLen = false := by
  have zero := (@misconfigured (behindOnes true 0 0) ⟨0, 0, false⟩ [[1, 1], [0, 1]]).1 rfl rfl
  have negative := ((@misconfigured (behindOnes true (-1) 0) ⟨0, 0, false⟩ [[0], [1, 1]]).2.1 rfl
    (by decide)).2
  obtain ⟨silent, last, final, captures, lacks⟩ := (@misconfigured (behindOnes false 0 (-1))
    ⟨0, 0, false⟩ [[1, 1], [1, 1, 1, 1, 1, 1, 1, 1]]).2.2 rfl (by decide) (by decide) (by decide)
  have stuck : last.inSync = true := captures.mpr (by decide)
  exact ⟨zero, fun ended => absurd (negative.mp ended) (by decide), silent, last, final, stuck,
    lacks stuck⟩

end GrReveng.PacketDeframer
