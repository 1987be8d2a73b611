import GrReveng.PacketDeframer.Capture

/-!
# Stretches of a run

A run of the deframer is made of three kinds of stretches: a search that does not meet the sync
word, a search whose last sample completes it, and the samples of a capture. `work` is computed
on each of them here. For runs of any shape, `Tracks` is the invariant that ties the state to the
history: a running capture is the capture of the samples consumed since it began.
-/

namespace GrReveng.PacketDeframer

open Reactive

variable {cfg : Config}

/-- A search that does not meet the sync word only fills the register. -/
theorem work_quiet {s : cfg.State} {xs : List Int8} (searching : s.inSync = false)
    (quiet : s.search.Quiet xs) :
    (work (react cfg) s xs).final = .ok { s with search := s.search.pushAll xs } ∧
      (work (react cfg) s xs).published = [] ∧
      ∀ t ∈ (work (react cfg) s xs).history, t.before.inSync = false := by
  induction xs generalizing s with
  | nil => exact ⟨rfl, rfl, fun t member => by simp at member⟩
  | cons x xs ih =>
    have missed := ShiftRegister.quiet_cons.mp quiet
    have first := work_cons (react cfg) xs (react_search_miss searching missed.1)
    have rest := ih (s := { s with search := s.search.push x }) searching missed.2
    rw [first.1, first.2.1, first.2.2]
    refine ⟨rest.1, rest.2.1, fun t member => ?_⟩
    cases List.mem_cons.mp member with
    | inl here => rw [here]; exact searching
    | inr later => exact rest.2.2 t later

/-- The members at the start of a capture are those of a capture of no samples. -/
theorem startCapture_captured (framed : cfg.Framed) {s : cfg.State}
    (length : cfg.fixedLen = true → s.pktLen = cfg.pktLen)
    (found : s.search = ShiftRegister.ofWord cfg.sync) :
    startCapture cfg s = .ok (captured cfg []) := by
  rw [startCapture_ok fun mode => by have := framed.fixed mode; rw [length mode]; omega, found]
  cases mode : cfg.fixedLen with
  | true => simp [captured, Known, target, mode, length mode]
  | false => simp [captured, Known, mode, Config.headerBits]

/-- The sample that completes the sync word starts a capture of no samples. -/
theorem react_starts (framed : cfg.Framed) {s : cfg.State} {x : Int8} (searching : s.inSync = false)
    (length : cfg.fixedLen = true → s.pktLen = cfg.pktLen)
    (found : s.search.push x = ShiftRegister.ofWord cfg.sync) :
    react cfg s x = ⟨[], .ok (captured cfg [])⟩ := by
  have started := startCapture_captured framed (s := { s with search := s.search.push x })
    length found
  rw [react_search_hit searching found, started]

/-- A search that meets the sync word with its last sample starts a capture. -/
theorem work_finds (framed : cfg.Framed) {s : cfg.State} {xs : List Int8}
    (searching : s.inSync = false) (length : cfg.fixedLen = true → s.pktLen = cfg.pktLen)
    (finds : s.search.Finds xs) :
    (work (react cfg) s xs).final = .ok (captured cfg []) ∧
      (work (react cfg) s xs).published = [] ∧
      ∀ t ∈ (work (react cfg) s xs).history, t.before.inSync = false := by
  have quiet := work_quiet searching finds.quiet
  have step := react_starts framed (s := { s with search := s.search.pushAll xs.dropLast })
    searching length finds.push_last
  have last := work_last (react cfg) finds.nonempty ⟨quiet.1, quiet.2.1⟩ step
  refine ⟨last.1, last.2.1, fun t member => ?_⟩
  rw [last.2.2, List.mem_append, List.mem_singleton] at member
  cases member with
  | inl earlier => exact quiet.2.2 t earlier
  | inr found => rw [found]; exact searching

/-- A sync word with a sample that is no bit is never found in bits. -/
theorem searching_foreign {foreign : Int8} (member : foreign ∈ cfg.sync)
    (other : ¬Binary foreign) (garbage : Uninitialised) {chunks : List (List Int8)}
    (binary : ∀ x ∈ chunks.flatten, Binary x) :
    ∀ t ∈ (run cfg garbage chunks).history, t.before.inSync = false ∧ t.emitted = [] := by
  have missed : ∀ (s : cfg.State) (x : Int8), (∀ y ∈ s.search.items, Binary y) → Binary x →
      (∀ y ∈ (s.search.push x).items, Binary y) ∧
        s.search.push x ≠ ShiftRegister.ofWord cfg.sync := by
    intro s x held bit
    have pushed := ShiftRegister.forall_push held bit
    refine ⟨pushed, fun found => other (pushed foreign ?_)⟩
    rw [found]
    exact member
  have searches := (@work_state_invariant cfg.State Int8 (List UInt8) StdException (react cfg)
    (fun now => now.inSync = false ∧ ∀ y ∈ now.search.items, Binary y) (make cfg garbage)
    chunks.flatten (fun now x next inside held after => by
      have miss := missed now x held.2 (binary x inside)
      rw [react_search_miss held.1 miss.2] at after
      cases Except.ok.inj after
      exact ⟨held.1, miss.1⟩) ⟨rfl, fun y inside => absurd inside List.not_mem_nil⟩).1
  rw [run, feed_eq_work]
  intro t present
  have step := work_steps (react cfg) present
  have held := searches t present
  refine ⟨held.1, ?_⟩
  rw [step.1, transition, react_search_miss held.1 (missed t.before t.input held.2
    (binary t.input step.2)).2]

/-- Bits without the sync word publish nothing. -/
theorem published_foreign {foreign : Int8} (member : foreign ∈ cfg.sync)
    (other : ¬Binary foreign) (garbage : Uninitialised) {chunks : List (List Int8)}
    (binary : ∀ x ∈ chunks.flatten, Binary x) : published cfg garbage chunks = [] := by
  apply List.flatMap_eq_nil_iff.mpr
  intro t present
  exact (searching_foreign member other garbage binary t present).2

/-- A sample after which the capture is still open joins the capture. -/
theorem react_captured_open (framed : cfg.Framed) {u : List Int8} {x : Int8}
    (opened : Open cfg u) (later : Open cfg (u ++ [x])) :
    react cfg (captured cfg u) x = ⟨[], .ok (captured cfg (u ++ [x]))⟩ := by
  have length : (u ++ [x]).length = u.length + 1 := by simp
  rcases react_captured framed opened x with joined | ends | refused | negative
  · exact joined.2
  · have below := (later ends.1).1
    have reached := ends.2.2.1
    omega
  · exact absurd refused.1 (later (.inr (by omega))).2
  · have below := (later (.inr (by omega))).1
    have sign := negative.2.2.1
    omega

/-- A sample that reaches the announced end publishes the packet. -/
theorem react_captured_end (framed : cfg.Framed) {u : List Int8} {x : Int8}
    (opened : Open cfg u) (known : Known cfg (u ++ [x]))
    (sign : 0 ≤ (target cfg (u ++ [x])).toInt)
    (reached : (target cfg (u ++ [x])).toInt ≤ u.length + 1) :
    react cfg (captured cfg u) x = ⟨[payload cfg (u ++ [x])], .ok (finished cfg (u ++ [x]))⟩ := by
  have length : (u ++ [x]).length = u.length + 1 := by simp
  rcases react_captured framed opened x with joined | ends | refused | negative
  · have below := (joined.1 known).1
    omega
  · exact ends.2.2.2
  · have below := refused.2.2.1
    omega
  · have below := negative.2.2.1
    omega

/-- A sample that completes a refused length byte before the announced end drops the capture. -/
theorem react_captured_refused (framed : cfg.Framed) {u : List Int8} {x : Int8}
    (opened : Open cfg u) (refused : Refused cfg (u ++ [x]))
    (further : (u.length + 1 : Int) < (target cfg (u ++ [x])).toInt) :
    react cfg (captured cfg u) x = ⟨[], .ok (finished cfg (u ++ [x]))⟩ := by
  rcases react_captured framed opened x with joined | ends | dropped | negative
  · exact absurd refused (joined.1 (.inr refused.2.1)).2
  · have reached := ends.2.2.1
    omega
  · exact dropped.2.2.2
  · have sign := negative.2.2.1
    omega

/-- Samples through which the capture stays open. -/
theorem work_open (framed : cfg.Framed) {u w : List Int8}
    (opened : ∀ front back, w = front ++ back → Open cfg (u ++ front)) :
    (work (react cfg) (captured cfg u) w).final = .ok (captured cfg (u ++ w)) ∧
      (work (react cfg) (captured cfg u) w).published = [] := by
  induction w generalizing u with
  | nil => simp [Run.published]
  | cons x w ih =>
    have now : Open cfg u := by simpa using opened [] (x :: w) rfl
    have later : Open cfg (u ++ [x]) := opened [x] w rfl
    have first := work_cons (react cfg) w (react_captured_open framed now later)
    have rest := @ih (u ++ [x]) fun front back split => by
      simpa using opened (x :: front) back (by simp [split])
    rw [first.1, first.2.1]
    exact ⟨by simpa using rest.1, rest.2⟩

/-- Samples in front of the last bit of the length byte are captured. -/
theorem work_header (framed : cfg.Framed) (mode : cfg.fixedLen = false) {w : List Int8}
    (short : w.length < cfg.headerBits) :
    (work (react cfg) (captured cfg []) w).final = .ok (captured cfg w) := by
  have opened : ∀ front back, w = front ++ back → Open cfg ([] ++ front) := by
    intro front back split known
    have parts : w.length = front.length + back.length := by rw [split, List.length_append]
    exact absurd known (not_known_of_short mode (by rw [List.nil_append]; omega))
  have final := (work_open framed opened).1
  rw [List.nil_append] at final
  exact final

/-- The samples are a whole packet: open up to the last one, which reaches the announced end. -/
structure Complete (cfg : Config) (u : List Int8) : Prop where
  /-- The capture is open before the last sample. -/
  opened : ∀ front back, u = front ++ back → back ≠ [] → Open cfg front
  /-- The end is known. -/
  known : Known cfg u
  /-- The announced end is a length. -/
  sign : 0 ≤ (target cfg u).toInt
  /-- The end is reached. -/
  reached : (target cfg u).toInt ≤ u.length
  /-- A packet is never empty. -/
  nonempty : u ≠ []

/-- The samples are a header whose length byte is refused before the announced end. -/
structure Dropped (cfg : Config) (u : List Int8) : Prop where
  /-- The capture is open before the last sample. -/
  opened : ∀ front back, u = front ++ back → back ≠ [] → Open cfg front
  /-- The length byte is refused. -/
  refused : Refused cfg u
  /-- The end is not reached. -/
  further : (u.length : Int) < (target cfg u).toInt
  /-- A header is never empty. -/
  nonempty : u ≠ []

/-- The run over all samples of a capture but the last. -/
theorem work_dropLast (framed : cfg.Framed) {u : List Int8} (nonempty : u ≠ [])
    (opened : ∀ front back, u = front ++ back → back ≠ [] → Open cfg front) :
    (work (react cfg) (captured cfg []) u.dropLast).final = .ok (captured cfg u.dropLast) ∧
      (work (react cfg) (captured cfg []) u.dropLast).published = [] ∧ Open cfg u.dropLast := by
  have whole := List.dropLast_append_getLast nonempty
  obtain ⟨final, published⟩ := @work_open cfg framed [] u.dropLast fun front back split =>
    opened front (back ++ [u.getLast nonempty])
      (by rw [← List.append_assoc, ← split, whole]) (by simp)
  exact ⟨by simpa using final, published,
    opened u.dropLast [u.getLast nonempty] whole.symm (by simp)⟩

/-- A whole packet is published with its last sample. -/
theorem work_complete (framed : cfg.Framed) {u : List Int8} (complete : Complete cfg u) :
    (work (react cfg) (captured cfg []) u).final = .ok (finished cfg u) ∧
      (work (react cfg) (captured cfg []) u).published = [payload cfg u] ∧
      ∃ early last, (work (react cfg) (captured cfg []) u).history = early ++ [last] ∧
        last.before.inSync = true := by
  have before := work_dropLast framed complete.nonempty complete.opened
  have whole := List.dropLast_append_getLast complete.nonempty
  have length := congrArg List.length whole
  rw [List.length_append, List.length_singleton] at length
  have reached := complete.reached
  have step := react_captured_end framed (x := u.getLast complete.nonempty) before.2.2
    (by rw [whole]; exact complete.known) (by rw [whole]; exact complete.sign)
    (by rw [whole]; omega)
  have last := work_last (react cfg) complete.nonempty ⟨before.1, before.2.1⟩ step
  rw [whole] at last
  exact ⟨last.1, last.2.1, _, _, last.2.2, rfl⟩

/-- A header with a refused length byte publishes nothing and ends the capture. -/
theorem work_dropped (framed : cfg.Framed) {u : List Int8} (dropped : Dropped cfg u) :
    (work (react cfg) (captured cfg []) u).final = .ok (finished cfg u) ∧
      (work (react cfg) (captured cfg []) u).published = [] := by
  have before := work_dropLast framed dropped.nonempty dropped.opened
  have whole := List.dropLast_append_getLast dropped.nonempty
  have length := congrArg List.length whole
  rw [List.length_append, List.length_singleton] at length
  have further := dropped.further
  have step := react_captured_refused framed (x := u.getLast dropped.nonempty) before.2.2
    (by rw [whole]; exact dropped.refused) (by rw [whole]; omega)
  have last := work_last (react cfg) dropped.nonempty ⟨before.1, before.2.1⟩ step
  rw [whole] at last
  exact ⟨last.1, last.2.1⟩

/-- Every block can be brought to the start of a capture, and with binary samples when its sync
word is binary. -/
theorem exists_capture (framed : cfg.Framed) (garbage : Uninitialised) :
    ∃ lead, ((∀ x ∈ cfg.sync, Binary x) → ∀ x ∈ lead, Binary x) ∧
      (work (react cfg) (make cfg garbage) lead).final = .ok (captured cfg []) := by
  by_cases empty : cfg.sync = []
  · -- An empty register equals an empty sync word after any sample.
    refine ⟨[0], fun _ x member => .inl (List.mem_singleton.mp member), ?_⟩
    have found : (make cfg garbage).search.push 0 = ShiftRegister.ofWord cfg.sync := by
      have short := ((make cfg garbage).search.push 0).bounded
      have size := congrArg List.length empty
      rw [List.length_nil] at size
      ext1
      rw [List.length_eq_zero_iff.mp
        (show ((make cfg garbage).search.push 0).items.length = 0 by omega)]
      exact empty.symm
    exact (work_cons (react cfg) [] (react_starts framed rfl (fun _ => rfl) found)).1
  · exact ⟨cfg.sync, fun binary => binary,
      (work_finds framed rfl (fun _ => rfl) (ShiftRegister.finds_word empty)).1⟩

/-- The samples consumed by the current capture. -/
def samplesSince (past : List cfg.Transition) : List Int8 :=
  (past.rtakeWhile fun t => t.before.inSync).map Transition.input

/-- One more transition joins the current capture, or shows that none was running. -/
theorem samplesSince_concat (past : List cfg.Transition) (t : cfg.Transition) :
    samplesSince (past ++ [t]) =
      if t.before.inSync then samplesSince past ++ [t.input] else [] := by
  unfold samplesSince
  cases running : t.before.inSync with
  | true =>
    rw [List.rtakeWhile_concat_pos (fun t : cfg.Transition => t.before.inSync) _ _ running]
    simp
  | false =>
    rw [List.rtakeWhile_concat_neg (fun t : cfg.Transition => t.before.inSync) _ _
      (by simp [running])]
    simp

/-- The state fits the history: a running capture is the capture of the samples since it began,
and in fixed length mode the packet length is the argument. -/
structure Tracks (past : List cfg.Transition) (now : cfg.State) : Prop where
  /-- The packet length of fixed length mode is never written. -/
  fixed : cfg.fixedLen = true → now.pktLen = cfg.pktLen
  /-- The state of a running capture is computed from its samples. -/
  capture : now.inSync = true →
    now = captured cfg (samplesSince past) ∧ Open cfg (samplesSince past)

/-- A fresh block fits the empty history. -/
theorem tracks_make (garbage : Uninitialised) : Tracks [] (make cfg garbage) :=
  ⟨fun _ => rfl, fun running => by simp [make] at running⟩

/-- The end of a fixed packet is the argument. -/
theorem captured_pktLen (mode : cfg.fixedLen = true) (u : List Int8) :
    (captured cfg u).pktLen = cfg.pktLen := by
  simp [captured, Known, target, mode]

/-- Every step keeps the state in agreement with the history. -/
theorem Tracks.step (framed : cfg.Framed) {past : List cfg.Transition} {now next : cfg.State}
    {x : Int8} (tracks : Tracks past now) (stepped : (react cfg now x).after = .ok next) :
    Tracks (past ++ [transition (react cfg) now x]) next := by
  cases running : now.inSync with
  | true =>
    obtain ⟨state, opened⟩ := tracks.capture running
    have since : samplesSince (past ++ [transition (react cfg) now x]) =
        samplesSince past ++ [x] := by
      rw [samplesSince_concat, transition, if_pos running]
    rw [state] at stepped
    rcases react_captured framed opened x with joined | ends | refused | negative
    · rw [joined.2] at stepped
      cases Except.ok.inj stepped
      exact ⟨fun mode => captured_pktLen mode _, fun _ => by rw [since]; exact ⟨rfl, joined.1⟩⟩
    · rw [ends.2.2.2] at stepped
      cases Except.ok.inj stepped
      exact ⟨fun mode => captured_pktLen mode _, fun capturing => by simp [finished] at capturing⟩
    · rw [refused.2.2.2] at stepped
      cases Except.ok.inj stepped
      exact ⟨fun mode => captured_pktLen mode _, fun capturing => by simp [finished] at capturing⟩
    · rw [negative.2.2.2] at stepped
      contradiction
  | false =>
    by_cases found : now.search.push x = ShiftRegister.ofWord cfg.sync
    · rw [react_starts framed running tracks.fixed found] at stepped
      cases Except.ok.inj stepped
      refine ⟨fun mode => captured_pktLen mode _, fun _ => ?_⟩
      rw [samplesSince_concat, transition, running]
      exact ⟨rfl, open_nil framed⟩
    · rw [react_search_miss running found] at stepped
      cases Except.ok.inj stepped
      exact ⟨tracks.fixed, fun capturing => by simp [running] at capturing⟩

/-- In every run the state fits the history, before each transition and at the end. -/
theorem run_tracks (framed : cfg.Framed) (garbage : Uninitialised) (chunks : List (List Int8)) :
    (∀ early t late, (run cfg garbage chunks).history = early ++ t :: late →
        Tracks early t.before ∧ t = transition (react cfg) t.before t.input ∧
          t.input ∈ chunks.flatten) ∧
      ∀ last, (run cfg garbage chunks).final = .ok last →
        Tracks (run cfg garbage chunks).history last := by
  rw [run, feed_eq_work]
  exact work_invariant (react cfg)
    (fun _ _ _ _ _ tracks stepped => tracks.step framed stepped) [] (tracks_make garbage)

end GrReveng.PacketDeframer
