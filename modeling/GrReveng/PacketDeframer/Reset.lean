import GrReveng.PacketDeframer.Steps

/-!
# Captures start fresh

What a packet leaves in the members of a capture does not reach a later packet: the first sample
behind the next sync word finds them all set again. In fixed length mode `d_pkt_len` is an
argument and in variable length mode it belongs to the capture, so two searching states are alike
when their registers agree and in fixed length mode their packet lengths too. Nothing is assumed
on the arguments, so this holds also where `reserve` throws or the sums wrap.
-/

namespace GrReveng.PacketDeframer

open Reactive

variable {cfg : Config}

/-- The state is left by some calls of `work` on a fresh block. -/
def Reachable (s : cfg.State) : Prop :=
  ∃ garbage chunks, (run cfg garbage chunks).final = .ok s

/-- The states agree except in the members that belong to a capture. In fixed length mode the
packet length is not one of them. -/
structure SameOutside (s r : cfg.State) : Prop where
  /-- The search registers. -/
  search : s.search = r.search
  /-- The capture flags. -/
  inSync : s.inSync = r.inSync
  /-- The packet length of fixed length mode. -/
  pktLen : cfg.fixedLen = true → s.pktLen = r.pktLen

/-- The state is reachable up to the members of a capture. -/
def Resembles (s : cfg.State) : Prop := ∃ r, Reachable r ∧ SameOutside s r

/-- A reachable state resembles itself. -/
theorem Reachable.resembles {s : cfg.State} (reachable : Reachable s) : Resembles s :=
  ⟨s, reachable, rfl, rfl, fun _ => rfl⟩

/-- A state that differs from a reachable one only in uninitialised members resembles it. -/
theorem Reachable.resembles_uninitialised {s : cfg.State} (reachable : Reachable s)
    (garbage : Uninitialised) :
    Resembles ({ s with
      tmpByte := garbage.tmpByte
      rxBitCnt := garbage.rxBitCnt
      haveLen := garbage.haveLen } : cfg.State) :=
  ⟨s, reachable, rfl, rfl, fun _ => rfl⟩

/-- In fixed length mode the packet length is the argument, and a capture knows it. -/
structure FixedLength (s : cfg.State) : Prop where
  /-- The packet length is never written. -/
  pktLen : cfg.fixedLen = true → s.pktLen = cfg.pktLen
  /-- A capture does not wait for a length byte. -/
  haveLen : cfg.fixedLen = true → s.inSync = true → s.haveLen = true

/-- A started capture of fixed length mode knows its length and keeps it. -/
theorem startCapture_fixed (mode : cfg.fixedLen = true) {s next : cfg.State}
    (started : startCapture cfg s = .ok next) : next.pktLen = s.pktLen ∧ next.haveLen = true := by
  by_cases sign : 0 ≤ s.pktLen.toInt
  · rw [startCapture_ok fun _ => sign] at started
    cases Except.ok.inj started
    exact ⟨if_pos mode, mode⟩
  · rw [startCapture_error mode (by omega)] at started
    contradiction

/-- Every step keeps the packet length of fixed length mode. -/
theorem FixedLength.step {s next : cfg.State} {x : Int8} (fixed : FixedLength s)
    (stepped : (react cfg s x).after = .ok next) : FixedLength next := by
  cases mode : cfg.fixedLen with
  | false => exact ⟨fun known => by simp [mode] at known, fun known => by simp [mode] at known⟩
  | true =>
    have length := fixed.pktLen mode
    cases running : s.inSync with
    | true =>
      have known := fixed.haveLen mode running
      have kept : (bufferSymbol cfg s x).pktLen = cfg.pktLen := by
        rw [bufferSymbol_pktLen, length]
      have still : (bufferSymbol cfg s x).haveLen = true := by rw [bufferSymbol_haveLen, known]
      rw [react, if_pos running, addSymbol_of_haveLen x known] at stepped
      dsimp only at stepped
      split at stepped
      · cases Except.ok.inj stepped
        exact ⟨fun _ => kept, fun _ _ => still⟩
      · cases Except.ok.inj stepped
        exact ⟨fun _ => kept, fun _ _ => still⟩
    | false =>
      by_cases found : s.search.push x = ShiftRegister.ofWord cfg.sync
      · rw [react_search_hit running found] at stepped
        have started := startCapture_fixed mode stepped
        exact ⟨fun _ => started.1.trans length, fun _ _ => started.2⟩
      · rw [react_search_miss running found] at stepped
        cases Except.ok.inj stepped
        exact ⟨fun _ => length, fun _ capturing => by simp [running] at capturing⟩

/-- Reachable states have the packet length of fixed length mode. -/
theorem Reachable.fixedLength {s : cfg.State} (reachable : Reachable s) : FixedLength s := by
  obtain ⟨garbage, chunks, final⟩ := reachable
  rw [run, feed_eq_work] at final
  have start : FixedLength (make cfg garbage) :=
    ⟨fun _ => rfl, fun _ running => by simp [make] at running⟩
  exact (work_state_invariant (react cfg) (fun _ _ _ _ fixed stepped => fixed.step stepped)
    start).2 s final

/-- No sample can tell the states apart: they agree outside the members of a capture, and in
these too while a capture is running. -/
structure Alike (s t : cfg.State) : Prop where
  /-- The members that a search reads. -/
  outside : SameOutside s t
  /-- A capture reads all members. -/
  capture : s.inSync = true → s = t

/-- A state is like itself. -/
theorem Alike.refl (s : cfg.State) : Alike s s :=
  ⟨⟨rfl, rfl, fun _ => rfl⟩, fun _ => rfl⟩

/-- A capture starts alike from states that agree outside the members of a capture: each of the
others is written, and the room is reserved for the same length. -/
theorem startCapture_alike {s t : cfg.State} (search : s.search = t.search)
    (length : cfg.fixedLen = true → s.pktLen = t.pktLen) :
    startCapture cfg s = startCapture cfg t := by
  cases mode : cfg.fixedLen with
  | false => simp only [startCapture, mode, Bool.false_eq_true, ↓reduceIte, search]
  | true => simp only [startCapture, mode, ↓reduceIte, search, length mode]

/-- One sample keeps states alike and makes them emit the same. -/
theorem Alike.step {s t : cfg.State} (alike : Alike s t) (x : Int8) :
    TransitionRelated Alike Eq Eq (transition (react cfg) s x) (transition (react cfg) t x) := by
  have same : ∀ result : Except StdException cfg.State, AfterRelated Alike result result := by
    intro result
    cases result with
    | error e => exact .error e e
    | ok next => exact .ok (.refl next)
  have copies : ∀ emitted : List (List UInt8), List.Forall₂ Eq emitted emitted :=
    fun emitted => List.forall₂_same.mpr fun _ _ => rfl
  cases running : s.inSync with
  | true =>
    cases alike.capture running
    exact ⟨alike, rfl, copies _, same _⟩
  | false =>
    have idle : t.inSync = false := by rw [← alike.outside.inSync, running]
    have search : s.search.push x = t.search.push x := by rw [alike.outside.search]
    by_cases found : t.search.push x = ShiftRegister.ofWord cfg.sync
    · have started := @startCapture_alike cfg { s with search := s.search.push x }
        { t with search := t.search.push x } search alike.outside.pktLen
      have related := same (startCapture cfg { t with search := t.search.push x })
      nth_rewrite 1 [← started] at related
      exact .of_reactions alike rfl (react_search_hit running (search.trans found))
        (react_search_hit idle found) .nil related
    · have miss : s.search.push x ≠ ShiftRegister.ofWord cfg.sync := by
        rw [search]
        exact found
      have pushed : Alike { s with search := s.search.push x }
          { t with search := t.search.push x } :=
        ⟨⟨search, alike.outside.inSync, alike.outside.pktLen⟩,
          fun capturing => by simp [running] at capturing⟩
      exact .of_reactions alike rfl (react_search_miss running miss)
        (react_search_miss idle found) .nil (.ok pushed)

/-- Searching states that resemble reachable ones and have searched the same are alike. -/
theorem Resembles.alike {s t : cfg.State} (left : Resembles s) (right : Resembles t)
    (searching : s.inSync = false) (idle : t.inSync = false) (search : s.search = t.search) :
    Alike s t := by
  obtain ⟨r, reachable, same⟩ := left
  obtain ⟨r', reachable', same'⟩ := right
  refine ⟨⟨search, searching.trans idle.symm, fun mode => ?_⟩, fun capturing => ?_⟩
  · rw [same.pktLen mode, same'.pktLen mode, reachable.fixedLength.pktLen mode,
      reachable'.fixedLength.pktLen mode]
  · rw [searching] at capturing
    contradiction

/-- Two searching states with the same search register, each reachable up to the members of a
capture, publish the same data at the same places of every continuation, however it is split. -/
theorem leftovers_forgotten {s t : cfg.State} (left : Resembles s) (right : Resembles t)
    (searching : s.inSync = false) (idle : t.inSync = false) (search : s.search = t.search)
    {chunks chunks' : List (List Int8)} (stream : chunks.flatten = chunks'.flatten) :
    (feed (react cfg) s chunks).history.map Transition.emitted =
      (feed (react cfg) t chunks').history.map Transition.emitted := by
  have alike := left.alike right searching idle search
  rw [feed_eq_work, feed_eq_work, ← stream]
  have related := (@work_related _ _ _ _ _ _ _ _ (react cfg) (react cfg) Alike Eq Eq
    chunks.flatten chunks.flatten s t (fun s t x y _ _ alike same => same ▸ alike.step x)
    (List.forall₂_same.mpr fun _ _ => rfl) alike).1
  exact emitted_related related

/-- Packets whose length byte comes first and counts at most one more byte. -/
def oneMore : Config := ⟨"", [1, 0], false, 0, 1, 0, 0, true⟩

/-- The state behind a published packet that has no byte but its length byte. -/
def afterPacket : oneMore.State :=
  ⟨0, 8, ShiftRegister.ofWord [1, 0], false, true, [0], 8⟩

/-- The state behind a packet that is refused for its length byte. -/
def afterRefusal : oneMore.State :=
  ⟨0, 8, ShiftRegister.ofWord [1, 0], false, true, [-1], 2048⟩

/-- A published packet and a refused one, with an indeterminate byte in its place, leave nothing
to a continuation that has one packet. -/
theorem leftovers_forgotten_oneMore :
    (feed (react oneMore) afterPacket [[1, 0, 0, 0], [0, 0, 0, 0, 0, 0]]).history.map
        Transition.emitted =
      (feed (react oneMore) { afterRefusal with tmpByte := 77 }
        [[1, 0, 0, 0, 0, 0, 0, 0, 0, 0]]).history.map Transition.emitted ∧
    (feed (react oneMore) afterPacket [[1, 0, 0, 0], [0, 0, 0, 0, 0, 0]]).published = [[0]] := by
  have packet : Reachable afterPacket :=
    ⟨⟨0, 0, false⟩, [[1, 0, 0, 0, 0, 0, 0, 0, 0, 0]], by rfl⟩
  have refusal : Reachable afterRefusal :=
    ⟨⟨0, 0, false⟩, [[1, 0, 1, 1, 1, 1, 1, 1, 1, 1]], by rfl⟩
  exact ⟨leftovers_forgotten packet.resembles (refusal.resembles_uninitialised ⟨77, 8, true⟩)
    rfl rfl rfl rfl, by decide⟩

end GrReveng.PacketDeframer
