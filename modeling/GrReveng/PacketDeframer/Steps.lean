import GrReveng.PacketDeframer.Block

/-!
# What one sample can do

While searching, a sample is pushed onto the search register and either starts a capture or does
nothing else. While capturing, it leaves the register alone, and in fixed length mode the packet
length too. These facts need no assumption on the lengths, so they hold when the integer
arithmetic of a capture wraps as well.
-/

namespace GrReveng.PacketDeframer

open Reactive

variable {cfg : Config}

/-- The register built by the constructor holds the sync word. -/
@[simp] theorem syncRegister_eq (cfg : Config) :
    cfg.syncRegister = ShiftRegister.ofWord cfg.sync :=
  ShiftRegister.pushAll_empty_word cfg.sync

/-- `reserve` throws exactly on negative arguments. -/
theorem reserve_eq (count : Int32) :
    reserve count = if 0 ≤ count.toInt then .ok () else .error .lengthError := by
  have low := count.le_toInt
  have high := count.toInt_lt
  have extended : count.toInt64.toInt = count.toInt := Int32.toInt_toInt64 count
  have value : (count.toInt64.toUInt64.toNat : Int) = count.toInt % 2 ^ 64 := by
    rw [← extended, ← Int64.toInt_toBitVec, BitVec.toInt_eq_toNat_bmod,
      show (2 : Int) ^ 64 = (2 ^ 64 : Nat) by norm_cast, Int.bmod_emod]
    have bound := count.toInt64.toUInt64.toNat_lt
    exact (Int.emod_eq_of_lt (Int.natCast_nonneg _) (by exact_mod_cast bound)).symm
  unfold reserve maxSize
  by_cases sign : 0 ≤ count.toInt
  · rw [if_pos (by omega), if_pos sign]
  · rw [if_neg (by omega), if_neg sign]

@[simp] theorem bufferSymbol_rxBitCnt (s : cfg.State) (x : Int8) :
    (bufferSymbol cfg s x).rxBitCnt = s.rxBitCnt + 1 := by
  unfold bufferSymbol
  dsimp only
  split <;> [split; skip] <;> rfl

@[simp] theorem bufferSymbol_search (s : cfg.State) (x : Int8) :
    (bufferSymbol cfg s x).search = s.search := by
  unfold bufferSymbol
  dsimp only
  split <;> [split; skip] <;> rfl

@[simp] theorem bufferSymbol_inSync (s : cfg.State) (x : Int8) :
    (bufferSymbol cfg s x).inSync = s.inSync := by
  unfold bufferSymbol
  dsimp only
  split <;> [split; skip] <;> rfl

@[simp] theorem bufferSymbol_haveLen (s : cfg.State) (x : Int8) :
    (bufferSymbol cfg s x).haveLen = s.haveLen := by
  unfold bufferSymbol
  dsimp only
  split <;> [split; skip] <;> rfl

@[simp] theorem bufferSymbol_pktLen (s : cfg.State) (x : Int8) :
    (bufferSymbol cfg s x).pktLen = s.pktLen := by
  unfold bufferSymbol
  dsimp only
  split <;> [split; skip] <;> rfl

/-- Completing the length writes the capture flag, the target and nothing else. -/
theorem completeLength_eq (s : cfg.State) :
    completeLength cfg s =
      match reservePacket cfg (targetLen cfg s.rxBitCnt s.pktLen) with
      | .error e => .error e
      | .ok _ => .ok
        { s with
          inSync := s.inSync && !decide (cfg.Refuses s.pktLen)
          pktLen := targetLen cfg s.rxBitCnt s.pktLen
          haveLen := true } := by
  unfold completeLength
  by_cases refused : cfg.Refuses s.pktLen
  · cases room : reservePacket cfg (targetLen cfg s.rxBitCnt s.pktLen) <;>
      simp [refused, room, bind, Except.bind, pure, Except.pure]
  · cases room : reservePacket cfg (targetLen cfg s.rxBitCnt s.pktLen) <;>
      simp [refused, room, bind, Except.bind, pure, Except.pure]

/-- A captured symbol leaves the search register alone. -/
theorem addSymbol_search {s next : cfg.State} {x : Int8} (step : addSymbol cfg s x = .ok next) :
    next.search = s.search := by
  unfold addSymbol at step
  dsimp only at step
  split at step
  · cases Except.ok.inj step
    simp
  · split at step
    · split at step
      · rw [completeLength_eq] at step
        split at step
        · contradiction
        · cases Except.ok.inj step
          simp
      · cases Except.ok.inj step
        simp
    · cases Except.ok.inj step
      simp

/-- Once the length is known a captured symbol is only counted and stored. -/
theorem addSymbol_of_haveLen {s : cfg.State} (x : Int8) (known : s.haveLen = true) :
    addSymbol cfg s x = .ok (bufferSymbol cfg s x) := by
  simp [addSymbol, known]

/-- A sample that does not complete the sync word is pushed and nothing else happens. -/
theorem react_search_miss {s : cfg.State} {x : Int8} (searching : s.inSync = false)
    (miss : s.search.push x ≠ ShiftRegister.ofWord cfg.sync) :
    react cfg s x = ⟨[], .ok { s with search := s.search.push x }⟩ := by
  simp [react, searching, miss]

/-- A sample that completes the sync word starts a capture. -/
theorem react_search_hit {s : cfg.State} {x : Int8} (searching : s.inSync = false)
    (hit : s.search.push x = ShiftRegister.ofWord cfg.sync) :
    react cfg s x = ⟨[], startCapture cfg { s with search := s.search.push x }⟩ := by
  simp [react, searching, hit]

/-- The members at the start of a capture. In fixed length mode the packet length must be a
length; in variable length mode its accumulator starts at zero. -/
theorem startCapture_ok {s : cfg.State} (positive : cfg.fixedLen = true → 0 ≤ s.pktLen.toInt) :
    startCapture cfg s = .ok
      { tmpByte := 0, rxBitCnt := 0, search := s.search, inSync := true, haveLen := cfg.fixedLen,
        packet := [], pktLen := if cfg.fixedLen then s.pktLen else 0 } := by
  unfold startCapture
  cases mode : cfg.fixedLen with
  | false => simp
  | true =>
    have length := positive mode
    have eighth : 0 ≤ (s.pktLen / 8).toInt := by
      have high := s.pktLen.toInt_lt
      rw [Int32.toInt_div_of_ne_right _ _ (by decide)]
      change 0 ≤ s.pktLen.toInt.tdiv 8
      rw [Int.tdiv_eq_ediv_of_nonneg length]
      omega
    have whole : reserve s.pktLen = .ok () := by rw [reserve_eq, if_pos length]
    have room : reservePacket cfg s.pktLen = .ok () := by
      unfold reservePacket
      split
      · rw [reserve_eq, if_pos eighth]
      · exact whole
    simp [room, whole, bind, Except.bind, pure, Except.pure]

/-- A negative packet length of fixed length mode stops the block at the first sync word. -/
theorem startCapture_error {s : cfg.State} (mode : cfg.fixedLen = true)
    (negative : s.pktLen.toInt < 0) : startCapture cfg s = .error .lengthError := by
  have whole : reserve s.pktLen = .error .lengthError := by
    rw [reserve_eq, if_neg (by omega)]
  have either : reservePacket cfg s.pktLen = .ok () ∨
      reservePacket cfg s.pktLen = .error .lengthError := by
    unfold reservePacket
    rw [reserve_eq, whole]
    split
    · split
      · exact .inl rfl
      · exact .inr rfl
    · exact .inr rfl
  rcases either with room | none
  · simp [startCapture, mode, room, whole, bind, Except.bind]
  · simp [startCapture, mode, none, bind, Except.bind]

end GrReveng.PacketDeframer
