import GrReveng.PacketDeframer.Steps

/-!
# The state of a capture, computed from its samples

`captured cfg u` is the state after the samples `u` of a capture, given in the terms of the
packet format and not by running the block. One more sample takes it to the state of the samples
with it, unless this sample ends the packet, completes a refused length byte, or completes a
length for which no vector can be reserved (`react_captured`). The capture is open as long as
the samples have not reached the end they announce (`Open`).
-/

namespace GrReveng.PacketDeframer

open Reactive

variable {cfg : Config}

/-- Bits captured before the length byte. -/
def Config.offsetBits (cfg : Config) : Nat := 8 * cfg.pktLenOffset.toInt.toNat

/-- Bits captured when the length byte is complete. -/
def Config.headerBits (cfg : Config) : Nat := cfg.offsetBits + 8

/-- The argument of the active mode is a length, and the conversion of the offset to bits stays
inside `int`. -/
structure Config.Framed (cfg : Config) : Prop where
  /-- A fixed packet has a positive length. -/
  fixed : cfg.fixedLen = true → 1 ≤ cfg.pktLen.toInt
  /-- The length byte of a variable packet has a position. -/
  offset : cfg.fixedLen = false →
    0 ≤ cfg.pktLenOffset.toInt ∧ 8 * cfg.pktLenOffset.toInt + 8 < 2 ^ 31

/-- The word that the samples at the place of the length byte leave in `d_pkt_len`. -/
def lengthWord (cfg : Config) (u : List Int8) : Int32 :=
  shiftInAll 0 ((u.drop cfg.offsetBits).take 8)

/-- The number of bits that ends the packet whose first samples are these. -/
def target (cfg : Config) (u : List Int8) : Int32 :=
  if cfg.fixedLen then cfg.pktLen
  else targetLen cfg (UInt32.ofNat cfg.headerBits) (lengthWord cfg u)

/-- The end of the packet is known after these samples. -/
def Known (cfg : Config) (u : List Int8) : Prop :=
  cfg.fixedLen = true ∨ cfg.headerBits ≤ u.length

instance (u : List Int8) : Decidable (Known cfg u) :=
  inferInstanceAs (Decidable (cfg.fixedLen = true ∨ cfg.headerBits ≤ u.length))

/-- The length byte of these samples is complete and refused. -/
def Refused (cfg : Config) (u : List Int8) : Prop :=
  cfg.fixedLen = false ∧ cfg.headerBits ≤ u.length ∧ cfg.Refuses (lengthWord cfg u)

instance (u : List Int8) : Decidable (Refused cfg u) :=
  inferInstanceAs (Decidable (_ ∧ _ ∧ _))

/-- The state after the samples of a capture. -/
def captured (cfg : Config) (u : List Int8) : cfg.State where
  tmpByte := if cfg.packBytes then byteOf (remainder (u.map lsb)) else 0
  rxBitCnt := UInt32.ofNat u.length
  search := ShiftRegister.ofWord cfg.sync
  inSync := true
  haveLen := decide (Known cfg u)
  packet := if cfg.packBytes then (packBytes (u.map lsb)).map UInt8.toInt8 else u
  pktLen := if Known cfg u then target cfg u else shiftInAll 0 (u.drop cfg.offsetBits)

/-- The state in which a capture of these samples leaves the block. -/
def finished (cfg : Config) (u : List Int8) : cfg.State := { captured cfg u with inSync := false }

/-- The data published for the samples of a packet. -/
def payload (cfg : Config) (u : List Int8) : List UInt8 :=
  if cfg.packBytes then packBytes (u.map lsb) else u.map Int8.toUInt8

/-- The samples have neither reached the end they announce nor been refused. -/
def Open (cfg : Config) (u : List Int8) : Prop :=
  Known cfg u → (u.length : Int) < (target cfg u).toInt ∧ ¬ Refused cfg u

/-- The stored packet, as published. -/
theorem packet_captured (u : List Int8) :
    (captured cfg u).packet.map Int8.toUInt8 = payload cfg u := by
  unfold captured payload
  split <;> simp [Function.comp_def]

/-- In the framed arithmetic the offset is its number of bits. -/
theorem offset_toNat (framed : cfg.Framed) (mode : cfg.fixedLen = false) :
    cfg.pktLenOffsetBits.toUInt32.toNat = cfg.offsetBits ∧
      (cfg.pktLenOffsetBits + 8).toUInt32.toNat = cfg.headerBits ∧ cfg.headerBits < 2 ^ 31 := by
  obtain ⟨low, high⟩ := framed.offset mode
  have product : cfg.pktLenOffsetBits.toInt = 8 * cfg.pktLenOffset.toInt := by
    rw [Config.pktLenOffsetBits, Int32.toInt_mul]
    change (cfg.pktLenOffset.toInt * 8).bmod (2 ^ 32) = _
    rw [Int.bmod_eq_of_le (by omega) (by omega)]
    omega
  have sum : (cfg.pktLenOffsetBits + 8).toInt = 8 * cfg.pktLenOffset.toInt + 8 := by
    rw [Int32.toInt_add, product]
    change (8 * cfg.pktLenOffset.toInt + 8).bmod (2 ^ 32) = _
    exact Int.bmod_eq_of_le (by omega) (by omega)
  have natural : ∀ word : Int32, 0 ≤ word.toInt → word.toUInt32.toNat = word.toInt.toNat := by
    intro word nonnegative
    exact Int32.toNat_toUInt32_of_le (by rw [Int32.le_iff_toInt_le]; exact nonnegative)
  rw [natural _ (by omega), natural _ (by omega), product, sum, Config.headerBits,
    Config.offsetBits]
  omega

/-- A length word that is complete does not change with later samples. -/
theorem lengthWord_append {u : List Int8} (complete : cfg.headerBits ≤ u.length)
    (more : List Int8) : lengthWord cfg (u ++ more) = lengthWord cfg u := by
  rw [Config.headerBits] at complete
  rw [lengthWord, lengthWord, List.drop_append_of_le_length (by omega),
    List.take_append_of_le_length (by rw [List.length_drop]; omega)]

/-- A known end does not change with later samples. -/
theorem target_append {u : List Int8} (known : Known cfg u) (more : List Int8) :
    target cfg (u ++ more) = target cfg u := by
  unfold target
  split <;> rename_i mode
  · rfl
  · rw [lengthWord_append (known.resolve_left mode)]

/-- In variable length mode the end is known behind the length byte. -/
theorem Known.long {u : List Int8} (known : Known cfg u) (mode : cfg.fixedLen = false) :
    cfg.headerBits ≤ u.length :=
  known.resolve_left (by simp [mode])

/-- The end is not known in front of the end of the length byte. -/
theorem short_of_not_known {u : List Int8} (unknown : ¬ Known cfg u) :
    cfg.fixedLen = false ∧ u.length < cfg.headerBits := by
  simpa [Known] using unknown

/-- A known end stays known. -/
theorem Known.append {u : List Int8} (known : Known cfg u) (more : List Int8) :
    Known cfg (u ++ more) :=
  known.imp_right fun long => by rw [List.length_append]; omega

/-- Buffering a symbol in the state of a capture updates the stored data to the samples with the
symbol; the length members are not touched. -/
theorem bufferSymbol_captured (u : List Int8) (x : Int8) :
    bufferSymbol cfg (captured cfg u) x =
      { captured cfg (u ++ [x]) with
        haveLen := (captured cfg u).haveLen
        pktLen := (captured cfg u).pktLen } := by
  have count : UInt32.ofNat u.length + 1 = UInt32.ofNat (u.length + 1) := by
    rw [UInt32.ofNat_add]
    rfl
  have aligned : (UInt32.ofNat (u.length + 1)) % 8 = 0 ↔ (u.length + 1) % 8 = 0 := by
    rw [← UInt32.toNat_inj, UInt32.toNat_mod, UInt32.toNat_ofNat']
    change (u.length + 1) % 2 ^ 32 % 8 = 0 ↔ _
    omega
  unfold bufferSymbol captured
  cases mode : cfg.packBytes with
  | false =>
    simp only [count, Bool.false_eq_true, ↓reduceIte, List.length_append, List.length_singleton]
  | true =>
    simp only [↓reduceIte, count, and_one_eq, byteOf_concat, List.map_append, List.map_cons,
      List.map_nil, packBytes_concat, remainder_concat, List.length_map, List.length_append,
      List.length_singleton, aligned]
    split
    · simp
    · simp

/-- The stored data of a state are those of a capture of the samples. -/
structure Stores (cfg : Config) (u : List Int8) (s : cfg.State) : Prop where
  /-- The counter. -/
  rxBitCnt : s.rxBitCnt = (captured cfg u).rxBitCnt
  /-- The complete bytes, or the samples. -/
  packet : s.packet = (captured cfg u).packet
  /-- The incomplete byte. -/
  tmpByte : s.tmpByte = (captured cfg u).tmpByte

/-- Buffering a symbol stores it, whatever the other members are. -/
theorem Stores.concat {u : List Int8} {s : cfg.State} (stores : Stores cfg u s) (x : Int8) :
    Stores cfg (u ++ [x]) (bufferSymbol cfg s x) := by
  have same : bufferSymbol cfg s x =
      { bufferSymbol cfg (captured cfg u) x with
        search := s.search, inSync := s.inSync, haveLen := s.haveLen, pktLen := s.pktLen } := by
    obtain ⟨count, packet, tmp⟩ := stores
    unfold bufferSymbol
    simp only [count, packet, tmp]
    split <;> [split; skip] <;> rfl
  rw [same, bufferSymbol_captured]
  exact ⟨rfl, rfl, rfl⟩

/-- The unsigned image of an `int` that is not negative is its value. -/
theorem toUInt32_toNat {word : Int32} (nonnegative : 0 ≤ word.toInt) :
    word.toUInt32.toNat = word.toInt.toNat :=
  Int32.toNat_toUInt32_of_le (by rw [Int32.le_iff_toInt_le]; exact nonnegative)

/-- An `int` is its unsigned image, or that less the range. -/
theorem toInt_toUInt32 (word : Int32) :
    word.toInt = word.toUInt32.toNat ∨ word.toInt = word.toUInt32.toNat - 2 ^ 32 := by
  rw [← Int32.toInt_toBitVec, BitVec.toInt_eq_toNat_cond]
  split
  · exact .inl rfl
  · exact .inr rfl

/-- The count that completes the length byte is a whole number of bytes. -/
theorem lengthEnd_boundary (cfg : Config) :
    (cfg.pktLenOffsetBits + 8).toUInt32.toNat % 8 = 0 := by
  rw [Config.pktLenOffsetBits, Int32.toUInt32_add, Int32.toUInt32_mul, UInt32.toNat_add,
    UInt32.toNat_mul]
  change (_ * 8 % 2 ^ 32 + 8) % 2 ^ 32 % 8 = 0
  omega

/-- The end computed at a byte boundary is at a byte boundary, also when the sum wraps. -/
theorem targetLen_aligned {rxBitCnt : UInt32} (boundary : rxBitCnt.toNat % 8 = 0)
    (length : Int32) : (targetLen cfg rxBitCnt length).toInt % 8 = 0 := by
  have natural : (targetLen cfg rxBitCnt length).toUInt32.toNat % 8 = 0 := by
    simp only [targetLen, UInt32.toUInt32_toInt32, UInt32.toNat_add, Int32.toUInt32_mul,
      UInt32.toNat_mul]
    change ((rxBitCnt.toNat + _ * 8 % 2 ^ 32) % 2 ^ 32 + _ * 8 % 2 ^ 32) % 2 ^ 32 % 8 = 0
    omega
  have either := toInt_toUInt32 (targetLen cfg rxBitCnt length)
  omega

/-- Room up to a byte boundary can be reserved exactly when the boundary is not negative. -/
theorem reservePacket_aligned {pktLen : Int32} (aligned : pktLen.toInt % 8 = 0) :
    reservePacket cfg pktLen =
      if 0 ≤ pktLen.toInt then .ok () else .error .lengthError := by
  have quotient : (pktLen / 8).toInt = pktLen.toInt / 8 := by
    rw [Int32.toInt_div_of_ne_right _ _ (by decide)]
    change pktLen.toInt.tdiv 8 = _
    exact Int.tdiv_eq_ediv_of_dvd (by omega)
  unfold reservePacket
  split
  · rw [reserve_eq, quotient]
    by_cases sign : 0 ≤ pktLen.toInt
    · rw [if_pos (by omega), if_pos sign]
    · rw [if_neg (by omega), if_neg sign]
  · exact reserve_eq _

/-- The end of a variable packet is at a byte boundary. -/
theorem target_aligned (mode : cfg.fixedLen = false) (u : List Int8) :
    (target cfg u).toInt % 8 = 0 := by
  have header : (UInt32.ofNat cfg.headerBits).toNat % 8 = 0 := by
    rw [UInt32.toNat_ofNat', Config.headerBits, Config.offsetBits]
    omega
  rw [target, if_neg (by simp [mode])]
  exact targetLen_aligned header _

/-- The last bit of the length byte completes the length word. -/
theorem lengthWord_completes {u : List Int8} (x : Int8) (last : u.length + 1 = cfg.headerBits) :
    shiftInAll 0 (u.drop cfg.offsetBits) <<< 1 ||| x.toInt32 = lengthWord cfg (u ++ [x]) := by
  rw [Config.headerBits] at last
  have eight : ((u ++ [x]).drop cfg.offsetBits).length ≤ 8 := by
    simp only [List.length_drop, List.length_append, List.length_singleton]
    omega
  rw [lengthWord, List.take_of_length_le eight, List.drop_append_of_le_length (by omega),
    shiftInAll_concat]
  rfl

/-- With it the end of the packet is computed. -/
theorem targetLen_completes (mode : cfg.fixedLen = false) {u : List Int8}
    (last : u.length = cfg.headerBits) :
    targetLen cfg (UInt32.ofNat u.length) (lengthWord cfg u) = target cfg u := by
  rw [target, if_neg (by simp [mode]), last]

/-- A length that is not complete does not make the end known. -/
theorem not_known_of_short {w : List Int8} (mode : cfg.fixedLen = false)
    (short : w.length < cfg.headerBits) : ¬ Known cfg w := by
  simp only [Known, mode, Bool.false_eq_true, false_or]
  omega

/-- The counter against the place of the length byte. -/
theorem count_header (framed : cfg.Framed) (mode : cfg.fixedLen = false) {w : List Int8} {n : Nat}
    (length : w.length = n) (bound : n < 2 ^ 32) :
    (cfg.pktLenOffsetBits.toUInt32 < UInt32.ofNat w.length ↔ cfg.offsetBits < n) ∧
      (UInt32.ofNat w.length = (cfg.pktLenOffsetBits + 8).toUInt32 ↔ n = cfg.headerBits) := by
  obtain ⟨offset, header, small⟩ := offset_toNat framed mode
  have count : (UInt32.ofNat w.length).toNat = n := by
    rw [UInt32.toNat_ofNat', length]
    exact Nat.mod_eq_of_lt bound
  constructor
  · rw [UInt32.lt_iff_toNat_lt, offset, count]
  · rw [← UInt32.toNat_inj, header, count]

/-- A symbol behind a known end is buffered. -/
theorem addSymbol_of_known {u : List Int8} (known : Known cfg u) (x : Int8) :
    addSymbol cfg (captured cfg u) x = .ok (captured cfg (u ++ [x])) := by
  have later := known.append [x]
  rw [addSymbol_of_haveLen x (by simpa [captured] using known), bufferSymbol_captured]
  simp [captured, known, later, target_append known]

/-- One more symbol in the state of a capture. It is only stored, except that the last bit of
the length byte also fixes the end and may be refused. -/
theorem addSymbol_captured (framed : cfg.Framed) {u : List Int8} (x : Int8)
    (bound : u.length + 1 < 2 ^ 32) :
    addSymbol cfg (captured cfg u) x =
      if cfg.fixedLen = false ∧ u.length + 1 = cfg.headerBits then
        if 0 ≤ (target cfg (u ++ [x])).toInt then
          .ok { captured cfg (u ++ [x]) with
            inSync := !decide (cfg.Refuses (lengthWord cfg (u ++ [x]))) }
        else .error .lengthError
      else .ok (captured cfg (u ++ [x])) := by
  have length : (u ++ [x]).length = u.length + 1 := by simp
  by_cases known : Known cfg u
  · have before : ¬(cfg.fixedLen = false ∧ u.length + 1 = cfg.headerBits) := by
      rintro ⟨mode, last⟩
      rcases known with fixed | long
      · simp [mode] at fixed
      · omega
    rw [if_neg before, addSymbol_of_known known]
  · obtain ⟨mode, short⟩ := short_of_not_known known
    obtain ⟨started, complete⟩ := count_header framed mode length bound
    unfold addSymbol
    rw [bufferSymbol_captured]
    simp only [captured, known, decide_false, Bool.false_eq_true, ↓reduceIte, started, complete]
    split <;> rename_i inside
    · by_cases last : u.length + 1 = cfg.headerBits
      · have reached : Known cfg (u ++ [x]) := .inr (by omega)
        have computed := targetLen_completes mode (length.trans last)
        simp only [last, mode, and_self, ↓reduceIte, completeLength_eq, lengthWord_completes x last,
          computed, reservePacket_aligned (target_aligned mode _), reached, decide_true,
          Bool.true_and]
        by_cases sign : 0 ≤ (target cfg (u ++ [x])).toInt
        · simp only [sign, ↓reduceIte]
        · simp only [sign, ↓reduceIte]
      · have shifted : shiftInAll 0 (u.drop cfg.offsetBits) <<< 1 ||| x.toInt32 =
            shiftInAll 0 ((u ++ [x]).drop cfg.offsetBits) := by
          rw [List.drop_append_of_le_length (by omega), shiftInAll_concat]
          rfl
        simp only [last, and_false, ↓reduceIte, shifted,
          not_known_of_short mode (show (u ++ [x]).length < cfg.headerBits by omega), decide_false]
    · have early : u.length + 1 < cfg.headerBits := by rw [Config.headerBits]; omega
      simp only [show u.length + 1 ≠ cfg.headerBits by omega, and_false,
        not_known_of_short mode (show (u ++ [x]).length < cfg.headerBits by omega), ↓reduceIte,
        List.drop_of_length_le (show u.length ≤ cfg.offsetBits by omega),
        List.drop_of_length_le (show (u ++ [x]).length ≤ cfg.offsetBits by omega), decide_false]

/-- The counter stays far from its range while a capture is open. -/
theorem Open.length_lt (framed : cfg.Framed) {u : List Int8} (opened : Open cfg u) :
    u.length + 1 ≤ 2 ^ 31 := by
  by_cases known : Known cfg u
  · have below := (opened known).1
    have range := (target cfg u).toInt_lt
    omega
  · obtain ⟨mode, short⟩ := short_of_not_known known
    have small := (offset_toNat framed mode).2.2
    omega

/-- A capture is open when it starts. -/
theorem open_nil (framed : cfg.Framed) : Open cfg [] := by
  intro known
  rcases known with mode | long
  · refine ⟨?_, fun refused => by have := refused.1; simp [mode] at this⟩
    have positive := framed.fixed mode
    simp only [target, mode, ↓reduceIte, List.length_nil]
    omega
  · simp [Config.headerBits] at long

/-- The test at the end of an iteration, in the terms of a capture. -/
theorem react_of_addSymbol {u : List Int8} {x : Int8} {running : Bool}
    (small : u.length + 1 < 2 ^ 32)
    (sign : Known cfg (u ++ [x]) → 0 ≤ (target cfg (u ++ [x])).toInt)
    (added : addSymbol cfg (captured cfg u) x =
      .ok { captured cfg (u ++ [x]) with inSync := running }) :
    react cfg (captured cfg u) x =
      if Known cfg (u ++ [x]) ∧ (target cfg (u ++ [x])).toInt ≤ u.length + 1 then
        ⟨[payload cfg (u ++ [x])], .ok (finished cfg (u ++ [x]))⟩
      else ⟨[], .ok { captured cfg (u ++ [x]) with inSync := running }⟩ := by
  have count : (UInt32.ofNat (u ++ [x]).length).toNat = u.length + 1 := by
    rw [UInt32.toNat_ofNat', List.length_append, List.length_singleton]
    exact Nat.mod_eq_of_lt small
  have active : (captured cfg u).inSync = true := rfl
  rw [react, if_pos active, added, ← packet_captured]
  by_cases known : Known cfg (u ++ [x])
  · have compare : (target cfg (u ++ [x])).toUInt32 ≤ UInt32.ofNat (u ++ [x]).length ↔
        (target cfg (u ++ [x])).toInt ≤ u.length + 1 := by
      have nonnegative := sign known
      rw [UInt32.le_iff_toNat_le, toUInt32_toNat nonnegative, count]
      omega
    simp only [captured, finished, known, decide_true, ↓reduceIte, true_and, compare]
  · simp only [captured, known, decide_false, Bool.false_eq_true, false_and, ↓reduceIte]

/-- Where the end is known and not negative, the sample reaches it or it does not. -/
theorem react_of_known {u : List Int8} {x : Int8} {running : Bool} (small : u.length + 1 < 2 ^ 32)
    (known : Known cfg (u ++ [x])) (sign : 0 ≤ (target cfg (u ++ [x])).toInt)
    (added : addSymbol cfg (captured cfg u) x =
      .ok { captured cfg (u ++ [x]) with inSync := running }) :
    ((target cfg (u ++ [x])).toInt ≤ u.length + 1 ∧
      react cfg (captured cfg u) x =
        ⟨[payload cfg (u ++ [x])], .ok (finished cfg (u ++ [x]))⟩) ∨
    ((u.length + 1 : Int) < (target cfg (u ++ [x])).toInt ∧
      react cfg (captured cfg u) x =
        ⟨[], .ok { captured cfg (u ++ [x]) with inSync := running }⟩) := by
  have step := react_of_addSymbol small (fun _ => sign) added
  by_cases ends : (target cfg (u ++ [x])).toInt ≤ u.length + 1
  · rw [if_pos ⟨known, ends⟩] at step
    exact .inl ⟨ends, step⟩
  · rw [if_neg fun bad => ends bad.2] at step
    exact .inr ⟨by omega, step⟩

/-- What one sample does in an open capture: it joins the capture, or it ends the packet, or it
completes a refused length byte, or it completes a length byte whose end is negative. -/
theorem react_captured (framed : cfg.Framed) {u : List Int8} (opened : Open cfg u) (x : Int8) :
    (Open cfg (u ++ [x]) ∧
      react cfg (captured cfg u) x = ⟨[], .ok (captured cfg (u ++ [x]))⟩) ∨
    (Known cfg (u ++ [x]) ∧ 0 ≤ (target cfg (u ++ [x])).toInt ∧
      (target cfg (u ++ [x])).toInt ≤ u.length + 1 ∧
      react cfg (captured cfg u) x =
        ⟨[payload cfg (u ++ [x])], .ok (finished cfg (u ++ [x]))⟩) ∨
    (Refused cfg (u ++ [x]) ∧ u.length + 1 = cfg.headerBits ∧
      (u.length + 1 : Int) < (target cfg (u ++ [x])).toInt ∧
      react cfg (captured cfg u) x = ⟨[], .ok (finished cfg (u ++ [x]))⟩) ∨
    (cfg.fixedLen = false ∧ u.length + 1 = cfg.headerBits ∧
      (target cfg (u ++ [x])).toInt < 0 ∧
      react cfg (captured cfg u) x = ⟨[], .error .lengthError⟩) := by
  have length : (u ++ [x]).length = u.length + 1 := by simp
  have small := opened.length_lt framed
  have added := addSymbol_captured framed (u := u) x (by omega)
  by_cases last : cfg.fixedLen = false ∧ u.length + 1 = cfg.headerBits
  · rw [if_pos last] at added
    have known : Known cfg (u ++ [x]) := .inr (by omega)
    by_cases sign : 0 ≤ (target cfg (u ++ [x])).toInt
    · rw [if_pos sign] at added
      cases react_of_known (by omega) known sign added with
      | inl ends => exact .inr (.inl ⟨known, sign, ends.1, ends.2⟩)
      | inr further =>
        have below := further.1
        by_cases refused : cfg.Refuses (lengthWord cfg (u ++ [x]))
        · right; right; left
          refine ⟨⟨last.1, by omega, refused⟩, last.2, below, further.2.trans ?_⟩
          simp only [refused, decide_true, Bool.not_true, finished]
        · left
          refine ⟨fun _ => ⟨by omega, fun bad => refused bad.2.2⟩, further.2.trans ?_⟩
          simp only [refused, decide_false, Bool.not_false]
          rfl
    · rw [if_neg sign] at added
      have active : (captured cfg u).inSync = true := rfl
      refine .inr (.inr (.inr ⟨last.1, last.2, by omega, ?_⟩))
      rw [react, if_pos active, added]
  · rw [if_neg last] at added
    by_cases known : Known cfg (u ++ [x])
    · have earlier : Known cfg u := by
        rcases known with mode | long
        · exact .inl mode
        · cases mode : cfg.fixedLen with
          | true => exact .inl mode
          | false => exact .inr (by simp only [mode, true_and] at last; omega)
      have same := target_append earlier [x]
      obtain ⟨below, accepted⟩ := opened earlier
      have sign : 0 ≤ (target cfg (u ++ [x])).toInt := by rw [same]; omega
      cases react_of_known (by omega) known sign added with
      | inl ends => exact .inr (.inl ⟨known, sign, ends.1, ends.2⟩)
      | inr further =>
        have reached := further.1
        left
        refine ⟨fun _ => ⟨by omega, fun bad => accepted ?_⟩, further.2⟩
        have long := earlier.long bad.1
        have refused := bad.2.2
        rw [lengthWord_append long] at refused
        exact ⟨bad.1, long, refused⟩
    · have step := react_of_addSymbol (by omega)
        (fun reached => absurd reached known) added
      rw [if_neg fun bad => known bad.1] at step
      exact .inl ⟨fun reached => absurd reached known, step⟩

end GrReveng.PacketDeframer
