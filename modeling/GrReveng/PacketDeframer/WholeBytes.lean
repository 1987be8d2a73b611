import GrReveng.PacketDeframer.Runs

/-!
# The incomplete byte of a packet

How many bits a published packet has after its last whole byte. In variable length mode there are
none, because the end is computed in bytes; in fixed length mode they are those of the packet
length. Nothing is assumed on the offset and the adjustment, so the sums may wrap.
-/

namespace GrReveng.PacketDeframer

open Reactive

variable {cfg : Config}

/-- Bits of a packet after its last whole byte. -/
def Config.partialBits (cfg : Config) : Nat :=
  if cfg.fixedLen then cfg.pktLen.toUInt32.toNat % 8 else 0

/-- What a symbol does to the length members: a known end stays, an unknown end stays unknown, or
the length byte completes at a byte boundary and gives an end at a byte boundary. -/
structure LengthStep (cfg : Config) (s next : cfg.State) : Prop where
  /-- The symbol is counted. -/
  counted : next.rxBitCnt = s.rxBitCnt + 1
  /-- The change of the end. -/
  ending : (s.haveLen = true ∧ next.haveLen = true ∧ next.pktLen = s.pktLen) ∨
    (s.haveLen = false ∧ next.haveLen = false) ∨
    (s.haveLen = false ∧ next.rxBitCnt.toNat % 8 = 0 ∧ next.pktLen.toUInt32.toNat % 8 = 0)

/-- A symbol that completes the length finds the counter at a byte boundary. -/
theorem completeLength_step {s next : cfg.State} (step : completeLength cfg s = .ok next)
    (boundary : s.rxBitCnt.toNat % 8 = 0) :
    next.rxBitCnt = s.rxBitCnt ∧ next.pktLen.toUInt32.toNat % 8 = 0 ∧
      ∀ u, Stores cfg u s → Stores cfg u next := by
  have aligned := @targetLen_aligned cfg _ boundary s.pktLen
  rw [completeLength_eq, reservePacket_aligned aligned] at step
  split at step
  case h_1 => cases step
  case h_2 =>
    cases Except.ok.inj step
    have either := toInt_toUInt32 (targetLen cfg s.rxBitCnt s.pktLen)
    refine ⟨rfl, ?_, fun u stores => ⟨stores.1, stores.2, stores.3⟩⟩
    change (targetLen cfg s.rxBitCnt s.pktLen).toUInt32.toNat % 8 = 0
    omega

/-- A symbol is stored and makes a step of the length members. -/
theorem addSymbol_step {s next : cfg.State} {x : Int8} (step : addSymbol cfg s x = .ok next) :
    LengthStep cfg s next ∧ ∀ u, Stores cfg u s → Stores cfg (u ++ [x]) next := by
  have counted := bufferSymbol_rxBitCnt s x
  have known := bufferSymbol_haveLen s x
  have ending := bufferSymbol_pktLen s x
  have stored : ∀ u, Stores cfg u s → Stores cfg (u ++ [x]) (bufferSymbol cfg s x) :=
    fun u stores => stores.concat x
  rw [addSymbol] at step
  generalize bufferSymbol cfg s x = buffered at counted known ending stored step
  dsimp only at step
  cases before : s.haveLen with
  | true =>
    rw [before] at known
    rw [known, if_pos rfl] at step
    cases Except.ok.inj step
    exact ⟨⟨counted, .inl ⟨before, known, ending⟩⟩, stored⟩
  | false =>
    rw [before] at known
    rw [known, if_neg Bool.false_ne_true] at step
    split at step
    · split at step
      case isTrue last =>
        have boundary : buffered.rxBitCnt.toNat % 8 = 0 := by
          rw [last]
          exact lengthEnd_boundary cfg
        obtain ⟨count, aligned, keeps⟩ := completeLength_step step boundary
        refine ⟨⟨count.trans counted, .inr (.inr ⟨before, ?_, aligned⟩)⟩, ?_⟩
        · rw [count]
          exact boundary
        · intro u stores
          apply keeps
          exact ⟨(stored u stores).1, (stored u stores).2, (stored u stores).3⟩
      case isFalse =>
        cases Except.ok.inj step
        refine ⟨⟨counted, .inr (.inl ⟨before, rfl⟩)⟩, ?_⟩
        intro u stores
        exact ⟨(stored u stores).1, (stored u stores).2, (stored u stores).3⟩
    · cases Except.ok.inj step
      exact ⟨⟨counted, .inr (.inl ⟨before, known⟩)⟩, stored⟩

/-- What a run keeps: in fixed length mode the end is the packet length, and a running capture
stores binary samples, counts them below a known end, and has its end at the expected place in a
byte. -/
structure Counts (cfg : Config) (s : cfg.State) : Prop where
  /-- The packet length of fixed length mode is never written. -/
  fixed : cfg.fixedLen = true → s.pktLen = cfg.pktLen
  /-- The stored samples. -/
  stored : s.inSync = true → ∃ u, (∀ x ∈ u, Binary x) ∧ Stores cfg u s
  /-- Only a length byte can be missing. -/
  searched : s.inSync = true → s.haveLen = false → cfg.fixedLen = false
  /-- A known end is ahead. -/
  ahead : s.inSync = true → s.haveLen = true → s.rxBitCnt.toNat < s.pktLen.toUInt32.toNat ∧
    s.pktLen.toUInt32.toNat % 8 = cfg.partialBits

/-- While searching only the packet length counts. -/
theorem counts_searching {s : cfg.State} (fixed : cfg.fixedLen = true → s.pktLen = cfg.pktLen)
    (searching : s.inSync = false) : Counts cfg s := by
  have idle : s.inSync ≠ true := Bool.eq_false_iff.mp searching
  exact ⟨fixed, fun running => absurd running idle, fun running => absurd running idle,
    fun running => absurd running idle⟩

/-- The expected place of the end of a fixed packet. -/
theorem partialBits_fixed (mode : cfg.fixedLen = true) :
    cfg.partialBits = cfg.pktLen.toUInt32.toNat % 8 := by
  rw [Config.partialBits, if_pos mode]

/-- A variable packet ends with a whole byte. -/
theorem partialBits_variable (mode : cfg.fixedLen = false) : cfg.partialBits = 0 := by
  rw [Config.partialBits, mode, if_neg Bool.false_ne_true]

/-- Cleared members store no samples. -/
theorem stores_nil {s : cfg.State} (rxBitCnt : s.rxBitCnt = 0) (packet : s.packet = [])
    (tmpByte : s.tmpByte = 0) : Stores cfg [] s := by
  refine ⟨rxBitCnt, packet.trans ?_, tmpByte.trans ?_⟩
  · cases mode : cfg.packBytes <;> simp [captured, mode]
  · cases mode : cfg.packBytes <;> simp [captured, mode]

/-- Starting a capture of a positive length. -/
theorem Counts.startCapture {s next : cfg.State} (counts : Counts cfg s)
    (positive : cfg.fixedLen = true → 1 ≤ cfg.pktLen.toInt)
    (step : startCapture cfg s = .ok next) : Counts cfg next := by
  have length : cfg.fixedLen = true → 0 ≤ s.pktLen.toInt := by
    intro mode
    have bound := positive mode
    rw [counts.fixed mode]
    omega
  rw [startCapture_ok length] at step
  cases Except.ok.inj step
  refine ⟨?_, ?_, fun _ mode => mode, ?_⟩
  · intro mode
    change (if cfg.fixedLen then s.pktLen else 0) = cfg.pktLen
    rw [if_pos mode, counts.fixed mode]
  · intro _
    exact ⟨[], fun x member => absurd member List.not_mem_nil, stores_nil rfl rfl rfl⟩
  · intro _ mode
    change cfg.fixedLen = true at mode
    change (0 : UInt32).toNat < (if cfg.fixedLen then s.pktLen else 0).toUInt32.toNat ∧
      (if cfg.fixedLen then s.pktLen else 0).toUInt32.toNat % 8 = cfg.partialBits
    have bound := positive mode
    rw [if_pos mode, counts.fixed mode, partialBits_fixed mode,
      toUInt32_toNat (show 0 ≤ cfg.pktLen.toInt by omega)]
    refine ⟨?_, rfl⟩
    change 0 < _
    omega

/-- A symbol after which the end is known: the end is at its place in a byte, and a counter that
has reached it is there too. -/
theorem Counts.reaches {s next : cfg.State} (counts : Counts cfg s)
    (running : s.inSync = true) (step : LengthStep cfg s next) (known : next.haveLen = true) :
    next.pktLen.toUInt32.toNat % 8 = cfg.partialBits ∧
      (next.pktLen.toUInt32 ≤ next.rxBitCnt → next.rxBitCnt.toNat % 8 = cfg.partialBits) := by
  rcases step.ending with ⟨before, _, same⟩ | ⟨_, unknown⟩ | ⟨before, boundary, aligned⟩
  case inl =>
    obtain ⟨below, place⟩ := counts.ahead running before
    have range := s.pktLen.toUInt32.toNat_lt
    rw [same, step.counted]
    refine ⟨place, fun reached => ?_⟩
    have count : (s.rxBitCnt + 1).toNat = s.rxBitCnt.toNat + 1 := by
      rw [UInt32.toNat_add]
      change (s.rxBitCnt.toNat + 1) % 2 ^ 32 = _
      omega
    have bound : s.pktLen.toUInt32.toNat ≤ (s.rxBitCnt + 1).toNat := reached
    rw [count] at bound ⊢
    omega
  case inr.inl =>
    rw [unknown] at known
    cases known
  case inr.inr =>
    rw [partialBits_variable (counts.searched running before)]
    exact ⟨aligned, fun _ => boundary⟩

/-- A captured symbol keeps the counts while the end is ahead. -/
theorem Counts.captures {s next : cfg.State} {x : Int8} (counts : Counts cfg s)
    (running : s.inSync = true) (binary : Binary x) (added : addSymbol cfg s x = .ok next) :
    (cfg.fixedLen = true → next.pktLen = cfg.pktLen) ∧
      ∃ u, (∀ y ∈ u, Binary y) ∧ Stores cfg u next := by
  obtain ⟨step, stored⟩ := addSymbol_step added
  obtain ⟨u, samples, stores⟩ := counts.stored running
  refine ⟨fun mode => ?_, u ++ [x], ?_, stored u stores⟩
  · have before : s.haveLen = true := by
      by_contra missing
      have variableLen := counts.searched running (Bool.eq_false_iff.mpr missing)
      rw [mode] at variableLen
      cases variableLen
    rcases step.ending with known | unknown | completed
    · rw [known.2.2, counts.fixed mode]
    · rw [unknown.1] at before
      cases before
    · rw [completed.1] at before
      cases before
  · intro y member
    cases List.mem_append.mp member with
    | inl earlier => exact samples y earlier
    | inr last => rw [List.mem_singleton.mp last]; exact binary

/-- Samples of a packet: binary, and with the expected number of bits after the last byte. -/
structure PacketSamples (cfg : Config) (u : List Int8) : Prop where
  /-- Every sample is a bit. -/
  binary : ∀ x ∈ u, Binary x
  /-- The incomplete byte. -/
  incomplete : u.length % 8 = cfg.partialBits

/-- The counter of stored samples, within a byte. -/
theorem Stores.count {s : cfg.State} {u : List Int8} (stores : Stores cfg u s) :
    s.rxBitCnt.toNat % 8 = u.length % 8 := by
  rw [stores.rxBitCnt]
  change (UInt32.ofNat u.length).toNat % 8 = _
  rw [UInt32.toNat_ofNat']
  omega

/-- A captured symbol keeps the counts and publishes at most the samples of a packet. -/
theorem Counts.capture_react {s next : cfg.State} {x : Int8} (counts : Counts cfg s)
    (running : s.inSync = true) (binary : Binary x) (added : addSymbol cfg s x = .ok next) :
    (∀ last, (react cfg s x).after = .ok last → Counts cfg last) ∧
      ∀ data ∈ (react cfg s x).emitted, ∃ u, PacketSamples cfg u ∧ data = payload cfg u := by
  have step := (addSymbol_step added).1
  obtain ⟨fixed, u, samples, stores⟩ := counts.captures running binary added
  have reaction : react cfg s x =
      if next.haveLen ∧ next.pktLen.toUInt32 ≤ next.rxBitCnt then
        ⟨[next.packet.map Int8.toUInt8], .ok { next with inSync := false }⟩
      else ⟨[], .ok next⟩ := by
    rw [PacketDeframer.react, if_pos running, added]
  rw [reaction]
  split
  case isTrue ends =>
    constructor
    · intro last after
      cases Except.ok.inj after
      exact counts_searching fixed rfl
    · intro data member
      refine ⟨u, ⟨samples, ?_⟩, ?_⟩
      · rw [← stores.count]
        exact (counts.reaches running step ends.1).2 ends.2
      · rw [List.mem_singleton.mp member, stores.packet, packet_captured]
  case isFalse further =>
    constructor
    · intro last after
      cases Except.ok.inj after
      refine ⟨fixed, fun _ => ⟨u, samples, stores⟩, fun _ unknown => ?_, fun _ known => ?_⟩
      · rcases step.ending with ended | missing | completed
        · rw [ended.2.1] at unknown
          cases unknown
        · exact counts.searched running missing.1
        · exact counts.searched running completed.1
      · refine ⟨?_, (counts.reaches running step known).1⟩
        have below : ¬next.pktLen.toUInt32 ≤ next.rxBitCnt := fun reached =>
          further ⟨known, reached⟩
        exact UInt32.lt_iff_toNat_lt.mp (UInt32.not_le.mp below)
    · exact fun data member => absurd member List.not_mem_nil

/-- Every step keeps the counts and publishes at most the samples of a packet. -/
theorem Counts.react {s : cfg.State} {x : Int8} (counts : Counts cfg s)
    (positive : cfg.fixedLen = true → 1 ≤ cfg.pktLen.toInt) (binary : Binary x) :
    (∀ next, (react cfg s x).after = .ok next → Counts cfg next) ∧
      ∀ data ∈ (react cfg s x).emitted, ∃ u, PacketSamples cfg u ∧ data = payload cfg u := by
  cases running : s.inSync with
  | false =>
    have pushed : Counts cfg { s with search := s.search.push x } :=
      counts_searching counts.fixed running
    by_cases found : s.search.push x = ShiftRegister.ofWord cfg.sync
    · rw [react_search_hit running found]
      exact ⟨fun next started => pushed.startCapture positive started,
        fun data member => absurd member List.not_mem_nil⟩
    · rw [react_search_miss running found]
      refine ⟨fun next stepped => ?_, fun data member => absurd member List.not_mem_nil⟩
      cases Except.ok.inj stepped
      exact pushed
  | true =>
    cases added : addSymbol cfg s x with
    | error e =>
      have stops : PacketDeframer.react cfg s x = ⟨[], .error e⟩ := by
        rw [PacketDeframer.react, if_pos running, added]
      rw [stops]
      constructor
      · intro next after
        cases after
      · exact fun data member => absurd member List.not_mem_nil
    | ok next => exact counts.capture_react running binary added

/-- The published data of a binary stream come from packets with the expected incomplete byte. -/
theorem published_samples (positive : cfg.fixedLen = true → 1 ≤ cfg.pktLen.toInt)
    (garbage : Uninitialised) {chunks : List (List Int8)}
    (binary : ∀ x ∈ chunks.flatten, Binary x) :
    ∀ data ∈ published cfg garbage chunks, ∃ u, PacketSamples cfg u ∧ data = payload cfg u := by
  have counted := (work_state_invariant (PacketDeframer.react cfg)
    (fun now x next member counts after => (counts.react positive (binary x member)).1 next after)
    (counts_searching (fun _ => rfl) rfl : Counts cfg (make cfg garbage))).1
  intro data member
  rw [published, run, feed_eq_work] at member
  obtain ⟨t, present, made⟩ := List.mem_flatMap.mp member
  have step := work_steps (PacketDeframer.react cfg) present
  rw [step.1] at made
  exact ((counted t present).react positive (binary t.input step.2)).2 data made

end GrReveng.PacketDeframer
