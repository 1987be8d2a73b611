import GrReveng.PacketDeframer.Sync

/-!
# Integrity of a capture

On binary samples and with valid arguments every member of a running capture is a function of the
samples consumed since it began (`Integrity`), whatever packets came before, and a run never
stops. The published data are the samples of disjoint slices of the stream, each started by a
found sync word and as long as its mode says (`capture_integrity`).
-/

namespace GrReveng.PacketDeframer

open Reactive

variable {cfg : Config}

/-- The length byte of these samples is their packed byte behind the offset, it is accepted, and
the packet it announces has this many bits. -/
def Announces (cfg : Config) (u : List Int8) (bits : Int) : Prop :=
  ∃ length : UInt8, (packBytes (u.map lsb))[cfg.pktLenOffset.toInt.toNat]? = some length ∧
    (0 < cfg.maxLen.toInt → (length.toNat : Int) ≤ cfg.maxLen.toInt) ∧
    bits = 8 * (cfg.pktLenOffset.toInt + 1 + length.toNat + cfg.pktLenAdj.toInt)

/-- The members of a running capture, from the samples consumed since it began. -/
structure Integrity (cfg : Config) (u : List Int8) (now : cfg.State) : Prop where
  /-- The counter counts them. -/
  count : now.rxBitCnt.toNat = u.length
  /-- Unpacked, the packet is these samples. -/
  samples : cfg.packBytes = false → now.packet = u
  /-- Packed, the packet is their complete bytes, and the rest is in the incomplete byte. -/
  bytes : cfg.packBytes = true → now.packet.map Int8.toUInt8 = packBytes (u.map lsb) ∧
    now.tmpByte = byteOf (remainder (u.map lsb)) ∧
    (remainder (u.map lsb)).length = now.rxBitCnt.toNat % 8
  /-- Before the length is known, its bits so far are in the packet length. -/
  header : now.haveLen = false → cfg.fixedLen = false ∧
    (u.length : Int) < 8 * (cfg.pktLenOffset.toInt + 1) ∧
    now.pktLen.toInt = msbValue ((u.drop cfg.offsetBits).map lsb)
  /-- When the length is known, the packet length is the end and not yet reached. -/
  ends : now.haveLen = true → (u.length : Int) < now.pktLen.toInt ∧
    (cfg.fixedLen = true → now.pktLen = cfg.pktLen) ∧
    (cfg.fixedLen = false → Announces cfg u now.pktLen.toInt)

/-- A published packet in the history: the search before it, the transition that found the sync
word, and the transitions that captured the packet. -/
structure Slice (cfg : Config) where
  /-- Transitions since the previous packet. -/
  search : List cfg.Transition
  /-- The transition that started the capture. -/
  start : cfg.Transition
  /-- The captured transitions. -/
  packet : List cfg.Transition

/-- The transitions of a slice in stream order. -/
def Slice.transitions (slice : Slice cfg) : List cfg.Transition :=
  slice.search ++ slice.start :: slice.packet

/-- The samples of the packet. -/
def Slice.samples (slice : Slice cfg) : List Int8 := slice.packet.map Transition.input

/-- A slice starts where the block found a sync word, and its packet has the length of its mode. -/
structure Slice.Exact (slice : Slice cfg) : Prop where
  /-- The capture starts with the slice's start. -/
  starts : Starts slice.start
  /-- The packet was consumed by this capture. -/
  captured : ∀ t ∈ slice.packet, t.before.inSync = true
  /-- The length in fixed length mode. -/
  fixed : cfg.fixedLen = true → (slice.samples.length : Int) = cfg.pktLen.toInt
  /-- The length in variable length mode. -/
  announced : cfg.fixedLen = false → Announces cfg slice.samples slice.samples.length

/-- The history so far is the published packets in order, and then the capture in progress. -/
def Sliced (past : List cfg.Transition) (now : cfg.State) : Prop :=
  ∃ (slices : List (Slice cfg)) (rest : List cfg.Transition),
    past = slices.flatMap Slice.transitions ++ rest ∧
    past.flatMap Transition.emitted = slices.map (fun slice => payload cfg slice.samples) ∧
    (∀ slice ∈ slices, slice.Exact) ∧
    (now.inSync = true → ∃ search start packet, rest = search ++ start :: packet ∧ Starts start ∧
      (∀ t ∈ packet, t.before.inSync = true) ∧ packet.map Transition.input = samplesSince past)

/-- An accepted length byte announces the end. -/
theorem announces_target (valid : cfg.Valid) (mode : cfg.fixedLen = false) {u : List Int8}
    (binary : ∀ x ∈ u, Binary x) (long : cfg.headerBits ≤ u.length)
    (accepted : ¬ Refused cfg u) : Announces cfg u (target cfg u).toInt := by
  obtain ⟨length, stored, value⟩ := packedByte_length long
  refine ⟨length, stored, fun enabled => ?_, by rw [valid.target mode binary, value]⟩
  by_contra excess
  refine accepted ⟨mode, long, ?_⟩
  rw [Config.Refuses, Int32.lt_iff_toInt_lt, Int32.lt_iff_toInt_lt, lengthWord_binary binary,
    ← value]
  exact ⟨enabled, by omega⟩

/-- With valid arguments a packet of binary samples ends exactly where it is announced to, and
its length byte is accepted. -/
theorem ends_exactly (valid : cfg.Valid) {u : List Int8} {x : Int8} (opened : Open cfg u)
    (binary : ∀ y ∈ u ++ [x], Binary y) (known : Known cfg (u ++ [x]))
    (reached : (target cfg (u ++ [x])).toInt ≤ u.length + 1) :
    (target cfg (u ++ [x])).toInt = u.length + 1 ∧ ¬ Refused cfg (u ++ [x]) := by
  have length : (u ++ [x]).length = u.length + 1 := by simp
  by_cases earlier : Known cfg u
  · have same := target_append earlier [x]
    obtain ⟨below, accepted⟩ := opened earlier
    refine ⟨by rw [same] at reached ⊢; omega, fun refused => accepted ?_⟩
    have long := earlier.long refused.1
    exact ⟨refused.1, long, by rw [← lengthWord_append long [x]]; exact refused.2.2⟩
  · obtain ⟨mode, short⟩ := short_of_not_known earlier
    have long := known.long mode
    obtain ⟨offset, adjust, small⟩ := valid.lengths mode
    have total := valid.target mode binary
    rw [Config.headerBits, Config.offsetBits] at long short
    refine ⟨by omega, fun refused => ?_⟩
    obtain ⟨enabled, excess⟩ := refused.2.2
    rw [Int32.lt_iff_toInt_lt] at enabled excess
    rw [lengthWord_binary binary] at excess
    have zero : (0 : Int32).toInt = 0 := rfl
    omega

/-- The state of a capture of binary samples has the integrity of its samples. -/
theorem integrity_captured (valid : cfg.Valid) {u : List Int8} (binary : ∀ x ∈ u, Binary x)
    (opened : Open cfg u) : Integrity cfg u (captured cfg u) := by
  have small := opened.length_lt valid.framed
  have count : (captured cfg u).rxBitCnt.toNat = u.length := by
    simp only [captured, UInt32.toNat_ofNat']
    omega
  refine ⟨count, fun mode => by simp [captured, mode], fun mode => ⟨?_, ?_, ?_⟩, ?_, ?_⟩
  · simp [captured, mode, Function.comp_def]
  · simp [captured, mode]
  · rw [length_remainder, count, List.length_map]
  · intro unknown
    have early : ¬ Known cfg u := by simpa [captured] using unknown
    obtain ⟨mode, short⟩ := short_of_not_known early
    have offset := (valid.lengths mode).1
    rw [Config.headerBits, Config.offsetBits] at short
    refine ⟨mode, by omega, ?_⟩
    simp only [captured, early, ↓reduceIte]
    exact shiftInAll_binary (fun x member => binary x (List.mem_of_mem_drop member))
      (by rw [List.length_drop, Config.offsetBits]; omega)
  · intro complete
    have known : Known cfg u := by simpa [captured] using complete
    obtain ⟨below, accepted⟩ := opened known
    simp only [captured, known, ↓reduceIte]
    refine ⟨below, fun mode => by simp [target, mode], fun mode => ?_⟩
    exact announces_target valid mode binary (known.long mode) accepted

/-- No slice yet. -/
theorem sliced_make (garbage : Uninitialised) : Sliced [] (make cfg garbage) :=
  ⟨[], [], rfl, rfl, by simp, fun running => by simp [make] at running⟩

/-- A transition that publishes nothing and does not run a capture joins the rest. -/
theorem Sliced.silent {past : List cfg.Transition} {now next : cfg.State} {t : cfg.Transition}
    (sliced : Sliced past now) (silent : t.emitted = []) (idle : next.inSync = false) :
    Sliced (past ++ [t]) next := by
  obtain ⟨slices, rest, whole, emitted, exact, -⟩ := sliced
  exact ⟨slices, rest ++ [t], by rw [whole, List.append_assoc], by simp [emitted, silent], exact,
    fun running => by simp [idle] at running⟩

/-- A transition that starts a capture opens a slice. -/
theorem Sliced.opens {past : List cfg.Transition} {now next : cfg.State} {t : cfg.Transition}
    (sliced : Sliced past now) (starts : Starts t) (searching : t.before.inSync = false)
    (silent : t.emitted = []) : Sliced (past ++ [t]) next := by
  obtain ⟨slices, rest, whole, emitted, exact, -⟩ := sliced
  refine ⟨slices, rest ++ [t], by rw [whole, List.append_assoc], by simp [emitted, silent], exact,
    fun _ => ?_⟩
  refine ⟨rest, t, [], rfl, starts, by simp, ?_⟩
  rw [samplesSince_concat, searching]
  rfl

/-- A transition that publishes nothing and runs the capture on joins its slice. -/
theorem Sliced.joins {past : List cfg.Transition} {now next : cfg.State} {t : cfg.Transition}
    (sliced : Sliced past now) (running : now.inSync = true) (before : t.before.inSync = true)
    (silent : t.emitted = []) : Sliced (past ++ [t]) next := by
  obtain ⟨slices, rest, whole, emitted, exact, current⟩ := sliced
  obtain ⟨search, start, packet, split, starts, captured, inputs⟩ := current running
  refine ⟨slices, rest ++ [t], by rw [whole, List.append_assoc], by simp [emitted, silent], exact,
    fun _ => ?_⟩
  refine ⟨search, start, packet ++ [t], by rw [split, List.append_assoc]; rfl, starts, ?_, ?_⟩
  · exact List.forall_mem_append.mpr ⟨captured, by simpa using before⟩
  · rw [samplesSince_concat, if_pos before, List.map_append, inputs, List.map_singleton]

/-- A transition that publishes the samples of the capture completes its slice. -/
theorem Sliced.ends {past : List cfg.Transition} {now next : cfg.State} {t : cfg.Transition}
    {u : List Int8} (sliced : Sliced past now) (running : now.inSync = true)
    (before : t.before.inSync = true) (samples : samplesSince past ++ [t.input] = u)
    (published : t.emitted = [payload cfg u]) (idle : next.inSync = false)
    (fixed : cfg.fixedLen = true → (u.length : Int) = cfg.pktLen.toInt)
    (announced : cfg.fixedLen = false → Announces cfg u u.length) : Sliced (past ++ [t]) next := by
  obtain ⟨slices, rest, whole, emitted, exact, current⟩ := sliced
  obtain ⟨search, start, packet, split, starts, captured, inputs⟩ := current running
  have sampled : (Slice.mk search start (packet ++ [t])).samples = u := by
    rw [Slice.samples, List.map_append, inputs, ← samples]
    rfl
  refine ⟨slices ++ [⟨search, start, packet ++ [t]⟩], [], ?_, ?_, ?_,
    fun capturing => by simp [idle] at capturing⟩
  · rw [whole, split]
    simp [Slice.transitions]
  · rw [List.flatMap_append, emitted, List.map_append, List.flatMap_singleton, published,
      List.map_singleton, sampled]
  · intro slice member
    cases List.mem_append.mp member with
    | inl earlier => exact exact slice earlier
    | inr last =>
      rw [List.mem_singleton.mp last]
      constructor
      · exact starts
      · exact List.forall_mem_append.mpr ⟨captured, by simpa using before⟩
      · rw [sampled]
        exact fixed
      · rw [sampled]
        exact announced

/-- What the block does with a binary sample, on the history. -/
structure Sound (past : List cfg.Transition) (now : cfg.State) : Prop where
  /-- The state fits the history. -/
  tracks : Tracks past now
  /-- The history is cut at the published packets. -/
  sliced : Sliced past now
  /-- Only binary samples were consumed. -/
  binary : ∀ t ∈ past, Binary t.input

/-- The samples of a capture are binary with the others. -/
theorem Sound.since {past : List cfg.Transition} {now : cfg.State} (sound : Sound past now) :
    ∀ x ∈ samplesSince past, Binary x := by
  intro x member
  obtain ⟨t, inside, rfl⟩ := List.mem_map.mp member
  exact sound.binary t ((List.rtakeWhile_suffix _ past).subset inside)

/-- A captured binary sample: the block goes on, and the history stays cut at the packets. -/
theorem Sound.capture (valid : cfg.Valid) {past : List cfg.Transition} {now : cfg.State}
    {x : Int8} (sound : Sound past now) (sample : Binary x) (running : now.inSync = true) :
    ∃ next, (react cfg now x).after = .ok next ∧
      Sliced (past ++ [transition (react cfg) now x]) next := by
  obtain ⟨state, opened⟩ := sound.tracks.capture running
  have before : (transition (react cfg) now x).before.inSync = true := running
  have binary : ∀ y ∈ samplesSince past ++ [x], Binary y :=
    List.forall_mem_append.mpr ⟨sound.since, by simpa using sample⟩
  rcases react_captured valid.framed opened x with joined | ends | refused | negative
  · rw [← state] at joined
    refine ⟨_, congrArg Reaction.after joined.2, sound.sliced.joins running before ?_⟩
    rw [transition, joined.2]
  · rw [← state] at ends
    obtain ⟨known, _, reached, step⟩ := ends
    obtain ⟨exactly, accepted⟩ := ends_exactly valid opened binary known reached
    have length : ((samplesSince past ++ [x]).length : Int) =
        (target cfg (samplesSince past ++ [x])).toInt := by
      rw [exactly, List.length_append, List.length_singleton]
      omega
    refine ⟨_, congrArg Reaction.after step, sound.sliced.ends running before rfl ?_ rfl ?_ ?_⟩
    · rw [transition, step]
    · intro mode
      rw [transition, length]
      simp [target, mode]
    · intro mode
      rw [transition, length]
      exact announces_target valid mode binary (known.long mode) accepted
  · rw [← state] at refused
    refine ⟨_, congrArg Reaction.after refused.2.2.2, Sliced.silent sound.sliced ?_ rfl⟩
    rw [transition, refused.2.2.2]
  · have total := valid.target negative.1 binary
    obtain ⟨offset, adjust, small⟩ := valid.lengths negative.1
    have sign := negative.2.2.1
    omega

/-- A searched sample: the block goes on, and the history stays cut at the packets. -/
theorem Sound.search (valid : cfg.Valid) {past : List cfg.Transition} {now : cfg.State}
    {x : Int8} (sound : Sound past now) (searching : now.inSync = false) :
    ∃ next, (react cfg now x).after = .ok next ∧
      Sliced (past ++ [transition (react cfg) now x]) next := by
  by_cases found : now.search.push x = ShiftRegister.ofWord cfg.sync
  · have step := react_starts valid.framed searching sound.tracks.fixed found
    have starts : Starts (transition (react cfg) now x) :=
      ⟨searching, captured cfg [], by rw [transition, step], rfl⟩
    refine ⟨_, congrArg Reaction.after step, sound.sliced.opens starts searching ?_⟩
    rw [transition, step]
  · have step := react_search_miss searching found
    refine ⟨_, congrArg Reaction.after step, sound.sliced.silent ?_ searching⟩
    rw [transition, step]

/-- The block goes on with every binary sample, and everything stays in agreement. -/
theorem Sound.step (valid : cfg.Valid) {past : List cfg.Transition} {now : cfg.State} {x : Int8}
    (sound : Sound past now) (sample : Binary x) :
    ∃ next, (react cfg now x).after = .ok next ∧
      Sound (past ++ [transition (react cfg) now x]) next := by
  have inputs : ∀ t ∈ past ++ [transition (react cfg) now x], Binary t.input :=
    List.forall_mem_append.mpr ⟨sound.binary, by simpa [transition] using sample⟩
  cases running : now.inSync with
  | true =>
    obtain ⟨next, stepped, sliced⟩ := sound.capture valid sample running
    exact ⟨next, stepped, sound.tracks.step valid.framed stepped, sliced, inputs⟩
  | false =>
    obtain ⟨next, stepped, sliced⟩ := @Sound.search _ valid _ _ x sound running
    exact ⟨next, stepped, sound.tracks.step valid.framed stepped, sliced, inputs⟩

/-- A run on binary samples does not stop, a running capture has the integrity of its samples,
and the published data are the samples of disjoint slices of the stream, in stream order. -/
theorem capture_integrity (valid : cfg.Valid) (garbage : Uninitialised)
    (chunks : List (List Int8)) (binary : ∀ x ∈ chunks.flatten, Binary x) :
    ∃ now, (run cfg garbage chunks).final = .ok now ∧
      (now.inSync = true → Integrity cfg (samplesSince (run cfg garbage chunks).history) now) ∧
      ∃ (slices : List (Slice cfg)) (rest : List cfg.Transition),
        (run cfg garbage chunks).history = slices.flatMap Slice.transitions ++ rest ∧
        chunks.flatten = slices.flatMap (fun slice => slice.transitions.map Transition.input) ++
          rest.map Transition.input ∧
        published cfg garbage chunks = slices.map (fun slice => payload cfg slice.samples) ∧
        ∀ slice ∈ slices, slice.Exact := by
  obtain ⟨now, final, sound⟩ := work_total (react cfg)
    (fun past now x member (sound : Sound past now) => sound.step valid (binary x member))
    [] ⟨tracks_make garbage, sliced_make garbage, by simp⟩
  rw [List.nil_append] at sound
  rw [published, run, feed_eq_work]
  refine ⟨now, final, fun running => ?_, ?_⟩
  · obtain ⟨state, opened⟩ := sound.tracks.capture running
    have integrity := integrity_captured valid sound.since opened
    rwa [← state] at integrity
  · obtain ⟨slices, rest, whole, emitted, exact, -⟩ := sound.sliced
    refine ⟨slices, rest, whole, ?_, emitted, exact⟩
    rw [← work_inputs (react cfg) final, whole, List.map_append, List.map_flatMap]

/-- Packets of three samples behind two ones. -/
def threeSamples : Config := { doubleOne with pktLen := 3 }

/-- The state inside the second packet of three samples, and the slice of the first one. -/
theorem capture_integrity_doubleOne :
    ∃ now, (run threeSamples ⟨0, 0, false⟩ [[1, 1, 0], [1, 1, 0, 1, 1, 0, 1]]).final = .ok now ∧
      Integrity threeSamples [0, 1] now ∧
      published threeSamples ⟨0, 0, false⟩ [[1, 1, 0], [1, 1, 0, 1, 1, 0, 1]] = [[0, 1, 1]] ∧
      ∃ (slices : List (Slice threeSamples)) (rest : List threeSamples.Transition),
        [1, 1, 0, 1, 1, 0, 1, 1, 0, 1] =
          slices.flatMap (fun slice => slice.transitions.map Transition.input) ++
            rest.map Transition.input ∧
        slices.map (fun slice => payload threeSamples slice.samples) = [[0, 1, 1]] ∧
        ∀ slice ∈ slices, slice.Exact := by
  have valid : threeSamples.Valid :=
    ⟨fun _ => (by decide : (1 : Int) ≤ (3 : Int32).toInt),
      fun mode => by simp [threeSamples, doubleOne] at mode⟩
  obtain ⟨now, final, integrity, slices, rest, _, cut, packets, exact⟩ :=
    @capture_integrity threeSamples valid ⟨0, 0, false⟩ [[1, 1, 0], [1, 1, 0, 1, 1, 0, 1]]
      (binary_of_all rfl)
  have running : now.inSync = true := by
    have state : Except.ok (captured threeSamples [0, 1]) =
        (Except.ok now : Except StdException _) := by
      rw [← final]
      rfl
    cases Except.ok.inj state
    rfl
  have first : published threeSamples ⟨0, 0, false⟩ [[1, 1, 0], [1, 1, 0, 1, 1, 0, 1]] =
      [[0, 1, 1]] := by decide
  exact ⟨now, final, integrity running, first, slices, rest, cut, packets.symm.trans first, exact⟩

end GrReveng.PacketDeframer
