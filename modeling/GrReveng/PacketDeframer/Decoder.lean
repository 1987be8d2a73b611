import GrReveng.Library.Frames
import GrReveng.PacketDeframer.Announced

/-!
# The deframer as a receiver of frames

What the deframer publishes, without its state: the stream is searched for the sync word, the
packet behind it reaches as far as its own samples say, and the search goes on behind it with
the old sync word still in the register. This holds for samples of any value, also where a
packet is refused or its length cannot be reserved.
-/

namespace GrReveng.PacketDeframer

open Reactive

variable {cfg : Config}

/-- How far the packet that begins with these samples reaches. A length byte that is refused ends
it, unless the announced end is not behind the length byte; a negative end has no extent. -/
def Config.extent (cfg : Config) (rest : List Int8) : Option Extent :=
  if cfg.fixedLen then some ⟨cfg.pktLen.toInt.toNat, true⟩
  else if rest.length < cfg.headerBits then none
  else
    let stop := (target cfg rest).toInt
    if stop < 0 then none
    else if stop ≤ cfg.headerBits then some ⟨cfg.headerBits, true⟩
    else if cfg.Refuses (lengthWord cfg rest) then some ⟨cfg.headerBits, false⟩
    else some ⟨stop.toNat, true⟩

/-- The packets of a stream. -/
def packets (cfg : Config) (stream : List Int8) : List (List Int8) :=
  frames cfg.sync cfg.extent [] stream

/-- The extent of fixed length mode. -/
theorem extent_fixed (mode : cfg.fixedLen = true) (rest : List Int8) :
    cfg.extent rest = some ⟨cfg.pktLen.toInt.toNat, true⟩ := if_pos mode

/-- In variable length mode there is no extent in front of the length. -/
theorem extent_short (mode : cfg.fixedLen = false) {rest : List Int8}
    (short : rest.length < cfg.headerBits) : cfg.extent rest = none := by
  rw [Config.extent, if_neg (by simp [mode]), if_pos short]

/-- In variable length mode the extent follows from the announced end. -/
theorem extent_long (mode : cfg.fixedLen = false) {rest : List Int8}
    (long : cfg.headerBits ≤ rest.length) :
    cfg.extent rest =
      if (target cfg rest).toInt < 0 then none
      else if (target cfg rest).toInt ≤ cfg.headerBits then some ⟨cfg.headerBits, true⟩
      else if cfg.Refuses (lengthWord cfg rest) then some ⟨cfg.headerBits, false⟩
      else some ⟨(target cfg rest).toInt.toNat, true⟩ := by
  rw [Config.extent, if_neg (by simp [mode]), if_neg (by omega)]

/-- The samples behind a header do not change the extent. -/
theorem extent_append (mode : cfg.fixedLen = false) {rest : List Int8}
    (long : cfg.headerBits ≤ rest.length) (more : List Int8) :
    cfg.extent (rest ++ more) = cfg.extent rest := by
  rw [extent_long mode long, extent_long mode (by rw [List.length_append]; omega),
    target_append (.inr long), lengthWord_append long]

/-- What an extent of variable length mode says: the end announced behind the length byte, or the
length byte itself where this is further or is refused. -/
theorem extent_cases (mode : cfg.fixedLen = false) {rest : List Int8} {reach : Extent}
    (decided : cfg.extent rest = some reach) :
    cfg.headerBits ≤ rest.length ∧ 0 ≤ (target cfg rest).toInt ∧
      (((target cfg rest).toInt ≤ cfg.headerBits ∧ reach = ⟨cfg.headerBits, true⟩) ∨
        (cfg.headerBits < (target cfg rest).toInt ∧ cfg.Refuses (lengthWord cfg rest) ∧
          reach = ⟨cfg.headerBits, false⟩) ∨
        (cfg.headerBits < (target cfg rest).toInt ∧ ¬cfg.Refuses (lengthWord cfg rest) ∧
          reach.kept = true ∧ (target cfg rest).toInt = reach.count)) := by
  by_cases long : cfg.headerBits ≤ rest.length
  · rw [extent_long mode long] at decided
    split at decided
    case isTrue => cases decided
    case isFalse sign =>
      refine ⟨long, by omega, ?_⟩
      split at decided
      case isTrue near => exact .inl ⟨near, (Option.some.inj decided).symm⟩
      case isFalse far =>
        right
        split at decided
        case isTrue refuses => exact .inl ⟨by omega, refuses, (Option.some.inj decided).symm⟩
        case isFalse accepts =>
          rw [← Option.some.inj decided]
          exact .inr ⟨by omega, accepts, rfl, (Int.toNat_of_nonneg (by omega)).symm⟩
  · rw [extent_short mode (by omega)] at decided
    cases decided

/-- No packet ends in front of its header. -/
theorem headerBits_le_count (mode : cfg.fixedLen = false) {rest : List Int8} {reach : Extent}
    (decided : cfg.extent rest = some reach) :
    cfg.headerBits ≤ reach.count ∧ cfg.headerBits ≤ rest.length := by
  have ⟨long, _, ends⟩ := extent_cases mode decided
  refine ⟨?_, long⟩
  rcases ends with near | refused | accepted
  · rw [near.2]
  · rw [refused.2.2]
  · omega

/-- A state that searches with these elements in the register. -/
structure Searches (cfg : Config) (context : List Int8) (s : cfg.State) : Prop where
  /-- No capture is running. -/
  idle : s.inSync = false
  /-- The packet length of fixed length mode is the argument. -/
  length : cfg.fixedLen = true → s.pktLen = cfg.pktLen
  /-- The register. -/
  register : s.search.items = context

/-- A search that does not meet the sync word publishes nothing. -/
theorem Searches.quiet {context xs : List Int8} {s : cfg.State} (searches : Searches cfg context s)
    (absent : behindWord cfg.sync context xs = none) :
    (work (react cfg) s xs).published = [] := by
  rw [← searches.register] at absent
  exact (work_quiet searches.idle (quiet_of_absent absent)).2.1

/-- The state behind a capture searches with the sync word in the register. -/
theorem searches_finished (u : List Int8) : Searches cfg cfg.sync (finished cfg u) :=
  ⟨rfl, fun mode => captured_pktLen mode u, rfl⟩

/-- A header that announces an end no further is a whole packet. -/
theorem complete_header (mode : cfg.fixedLen = false) {u : List Int8}
    (length : u.length = cfg.headerBits) (sign : 0 ≤ (target cfg u).toInt)
    (reached : (target cfg u).toInt ≤ cfg.headerBits) : Complete cfg u := by
  have header : 0 < cfg.headerBits := by simp [Config.headerBits]
  refine ⟨?_, .inr (by omega), sign, by omega, List.length_pos_iff.mp (by omega)⟩
  rintro front back rfl later known
  have positive := List.length_pos_iff.mpr later
  have long := known.long mode
  rw [List.length_append] at length
  omega

/-- A complete packet that is kept is published, and the block searches again. -/
theorem work_kept (framed : cfg.Framed) {rest : List Int8} {reach : Extent}
    (kept : reach.kept = true) (complete : Complete cfg (rest.take reach.count)) :
    (work (react cfg) (captured cfg []) (rest.take reach.count)).final =
        .ok (finished cfg (rest.take reach.count)) ∧
      (work (react cfg) (captured cfg []) (rest.take reach.count)).published =
        (reach.contribution rest).map (payload cfg) := by
  have ⟨final, published, _⟩ := work_complete framed complete
  rw [Extent.contribution, if_pos kept]
  exact ⟨final, published⟩

/-- A complete extent is run through: the packet is published if it is kept, and the block
searches again. -/
theorem work_extent (framed : cfg.Framed) {rest : List Int8} {reach : Extent}
    (decided : cfg.extent rest = some reach) (fits : reach.count ≤ rest.length) :
    (work (react cfg) (captured cfg []) (rest.take reach.count)).final =
        .ok (finished cfg (rest.take reach.count)) ∧
      (work (react cfg) (captured cfg []) (rest.take reach.count)).published =
        (reach.contribution rest).map (payload cfg) := by
  have length : (rest.take reach.count).length = reach.count := List.length_take_of_le fits
  cases mode : cfg.fixedLen with
  | true =>
    have positive := framed.fixed mode
    rw [extent_fixed mode, Option.some.injEq] at decided
    have count : reach.count = cfg.pktLen.toInt.toNat := by rw [← decided]
    exact work_kept framed (by rw [← decided])
      (complete_fixed mode (List.length_pos_iff.mp (by omega)) (by omega))
  | false =>
    have ⟨header, long⟩ := headerBits_le_count mode decided
    have whole := List.take_append_drop reach.count rest
    have known : Known cfg (rest.take reach.count) := .inr (by omega)
    have same := target_append known (rest.drop reach.count)
    have word := @lengthWord_append cfg (rest.take reach.count) (by omega)
      (rest.drop reach.count)
    rw [whole] at same word
    have ⟨_, sign, ends⟩ := extent_cases mode decided
    rw [same, word] at ends
    rw [same] at sign
    rcases ends with ⟨near, kind⟩ | ⟨far, refuses, kind⟩ | ⟨far, accepts, kept, stop⟩
    · have count : reach.count = cfg.headerBits := by rw [kind]
      exact work_kept framed (by rw [kind]) (complete_header mode (by omega) sign near)
    · have count : reach.count = cfg.headerBits := by rw [kind]
      have ⟨final, published⟩ := work_dropped framed
        (@dropped_of_refused cfg (rest.take reach.count) ⟨mode, by omega, refuses⟩ (by omega)
          (by omega))
      rw [Extent.contribution, if_neg (by rw [kind]; exact Bool.false_ne_true)]
      exact ⟨final, published⟩
    · exact work_kept framed kept (complete_of_target known (List.length_pos_iff.mp (by omega))
        (fun refused => accepts refused.2.2) (by omega))

/-- Samples that all belong to an open capture publish nothing. -/
theorem work_all_open (framed : cfg.Framed) {rest : List Int8}
    (opened : ∀ front back, rest = front ++ back → Open cfg front) :
    (work (react cfg) (captured cfg []) rest).published = [] :=
  (work_open framed fun front back split => by
    rw [List.nil_append]
    exact opened front back split).2

/-- Samples in front of the last bit of the length byte are an open capture. -/
theorem open_short (mode : cfg.fixedLen = false) {front : List Int8}
    (short : front.length < cfg.headerBits) : Open cfg front := by
  intro known
  have header := known.long mode
  omega

/-- A length byte with a negative end stops the block, and nothing is published. -/
theorem work_negative (framed : cfg.Framed) (mode : cfg.fixedLen = false) {front : List Int8}
    {x : Int8} (header : front.length + 1 = cfg.headerBits)
    (negative : (target cfg (front ++ [x])).toInt < 0) (back : List Int8) :
    (work (react cfg) (captured cfg []) (front ++ x :: back)).published = [] := by
  have before := work_header framed mode (w := front) (by omega)
  have quiet := work_all_open framed fun part rest (split : front = part ++ rest) =>
    open_short mode (by have parts := congrArg List.length split; simp at parts; omega)
  have stops : react cfg (captured cfg front) x = ⟨[], .error .lengthError⟩ := by
    rcases react_captured framed (@open_short cfg mode front (by omega)) x with
      joined | ends | refused | throws
    · have below := (joined.1 (.inr (by rw [List.length_append, List.length_singleton]; omega))).1
      omega
    · have sign := ends.2.1
      omega
    · have below := refused.2.2.1
      omega
    · exact throws.2.2.2
  rw [work_append_published (react cfg) _ before, quiet,
    work_cons_error (react cfg) back (congrArg Reaction.after stops), Run.published,
    List.flatMap_singleton, transition, stops]
  rfl

/-- Samples whose length byte has a negative end publish nothing. -/
theorem work_negative_end (framed : cfg.Framed) (mode : cfg.fixedLen = false) {rest : List Int8}
    (long : cfg.headerBits ≤ rest.length) (negative : (target cfg rest).toInt < 0) :
    (work (react cfg) (captured cfg []) rest).published = [] := by
  have positive : 0 < cfg.headerBits := by simp [Config.headerBits]
  have inside : cfg.headerBits - 1 < rest.length := by omega
  have cut := List.take_append_drop (cfg.headerBits - 1) rest
  have length : (rest.take (cfg.headerBits - 1)).length + 1 = cfg.headerBits := by
    rw [List.length_take]
    omega
  rw [List.drop_eq_getElem_cons inside] at cut
  rw [← cut] at negative ⊢
  rw [List.append_cons, target_append (.inr (by
    rw [List.length_append, List.length_singleton]; omega))] at negative
  exact work_negative framed mode length negative _

/-- The front part of an incomplete packet of a fixed length is an open capture. -/
theorem open_incomplete_fixed (mode : cfg.fixedLen = true) {front back : List Int8}
    (incomplete : ∀ reach, cfg.extent (front ++ back) = some reach →
      (front ++ back).length < reach.count) : Open cfg front := by
  have short := incomplete _ (extent_fixed mode (front ++ back))
  rw [List.length_append] at short
  dsimp only at short
  intro known
  refine ⟨?_, fun refused => by rw [refused.1] at mode; cases mode⟩
  rw [target, if_pos mode]
  omega

/-- The front part of an incomplete packet with a length byte is an open capture, unless the
packet has a negative end. -/
theorem open_incomplete_counted (mode : cfg.fixedLen = false) {front back : List Int8}
    (long : cfg.headerBits ≤ (front ++ back).length)
    (sign : ¬(target cfg (front ++ back)).toInt < 0)
    (incomplete : ∀ reach, cfg.extent (front ++ back) = some reach →
      (front ++ back).length < reach.count) : Open cfg front := by
  intro known
  have same := target_append known back
  have word := lengthWord_append (known.long mode) back
  have lengths : (front ++ back).length = front.length + back.length := List.length_append
  have some := extent_long mode long
  rw [if_neg sign] at some
  split at some
  case isTrue =>
    have short := incomplete _ some
    dsimp only at short
    omega
  case isFalse =>
    split at some
    case isTrue =>
      have short := incomplete _ some
      dsimp only at short
      omega
    case isFalse accepts =>
      have short := incomplete _ some
      dsimp only at short
      rw [word] at accepts
      rw [same] at short
      exact ⟨by omega, fun refused => accepts refused.2.2⟩

/-- A packet that is not complete publishes nothing. -/
theorem work_incomplete (framed : cfg.Framed) {rest : List Int8}
    (incomplete : ∀ reach, cfg.extent rest = some reach → rest.length < reach.count) :
    (work (react cfg) (captured cfg []) rest).published = [] := by
  cases mode : cfg.fixedLen with
  | true =>
    apply work_all_open framed
    rintro front back rfl
    exact open_incomplete_fixed mode incomplete
  | false =>
    by_cases long : cfg.headerBits ≤ rest.length
    · by_cases sign : (target cfg rest).toInt < 0
      · exact work_negative_end framed mode long sign
      · apply work_all_open framed
        rintro front back rfl
        exact open_incomplete_counted mode long sign incomplete
    · apply work_all_open framed
      rintro front back rfl
      rw [List.length_append] at long
      exact open_short mode (by omega)

/-- The block is a receiver of frames. -/
theorem framer (framed : cfg.Framed) :
    Framer (react cfg) cfg.sync cfg.extent (payload cfg) (Searches cfg) (captured cfg []) where
  quiet := fun _ _ _ searches absent => searches.quiet absent
  finds := by
    rintro context s xs searches found
    rw [← searches.register] at found
    have ⟨final, published, _⟩ :=
      work_finds framed searches.idle searches.length (finds_of_found found)
    exact ⟨final, published⟩
  complete := fun rest reach decided fits =>
    ⟨_, searches_finished (rest.take reach.count), work_extent framed decided fits⟩
  short := fun rest incomplete => work_incomplete framed incomplete

/-- A run publishes the payloads of the packets of its samples, which may have any value. -/
theorem work_packets (framed : cfg.Framed) (garbage : Uninitialised) (stream : List Int8) :
    (work (react cfg) (make cfg garbage) stream).published =
      (packets cfg stream).map (payload cfg) :=
  (framer framed).work_frames ⟨rfl, fun _ => rfl, rfl⟩ stream

/-- However the stream is split over work calls, the published data are the payloads of its
packets. -/
theorem published_packets (framed : cfg.Framed) (garbage : Uninitialised)
    (chunks : List (List Int8)) :
    published cfg garbage chunks = (packets cfg chunks.flatten).map (payload cfg) := by
  rw [published, run, feed_eq_work, work_packets framed]

/-- The packets that a configuration describes. -/
inductive Layout
  /-- Packets of some number of bits. -/
  | fixed (bits : Nat)
  /-- Packets with a length byte, the number of bytes before it and behind those it counts, and
  its largest value. -/
  | counted (offset adjust : Nat) (largest : Option Nat)
  deriving DecidableEq

/-- The length byte behind an offset. -/
def lengthBehind (offset : Nat) (rest : List Int8) : Nat :=
  msbValue (((rest.drop (8 * offset)).take 8).map lsb)

/-- How far the packet that begins with these samples reaches. -/
def Layout.extent : Layout → List Int8 → Option Extent
  | fixed bits, _ => some ⟨bits, true⟩
  | counted offset adjust largest, rest =>
    if rest.length < 8 * offset + 8 then none
    else if largest.any fun most => most < lengthBehind offset rest then
      some ⟨8 * offset + 8, false⟩
    else some ⟨8 * (offset + 1 + lengthBehind offset rest + adjust), true⟩

/-- The number of bits of the longest packet. -/
def Layout.longest : Layout → Nat
  | fixed bits => bits
  | counted offset adjust _ => 8 * (offset + 256 + adjust)

/-- The layout of the arguments of a block. -/
def Config.layout (cfg : Config) : Layout :=
  if cfg.fixedLen then .fixed cfg.pktLen.toInt.toNat
  else .counted cfg.pktLenOffset.toInt.toNat cfg.pktLenAdj.toInt.toNat
    (if 0 < cfg.maxLen then some cfg.maxLen.toInt.toNat else none)

/-- A length byte is refused when it exceeds the largest value of the layout. -/
theorem refuses_iff {u : List Int8} (binary : ∀ x ∈ u, Binary x) :
    cfg.Refuses (lengthWord cfg u) ↔
      (if 0 < cfg.maxLen then some cfg.maxLen.toInt.toNat else none).any
        (fun most => most < lengthByte cfg u) = true := by
  have compare := @Int32.lt_iff_toInt_lt cfg.maxLen (lengthWord cfg u)
  rw [lengthWord_binary binary] at compare
  rw [Config.Refuses, compare]
  by_cases enabled : 0 < cfg.maxLen
  · have positive := Int32.lt_iff_toInt_lt.mp enabled
    change 0 < cfg.maxLen.toInt at positive
    rw [if_pos enabled, Option.any_some, decide_eq_true_eq]
    refine ⟨fun both => ?_, fun less => ⟨enabled, by omega⟩⟩
    have above := both.2
    omega
  · rw [if_neg enabled]
    exact iff_of_false (fun both => enabled both.1) Bool.false_ne_true

/-- On bits the extents are those of the layout. -/
theorem Config.Valid.extent_eq (valid : cfg.Valid) {rest : List Int8}
    (binary : ∀ x ∈ rest, Binary x) : cfg.extent rest = cfg.layout.extent rest := by
  cases mode : cfg.fixedLen with
  | true =>
    rw [extent_fixed mode, Config.layout, if_pos mode]
    rfl
  | false =>
    have ⟨offset, adjust, _⟩ := valid.lengths mode
    have stop := valid.target mode binary
    have refuses := @refuses_iff cfg rest binary
    have header : cfg.headerBits = 8 * cfg.pktLenOffset.toInt.toNat + 8 := rfl
    have byte : lengthBehind cfg.pktLenOffset.toInt.toNat rest = lengthByte cfg rest := rfl
    rw [Config.layout, if_neg (by simp [mode]), Layout.extent, ← header, byte]
    by_cases long : cfg.headerBits ≤ rest.length
    · rw [extent_long mode long, if_neg (show ¬rest.length < cfg.headerBits by omega),
        if_neg (show ¬(PacketDeframer.target cfg rest).toInt < 0 by omega)]
      by_cases excess : cfg.Refuses (lengthWord cfg rest)
      · have positive := Int32.lt_iff_toInt_lt.mp excess.1
        have above := Int32.lt_iff_toInt_lt.mp excess.2
        change 0 < cfg.maxLen.toInt at positive
        rw [lengthWord_binary binary] at above
        rw [if_neg (by omega), if_pos excess, if_pos (refuses.mp excess)]
      · rw [if_neg (mt refuses.mpr excess), if_neg excess]
        split
        case isTrue near =>
          rw [Option.some.injEq, Extent.mk.injEq]
          exact ⟨by omega, rfl⟩
        case isFalse =>
          rw [Option.some.injEq, Extent.mk.injEq]
          exact ⟨by omega, rfl⟩
    · rw [extent_short mode (by omega), if_pos (by omega)]

/-- The packets of a stream are read off its samples, whatever their values, and on bits with valid
arguments they are those of the layout. The published data are their payloads, however the
stream is split over work calls. -/
theorem receives_packets (framed : cfg.Framed) (garbage : Uninitialised)
    (chunks : List (List Int8)) :
    published cfg garbage chunks =
        (frames cfg.sync cfg.extent [] chunks.flatten).map (payload cfg) ∧
      (cfg.Valid → (∀ x ∈ chunks.flatten, Binary x) →
        published cfg garbage chunks =
          (frames cfg.sync cfg.layout.extent [] chunks.flatten).map (payload cfg)) := by
  have received := published_packets framed garbage chunks
  refine ⟨received, fun valid binary => ?_⟩
  rw [received, packets, frames_extent_congr fun rest suffix =>
    valid.extent_eq fun x member => binary x (suffix.subset member)]

/-- Packets that begin with their length byte. -/
def leadingLength : Config := ⟨"", [1, 0], false, -1, 0, 0, 0, true⟩

/-- A packet that counts no byte, and one that is not complete. -/
theorem receives_packets_leadingLength :
    published leadingLength ⟨0, 0, false⟩ [[1, 1, 0, 0, 0, 0], [0, 0, 0, 0, 0, 1, 0, 0]] =
        (frames [1, 0] (Layout.counted 0 0 none).extent []
          [1, 1, 0, 0, 0, 0, 0, 0, 0, 0, 0, 1, 0, 0]).map (payload leadingLength) ∧
      published leadingLength ⟨0, 0, false⟩ [[1, 1, 0, 0, 0, 0], [0, 0, 0, 0, 0, 1, 0, 0]] =
        [[0]] := by
  have valid : leadingLength.Valid :=
    ⟨fun mode => by simp [leadingLength] at mode, fun _ => by decide⟩
  have received := receives_packets valid.framed ⟨0, 0, false⟩
    [[1, 1, 0, 0, 0, 0], [0, 0, 0, 0, 0, 1, 0, 0]]
  exact ⟨received.2 valid (binary_of_all rfl), by decide⟩

end GrReveng.PacketDeframer
