import GrReveng.Library.BitPacking

/-!
# Shifting samples into machine words

A sample is a signed byte whose least significant bit is a datum. Shifting samples into a signed
word doubles the word and ors the sign-extended sample into it. On samples that are zero or one
the word is the value of the bits (`shiftInAll_binary`). On any samples eight of them leave a
word of fifteen bits (`shiftInAll_range`); and the word is the value of the least significant bits
exactly when no other bit of a sample lands where these put a zero (`shiftInAll_eq_iff`).
-/

namespace GrReveng

/-- A sample that is zero or one. -/
def Binary (x : Int8) : Prop := x = 0 ∨ x = 1

instance (x : Int8) : Decidable (Binary x) := inferInstanceAs (Decidable (x = 0 ∨ x = 1))

/-- The least significant bit of a sample. -/
def lsb (x : Int8) : Bool := x.toBitVec.getLsbD 0

/-- The sample of a bit. -/
def bitSample (bit : Bool) : Int8 := if bit then 1 else 0

@[simp] theorem lsb_bitSample (bit : Bool) : lsb (bitSample bit) = bit := by
  cases bit <;> decide

theorem binary_bitSample (bit : Bool) : Binary (bitSample bit) := by
  cases bit <;> decide

/-- Samples of bits are binary. -/
theorem binary_map_bitSample (bits : List Bool) : ∀ x ∈ bits.map bitSample, Binary x := by
  intro x member
  cases List.mem_map.mp member with
  | intro bit source => rw [← source.2]; exact binary_bitSample bit

/-- Whether all samples are binary can be computed. -/
theorem binary_of_all {xs : List Int8} (checked : xs.all (fun x => decide (Binary x)) = true) :
    ∀ x ∈ xs, Binary x :=
  fun x member => of_decide_eq_true (List.all_eq_true.mp checked x member)

/-- A binary sample is the sample of its bit. -/
theorem bitSample_lsb {x : Int8} (binary : Binary x) : bitSample (lsb x) = x := by
  rcases binary with rfl | rfl <;> decide

/-- Binary samples are the samples of their bits. -/
theorem map_bitSample_lsb {xs : List Int8} (binary : ∀ x ∈ xs, Binary x) :
    (xs.map lsb).map bitSample = xs := by
  rw [List.map_map]
  exact (List.map_congr_left fun x member => bitSample_lsb (binary x member)).trans (List.map_id xs)

/-- Masking a sample with one leaves the sample of its least significant bit. -/
theorem and_one_eq (x : Int8) : x &&& 1 = bitSample (lsb x) := by
  apply Int8.toBitVec_inj.mp
  apply BitVec.eq_of_getLsbD_eq
  intro i _
  rw [Int8.toBitVec_and, BitVec.getLsbD_and]
  cases bit : lsb x with
  | false =>
    cases i with
    | zero => exact (congrArg (· && _) bit).trans (by simp [bitSample])
    | succ i => simp [bitSample]
  | true =>
    cases i with
    | zero => exact (congrArg (· && _) bit).trans (by simp [bitSample])
    | succ i => simp [bitSample]

/-- Shift a word left by one and or a sign-extended sample into it. -/
def shiftIn (word : Int32) (x : Int8) : Int32 := (word <<< 1) ||| x.toInt32

/-- Shift a list of samples into a word in order. -/
def shiftInAll (word : Int32) (xs : List Int8) : Int32 := xs.foldl shiftIn word

@[simp] theorem shiftInAll_nil (word : Int32) : shiftInAll word [] = word := rfl

@[simp] theorem shiftInAll_concat (word : Int32) (xs : List Int8) (x : Int8) :
    shiftInAll word (xs ++ [x]) = shiftIn (shiftInAll word xs) x := by
  simp [shiftInAll]

/-- Doubling by a shift. -/
theorem shiftLeft_one {width : Nat} (word : BitVec width) : word <<< 1 = word + word := by
  apply BitVec.eq_of_toNat_eq
  simp only [BitVec.toNat_shiftLeft, BitVec.toNat_add, Nat.shiftLeft_eq, Nat.pow_one]
  congr 1
  omega

/-- Oring a zero or a one into a doubled word adds it. -/
theorem shiftLeft_one_or {width : Nat} (word bit : BitVec width) (binary : bit = 0 ∨ bit = 1) :
    word <<< 1 ||| bit = word + word + bit := by
  have disjoint : word <<< 1 &&& bit = (0 : BitVec width) := by
    rcases binary with rfl | rfl
    · simp
    · apply BitVec.eq_of_getLsbD_eq
      intro i _
      cases i <;> simp
  rw [← BitVec.add_eq_or_of_and_eq_zero _ _ disjoint, shiftLeft_one]

/-- Shifting a bit into a byte accumulator appends it to the bits the accumulator denotes. -/
theorem byteOf_concat (bits : List Bool) (bit : Bool) :
    (byteOf bits <<< 1) ||| (bitSample bit).toUInt8 = byteOf (bits ++ [bit]) := by
  have sum : (byteOf bits <<< 1) ||| (bitSample bit).toUInt8 =
      byteOf bits + byteOf bits + (bitSample bit).toUInt8 := by
    apply UInt8.toBitVec_inj.mp
    exact shiftLeft_one_or _ _ (by cases bit <;> simp [bitSample])
  have value : (bitSample bit).toUInt8.toNat = bit.toNat := by cases bit <;> rfl
  rw [sum]
  apply UInt8.toNat_inj.mp
  simp only [byteOf, UInt8.toNat_add, UInt8.toNat_ofNat', value, msbValue_concat]
  omega

/-- Shifting a binary sample into a small word doubles the word and adds the bit. -/
theorem shiftIn_binary {word : Int32} {x : Int8} (binary : Binary x) (nonnegative : 0 ≤ word.toInt)
    (small : word.toInt < 2 ^ 30) :
    (shiftIn word x).toInt = 2 * word.toInt + (lsb x).toNat := by
  have sum : shiftIn word x = word + word + x.toInt32 := by
    apply Int32.toBitVec_inj.mp
    exact shiftLeft_one_or _ _ (by rcases binary with rfl | rfl <;> simp)
  have value : x.toInt = (lsb x).toNat := by rcases binary with rfl | rfl <;> rfl
  have bit := (lsb x).toNat_le
  rw [sum, Int32.toInt_add, Int32.toInt_add, Int8.toInt_toInt32, Int.bmod_add_bmod, value]
  rw [Int.bmod_eq_of_le (by omega) (by omega)]
  omega

/-- Shifting binary samples into zero gives the value of their bits. -/
theorem shiftInAll_binary {xs : List Int8} (binary : ∀ x ∈ xs, Binary x)
    (short : xs.length ≤ 30) : (shiftInAll 0 xs).toInt = msbValue (xs.map lsb) := by
  induction xs using List.reverseRecOn with
  | nil => rfl
  | append_singleton xs x ih =>
    rw [List.length_append, List.length_singleton] at short
    have earlier := ih (fun y member => binary y (by simp [member])) (by omega)
    have bound := msbValue_lt (xs.map lsb)
    have power : 2 ^ (xs.map lsb).length ≤ 2 ^ 29 :=
      Nat.pow_le_pow_right (by decide) (by simp only [List.length_map]; omega)
    rw [shiftInAll_concat, shiftIn_binary (binary x (by simp)) (by omega) (by omega), earlier]
    simp

/-- A value of a signed range of one sign bit and `n` value bits. -/
def FitsSigned (n : Nat) (value : Int) : Prop := -(2 : Int) ^ n ≤ value ∧ value < (2 : Int) ^ n

/-- A word lies in a signed range exactly when shifting the range out leaves only signs. -/
theorem fitsSigned_iff (word : BitVec 32) (n : Nat) :
    FitsSigned n word.toInt ↔ word.sshiftRight n = 0 ∨ word.sshiftRight n = -1 := by
  have positive : (0 : Int) < 2 ^ n := Int.pow_pos (by decide)
  have quotient : (word.sshiftRight n).toInt = word.toInt / 2 ^ n := by
    rw [BitVec.toInt_sshiftRight, Int.shiftRight_eq_div_pow]
    norm_cast
  have zero : (0 : BitVec 32).toInt = 0 := by decide
  have minus : (-1 : BitVec 32).toInt = -1 := by decide
  rw [← BitVec.toInt_inj, ← BitVec.toInt_inj, quotient, zero, minus]
  constructor
  · rintro ⟨low, high⟩
    by_cases sign : 0 ≤ word.toInt
    · exact .inl (Int.ediv_eq_zero_of_lt sign high)
    · right
      have above := (Int.le_ediv_iff_mul_le positive).mpr (show -1 * 2 ^ n ≤ word.toInt by omega)
      have below := Int.ediv_lt_of_lt_mul positive (show word.toInt < 0 * 2 ^ n by omega)
      omega
  · intro sign
    have parts := Int.mul_ediv_add_emod word.toInt (2 ^ n)
    have low := Int.emod_nonneg word.toInt (Int.ne_of_gt positive)
    have high := Int.emod_lt_of_pos word.toInt positive
    rw [FitsSigned]
    rcases sign with zero | minus
    · rw [zero] at parts; omega
    · rw [minus] at parts; omega

/-- The or of two words of a signed range stays in the range. -/
theorem FitsSigned.or {left right : BitVec 32} {n : Nat} (first : FitsSigned n left.toInt)
    (second : FitsSigned n right.toInt) : FitsSigned n (left ||| right).toInt := by
  rw [fitsSigned_iff] at first second ⊢
  rw [BitVec.sshiftRight_or_distrib]
  rcases first with hl | hl <;> rcases second with hr | hr <;> rw [hl, hr] <;> decide

/-- A smaller range lies in a larger one. -/
theorem FitsSigned.mono {n m : Nat} {value : Int} (fits : FitsSigned n value) (le : n ≤ m) :
    FitsSigned m value := by
  have wider : (2 : Int) ^ n ≤ 2 ^ m := by
    exact_mod_cast Nat.pow_le_pow_right (n := 2) (by decide) le
  exact ⟨by have := fits.1; omega, by have := fits.2; omega⟩

/-- A sample fits in seven value bits. -/
theorem fitsSigned_sample (x : Int8) : FitsSigned 7 x.toInt32.toInt := by
  rw [Int8.toInt_toInt32]
  exact ⟨x.le_toInt, x.toInt_lt⟩

/-- Doubling a small word doubles its value. -/
theorem toInt_shiftLeft_one {word : Int32} (small : FitsSigned 30 word.toInt) :
    (word <<< 1).toInt = 2 * word.toInt := by
  have sum : word <<< 1 = word + word := by
    apply Int32.toBitVec_inj.mp
    exact shiftLeft_one word.toBitVec
  obtain ⟨low, high⟩ := small
  rw [sum, Int32.toInt_add, Int.bmod_eq_of_le (by omega) (by omega)]
  omega

/-- One sample adds one bit to the range of a word that holds at least a sample's range. -/
theorem shiftIn_range {word : Int32} (x : Int8) {n : Nat} (lower : 6 ≤ n) (upper : n < 30)
    (range : FitsSigned n word.toInt) : FitsSigned (n + 1) (shiftIn word x).toInt := by
  have shifted := toInt_shiftLeft_one (range.mono (Nat.le_of_lt upper))
  have doubled : FitsSigned (n + 1) (word <<< 1).toBitVec.toInt := by
    obtain ⟨low, high⟩ := range
    rw [Int32.toInt_toBitVec, shifted, FitsSigned, Int.pow_succ]
    omega
  exact doubled.or ((fitsSigned_sample x).mono (by omega))

/-- Any samples shifted into zero stay within six bits more than their number. -/
theorem shiftInAll_range (xs : List Int8) (short : xs.length ≤ 24) :
    FitsSigned (6 + xs.length) (shiftInAll 0 xs).toInt := by
  induction xs using List.reverseRecOn with
  | nil => exact ⟨by decide, by decide⟩
  | append_singleton xs x ih =>
    rw [List.length_append, List.length_singleton] at short ⊢
    rw [shiftInAll_concat]
    exact shiftIn_range x (n := 6 + xs.length) (by omega) (by omega) (ih (by omega))

/-- No sample is negative, and every bit above the least significant one lands where the least
significant bit of an earlier sample has put a one. -/
def StrayFree (xs : List Int8) : Prop :=
  ∀ (k : Nat) (x : Int8), xs[k]? = some x → 0 ≤ x.toInt ∧ ∀ j, 0 < j → x.toBitVec.getLsbD j = true →
    j ≤ k ∧ ∃ y, xs[k - j]? = some y ∧ lsb y = true

/-- A bit of the word is set exactly when some sample, moved to its place, sets it. -/
theorem getLsbD_shiftInAll (xs : List Int8) {i : Nat} (inside : i < 32) :
    (shiftInAll 0 xs).toBitVec.getLsbD i = true ↔
      ∃ d x, xs.reverse[d]? = some x ∧ d ≤ i ∧ x.toInt32.toBitVec.getLsbD (i - d) = true := by
  induction xs using List.reverseRecOn generalizing i with
  | nil => simp
  | append_singleton xs x ih =>
    have shifted : (shiftInAll 0 xs <<< 1).toBitVec = (shiftInAll 0 xs).toBitVec <<< 1 := rfl
    rw [shiftInAll_concat, shiftIn, Int32.toBitVec_or, BitVec.getLsbD_or, shifted,
      BitVec.getLsbD_shiftLeft, List.reverse_concat]
    constructor
    · intro set
      rw [Bool.or_eq_true] at set
      rcases set with earlier | here
      · simp only [inside, decide_true, Bool.true_and, Bool.and_eq_true, Bool.not_eq_true',
          decide_eq_false_iff_not] at earlier
        obtain ⟨d, y, found, le, bit⟩ := (ih (by omega)).mp earlier.2
        exact ⟨d + 1, y, by simpa using found, by omega,
          by rwa [show i - (d + 1) = i - 1 - d by omega]⟩
      · exact ⟨0, x, by simp, by omega, by simpa using here⟩
    · rintro ⟨d, y, found, le, bit⟩
      rw [Bool.or_eq_true]
      cases d with
      | zero =>
        right
        obtain rfl : x = y := by simpa using found
        simpa using bit
      | succ d =>
        left
        have earlier := (ih (i := i - 1) (by omega)).mpr ⟨d, y, by simpa using found, by omega,
          by rwa [show i - 1 - d = i - (d + 1) by omega]⟩
        simp only [inside, decide_true, Bool.true_and, Bool.and_eq_true, Bool.not_eq_true',
          decide_eq_false_iff_not]
        exact ⟨by omega, earlier⟩

/-- The sign-extended sample of a bit has no bit but the lowest. -/
theorem getLsbD_bitSample (bit : Bool) (j : Nat) :
    (bitSample bit).toInt32.toBitVec.getLsbD j = true ↔ j = 0 ∧ bit = true := by
  cases bit <;> cases j <;> simp [bitSample]

/-- The sign extension of a sample repeats its own bits and then its sign. -/
theorem getLsbD_sample (x : Int8) {j : Nat} (inside : j < 32) :
    x.toInt32.toBitVec.getLsbD j = if j < 8 then x.toBitVec.getLsbD j else x.toBitVec.msb := by
  rw [Int8.toBitVec_toInt32, BitVec.getLsbD_signExtend]
  simp [inside]

/-- The sign bit of a sample. -/
theorem sample_msb (x : Int8) : x.toBitVec.msb = true ↔ x.toInt < 0 := by
  rw [BitVec.msb_eq_toInt, decide_eq_true_iff, Int8.toInt_toBitVec]

/-- Where a sample of eight stands counted from the end. -/
theorem reversed_place {xs : List Int8} (eight : xs.length = 8) {k : Nat} {x : Int8}
    (found : xs[k]? = some x) : k < 8 ∧ xs.reverse[7 - k]? = some x := by
  have below := (List.getElem?_eq_some_iff.mp found).1
  constructor
  · omega
  · rw [List.getElem?_reverse (by omega), eight, show 8 - 1 - (7 - k) = k by omega, found]

/-- Where a sample of eight counted from the end stands. -/
theorem forward_place {xs : List Int8} (eight : xs.length = 8) {d : Nat} {x : Int8}
    (found : xs.reverse[d]? = some x) : d < 8 ∧ xs[7 - d]? = some x := by
  have below := (List.getElem?_eq_some_iff.mp found).1
  rw [List.length_reverse] at below
  rw [List.getElem?_reverse below, eight] at found
  constructor
  · omega
  · rwa [show 7 - d = 8 - 1 - d by omega]

/-- In the word of masked samples, bit `i` comes from the sample `i` places from the end and no
other. -/
theorem getLsbD_masked {xs : List Int8} {i : Nat} (inside : i < 32) :
    (shiftInAll 0 (xs.map fun x => bitSample (lsb x))).toBitVec.getLsbD i = true ↔
      ∃ x, xs.reverse[i]? = some x ∧ lsb x = true := by
  rw [getLsbD_shiftInAll _ inside, ← List.map_reverse]
  constructor
  · rintro ⟨d, y, found, le, bit⟩
    rw [List.getElem?_map, Option.map_eq_some_iff] at found
    obtain ⟨x, found, rfl⟩ := found
    obtain ⟨zero, set⟩ := (getLsbD_bitSample _ _).mp bit
    exact ⟨x, by rwa [show i = d by omega], set⟩
  · rintro ⟨x, found, set⟩
    refine ⟨i, bitSample (lsb x), by rw [List.getElem?_map, found]; rfl, Nat.le_refl i, ?_⟩
    exact (getLsbD_bitSample _ _).mpr ⟨by omega, set⟩

/-- A word that masking leaves as it is has no stray bits. -/
theorem strayFree_of_mask {xs : List Int8} (eight : xs.length = 8)
    (same : shiftInAll 0 xs = shiftInAll 0 (xs.map fun x => bitSample (lsb x))) : StrayFree xs := by
  intro k x found
  obtain ⟨below, reversed⟩ := reversed_place eight found
  -- A set bit of the sample is a set bit of the word, so the masked word has it too.
  have lands : ∀ j, 7 - k + j < 32 → x.toInt32.toBitVec.getLsbD j = true →
      ∃ y, xs.reverse[7 - k + j]? = some y ∧ lsb y = true := by
    intro j inside set
    apply (getLsbD_masked inside).mp
    rw [← same]
    apply (getLsbD_shiftInAll xs inside).mpr
    exact ⟨7 - k, x, reversed, by omega, by rwa [Nat.add_sub_cancel_left]⟩
  constructor
  · by_contra negative
    have sign := (sample_msb x).mpr (by omega)
    obtain ⟨y, stray, -⟩ := lands 8 (by omega) (by rw [getLsbD_sample x (by decide)]; simpa)
    have outside := (forward_place eight stray).1
    omega
  · intro j positive set
    have narrow : j < 8 := BitVec.lt_of_getLsbD set
    obtain ⟨y, there, one⟩ :=
      lands j (by omega) (by rw [getLsbD_sample x (by omega)]; simpa [narrow])
    obtain ⟨room, earlier⟩ := forward_place eight there
    exact ⟨by omega, y, by rwa [show k - j = 7 - (7 - k + j) by omega], one⟩

/-- Masking leaves a word without stray bits as it is. -/
theorem mask_of_strayFree {xs : List Int8} (eight : xs.length = 8) (free : StrayFree xs) :
    shiftInAll 0 xs = shiftInAll 0 (xs.map fun x => bitSample (lsb x)) := by
  apply Int32.toBitVec_inj.mp
  apply BitVec.eq_of_getLsbD_eq
  intro i inside
  rw [Bool.eq_iff_iff, getLsbD_masked inside, getLsbD_shiftInAll xs inside]
  constructor
  · rintro ⟨d, x, found, le, bit⟩
    obtain ⟨below, forward⟩ := forward_place eight found
    obtain ⟨positive, stray⟩ := free (7 - d) x forward
    have sign : x.toBitVec.msb = false := by
      rw [Bool.eq_false_iff, ne_eq, sample_msb]; omega
    rw [getLsbD_sample x (by omega)] at bit
    split at bit <;> rename_i narrow
    · by_cases zero : i - d = 0
      · exact ⟨x, by rwa [show i = d by omega], by simpa [lsb, zero] using bit⟩
      · obtain ⟨room, y, earlier, one⟩ := stray (i - d) (by omega) bit
        refine ⟨y, ?_, one⟩
        rw [show i = 7 - (7 - d - (i - d)) by omega]
        exact (reversed_place eight earlier).2
    · rw [sign] at bit
      contradiction
  · rintro ⟨x, found, set⟩
    refine ⟨i, x, found, Nat.le_refl i, ?_⟩
    rw [Nat.sub_self, getLsbD_sample x (by decide)]
    simpa [lsb] using set

/-- Eight samples shifted into zero give what their least significant bits alone give, exactly
when they have no stray bits. -/
theorem shiftInAll_mask_iff {xs : List Int8} (eight : xs.length = 8) :
    shiftInAll 0 xs = shiftInAll 0 (xs.map fun x => bitSample (lsb x)) ↔ StrayFree xs :=
  ⟨strayFree_of_mask eight, mask_of_strayFree eight⟩

/-- Eight samples shifted into zero are the value of their least significant bits exactly when
they have no stray bits. -/
theorem shiftInAll_eq_iff {xs : List Int8} (eight : xs.length = 8) :
    (shiftInAll 0 xs).toInt = msbValue (xs.map lsb) ↔ StrayFree xs := by
  have clean := @shiftInAll_binary (xs.map fun x => bitSample (lsb x))
    (by simp [binary_bitSample]) (by simp [eight])
  have bits : (xs.map fun x => bitSample (lsb x)).map lsb = xs.map lsb := by
    simp [Function.comp_def]
  rw [bits] at clean
  rw [← clean, Int32.toInt_inj, shiftInAll_mask_iff eight]

end GrReveng
