import GrReveng.Library.Blocks
import GrReveng.PatternDump.Format

/-!
# Line codes

`man_decode` and `pwm_decode` as the decoders of two block codes. On whole symbols they are the
inverses of their codes and mark every other symbol with an `x`. Both loops stop in front of the
last sample of a dump. For symbols of two samples this leaves an incomplete one out, but for
symbols of three it leaves out only those of one sample: two samples are read as a symbol.
-/

namespace GrReveng.PatternDump

open Python

/-- The line codes that are decoded. -/
inductive LineCode
  /-- Manchester encoded bits. -/
  | manchester
  /-- Pulse width encoded bits. -/
  | pwm
  deriving DecidableEq

namespace LineCode

/-- Samples of a symbol. -/
def size : LineCode → Nat
  | manchester => 2
  | pwm => 3

/-- The symbol of a bit. -/
def word : LineCode → Bool → List Int8
  | manchester, false => [0, 1]
  | manchester, true => [1, 0]
  | pwm, false => [1, 1, 0]
  | pwm, true => [1, 0, 0]

/-- The decoder of a code. -/
def decode : LineCode → List Int8 → Text
  | manchester => manDecode
  | pwm => pwmDecode

/-- The bit of a symbol. -/
def readWord (code : LineCode) (symbol : List Int8) : Option Bool :=
  if symbol = code.word true then some true
  else if symbol = code.word false then some false
  else none

/-- A symbol has at least two samples. -/
theorem two_le_size (code : LineCode) : 2 ≤ code.size := by
  cases code <;> decide

/-- A symbol is not empty. -/
theorem size_pos (code : LineCode) : 0 < code.size :=
  Nat.lt_of_lt_of_le Nat.two_pos code.two_le_size

/-- The symbol of a bit has the size of its code. -/
theorem length_word (code : LineCode) (bit : Bool) : (code.word bit).length = code.size := by
  cases code <;> cases bit <;> rfl

/-- Reading a symbol finds the bit whose symbol it is. -/
theorem readWord_iff (code : LineCode) (symbol : List Int8) (bit : Bool) :
    code.readWord symbol = some bit ↔ symbol = code.word bit := by
  have different : code.word true ≠ code.word false := by cases code <;> decide
  rw [readWord]
  constructor
  · intro read
    split at read
    case isTrue one =>
      cases Option.some.inj read
      exact one
    case isFalse =>
      split at read
      case isTrue zero =>
        cases Option.some.inj read
        exact zero
      case isFalse => contradiction
  · intro same
    cases bit with
    | true => rw [if_pos same]
    | false => rw [if_neg (by rw [same]; exact different.symm), if_pos same]

/-- A line code is a block code of bits. -/
def blockCode (code : LineCode) : BlockCode Bool Int8 where
  size := code.size
  positive := code.size_pos
  encode := code.word
  decode := code.readWord
  length_encode := code.length_word
  decode_iff := code.readWord_iff

/-- The samples of a list of bits. -/
def encode (code : LineCode) (bits : List Bool) : List Int8 := code.blockCode.encodeAll bits

end LineCode

/-- The character of a decoded symbol. -/
def symbolText : Option Bool → Char
  | some true => '1'
  | some false => '0'
  | none => 'x'

/-- A list of bits as text. -/
def wordText (bits : List Bool) : Text := bits.map fun bit => symbolText (some bit)

/-- The bits that a decoded text shows. -/
def shownBits (text : Text) : List Bool := text.map fun c => c = '1'

/-- The places at which a loop over symbols reads: the complete symbols, and an incomplete one
when it has at least two samples. -/
theorem xrange_symbols {size : Nat} (two : 2 ≤ size) (length : Nat) :
    xrange (length - 1) size = (List.range (length / size)).map (size * ·) ++
      if 1 < length % size then [size * (length / size)] else [] := by
  have parts := Nat.div_add_mod length size
  have below := Nat.mod_lt length (show 0 < size by omega)
  have count : (length - 1 + size - 1) / size =
      length / size + if 1 < length % size then 1 else 0 := by
    by_cases empty : length = 0
    · rw [empty, Nat.zero_div, Nat.zero_mod, if_neg (by decide)]
      exact Nat.div_eq_of_lt (by omega)
    · have sum : length - 1 + size - 1 =
          size * (length / size) + (length % size + size - 2) := by omega
      rw [sum, Nat.mul_add_div (by omega)]
      congr 1
      split
      · rw [show length % size + size - 2 = (length % size - 2) + size by omega,
          Nat.add_div_right _ (by omega), Nat.div_eq_of_lt (by omega)]
      · exact Nat.div_eq_of_lt (by omega)
  rw [xrange, count]
  split
  · rw [List.range_succ, List.map_append, List.map_singleton]
  · rw [Nat.add_zero, List.append_nil]

/-- A decoder reads the complete symbols, and an incomplete one of at least two samples as an
error. -/
theorem LineCode.decode_eq (code : LineCode) (l : List Int8) :
    code.decode l = (code.blockCode.decodeAll l).map symbolText ++
      if 1 < l.length % code.size then ['x'] else [] := by
  have loop : code.decode l =
      decodeSymbols code.size (code.word false) (code.word true) l := by cases code <;> rfl
  have character : ∀ symbol : List Int8,
      (if symbol = code.word true then '1' else if symbol = code.word false then '0' else 'x') =
        symbolText (code.readWord symbol) := by
    intro symbol
    rw [LineCode.readWord]
    split
    · rfl
    · split <;> rfl
  have incomplete : ∀ symbol : List Int8, symbol.length ≠ code.size →
      symbolText (code.readWord symbol) = 'x' := by
    intro symbol short
    have foreign : code.readWord symbol = none := by
      apply (code.blockCode.decode_eq_none_iff symbol).mpr
      intro bit same
      apply short
      rw [same]
      exact code.length_word bit
    rw [foreign]
    rfl
  rw [loop, decodeSymbols, xrange_symbols code.two_le_size, List.map_append, List.map_map]
  congr 1
  · rw [BlockCode.decodeAll, blocks, List.map_map, List.map_map]
    apply List.map_congr_left
    intro k _
    exact character _
  · split
    · rw [List.map_singleton]
      dsimp only
      rw [character, incomplete]
      have rest := length_behindBlocks code.size l
      have below := Nat.mod_lt l.length code.size_pos
      rw [behindBlocks] at rest
      rw [List.length_take, rest]
      omega
    · rfl

/-- On whole symbols a decoder is the block decoder. -/
theorem LineCode.decode_whole (code : LineCode) {l : List Int8} (whole : code.size ∣ l.length) :
    code.decode l = (code.blockCode.decodeAll l).map symbolText := by
  rw [code.decode_eq, Nat.mod_eq_zero_of_dvd whole, if_neg (by decide), List.append_nil]

/-- An incomplete symbol behind whole ones is seen when it has at least two samples. -/
theorem LineCode.decode_append (code : LineCode) {l t : List Int8} (whole : code.size ∣ l.length)
    (short : t.length < code.size) :
    code.decode (l ++ t) = code.decode l ++ if 1 < t.length then ['x'] else [] := by
  have positive := code.size_pos
  have cover : (blocks code.size l).flatten = l := by
    rw [flatten_blocks positive, Nat.mul_div_cancel' whole, List.take_length]
  have same : blocks code.size (l ++ t) = blocks code.size l := by
    have size : ∀ part ∈ blocks code.size l, part.length = code.size :=
      fun part => length_of_mem_blocks
    have parts := blocks_flatten_append positive size short
    rwa [cover] at parts
  have rest : (l ++ t).length % code.size = t.length := by
    rw [List.length_append, Nat.add_mod, Nat.mod_eq_zero_of_dvd whole, Nat.zero_add, Nat.mod_mod,
      Nat.mod_eq_of_lt short]
  have symbols : code.blockCode.decodeAll (l ++ t) = code.blockCode.decodeAll l :=
    congrArg (List.map code.readWord) same
  rw [code.decode_eq (l ++ t), rest, symbols, code.decode_whole whole]

/-- Whole symbols are decoded one by one. -/
theorem LineCode.length_decode (code : LineCode) {l : List Int8} (whole : code.size ∣ l.length) :
    (code.decode l).length = l.length / code.size := by
  rw [code.decode_whole whole, List.length_map, BlockCode.decodeAll, List.length_map,
    length_blocks]
  rfl

/-- An incomplete symbol behind whole ones leaves the decoded text as it is, and each character
belongs to a complete symbol, except for two samples behind symbols of three. -/
theorem incomplete_symbol_ignored (code : LineCode) {l t : List Int8}
    (whole : code.size ∣ l.length) (short : t.length < code.size) :
    (code.decode (l ++ t) = code.decode l ∧
      (code.decode (l ++ t)).length = (l ++ t).length / code.size) ↔
        ¬ (code = .pwm ∧ t.length = 2) := by
  have seen : (1 < t.length) ↔ (code = .pwm ∧ t.length = 2) := by
    cases code with
    | manchester =>
      change t.length < 2 at short
      simp only [reduceCtorEq, false_and, iff_false]
      omega
    | pwm =>
      change t.length < 3 at short
      simp only [true_and]
      omega
  rw [code.decode_append whole short, ← seen]
  constructor
  · intro ignored long
    rw [if_pos long] at ignored
    have length := congrArg List.length ignored.1
    rw [List.length_append, List.length_singleton] at length
    omega
  · intro alone
    have quotient : (l ++ t).length / code.size = l.length / code.size := by
      obtain ⟨k, exact⟩ := whole
      rw [List.length_append, exact, Nat.mul_add_div code.size_pos,
        Nat.mul_div_cancel_left k code.size_pos, Nat.div_eq_of_lt short, Nat.add_zero]
    rw [if_neg alone, List.append_nil, quotient]
    exact ⟨rfl, code.length_decode whole⟩

/-- Two samples of a pulse behind a whole one are decoded as an error. -/
theorem pwm_two_left : pwmDecode ([1, 0, 0] ++ [1, 1]) = ['1', 'x'] ∧
    pwmDecode ([1, 0, 0] ++ [1, 1]) ≠ pwmDecode [1, 0, 0] := by
  decide

/-- Manchester symbols ignore an odd sample, and pulses a single one. -/
theorem incomplete_symbol_ignored_examples :
    manDecode ([0, 1] ++ [1]) = manDecode [0, 1] ∧
      pwmDecode ([1, 0, 0] ++ [1]) = pwmDecode [1, 0, 0] :=
  ⟨((@incomplete_symbol_ignored .manchester [0, 1] [1] (by decide) (by decide)).mpr
      (by decide)).1,
    ((@incomplete_symbol_ignored .pwm [1, 0, 0] [1] (by decide) (by decide)).mpr (by decide)).1⟩

/-- A decoded text without errors shows the bits of its symbols. -/
theorem decodeAll_of_clean (code : LineCode) {l : List Int8} (whole : code.size ∣ l.length)
    (clean : 'x' ∉ code.decode l) :
    code.blockCode.decodeAll l = (shownBits (code.decode l)).map some := by
  rw [code.decode_whole whole] at clean ⊢
  rw [shownBits, List.map_map, List.map_map]
  conv_lhs => rw [← List.map_id (code.blockCode.decodeAll l)]
  apply List.map_congr_left
  intro symbol member
  cases symbol with
  | none => exact absurd (List.mem_map.mpr ⟨none, member, rfl⟩) clean
  | some bit => cases bit <;> rfl

/-- The decoders and their codes. Decoding what was encoded returns the word; on whole symbols an
`x` stands exactly where a symbol is no code word, a text without it encodes to the samples it
was decoded from, and two such lists of samples with one text are equal. -/
theorem line_codes_inverse (code : LineCode) :
    (∀ bits : List Bool, code.decode (code.encode bits) = wordText bits) ∧
    (∀ l : List Int8, code.size ∣ l.length →
      (∀ i, (code.decode l)[i]? = some 'x' ↔ i < l.length / code.size ∧
        ∀ bit, (l.drop (code.size * i)).take code.size ≠ code.word bit) ∧
      ('x' ∉ code.decode l → code.encode (shownBits (code.decode l)) = l)) ∧
    ∀ l l' : List Int8, code.size ∣ l.length → code.size ∣ l'.length → 'x' ∉ code.decode l →
      'x' ∉ code.decode l' → code.decode l = code.decode l' → l = l' := by
  have recovers : ∀ l : List Int8, code.size ∣ l.length → 'x' ∉ code.decode l →
      code.encode (shownBits (code.decode l)) = l := fun l whole clean =>
    code.blockCode.encodeAll_of_decodeAll whole (decodeAll_of_clean code whole clean)
  refine ⟨fun bits => ?_, fun l whole => ⟨fun i => ?_, recovers l whole⟩, ?_⟩
  · have whole : code.size ∣ (code.encode bits).length := by
      induction bits with
      | nil => exact Nat.dvd_zero _
      | cons bit bits ih =>
        change code.size ∣ (code.word bit ++ code.encode bits).length
        rw [List.length_append, code.length_word]
        exact Nat.dvd_add (Nat.dvd_refl _) ih
    rw [code.decode_whole whole, LineCode.encode, BlockCode.decodeAll_encodeAll, List.map_map]
    rfl
  · have error : ∀ symbol : Option Bool, symbolText symbol = 'x' ↔ symbol = none := by
      intro symbol
      cases symbol with
      | none => simp [symbolText]
      | some bit => cases bit <;> simp [symbolText]
    rw [code.decode_whole whole, BlockCode.decodeAll, List.map_map, List.getElem?_map]
    change Option.map _ (blocks code.size l)[i]? = _ ↔ _
    by_cases inside : i < l.length / code.size
    · rw [getElem?_blocks inside, Option.map_some, Option.some.injEq, and_iff_right inside]
      exact (error _).trans (code.blockCode.decode_eq_none_iff _)
    · rw [List.getElem?_eq_none (by rw [length_blocks]; omega)]
      simp [inside]
  · intro l l' whole whole' clean clean' same
    rw [← recovers l whole clean, same, recovers l' whole' clean']

end GrReveng.PatternDump
