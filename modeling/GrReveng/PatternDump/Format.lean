import GrReveng.Library.Replacement
import GrReveng.Library.ShiftIn
import GrReveng.PacketFormatter.Values

/-!
# The output of pattern dump

`format_output` of `pattern_dump` and the decoders behind three of its variables. A dump is the
list of its samples. The variables are replaced one after the other in a text that grows; each is
looked for again in what the earlier ones have become. The line decoders read the dump in symbols
of one size and differ in this size and in their two code words only.
-/

namespace GrReveng.PatternDump

open Python PacketFormatter

/-- The loop of the line decoders: the slices at `xrange(0, len(bitarray) - 1, size)`, a character
for each. -/
def decodeSymbols (size : Nat) (zero one : List Int8) (bitarray : List Int8) : Text :=
  (xrange (bitarray.length - 1) size).map fun i =>
    let bits := (bitarray.drop i).take size
    if bits = one then '1' else if bits = zero then '0' else 'x'

/-- `pwm_decode`. -/
def pwmDecode (bitarray : List Int8) : Text := decodeSymbols 3 [1, 1, 0] [1, 0, 0] bitarray

/-- `man_decode`. -/
def manDecode (bitarray : List Int8) : Text := decodeSymbols 2 [0, 1] [1, 0] bitarray

/-- The variables of `hdlc_data_decode`. -/
structure HdlcState where
  /-- `out`. -/
  out : Text
  /-- `obyte`, the bits of the current byte, least significant bit first. -/
  obyte : Nat
  /-- `bits`, their number. -/
  bits : Nat
  /-- `ones`, the ones since the last zero. -/
  ones : Nat

/-- A complete byte is written. -/
def HdlcState.flush (s : HdlcState) : HdlcState :=
  if s.bits = 8 then ⟨s.out ++ zfill 2 (hexDigits s.obyte), 0, 0, s.ones⟩ else s

/-- One iteration of the loop in `hdlc_data_decode`. -/
def hdlcStep (s : HdlcState) (bit : Int8) : HdlcState :=
  if bit = 0 then
    HdlcState.flush { s with bits := if s.ones ≠ 5 then s.bits + 1 else s.bits, ones := 0 }
  else
    HdlcState.flush
      { s with obyte := s.obyte ||| (1 <<< s.bits), bits := s.bits + 1, ones := s.ones + 1 }

/-- `hdlc_data_decode`. -/
def hdlcDataDecode (bitarray : List Int8) : Text :=
  (bitarray.foldl hdlcStep ⟨[], 0, 0, 0⟩).out

/-- The values of the argument `rel_time` that `format_output` tells apart. -/
inductive RelTime
  /-- `None`. -/
  | none
  /-- `True`. -/
  | relative
  /-- Any other value. -/
  | absolute
  deriving DecidableEq

/-- A difference of two times, in its normal form. -/
structure TimeDelta where
  /-- Days. -/
  days : Int
  /-- Seconds of the day. -/
  seconds : Nat
  /-- Microseconds of the second. -/
  microseconds : Nat
  /-- A day has no more seconds. -/
  seconds_lt : seconds < 86400
  /-- A second has no more microseconds. -/
  microseconds_lt : microseconds < 1000000

/-- What a call reads from the clock. -/
structure Now where
  /-- `datetime.now() - self.start_time`. -/
  diff : TimeDelta
  /-- `datetime.now().strftime`. -/
  strftime : Text → Except PyError Text

/-- The arguments of `pattern_dump` that `format_output` reads. -/
structure Output where
  /-- `output_fmt`. -/
  outputFmt : Text
  /-- `rel_time`. -/
  relTime : RelTime

/-- `time_str`. -/
def timeStr (diff : TimeDelta) : Text :=
  decimal diff.seconds ++ '.' :: zfill 6 (decimal diff.microseconds)

/-- `bytearray(bitarray)` of samples; a negative one is no byte. -/
def sampleBytes (bitarray : List Int8) : Except PyError (List UInt8) :=
  bitarray.mapM fun bit => if 0 ≤ bit then .ok bit.toUInt8 else .error .valueError

/-- The value of `%[bits]`. -/
def bitsText (bitarray : List Int8) : Text := bitarray.flatMap fun bit => decimal bit.toInt

/-- The value of `%[hex]`. -/
def hexText (bites : List UInt8) : Text := bites.flatMap fun byte => zfill 2 (hexDigits byte.toNat)

/-- The value of `%[ascii]`. -/
def asciiText (bites : List UInt8) : Text :=
  reprInside (bites.map fun byte => Char.ofNat byte.toNat)

/-- Replace a variable that the text has. -/
def replaceVariable (name : String) (value out : Text) : Text :=
  if name.toList <:+: out then replaceAll name.toList value out else out

/-- `format_output`. -/
def formatOutput (cfg : Output) (now : Now) (bitarray : List Int8) : Except PyError Text := do
  let out ← match cfg.relTime with
    | .none => pure cfg.outputFmt
    | .relative => pure (replaceAll "%s".toList (timeStr now.diff) cfg.outputFmt)
    | .absolute => now.strftime cfg.outputFmt
  let bites := packbits (← sampleBytes bitarray)
  let out := replaceVariable "%[bits]" (bitsText bitarray) out
  let out := replaceVariable "%[hex]" (hexText bites) out
  let out := replaceVariable "%[ascii]" (asciiText bites) out
  let out := replaceVariable "%[man-bits]" (manDecode bitarray) out
  let out := replaceVariable "%[pwm-bits]" (pwmDecode bitarray) out
  return replaceVariable "%[hdlcd]" (hdlcDataDecode bitarray) out

end GrReveng.PatternDump
