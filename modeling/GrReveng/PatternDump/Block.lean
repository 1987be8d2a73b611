import GrReveng.Library.Reactive
import GrReveng.Library.ShiftIn
import GrReveng.Library.ShiftRegister

/-!
# The pattern dump block

`pattern_dump` as a reactive machine on samples. Both registers are queues with a `maxlen`; which
of them takes a sample is decided by comparing the first with the pattern at every sample. A
completed dump is published as text before it is formatted, printed and written to the log file;
that output touches neither register and is not part of this machine. The block takes samples
that are zero or one, so its runs are over streams of bits.
-/

namespace GrReveng.PatternDump

open Reactive

/-- Arguments of `pattern_dump` that `work` reads. -/
structure Config where
  /-- The pattern to search for. -/
  pattern : List Int8
  /-- Number of samples to dump behind it. -/
  dumpLen : Nat
  deriving DecidableEq

/-- The queues of the block. -/
structure State (patternLen dumpLen : Nat) where
  /-- `pattern_check`, the last samples searched. -/
  patternCheck : ShiftRegister Int8 patternLen
  /-- `output`, the samples of the dump so far. -/
  output : ShiftRegister Int8 dumpLen
  deriving DecidableEq

/-- States of a block with given arguments. -/
abbrev Config.State (cfg : Config) : Type := PatternDump.State cfg.pattern.length cfg.dumpLen

/-- `pattern`, filled by the constructor of the queue. -/
def Config.patternRegister (cfg : Config) : ShiftRegister Int8 cfg.pattern.length :=
  ShiftRegister.empty.pushAll cfg.pattern

/-- The constructor. -/
def make (cfg : Config) : cfg.State := ⟨ShiftRegister.empty, ShiftRegister.empty⟩

/-- The published text of a dump. -/
def dumpText (output : List Int8) : String :=
  String.ofList (output.map fun ch => if ch = 1 then '1' else '0')

/-- One iteration of the loop in `work`. Both queues are cleared behind a completed dump. -/
def react (cfg : Config) (s : cfg.State) (bit : Int8) : Reaction cfg.State String Empty :=
  if s.patternCheck = cfg.patternRegister then
    let s := { s with output := s.output.push bit }
    if s.output.items.length = cfg.dumpLen then
      ⟨[dumpText s.output.items], .ok ⟨ShiftRegister.empty, ShiftRegister.empty⟩⟩
    else ⟨[], .ok s⟩
  else ⟨[], .ok { s with patternCheck := s.patternCheck.push bit }⟩

/-- Calls of `work` on a fresh block, one for each chunk of the bit stream. -/
def run (cfg : Config) (chunks : List (List Bool)) : Run cfg.State Int8 String Empty :=
  feed (react cfg) (make cfg) (chunks.map fun chunk => chunk.map bitSample)

/-- The published payloads, in order. -/
def published (cfg : Config) (chunks : List (List Bool)) : List String :=
  (run cfg chunks).published

end GrReveng.PatternDump
