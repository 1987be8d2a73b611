import GrReveng.Library.Reactive
import GrReveng.PacketFormatter.Values

/-!
# The packet formatter block

`packet_formatter` as a reactive machine on messages. Its only changing member is the log file
`fp`. A call of `handle_pdu` emits the operations it tries on the outside world, each with its
outcome; which of them fail is part of the input of the call. An exception that leaves
`handle_pdu` stops the machine.
-/

namespace GrReveng.PacketFormatter

open Python Reactive

/-- `int` of an address. -/
def addressInt (text : Text) : Except PyError Int := pyInt 10 text

/-- `start` and `stop` from the parts of a placeholder. -/
def address (what : List Text) : Except PyError (Option Int × Option Int) :=
  match what with
  | [_, inside] =>
    match inside.splitOn ':' with
    | [] => .error .indexError
    | [index] => do
      let start ← addressInt index
      return (some start, some (start + 1))
    | first :: second :: _ => do
      let start ← addressInt first
      if second = [] then return (some start, none)
      else
        let stop ← addressInt second
        return (some start, some stop)
  | _ => return (none, none)

/-- The elements of `sub_bits`, which has to be an array: evaluating `r_bites` adds it to a
number, and every other sequence raises. The value of `r_bites` is not used. -/
def addable : Value → Except PyError (List Element)
  | .array elements => .ok elements
  | _ => .error .typeError

/-- `''.join(map(str, sub_bits))`. -/
def joined (elements : List Element) : Text := elements.flatMap Element.text

/-- `tmp` of a placeholder, or nothing for a type that is skipped. -/
def render (metadata : Entries) (tipe : Text) (elements : List Element) (lBites : List UInt8) :
    Except PyError (Option Value) :=
  if tipe = "name".toList then .ok (some (get metadata "name".toList (.str "None".toList)))
  else if tipe = "ts".toList then do
    let text ← (get metadata "ts".toList (.int (-1))).fixedSix
    return some (.str text)
  else if tipe = "bits".toList then .ok (some (.str (joined elements)))
  else if tipe = "hex".toList then .ok (some (.str (lBites.flatMap hexByte)))
  else if tipe = "int".toList then do
    let value ← pyInt 2 (joined elements)
    return some (.str (decimal value))
  else if tipe = "ascii".toList then
    .ok (some (.str (reprInside (lBites.map fun byte => Char.ofNat byte.toNat))))
  else .ok none

/-- One iteration of the loop in `format_output`, for a match with this first group. -/
def substitute (metadata : Entries) (bits : Value) (out inside : Text) : Except PyError Text := do
  let what := (rstrip ']' inside).splitOn '['
  let (start, stop) ← address what
  let subBits ← bits.slice start stop
  let lBites := packbits (← byteArray subBits)
  let elements ← addable subBits
  match ← render metadata (what.headD []) elements lBites with
  | none => return out
  | some tmp => return replaceFirst (wholeMatch inside) (← tmp.characters) out

/-- `format_output`. The matches are those of the format string, not of what has become of it. -/
def formatOutput (formatStr : Text) (metadata : Entries) (bits : Value) : Except PyError Text :=
  (placeholders formatStr).foldlM (substitute metadata bits) formatStr

/-! ## The outside world -/

/-- An operation on the outside world. -/
inductive Operation
  /-- `print output`, which ends the line. -/
  | print (text : Text)
  /-- `print output,`, behind which the line goes on with what is printed next. -/
  | printOpen (text : Text)
  /-- `fp.write`. -/
  | write (text : Text)
  /-- `fp.flush()`. -/
  | flush
  /-- `fp.close()`. -/
  | close
  /-- The first line of a report on the error stream. -/
  | headline (text : Text)
  /-- The traceback on the error stream. -/
  | traceback
  deriving DecidableEq

/-- `type(e)` as it is printed. -/
def typeText (name : String) : Text :=
  "<type ".toList ++ singleQuote :: ("exceptions.".toList ++ name.toList) ++ [singleQuote, '>']

/-- The first line of the report of an exception. -/
def headlineText : PyError → Text
  | .indexError => "gr-reveng: IndexError: Ran out of bits?".toList
  | .valueError => "gr-reveng: TypeError: Something casted wrong!".toList
  | .ioError => "gr-reveng: IOError: Unable to write to file, closing".toList
  | .typeError => wrong "TypeError"
  | .attributeError => wrong "AttributeError"
  | .overflowError => wrong "OverflowError"
where
  /-- The line for the other standard errors. -/
  wrong (name : String) : Text :=
    "gr-reveng: ".toList ++ typeText name ++ ": Something went horribly wrong!".toList

/-- The operations on the log file that `handle_pdu` makes while the file is in use. -/
def Operation.usesFile : Operation → Bool
  | write _ => true
  | flush => true
  | _ => false

/-- Outputs that a message is formatted for. -/
def Operation.isOutput : Operation → Bool
  | print _ => true
  | write _ => true
  | _ => false

/-- An operation and its outcome. -/
structure Effect where
  /-- What was tried. -/
  operation : Operation
  /-- It did not raise. -/
  succeeded : Bool
  deriving DecidableEq

/-- The operations that raise `IOError` in a call. -/
structure Faults where
  /-- `print output`. -/
  print : Bool
  /-- Writing the text. -/
  write : Bool
  /-- Writing the end of the line. -/
  newline : Bool
  /-- Flushing the file. -/
  flush : Bool
  /-- Closing the file. -/
  close : Bool
  /-- The first line of a report. -/
  headline : Bool
  /-- The traceback. -/
  traceback : Bool

/-- Operations one after the other, up to the first one that fails. Each comes with its fault.
The answer tells whether all of them succeeded. -/
def attempt : List (Operation × Bool) → List Effect × Bool
  | [] => ([], true)
  | (operation, true) :: _ => ([⟨operation, false⟩], false)
  | (operation, false) :: rest => (⟨operation, true⟩ :: (attempt rest).1, (attempt rest).2)

/-- Arguments that `handle_pdu` reads. -/
structure Config where
  /-- `format_str`. -/
  formatStr : Text
  /-- `stdout`, print to the screen. -/
  stdout : Bool
  /-- `flush` after every message. -/
  flush : Bool

/-- An open log file. -/
structure LogFile where
  /-- Its name. -/
  name : Text
  deriving DecidableEq

/-- The member that changes. -/
structure State where
  /-- `fp`. -/
  fp : Option LogFile
  deriving DecidableEq

/-- A call of `handle_pdu`. -/
structure Call where
  /-- Car and cdr of the message as Python values; nothing for a message that is no pair. -/
  pdu : Option (Value × Value)
  /-- What fails during the call. -/
  faults : Faults

/-- The constructor. The log file is opened only in the two file modes, and may fail to open. -/
def make (formatStr : Text) (fileName : Text) (logTo : Text) (flush opens : Bool) :
    Config × State :=
  (⟨replacePairs backslash 'n' ['\n'] formatStr, "stdout".toList <:+: logTo, flush⟩,
    ⟨if (logTo = "file".toList ∨ logTo = "stdout_file".toList) ∧ opens then some ⟨fileName⟩
      else none⟩)

/-- The part of `handle_pdu` before its `try`: the metadata and the bits of a message. -/
def readPdu (car cdr : Value) : Except PyError (Entries × Value) := do
  let metadata ← if ← car.truth then pure car else pure (.dict [])
  match metadata with
  | .dict entries =>
    if ← (get entries "packed".toList (.bool false)).truth then
      let bytes ← byteArray cdr
      return (entries, unpackbits bytes)
    else return (entries, cdr)
  | _ => .error .attributeError

/-- The operations of a formatted message. -/
def outputs (cfg : Config) (s : State) (faults : Faults) (output : Text) :
    List (Operation × Bool) :=
  (if cfg.stdout then [(.print output, faults.print)] else []) ++
    if s.fp.isSome then
      [(.write output, faults.write), (.write ['\n'], faults.newline)] ++
        if cfg.flush then [(.flush, faults.flush)] else []
    else []

/-- The handlers of the exceptions that are no `IOError`: the exception is reported. -/
def report (s : State) (faults : Faults) (e : PyError) : Reaction State Effect PyError :=
  let (effects, succeeded) :=
    attempt [(.headline (headlineText e), faults.headline), (.traceback, faults.traceback)]
  ⟨effects, if succeeded then .ok s else .error .ioError⟩

/-- The handler of `IOError`: the file is closed and dropped. Closing `None` raises, and this is
not caught. -/
def dropFile (s : State) (faults : Faults) : Reaction State Effect PyError :=
  let (effects, succeeded) := attempt [(.headline (headlineText .ioError), faults.headline)]
  if succeeded then
    match s.fp with
    | some _ => ⟨effects ++ [⟨.close, !faults.close⟩], .ok ⟨none⟩⟩
    | none => ⟨effects, .error .attributeError⟩
  else ⟨effects, .error .ioError⟩

/-- The handlers of `handle_pdu`. -/
def recover (s : State) (faults : Faults) : PyError → Reaction State Effect PyError
  | .ioError => dropFile s faults
  | e => report s faults e

/-- `handle_pdu`. -/
def handlePdu (cfg : Config) (s : State) (call : Call) : Reaction State Effect PyError :=
  match call.pdu with
  | none => ⟨[], .ok s⟩
  | some (car, cdr) =>
    match readPdu car cdr with
    | .error e => ⟨[], .error e⟩
    | .ok (metadata, bits) =>
      match formatOutput cfg.formatStr metadata bits with
      | .error e => recover s call.faults e
      | .ok output =>
        let (effects, succeeded) := attempt (outputs cfg s call.faults output)
        if succeeded then ⟨effects, .ok s⟩
        else
          let recovered := recover s call.faults .ioError
          ⟨effects ++ recovered.emitted, recovered.after⟩

/-- Transitions of the block. -/
abbrev Transition : Type := Reactive.Transition State Call Effect PyError

/-- The calls of a run. -/
def run (cfg : Config) (s : State) (calls : List Call) : Run State Call Effect PyError :=
  work (handlePdu cfg) s calls

end GrReveng.PacketFormatter
