import GrReveng.Library.Logging
import GrReveng.PacketFormatter.Containment

/-!
# The log file from opening to closing

The constructor may open the log file, `handle_pdu` writes to it and drops it when the file fails,
and `stop` closes it. Over a whole life the file is used only while it is open and closed exactly
once, and its text is one line for each message that formats, in their order, and a beginning of
one more line where it was dropped or an exception left the block.
-/

namespace GrReveng.PacketFormatter

open Python Reactive

/-- The line on the error stream when the constructor cannot open the file. -/
def unableText (fileName : Text) : Text :=
  "gr-reveng: Unable to open ".toList ++ singleQuote :: fileName ++ singleQuote ::
    " for writing".toList

/-- The part of the constructor that opens the log file: what it reports and `fp`. The report may
fail, and this leaves the constructor. -/
def openLog (fileName logTo : Text) (opens headline : Bool) : Reaction State Effect PyError :=
  if logTo = "file".toList ∨ logTo = "stdout_file".toList then
    if opens then ⟨[], .ok ⟨some ⟨fileName⟩⟩⟩
    else
      let (effects, succeeded) := attempt [(.headline (unableText fileName), headline)]
      ⟨effects, if succeeded then .ok ⟨none⟩ else .error .ioError⟩
  else ⟨[], .ok ⟨none⟩⟩

/-- What is in the file when it has been opened, for what was in it before. -/
def openedText (append : Bool) (before : Text) : Text := if append then before else []

/-- The line on the error stream when the file is closed at the end. -/
def closingText (file : LogFile) : Text := "gr-reveng: Closing ".toList ++ file.name

/-- `stop`. A failure of `close` is caught, a failure of the report is not. -/
def stop (s : State) (faults : Faults) : Reaction State Effect PyError :=
  match s.fp with
  | none => ⟨[], .ok s⟩
  | some file =>
    let (effects, succeeded) := attempt [(.headline (closingText file), faults.headline)]
    if succeeded then ⟨effects ++ [⟨.close, !faults.close⟩], .ok ⟨none⟩⟩
    else ⟨effects, .error .ioError⟩

/-- The calls of `handle_pdu` and then `stop`, when no exception has left `handle_pdu`: the
operations, and the state at the end. -/
def life (cfg : Config) (s : State) (calls : List Call) (stopFaults : Faults) :
    List Effect × Except PyError State :=
  match (run cfg s calls).final with
  | .error e => ((run cfg s calls).published, .error e)
  | .ok last =>
    ((run cfg s calls).published ++ (stop last stopFaults).emitted, (stop last stopFaults).after)

/-- The arguments of the constructor. -/
structure Setup where
  /-- `format_str`. -/
  formatStr : Text
  /-- `file_name`. -/
  fileName : Text
  /-- `log_to`. -/
  logTo : Text
  /-- `append`. -/
  append : Bool
  /-- `flush`. -/
  flush : Bool

/-- The members of the block that do not change. -/
def Setup.config (setup : Setup) : Config :=
  (make setup.formatStr setup.fileName setup.logTo setup.flush true).1

/-- The constructor opens the log file. -/
def Setup.opened (setup : Setup) (opens : Bool) : Bool :=
  (setup.logTo = "file".toList ∨ setup.logTo = "stdout_file".toList) ∧ opens

/-- The constructor leaves the state of the block. -/
theorem openLog_after {setup : Setup} {opens headline : Bool} {s : State}
    (built : (openLog setup.fileName setup.logTo opens headline).after = .ok s) :
    (make setup.formatStr setup.fileName setup.logTo setup.flush opens).2 = s ∧
      s.fp.isSome = setup.opened opens := by
  unfold openLog at built
  unfold make Setup.opened
  split at built
  case isTrue file =>
    split at built
    case isTrue works =>
      rw [← Except.ok.inj built]
      exact ⟨congrArg State.mk (if_pos ⟨file, works⟩), (decide_eq_true ⟨file, works⟩).symm⟩
    case isFalse fails =>
      cases headline with
      | true => contradiction
      | false =>
        rw [← Except.ok.inj built]
        exact ⟨congrArg State.mk (if_neg fun both => fails both.2),
          (decide_eq_false fun both => fails both.2).symm⟩
  case isFalse other =>
    rw [← Except.ok.inj built]
    exact ⟨congrArg State.mk (if_neg fun both => other both.1),
      (decide_eq_false fun both => other both.1).symm⟩

/-- The use that an operation makes of the log file. -/
def Operation.usage : Operation → Usage
  | write _ => .uses
  | flush => .uses
  | close => .closes
  | _ => .leaves

/-- The use that a tried operation makes of the log file. -/
def Effect.usage (effect : Effect) : Usage := effect.operation.usage

/-- What a tried operation has written to the log file. -/
def Effect.written (effect : Effect) : Text :=
  match effect.operation with
  | .write text => if effect.succeeded then text else []
  | _ => []

/-- What a tried operation has written to the screen: `print` ends the line, and with a comma it
goes on behind a blank. -/
def Effect.displayed (effect : Effect) : Text :=
  match effect.operation with
  | .print text => if effect.succeeded then text ++ ['\n'] else []
  | .printOpen text => if effect.succeeded then text ++ [' '] else []
  | _ => []

/-- The text of a call that formats. -/
def Call.text (cfg : Config) (call : Call) : Option Text :=
  match call.pdu with
  | none => none
  | some (car, cdr) => (textOf cfg car cdr).toOption

/-- The line of a call that formats. -/
def Call.line (cfg : Config) (call : Call) : Text :=
  match call.text cfg with
  | none => []
  | some text => text ++ ['\n']

/-- The text of a call that formats is what it formats to. -/
theorem Call.text_eq_some_iff {cfg : Config} {call : Call} {text : Text} :
    call.text cfg = some text ↔ Formats cfg call text := by
  unfold Call.text Formats
  cases call.pdu with
  | none => simp
  | some pair =>
    have ⟨car, cdr⟩ := pair
    cases formatted : textOf cfg car cdr with
    | error e => simp [formatted, Except.toOption]
    | ok out => simp [formatted, Except.toOption]

section Steps

variable {cfg : Config} {s : State} {faults : Faults} {text : Text}

/-- Operations one after the other are tried in two parts. -/
theorem attempt_append (front back : List (Operation × Bool)) :
    attempt (front ++ back) =
      if (attempt front).2 then ((attempt front).1 ++ (attempt back).1, (attempt back).2)
      else attempt front := by
  induction front with
  | nil => rfl
  | cons first rest ih =>
    have ⟨operation, fault⟩ := first
    cases fault with
    | true => rfl
    | false =>
      rw [List.cons_append, attempt, ih, attempt]
      rcases attempt rest with ⟨effects, _ | _⟩
      · rfl
      · rfl

/-- Operations that leave the file alone, when they are tried. -/
theorem attempt_leaves {operations : List (Operation × Bool)}
    (leaves : ∀ tried ∈ operations, tried.1.usage = .leaves) :
    ∀ effect ∈ (attempt operations).1, effect.usage = .leaves := by
  intro effect member
  have ⟨tried, listed, same⟩ := attempt_operations member
  rw [Effect.usage, ← same]
  exact leaves tried listed

/-- What leaves the file alone writes nothing to it. -/
theorem written_of_leaves {effect : Effect} (leaves : effect.usage = .leaves) :
    effect.written = [] := by
  have ⟨operation, succeeded⟩ := effect
  cases operation with
  | write text => contradiction
  | _ => rfl

/-- What leaves the file alone writes nothing. -/
theorem silent_of_leaves {effects : List Effect}
    (leaves : ∀ effect ∈ effects, effect.usage = .leaves) :
    ∀ effect ∈ effects, effect.usage = .leaves ∧ effect.written = [] :=
  fun effect member => ⟨leaves effect member, written_of_leaves (leaves effect member)⟩

/-- What leaves the file alone has no text. -/
theorem unwritten_of_leaves {effects : List Effect}
    (leaves : ∀ effect ∈ effects, effect.usage = .leaves) :
    effects.flatMap Effect.written = [] :=
  List.flatMap_eq_nil_iff.mpr fun effect member => written_of_leaves (leaves effect member)

/-- The operations on the screen for a text. -/
def screenOutputs (cfg : Config) (faults : Faults) (text : Text) : List (Operation × Bool) :=
  if cfg.stdout then [(.print text, faults.print)] else []

/-- The screen leaves the file alone. -/
theorem screenOutputs_leaves (cfg : Config) (faults : Faults) (text : Text) :
    ∀ tried ∈ screenOutputs cfg faults text, tried.1.usage = .leaves := by
  intro tried member
  rw [screenOutputs] at member
  split at member
  · rw [List.mem_singleton.mp member]
    rfl
  · contradiction

/-- The operations on an open file for a text. -/
def fileOutputs (cfg : Config) (faults : Faults) (text : Text) : List (Operation × Bool) :=
  [(.write text, faults.write), (.write ['\n'], faults.newline)] ++
    if cfg.flush then [(.flush, faults.flush)] else []

/-- A text goes to the screen, and to an open file. -/
theorem outputs_eq (cfg : Config) (s : State) (faults : Faults) (text : Text) :
    outputs cfg s faults text =
      screenOutputs cfg faults text ++ if s.fp.isSome then fileOutputs cfg faults text else [] :=
  rfl

/-- The operations on an open file write the line of the text, or the beginning of it. -/
theorem attempt_fileOutputs (cfg : Config) (faults : Faults) (text : Text) :
    follow Effect.usage true (attempt (fileOutputs cfg faults text)).1 = some true ∧
      (attempt (fileOutputs cfg faults text)).1.flatMap Effect.written <+: text ++ ['\n'] ∧
      ((attempt (fileOutputs cfg faults text)).2 = true →
        (attempt (fileOutputs cfg faults text)).1.flatMap Effect.written = text ++ ['\n']) := by
  rw [fileOutputs]
  cases faults.write <;> cases faults.newline <;> cases cfg.flush <;> cases faults.flush <;>
    simp [attempt, follow, Effect.usage, Operation.usage, Usage.follow, Effect.written]

/-- The outputs of a message that formats write its line to an open file, or a beginning of it. -/
theorem attempt_outputs (opened : s.fp.isSome = true) (faults : Faults) (text : Text) :
    follow Effect.usage true (attempt (outputs cfg s faults text)).1 = some true ∧
      (attempt (outputs cfg s faults text)).1.flatMap Effect.written <+: text ++ ['\n'] ∧
      ((attempt (outputs cfg s faults text)).2 = true →
        (attempt (outputs cfg s faults text)).1.flatMap Effect.written = text ++ ['\n']) := by
  have leaves := attempt_leaves (screenOutputs_leaves cfg faults text)
  have unwritten := unwritten_of_leaves leaves
  have kept := @follow_leaves _ Effect.usage _ leaves true
  obtain ⟨followed, start, whole⟩ := attempt_fileOutputs cfg faults text
  rw [outputs_eq, if_pos opened, attempt_append]
  split
  case isTrue =>
    rw [follow_append, kept, List.flatMap_append, unwritten]
    exact ⟨followed, start, whole⟩
  case isFalse failed =>
    rw [kept, unwritten]
    exact ⟨rfl, List.nil_prefix, fun succeeded => absurd succeeded failed⟩

/-- The handler of `IOError` closes the file, or does not return. -/
theorem dropFile_follow (opened : s.fp.isSome = true) (faults : Faults) :
    (dropFile s faults).emitted.flatMap Effect.written = [] ∧
      ∃ still, follow Effect.usage true (dropFile s faults).emitted = some still ∧
        ∀ next, (dropFile s faults).after = .ok next → next.fp.isSome = false ∧ still = false := by
  have ⟨file, fp⟩ := Option.isSome_iff_exists.mp opened
  cases headline : faults.headline with
  | true =>
    refine ⟨?_, true, ?_, ?_⟩
    all_goals simp [dropFile, attempt, headline, Effect.written, follow, Effect.usage,
      Operation.usage, Usage.follow]
  | false =>
    refine ⟨?_, false, ?_, ?_⟩
    all_goals simp [dropFile, attempt, headline, fp, Effect.written, follow, Effect.usage,
      Operation.usage, Usage.follow]

/-- Without a file the handler of `IOError` leaves it alone and does not return. -/
theorem dropFile_silent (closed : s.fp.isSome = false) (faults : Faults) :
    (∀ effect ∈ (dropFile s faults).emitted, effect.usage = .leaves) ∧
      ∀ next, (dropFile s faults).after ≠ .ok next := by
  have fp : s.fp = none := Option.isNone_iff_eq_none.mp (by simpa using closed)
  cases headline : faults.headline with
  | true => simp [dropFile, attempt, headline, Effect.usage, Operation.usage]
  | false => simp [dropFile, attempt, headline, fp, Effect.usage, Operation.usage]

/-- A report leaves the file alone. -/
theorem report_leaves (s : State) (faults : Faults) (e : PyError) :
    ∀ effect ∈ (report s faults e).emitted, effect.usage = .leaves := by
  intro effect member
  cases report_emitted member with
  | inl headline => rw [Effect.usage, headline]; rfl
  | inr traceback => rw [Effect.usage, traceback]; rfl

/-- A report that returns leaves the state. -/
theorem report_keeps {e : PyError} {next : State}
    (after : (report s faults e).after = .ok next) : next = s := by
  rw [report_after] at after
  split at after
  · contradiction
  · exact (Except.ok.inj after).symm

/-- A call that does not format has no line. -/
theorem Call.line_of_not_formats {call : Call} (never : ∀ text, ¬Formats cfg call text) :
    call.line cfg = [] := by
  have absent : call.text cfg = none := by
    cases found : call.text cfg with
    | none => rfl
    | some text => exact absurd (Call.text_eq_some_iff.mp found) (never text)
  rw [Call.line, absent]

/-- A call that formats has its line. -/
theorem Call.line_of_formats {call : Call} (formats : Formats cfg call text) :
    call.line cfg = text ++ ['\n'] := by
  rw [Call.line, Call.text_eq_some_iff.mpr formats]

/-- Without a file nothing is written, and no file is opened. -/
theorem handlePdu_silent (call : Call) (closed : s.fp.isSome = false) :
    (∀ effect ∈ (handlePdu cfg s call).emitted,
      effect.usage = .leaves ∧ effect.written = []) ∧
      ∀ next, (handlePdu cfg s call).after = .ok next → next.fp.isSome = false := by
  rcases call_cases cfg call with pdu | ⟨car, cdr, e, pdu, unread⟩ |
    ⟨car, cdr, read, e, pdu, isRead, unformatted⟩ | ⟨text, formats⟩
  case inl =>
    rw [handlePdu_ignored cfg s pdu]
    refine ⟨by simp, fun next same => ?_⟩
    rwa [← Except.ok.inj same]
  case inr.inl =>
    rw [handlePdu_unreadable cfg s pdu unread]
    exact ⟨by simp, nofun⟩
  case inr.inr.inl =>
    rw [handlePdu_unformatted s pdu isRead unformatted]
    refine ⟨silent_of_leaves (report_leaves s call.faults e), fun next after => ?_⟩
    rwa [report_keeps after]
  case inr.inr.inr =>
    have leaves := attempt_leaves (screenOutputs_leaves cfg call.faults text)
    have screen : outputs cfg s call.faults text = screenOutputs cfg call.faults text := by
      rw [outputs_eq, closed, if_neg Bool.false_ne_true, List.append_nil]
    rw [handlePdu_formatted s formats, screen]
    split
    case isTrue =>
      refine ⟨silent_of_leaves leaves, fun next same => ?_⟩
      rwa [← Except.ok.inj same]
    case isFalse =>
      have ⟨quiet, raises⟩ := dropFile_silent closed call.faults
      exact ⟨silent_of_leaves (List.forall_mem_append.mpr ⟨leaves, quiet⟩),
        fun next after => absurd after (raises next)⟩

/-- `handle_pdu` keeps the log. -/
theorem handlePdu_logger (cfg : Config) :
    Logger (handlePdu cfg) (fun s => s.fp.isSome) Effect.usage Effect.written
      (Call.line cfg) where
  silent s call closed := handlePdu_silent call closed
  writes := by
    intro s call opened
    rcases call_cases cfg call with pdu | ⟨car, cdr, e, pdu, unread⟩ |
      ⟨car, cdr, read, e, pdu, isRead, unformatted⟩ | ⟨text, formats⟩
    case inl =>
      left
      have never : ∀ text, ¬Formats cfg call text := by
        rintro text ⟨car, cdr, given, _⟩
        rw [pdu] at given
        contradiction
      rw [handlePdu_ignored cfg s pdu, Call.line_of_not_formats never]
      exact ⟨s, rfl, opened, rfl, rfl⟩
    case inr.inl =>
      right
      rw [handlePdu_unreadable cfg s pdu unread]
      exact ⟨List.nil_prefix, true, rfl, nofun⟩
    case inr.inr.inl =>
      have never : ∀ text, ¬Formats cfg call text := by
        rintro text ⟨car', cdr', given, formatted⟩
        rw [pdu, Option.some.injEq, Prod.mk.injEq] at given
        rw [← given.1, ← given.2, unformatted] at formatted
        contradiction
      have leaves := report_leaves s call.faults e
      have text := unwritten_of_leaves leaves
      have followed := @follow_leaves _ Effect.usage _ leaves true
      rw [handlePdu_unformatted s pdu isRead unformatted, Call.line_of_not_formats never]
      cases after : (report s call.faults e).after with
      | error e' => exact .inr ⟨text ▸ List.nil_prefix, true, followed, nofun⟩
      | ok next =>
        rw [report_keeps after]
        exact .inl ⟨s, rfl, opened, text, followed⟩
    case inr.inr.inr =>
      have ⟨followed, start, whole⟩ := @attempt_outputs cfg s opened call.faults text
      rw [handlePdu_formatted s formats, Call.line_of_formats formats]
      split
      case isTrue succeeded => exact .inl ⟨s, rfl, opened, whole succeeded, followed⟩
      case isFalse =>
        have ⟨unwritten, still, closes, lost⟩ := dropFile_follow opened call.faults
        right
        dsimp only
        rw [List.flatMap_append, unwritten, List.append_nil, follow_append, followed]
        exact ⟨start, still, closes, lost⟩

end Steps

/-- A call in which nothing fails leaves the state. -/
theorem handlePdu_keeps {cfg : Config} {s next : State} {call : Call}
    (after : (handlePdu cfg s call).after = .ok next)
    (working : ∀ effect ∈ (handlePdu cfg s call).emitted, effect.succeeded = true) : next = s := by
  rcases call_cases cfg call with pdu | ⟨car, cdr, e, pdu, unread⟩ |
    ⟨car, cdr, read, e, pdu, isRead, unformatted⟩ | ⟨text, formats⟩
  case inl =>
    rw [handlePdu_ignored cfg s pdu] at after
    exact (Except.ok.inj after).symm
  case inr.inl =>
    rw [handlePdu_unreadable cfg s pdu unread] at after
    contradiction
  case inr.inr.inl =>
    rw [handlePdu_unformatted s pdu isRead unformatted] at after
    exact report_keeps after
  case inr.inr.inr =>
    rw [handlePdu_formatted s formats] at after working
    cases succeeded : (attempt (outputs cfg s call.faults text)).2 with
    | true =>
      rw [succeeded] at after
      exact (Except.ok.inj after).symm
    | false =>
      have ⟨operation, _, failed⟩ := attempt_fails succeeded
      rw [succeeded] at working
      exact absurd (working _ (List.mem_append_left _ failed)) Bool.false_ne_true

/-- A run in which nothing fails leaves the state. -/
theorem run_keeps {cfg : Config} {s last : State} {calls : List Call}
    (final : (run cfg s calls).final = .ok last)
    (working : ∀ effect ∈ (run cfg s calls).published, effect.succeeded = true) : last = s := by
  induction calls generalizing s with
  | nil => exact (Except.ok.inj final).symm
  | cons call calls ih =>
    unfold run at final working ih
    cases step : (handlePdu cfg s call).after with
    | error e =>
      rw [work_cons_error _ calls step] at final
      contradiction
    | ok next =>
      rw [work_cons_ok _ calls step] at final working
      rw [Run.published, List.flatMap_cons, List.forall_mem_append] at working
      have same := handlePdu_keeps step working.1
      rw [same] at final working
      exact ih final working.2

/-! ## Whole lives -/

/-- A block from its constructor on. -/
structure Session where
  /-- The operations that were tried. -/
  effects : List Effect
  /-- The state at the end. -/
  final : Except PyError State
  /-- What is in the log file at the end. -/
  contents : Text

/-- The constructor, the calls of `handle_pdu` and `stop`, with a log file that has this text
before. -/
def session (setup : Setup) (opens headline : Bool) (before : Text) (calls : List Call)
    (stopFaults : Faults) : Session :=
  let built := openLog setup.fileName setup.logTo opens headline
  match built.after with
  | .error e => ⟨built.emitted, .error e, before⟩
  | .ok s =>
    let (effects, final) := life setup.config s calls stopFaults
    ⟨built.emitted ++ effects, final,
      if setup.opened opens then openedText setup.append before ++ effects.flatMap Effect.written
      else before⟩

/-- The log file is lost with the last of these messages: an exception leaves the block, which is
how it ends, or the file is dropped. -/
def LosesFile (cfg : Config) (s : State) (calls : List Call) (final : Except PyError State) :
    Prop :=
  (∃ e, (run cfg s calls).final = .error e ∧ final = .error e) ∨
    ∃ last, (run cfg s calls).final = .ok last ∧ last.fp = none

/-- What holds of a session with a log file that could be opened or not. -/
structure KeepsLog (setup : Setup) (opened : Bool) (before : Text) (calls : List Call)
    (session : Session) : Prop where
  /-- The file is used and closed only while it is open. -/
  orderly : ∃ still, follow Effect.usage opened session.effects = some still
  /-- A session that ends without an exception has no open file, and has closed it once. -/
  closed : ∀ last, session.final = .ok last → last.fp = none ∧
    (opened = true → ClosedOnce Effect.usage session.effects)
  /-- Behind what the file had when it was opened it has whole lines, one for each of the first
  messages that format, and the beginning of one more if the file was lost with it. -/
  lines : opened = true → ∃ whole rest torn, calls = whole ++ rest ∧
    session.contents = openedText setup.append before ++
      (whole.flatMap (Call.line setup.config) ++ torn) ∧
    (rest = [] → torn = []) ∧
    ∀ call more, rest = call :: more → torn <+: call.line setup.config ∧
      LosesFile setup.config ⟨some ⟨setup.fileName⟩⟩ (whole ++ [call]) session.final
  /-- It has the lines of all messages when nothing failed. -/
  complete : opened = true → (∃ last, session.final = .ok last) →
    (∀ effect ∈ session.effects, effect.succeeded = true) →
    session.contents = openedText setup.append before ++ calls.flatMap (Call.line setup.config)
  /-- A file that was not opened stays as it is, and nothing is tried on it. -/
  silent : opened = false →
    session.contents = before ∧ ∀ effect ∈ session.effects, effect.usage = .leaves

/-- `stop` closes an open file and writes nothing. -/
theorem stop_follow (s : State) (faults : Faults) :
    (stop s faults).emitted.flatMap Effect.written = [] ∧
      ∃ still, follow Effect.usage s.fp.isSome (stop s faults).emitted = some still ∧
        ∀ last, (stop s faults).after = .ok last → last.fp = none ∧ still = false := by
  cases fp : s.fp with
  | none =>
    rw [stop, fp]
    refine ⟨rfl, false, rfl, fun last same => ?_⟩
    rw [← Except.ok.inj same]
    exact ⟨fp, rfl⟩
  | some file =>
    cases headline : faults.headline with
    | true =>
      refine ⟨?_, true, ?_, ?_⟩
      all_goals simp [stop, attempt, headline, fp, Effect.written, follow, Effect.usage,
        Operation.usage, Usage.follow]
    | false =>
      refine ⟨?_, false, ?_, ?_⟩
      all_goals simp [stop, attempt, headline, fp, Effect.written, follow, Effect.usage,
        Operation.usage, Usage.follow]

/-- A life uses the file only while it is open, and ends without it. -/
theorem life_follow (cfg : Config) (s : State) (calls : List Call) (stopFaults : Faults) :
    ∃ still, follow Effect.usage s.fp.isSome (life cfg s calls stopFaults).1 = some still ∧
      ∀ last, (life cfg s calls stopFaults).2 = .ok last → last.fp = none ∧ still = false := by
  have ⟨still, followed, keeps⟩ := (handlePdu_logger cfg).run_follow s calls
  rw [life]
  cases final : (run cfg s calls).final with
  | error e => exact ⟨still, followed, nofun⟩
  | ok last =>
    have ⟨_, ends, stopped, closes⟩ := stop_follow last stopFaults
    have handle : last.fp.isSome = still := keeps last final
    refine ⟨ends, ?_, closes⟩
    dsimp only
    rw [follow_append, run, followed, ← stopped, handle]
    rfl

/-- A life writes what its calls write. -/
theorem life_written (cfg : Config) (s : State) (calls : List Call) (stopFaults : Faults) :
    (life cfg s calls stopFaults).1.flatMap Effect.written =
      (run cfg s calls).published.flatMap Effect.written := by
  rw [life]
  cases (run cfg s calls).final with
  | error e => rfl
  | ok last =>
    dsimp only
    rw [List.flatMap_append, (stop_follow last stopFaults).1, List.append_nil]

/-- The constructor leaves the file alone once it is open. -/
theorem openLog_leaves (fileName logTo : Text) (opens headline : Bool) :
    ∀ effect ∈ (openLog fileName logTo opens headline).emitted, effect.usage = .leaves := by
  unfold openLog
  split
  · split
    · simp
    · exact attempt_leaves (by simp [Operation.usage])
  · simp

/-- When the constructor raises, it has not opened the file. -/
theorem openLog_raises {setup : Setup} {opens headline : Bool} {e : PyError}
    (raises : (openLog setup.fileName setup.logTo opens headline).after = .error e) :
    setup.opened opens = false := by
  unfold openLog at raises
  split at raises
  case isTrue =>
    split at raises
    case isTrue => contradiction
    case isFalse fails => exact decide_eq_false fun both => fails both.2
  case isFalse => contradiction

/-- A file that was opened is the one with the given name. -/
theorem openLog_file {setup : Setup} {opens headline : Bool} {s : State}
    (built : (openLog setup.fileName setup.logTo opens headline).after = .ok s)
    (opened : setup.opened opens = true) : s = ⟨some ⟨setup.fileName⟩⟩ := by
  have ⟨file, works⟩ := of_decide_eq_true opened
  rw [openLog, if_pos file, if_pos works] at built
  exact (Except.ok.inj built).symm

/-- A file that is lost with some first messages is lost by the life. -/
theorem losesFile_of_lost {cfg : Config} {s : State} {front : List Call}
    (lost : Lost (handlePdu cfg) (fun s => s.fp.isSome) s front) (back : List Call)
    (stopFaults : Faults) : LosesFile cfg s front (life cfg s (front ++ back) stopFaults).2 := by
  cases ended : (run cfg s front).final with
  | error e =>
    have raises := work_raises (handlePdu cfg) ended back
    refine .inl ⟨e, ended, ?_⟩
    rw [life, run, raises]
  | ok last =>
    have gone := lost last ended
    exact .inr ⟨last, ended, Option.isNone_iff_eq_none.mp (by simpa using gone)⟩

/-- A session in which nothing fails has the lines of all messages. -/
theorem session_complete {setup : Setup} {opens headline : Bool} {before : Text}
    {calls : List Call} {stopFaults : Faults} (opened : setup.opened opens = true)
    (returns : ∃ last, (session setup opens headline before calls stopFaults).final = .ok last)
    (working : ∀ effect ∈ (session setup opens headline before calls stopFaults).effects,
      effect.succeeded = true) :
    (session setup opens headline before calls stopFaults).contents =
      openedText setup.append before ++ calls.flatMap (Call.line setup.config) := by
  unfold session at returns working ⊢
  cases built : (openLog setup.fileName setup.logTo opens headline).after with
  | error e =>
    rw [openLog_raises built] at opened
    contradiction
  | ok s =>
    simp only [built] at returns working ⊢
    have handle := (openLog_after built).2
    have ⟨whole, rest, torn, split, log, complete, _, keeps⟩ :=
      (handlePdu_logger setup.config).run_lines (handle.trans opened) calls
    have tried : ∀ effect ∈ (life setup.config s calls stopFaults).1,
        effect.succeeded = true := (List.forall_mem_append.mp working).2
    have empty : rest = [] := by
      unfold life at returns tried
      cases final : (run setup.config s calls).final with
      | error e =>
        rw [final] at returns
        have ⟨last, same⟩ := returns
        contradiction
      | ok last =>
        rw [final] at tried
        have same := run_keeps final (List.forall_mem_append.mp tried).1
        exact keeps last final (same ▸ handle.trans opened)
    rw [if_pos opened, life_written, run, log, complete empty, split, empty, List.append_nil,
      List.append_nil]

/-- Every session keeps its log. -/
theorem formatter_keepsLog (setup : Setup) (opens headline : Bool) (before : Text)
    (calls : List Call) (stopFaults : Faults) :
    KeepsLog setup (setup.opened opens) before calls
      (session setup opens headline before calls stopFaults) := by
  have leaves := openLog_leaves setup.fileName setup.logTo opens headline
  rw [session]
  cases built : (openLog setup.fileName setup.logTo opens headline).after with
  | error e =>
    rw [openLog_raises built]
    exact ⟨⟨false, follow_leaves leaves false⟩, nofun, nofun, nofun, fun _ => ⟨rfl, leaves⟩⟩
  | ok s =>
    have handle := (openLog_after built).2
    have ⟨still, followed, closes⟩ := life_follow setup.config s calls stopFaults
    have all : follow Effect.usage (setup.opened opens)
        ((openLog setup.fileName setup.logTo opens headline).emitted ++
          (life setup.config s calls stopFaults).1) = some still := by
      rw [follow_append, follow_leaves leaves, ← handle]
      exact followed
    constructor
    · exact ⟨still, all⟩
    · intro last final
      have ⟨gone, shut⟩ := closes last final
      refine ⟨gone, fun opened => ?_⟩
      rw [opened, shut] at all
      exact closes_of_follow all
    · intro opened
      have ⟨whole, rest, torn, split, log, complete, cut, _⟩ :=
        (handlePdu_logger setup.config).run_lines (handle.trans opened) calls
      refine ⟨whole, rest, torn, split, ?_, complete, fun call more behind => ?_⟩
      · dsimp only
        rw [if_pos opened, life_written, run, log]
      · have ⟨start, lost⟩ := cut call more behind
        have loses := losesFile_of_lost lost more stopFaults
        rw [List.append_assoc, List.singleton_append, ← behind, ← split,
          openLog_file built opened] at loses
        exact ⟨start, openLog_file built opened ▸ loses⟩
    · intro opened returns working
      have complete := @session_complete setup opens headline before calls stopFaults opened
      rw [session, built] at complete
      exact complete returns working
    · intro unopened
      rw [unopened] at all
      exact ⟨if_neg (Bool.not_eq_true _ ▸ unopened), (leaves_of_follow all).2⟩

end GrReveng.PacketFormatter
