import GrReveng.PacketFormatter.Formatting

/-!
# Failures of the formatter

`handle_pdu` catches what goes wrong while a message is formatted and written. The conversions in
front of its `try` are not covered, the reports can fail themselves, and the handler of `IOError`
takes every such error for one of the log file. The results below say exactly which calls the
block contains, and that a run of such calls drops the file only for a failure of the file and
forgets every message that does not format.
-/

namespace GrReveng.PacketFormatter

open Python Reactive

/-- The text of a message, or the error that reading or formatting it raises. -/
def textOf (cfg : Config) (car cdr : Value) : Except PyError Text := do
  let (metadata, bits) ← readPdu car cdr
  formatOutput cfg.formatStr metadata bits

/-- The message of a call has this text. -/
def Formats (cfg : Config) (call : Call) (text : Text) : Prop :=
  ∃ car cdr, call.pdu = some (car, cdr) ∧ textOf cfg car cdr = .ok text

/-- The message of a call cannot be formatted. -/
def FailsToFormat (cfg : Config) (call : Call) : Prop :=
  ∃ car cdr e, call.pdu = some (car, cdr) ∧ textOf cfg car cdr = .error e

/-- The flag of the metadata has a truth, and packed bits convert to bytes. -/
def Unpacks (entries : Entries) (cdr : Value) : Prop :=
  ∃ packed, (get entries "packed".toList (.bool false)).truth = .ok packed ∧
    (packed = true → ∃ bytes, byteArray cdr = .ok bytes)

/-- A message that the code in front of the `try` accepts: the metadata is false, or it is a
dictionary with a usable flag. -/
def Readable (car cdr : Value) : Prop :=
  car.truth = .ok false ∨
    car.truth = .ok true ∧ ∃ entries, car = .dict entries ∧ Unpacks entries cdr

/-- The messages with a dictionary that are read without an exception. -/
theorem readPdu_dict_ok_iff {entries : Entries} (cdr : Value)
    (given : (Value.dict entries).truth = .ok true) :
    (∃ read, readPdu (.dict entries) cdr = .ok read) ↔ Unpacks entries cdr := by
  rw [readPdu_dict cdr given, Unpacks]
  generalize (get entries "packed".toList (.bool false)).truth = flag
  cases flag with
  | error e => simp [bind, Except.bind]
  | ok packed => cases packed <;> cases byteArray cdr <;> simp [bind, Except.bind]

/-- The messages that are read without an exception. -/
theorem readPdu_ok_iff (car cdr : Value) :
    (∃ read, readPdu car cdr = .ok read) ↔ Readable car cdr := by
  cases given : car.truth with
  | error e =>
    have raised : readPdu car cdr = .error e := by rw [readPdu, given]; rfl
    simp [raised, Readable, given]
  | ok truth =>
    cases truth with
    | false => simp [readPdu_falsy cdr given, Readable, given]
    | true =>
      cases car with
      | dict entries => simp [readPdu_dict_ok_iff cdr given, Readable, given]
      | _ => simp [readPdu_other cdr given (by simp), Readable, given]

/-- An attempt succeeds when none of its operations fails. -/
theorem attempt_succeeds_iff (operations : List (Operation × Bool)) :
    (attempt operations).2 = true ↔ ∀ tried ∈ operations, tried.2 = false := by
  induction operations with
  | nil => simp [attempt]
  | cons first rest ih =>
    obtain ⟨operation, fault⟩ := first
    cases fault with
    | true => simp [attempt]
    | false => simpa [attempt] using ih

/-- Every effect of an attempt is one of its operations. -/
theorem attempt_operations {operations : List (Operation × Bool)} {effect : Effect}
    (member : effect ∈ (attempt operations).1) :
    ∃ tried ∈ operations, tried.1 = effect.operation := by
  induction operations with
  | nil => simp [attempt] at member
  | cons first rest ih =>
    obtain ⟨operation, fault⟩ := first
    cases fault with
    | true =>
      rw [attempt, List.mem_singleton] at member
      exact ⟨(operation, true), List.mem_cons_self, by rw [member]⟩
    | false =>
      rw [attempt, List.mem_cons] at member
      cases member with
      | inl here => exact ⟨(operation, false), List.mem_cons_self, by rw [here]⟩
      | inr there =>
        have ⟨tried, found, same⟩ := ih there
        exact ⟨tried, List.mem_cons_of_mem _ found, same⟩

/-- An attempt that fails has tried an operation that fails. -/
theorem attempt_fails {operations : List (Operation × Bool)}
    (failed : (attempt operations).2 = false) :
    ∃ operation, (operation, true) ∈ operations ∧ ⟨operation, false⟩ ∈ (attempt operations).1 := by
  induction operations with
  | nil => simp [attempt] at failed
  | cons first rest ih =>
    obtain ⟨operation, fault⟩ := first
    cases fault with
    | true => exact ⟨operation, List.mem_cons_self, List.mem_cons_self⟩
    | false =>
      have ⟨later, listed, tried⟩ := ih failed
      exact ⟨later, List.mem_cons_of_mem _ listed, List.mem_cons_of_mem _ tried⟩

/-- Anything but a pair is ignored. -/
theorem handlePdu_ignored {call : Call} (cfg : Config) (s : State) (pdu : call.pdu = none) :
    handlePdu cfg s call = ⟨[], .ok s⟩ := by
  simp only [handlePdu, pdu]

/-- A message that cannot be read raises in front of the `try`. -/
theorem handlePdu_unreadable {call : Call} {car cdr : Value} {e : PyError} (cfg : Config)
    (s : State) (pdu : call.pdu = some (car, cdr)) (unread : readPdu car cdr = .error e) :
    handlePdu cfg s call = ⟨[], .error e⟩ := by
  simp only [handlePdu, pdu, unread]

/-- A message that is read but does not format is reported. -/
theorem handlePdu_unformatted {cfg : Config} {call : Call} {car cdr : Value} {e : PyError}
    {read : Entries × Value} (s : State) (pdu : call.pdu = some (car, cdr))
    (isRead : readPdu car cdr = .ok read) (unformatted : textOf cfg car cdr = .error e) :
    handlePdu cfg s call = report s call.faults e := by
  have failed : formatOutput cfg.formatStr read.1 read.2 = .error e := by
    rwa [textOf, isRead] at unformatted
  have other : e ≠ .ioError := by
    intro same
    apply formatOutput_noInputOutput cfg.formatStr read.1 read.2
    rw [failed, same]
  have handler : recover s call.faults e = report s call.faults e := by
    cases e with
    | ioError => exact absurd rfl other
    | _ => rfl
  simp only [handlePdu, pdu, isRead, failed, handler]

/-- A message that formats is read, and its outputs are attempted. -/
theorem handlePdu_formatted {cfg : Config} {call : Call} {text : Text} (s : State)
    (formats : Formats cfg call text) :
    handlePdu cfg s call =
      if (attempt (outputs cfg s call.faults text)).2 then
        ⟨(attempt (outputs cfg s call.faults text)).1, .ok s⟩
      else
        ⟨(attempt (outputs cfg s call.faults text)).1 ++ (dropFile s call.faults).emitted,
          (dropFile s call.faults).after⟩ := by
  have ⟨car, cdr, pdu, formatted⟩ := formats
  rw [textOf] at formatted
  cases isRead : readPdu car cdr with
  | error e => rw [isRead] at formatted; cases formatted
  | ok read =>
    rw [isRead] at formatted
    have output : formatOutput cfg.formatStr read.1 read.2 = .ok text := formatted
    simp only [handlePdu, pdu, isRead, output, recover]

/-- Every message is unreadable, does not format or formats. -/
theorem call_cases (cfg : Config) (call : Call) :
    call.pdu = none ∨
      (∃ car cdr e, call.pdu = some (car, cdr) ∧ readPdu car cdr = .error e) ∨
      (∃ car cdr read e, call.pdu = some (car, cdr) ∧ readPdu car cdr = .ok read ∧
        textOf cfg car cdr = .error e) ∨
      ∃ text, Formats cfg call text := by
  cases pdu : call.pdu with
  | none => exact .inl rfl
  | some message =>
    right
    cases isRead : readPdu message.1 message.2 with
    | error e => exact .inl ⟨message.1, message.2, e, rfl, isRead⟩
    | ok read =>
      right
      cases formatted : textOf cfg message.1 message.2 with
      | error e => exact .inl ⟨message.1, message.2, read, e, rfl, isRead, formatted⟩
      | ok text => exact .inr ⟨text, message.1, message.2, pdu, formatted⟩

/-- A report leaves the state as it is, or raises when one of its lines fails. -/
theorem report_after (s : State) (faults : Faults) (e : PyError) :
    (report s faults e).after =
      if faults.headline || faults.traceback then .error .ioError else .ok s := by
  cases headline : faults.headline with
  | true => simp [report, attempt, headline]
  | false => cases traceback : faults.traceback <;> simp [report, attempt, headline, traceback]

/-- A report writes to the error stream only. -/
theorem report_emitted {s : State} {faults : Faults} {e : PyError} {effect : Effect}
    (member : effect ∈ (report s faults e).emitted) :
    effect.operation = .headline (headlineText e) ∨ effect.operation = .traceback := by
  have ⟨tried, listed, same⟩ := attempt_operations member
  rw [← same]
  simp only [List.mem_cons, List.not_mem_nil, or_false] at listed
  exact listed.imp (congrArg Prod.fst) (congrArg Prod.fst)

/-- The handler of `IOError` ends without a file, unless it raises itself. -/
theorem dropFile_after (s : State) (faults : Faults) :
    (dropFile s faults).after =
      if faults.headline then .error .ioError
      else if s.fp.isSome then .ok ⟨none⟩ else .error .attributeError := by
  cases headline : faults.headline with
  | true => simp [dropFile, attempt, headline]
  | false => cases fp : s.fp <;> simp [dropFile, attempt, headline, fp]

/-- With a file and a report that succeeds, the handler of `IOError` closes it. -/
theorem dropFile_closes {s : State} {faults : Faults} (reported : faults.headline = false)
    (opened : s.fp.isSome = true) :
    ⟨.close, !faults.close⟩ ∈ (dropFile s faults).emitted := by
  have ⟨file, fp⟩ := Option.isSome_iff_exists.mp opened
  simp [dropFile, attempt, reported, fp]

/-- The handler of `IOError` returns only with a file to close. -/
theorem dropFile_returns {s next : State} {faults : Faults}
    (returns : (dropFile s faults).after = .ok next) :
    faults.headline = false ∧ s.fp.isSome = true := by
  rw [dropFile_after] at returns
  cases headline : faults.headline with
  | true => simp [headline] at returns
  | false =>
    cases opened : s.fp.isSome with
    | true => exact ⟨rfl, rfl⟩
    | false => simp [headline, opened] at returns

/-- The handler of `IOError` only reports and closes. -/
theorem dropFile_emitted {s : State} {faults : Faults} {effect : Effect}
    (member : effect ∈ (dropFile s faults).emitted) : effect.operation.usesFile = false := by
  cases headline : faults.headline <;> cases fp : s.fp <;>
    simp only [dropFile, attempt, headline, fp, List.mem_append, Bool.false_eq_true, if_false,
      if_true, List.mem_cons, List.not_mem_nil, or_false] at member
  case false.some => rcases member with rfl | rfl <;> rfl
  all_goals
    rw [member]
    rfl

/-- An operation on the open file fails. -/
def Faults.file (faults : Faults) (cfg : Config) : Bool :=
  faults.write || faults.newline || cfg.flush && faults.flush

/-- The outputs succeed when neither the screen nor the file in use fails. -/
theorem outputs_succeed_iff (cfg : Config) (s : State) (faults : Faults) (text : Text) :
    (attempt (outputs cfg s faults text)).2 = true ↔
      (cfg.stdout = true → faults.print = false) ∧
        (s.fp.isSome = true → faults.file cfg = false) := by
  rw [attempt_succeeds_iff, outputs, List.forall_mem_append, Faults.file]
  apply and_congr
  · cases cfg.stdout <;> simp
  · cases s.fp.isSome <;> cases cfg.flush <;> simp [and_assoc]

/-- An output goes to the screen or uses the file. -/
theorem outputs_operations {cfg : Config} {s : State} {faults : Faults} {text : Text}
    {tried : Operation × Bool} (listed : tried ∈ outputs cfg s faults text) :
    (cfg.stdout = true ∧ tried = (.print text, faults.print)) ∨ tried.1.usesFile = true := by
  rw [outputs, List.mem_append] at listed
  cases listed with
  | inl screen =>
    left
    split at screen
    case isTrue stdout => exact ⟨stdout, List.mem_singleton.mp screen⟩
    case isFalse => cases screen
  | inr file =>
    right
    split at file
    case isFalse => cases file
    case isTrue =>
      split at file
      all_goals
        simp only [List.mem_append, List.mem_cons, List.not_mem_nil, or_false] at file
      case isTrue =>
        rcases file with (rfl | rfl) | rfl
        all_goals rfl
      case isFalse =>
        rcases file with rfl | rfl
        all_goals rfl

/-- No output closes the file. -/
theorem outputs_keep {cfg : Config} {s : State} {faults : Faults} {text : Text} {effect : Effect}
    (member : effect ∈ (attempt (outputs cfg s faults text)).1) : effect.operation ≠ .close := by
  have ⟨tried, listed, same⟩ := attempt_operations member
  intro close
  rw [close] at same
  cases outputs_operations listed with
  | inl screen =>
    rw [screen.2] at same
    cases same
  | inr file =>
    rw [same] at file
    cases file

/-- When the screen does not fail, what fails is an operation on the file. -/
theorem outputs_fail {cfg : Config} {s : State} {faults : Faults} {text : Text}
    (printed : cfg.stdout = true → faults.print = false)
    (failed : (attempt (outputs cfg s faults text)).2 = false) :
    ∃ effect ∈ (attempt (outputs cfg s faults text)).1,
      effect.operation.usesFile = true ∧ effect.succeeded = false := by
  have ⟨operation, listed, tried⟩ := attempt_fails failed
  refine ⟨⟨operation, false⟩, tried, ?_, rfl⟩
  cases outputs_operations listed with
  | inl screen =>
    have broken : true = faults.print := congrArg Prod.snd screen.2
    rw [printed screen.1] at broken
    cases broken
  | inr file => exact file

/-! ## Contained calls -/

/-- The file is closed or dropped. -/
def DropsFile (t : Transition) : Prop :=
  (∃ effect ∈ t.emitted, effect.operation = .close) ∨
    t.before.fp.isSome = true ∧ t.after = .ok ⟨none⟩

/-- An operation on the file failed. -/
def FileFails (t : Transition) : Prop :=
  ∃ effect ∈ t.emitted, effect.operation.usesFile = true ∧ effect.succeeded = false

/-- Every failure of a run is contained. -/
structure ContainsFailures (cfg : Config) (s : State) (calls : List Call) : Prop where
  /-- No exception leaves `handle_pdu`. -/
  returns : ∃ last, (run cfg s calls).final = .ok last
  /-- The file goes only for a failure of the file. -/
  drops : ∀ t ∈ (run cfg s calls).history, DropsFile t → FileFails t
  /-- A message that does not format makes no output and leaves the file. -/
  silent : ∀ t ∈ (run cfg s calls).history, FailsToFormat cfg t.input →
    (∀ effect ∈ t.emitted, effect.operation.isOutput = false) ∧ t.after = .ok t.before
  /-- The other messages are handled as if it had not arrived. -/
  forgets : ∀ early call late, calls = early ++ call :: late → FailsToFormat cfg call →
    run cfg s (early ++ late) =
      ⟨(run cfg s calls).history.eraseIdx early.length, (run cfg s calls).final⟩

/-- The calls that the block contains from a state. -/
structure Containable (cfg : Config) (s : State) (call : Call) : Prop where
  /-- The code in front of the `try` accepts the message. -/
  readable : ∀ car cdr, call.pdu = some (car, cdr) → Readable car cdr
  /-- The error stream takes the report of a message that does not format. -/
  reported : FailsToFormat cfg call →
    call.faults.headline = false ∧ call.faults.traceback = false
  /-- The screen takes the text of a message. -/
  printed : ∀ text, Formats cfg call text → cfg.stdout = true → call.faults.print = false
  /-- When the open file does not take the text, the error stream takes the report. -/
  logged : ∀ text, Formats cfg call text → s.fp.isSome = true → call.faults.file cfg = true →
    call.faults.headline = false

variable {cfg : Config} {s : State} {call : Call}

/-- A message that fails to format and can be read is reported. -/
theorem handlePdu_reported (fails : FailsToFormat cfg call)
    (readable : ∀ car cdr, call.pdu = some (car, cdr) → Readable car cdr) :
    ∃ e, handlePdu cfg s call = report s call.faults e := by
  have ⟨car, cdr, e, pdu, unformatted⟩ := fails
  have ⟨read, isRead⟩ := (readPdu_ok_iff car cdr).mpr (readable car cdr pdu)
  exact ⟨e, handlePdu_unformatted s pdu isRead unformatted⟩

/-- A containable message that does not format makes no output and leaves the state. -/
theorem Containable.silent (containable : Containable cfg s call)
    (fails : FailsToFormat cfg call) :
    (∀ effect ∈ (handlePdu cfg s call).emitted,
      effect.operation.isOutput = false ∧ effect.operation ≠ .close) ∧
      (handlePdu cfg s call).after = .ok s := by
  have ⟨e, reports⟩ := @handlePdu_reported cfg s call fails containable.readable
  have ⟨headline, traceback⟩ := containable.reported fails
  rw [reports]
  constructor
  · intro effect member
    cases report_emitted member with
    | inl line => rw [line]; exact ⟨rfl, nofun⟩
    | inr line => rw [line]; exact ⟨rfl, nofun⟩
  · rw [report_after, headline, traceback]
    rfl

/-- A step that closes nothing and leaves the state does not drop the file. -/
theorem not_dropsFile (kept : ∀ effect ∈ (handlePdu cfg s call).emitted,
    effect.operation ≠ .close) (after : (handlePdu cfg s call).after = .ok s) :
    ¬DropsFile (transition (handlePdu cfg) s call) := by
  intro drops
  cases drops with
  | inl closes =>
    have ⟨effect, member, close⟩ := closes
    exact kept effect member close
  | inr gone =>
    have opened : s.fp.isSome = true := gone.1
    have same : State.mk none = s := Except.ok.inj (gone.2.symm.trans after)
    rw [← same] at opened
    cases opened

/-- A containable message that formats and whose outputs fail has a failure of the file, and
the file is dropped. -/
theorem Containable.failed (containable : Containable cfg s call) {text : Text}
    (formats : Formats cfg call text)
    (failed : (attempt (outputs cfg s call.faults text)).2 = false) :
    (handlePdu cfg s call).after = .ok ⟨none⟩ ∧
      FileFails (transition (handlePdu cfg) s call) := by
  have printed := containable.printed text formats
  have notWritten : ¬((cfg.stdout = true → call.faults.print = false) ∧
      (s.fp.isSome = true → call.faults.file cfg = false)) := by
    rw [← outputs_succeed_iff cfg s call.faults text, failed]
    exact Bool.false_ne_true
  have opened : s.fp.isSome = true := by
    by_contra closed
    exact notWritten ⟨printed, fun opened => absurd opened closed⟩
  have broken : call.faults.file cfg = true := by
    by_contra working
    exact notWritten ⟨printed, fun _ => Bool.eq_false_iff.mpr working⟩
  have step := handlePdu_formatted s formats
  rw [failed, if_neg Bool.false_ne_true] at step
  constructor
  · rw [step, dropFile_after, containable.logged text formats opened broken, opened]
    rfl
  · have ⟨effect, member, uses⟩ := outputs_fail printed failed
    refine ⟨effect, ?_, uses⟩
    change effect ∈ (handlePdu cfg s call).emitted
    rw [step]
    exact List.mem_append_left _ member

/-- A containable call returns, and drops the file only for a failure of the file. -/
theorem Containable.handled (containable : Containable cfg s call) :
    (∃ next, (handlePdu cfg s call).after = .ok next) ∧
      (DropsFile (transition (handlePdu cfg) s call) →
        FileFails (transition (handlePdu cfg) s call)) := by
  rcases call_cases cfg call with pdu | ⟨car, cdr, e, pdu, unread⟩ |
    ⟨car, cdr, read, e, pdu, isRead, unformatted⟩ | ⟨text, formats⟩
  case inl =>
    have step := handlePdu_ignored cfg s pdu
    have after : (handlePdu cfg s call).after = .ok s := by rw [step]
    exact ⟨⟨s, after⟩, fun drops => absurd drops (not_dropsFile (by simp [step]) after)⟩
  case inr.inl =>
    have ⟨read, isRead⟩ := (readPdu_ok_iff car cdr).mpr (containable.readable car cdr pdu)
    rw [isRead] at unread
    cases unread
  case inr.inr.inl =>
    have ⟨quiet, after⟩ := containable.silent ⟨car, cdr, e, pdu, unformatted⟩
    have kept := not_dropsFile (fun effect member => (quiet effect member).2) after
    exact ⟨⟨s, after⟩, fun drops => absurd drops kept⟩
  case inr.inr.inr =>
    cases succeeded : (attempt (outputs cfg s call.faults text)).2 with
    | false =>
      have ⟨after, fails⟩ := containable.failed formats succeeded
      exact ⟨⟨_, after⟩, fun _ => fails⟩
    | true =>
      have step := handlePdu_formatted s formats
      rw [succeeded, if_pos rfl] at step
      have after : (handlePdu cfg s call).after = .ok s := by rw [step]
      have kept : ∀ effect ∈ (handlePdu cfg s call).emitted, effect.operation ≠ .close := by
        rw [step]
        exact fun effect member => outputs_keep member
      exact ⟨⟨s, after⟩, fun drops => absurd drops (not_dropsFile kept after)⟩

/-- The outputs of a message that formats fail where the screen or the file fails. -/
theorem outputs_failed {text : Text} (broken : (cfg.stdout = true ∧ call.faults.print = true) ∨
    (s.fp.isSome = true ∧ call.faults.file cfg = true)) :
    (attempt (outputs cfg s call.faults text)).2 = false := by
  rw [← Bool.not_eq_true, outputs_succeed_iff]
  intro working
  cases broken with
  | inl screen =>
    rw [working.1 screen.1] at screen
    cases screen.2
  | inr file =>
    rw [working.2 file.1] at file
    cases file.2

/-- When the screen fails, nothing else is tried. -/
theorem outputs_unprinted {faults : Faults} (s : State) (text : Text) (stdout : cfg.stdout = true)
    (print : faults.print = true) :
    (attempt (outputs cfg s faults text)).1 = [⟨.print text, false⟩] := by
  simp [outputs, attempt, stdout, print]

/-- A call that returns and drops the file only for a failure of the file was containable. -/
theorem Containable.of_handled {next : State} (returns : (handlePdu cfg s call).after = .ok next)
    (drops : DropsFile (transition (handlePdu cfg) s call) →
      FileFails (transition (handlePdu cfg) s call)) : Containable cfg s call := by
  have readable : ∀ car cdr, call.pdu = some (car, cdr) → Readable car cdr := by
    intro car cdr pdu
    apply (readPdu_ok_iff car cdr).mp
    cases isRead : readPdu car cdr with
    | ok read => exact ⟨read, rfl⟩
    | error e =>
      rw [handlePdu_unreadable cfg s pdu isRead] at returns
      cases returns
  refine ⟨readable, ?_, ?_, ?_⟩
  · intro fails
    have ⟨e, reports⟩ := @handlePdu_reported cfg s call fails readable
    rw [reports, report_after] at returns
    cases headline : call.faults.headline
    case true => simp [headline] at returns
    case false =>
      cases traceback : call.faults.traceback
      case true => simp [traceback] at returns
      case false => exact ⟨rfl, rfl⟩
  · intro text formats stdout
    by_contra broken
    have print : call.faults.print = true := (Bool.not_eq_false _).mp broken
    have step := handlePdu_formatted s formats
    rw [outputs_failed (.inl ⟨stdout, print⟩), if_neg Bool.false_ne_true] at step
    rw [step] at returns
    have ⟨reported, opened⟩ := dropFile_returns returns
    have closes : ⟨.close, !call.faults.close⟩ ∈ (handlePdu cfg s call).emitted := by
      rw [step]
      exact List.mem_append_right _ (dropFile_closes reported opened)
    have ⟨effect, member, uses, _⟩ := drops (.inl ⟨_, closes, rfl⟩)
    change effect ∈ (handlePdu cfg s call).emitted at member
    rw [step, outputs_unprinted s text stdout print, List.mem_append, List.mem_singleton] at member
    cases member with
    | inl screen => rw [screen] at uses; cases uses
    | inr cleanup => rw [dropFile_emitted cleanup] at uses; cases uses
  · intro text formats opened broken
    have step := handlePdu_formatted s formats
    rw [outputs_failed (.inr ⟨opened, broken⟩), if_neg Bool.false_ne_true] at step
    rw [step] at returns
    exact (dropFile_returns returns).1

/-- Every transition of a run is a step of the block. -/
theorem run_steps {s : State} {calls : List Call} {t : Transition}
    (member : t ∈ (run cfg s calls).history) : t = transition (handlePdu cfg) t.before t.input :=
  (work_steps (handlePdu cfg) member).1

/-- A run contains its failures exactly when every call of it is containable from the state that
it finds. -/
theorem failures_contained (cfg : Config) (s : State) (calls : List Call) :
    ContainsFailures cfg s calls ↔
      ∀ t ∈ (run cfg s calls).history, Containable cfg t.before t.input := by
  constructor
  · intro contains t member
    have ⟨next, after⟩ := (work_final_ok_iff (handlePdu cfg) s calls).mp contains.returns t member
    have drops := contains.drops t member
    rw [run_steps member] at after drops
    exact Containable.of_handled after drops
  · intro containable
    have returns : ∃ last, (run cfg s calls).final = .ok last := by
      apply (work_final_ok_iff (handlePdu cfg) s calls).mpr
      intro t member
      rw [run_steps member]
      exact (containable t member).handled.1
    refine ⟨returns, ?_, ?_, ?_⟩
    · intro t member
      have handled := (containable t member).handled.2
      rwa [← run_steps member] at handled
    · intro t member fails
      have silent := (containable t member).silent fails
      rw [run_steps member]
      exact ⟨fun effect made => (silent.1 effect made).1, silent.2⟩
    · intro early call late split fails
      have ⟨last, final⟩ := returns
      rw [split] at final containable ⊢
      have ⟨middle, before, here⟩ := work_split (handlePdu cfg) final
      exact work_skip (handlePdu cfg) late before ((containable _ here).silent fails).2

/-- A call with an empty message that the screen does not take. -/
def brokenScreen : Call where
  pdu := some (.none, .list [])
  faults := ⟨true, false, false, false, false, false, false⟩

/-- A block that prints one character for every message. -/
def screenOnly : Config × State := make ['x'] [] "stdout".toList true true

/-- Without a file, the handler of `IOError` closes `None` when the screen fails, and this leaves
`handle_pdu`. -/
theorem brokenScreen_not_contained :
    ¬ContainsFailures screenOnly.1 screenOnly.2 [brokenScreen] := by
  have built : screenOnly = (⟨['x'], true, true⟩, ⟨none⟩) := by
    simp [screenOnly, make, replacePairs]
  intro contains
  have ⟨last, final⟩ := contains.returns
  rw [built] at final
  have escapes : (run ⟨['x'], true, true⟩ ⟨none⟩ [brokenScreen]).final =
      .error .attributeError := rfl
  rw [escapes] at final
  cases final

end GrReveng.PacketFormatter
