import GrReveng.PatternDump.Service

/-!
# The dump file from opening to closing

The constructor may open the file, `work` writes a line for each dump and drops the file when it
fails, and `stop` closes it. Over a whole session the file is used only while it is open, and its
text is one line for each dump in their order, with a beginning of one more where it was dropped or
an exception left the block. All dumps that are formatted have been published before.
-/

namespace GrReveng.PatternDump

open Python Reactive PacketFormatter

/-- The operations of the constructor and of `stop` that raise `IOError`. -/
structure SessionFaults where
  /-- Opening the file. -/
  opening : Bool
  /-- Printing that it was opened. -/
  announce : Bool
  /-- Printing that it was not. -/
  complain : Bool
  /-- Printing why. -/
  explain : Bool
  /-- Printing that it is closed. -/
  farewell : Bool
  /-- Closing it. -/
  close : Bool
  /-- `str(e)`. -/
  reason : Text

/-- Nothing fails while the block starts and stops. -/
def noSessionFaults : SessionFaults := ⟨false, false, false, false, false, false, []⟩

/-- Nothing fails at a dump at this time. -/
def quietMoment (now : Now) : Moment := ⟨now, false, false, false, false, false, false, []⟩

/-- What the constructor prints when it has opened the file. -/
def openedLine (fileName : Text) : Text :=
  "gr-reveng: Opened ".toList ++ fileName ++ " for output".toList

/-- What the constructor prints when it could not open the file. -/
def unopenedLine : Text := ['C', 'o', 'u', 'l', 'd', 'n', singleQuote] ++
  "t open file for writing".toList

/-- What `stop` prints. -/
def closingLine (fileName : Text) : Text := "gr-reveng: Closing ".toList ++ fileName

/-- The name of the file, if there is one; an empty name is none. -/
def Setup.file (setup : Setup) : Option Text := setup.fileName.filter fun name => name ≠ []

/-- The part of the constructor that opens the file. It keeps a file that was opened also when it
cannot print so. -/
def openDump (setup : Setup) (faults : SessionFaults) :
    Reaction (Option LogFile) Event PyError :=
  match setup.file with
  | none => ⟨[], .ok none⟩
  | some name =>
    let fp : Option LogFile := if faults.opening then none else some ⟨name⟩
    let (effects, announced) :=
      if faults.opening then ([], false) else attempt [(.print (openedLine name), faults.announce)]
    if announced then ⟨effects.map .tried, .ok fp⟩
    else
      let (complaints, explained) := attempt [(.print unopenedLine, faults.complain),
        (.print faults.reason, faults.explain)]
      ⟨(effects ++ complaints).map .tried, if explained then .ok fp else .error .ioError⟩

/-- `stop`. No exception of it is caught. -/
def stopDump (fp : Option LogFile) (faults : SessionFaults) :
    Reaction (Option LogFile) Event PyError :=
  match fp with
  | none => ⟨[], .ok none⟩
  | some file =>
    let (effects, closed) :=
      attempt [(.print (closingLine file.name), faults.farewell), (.close, faults.close)]
    ⟨effects.map .tried, if closed then .ok none else .error .ioError⟩

/-- The use that an event makes of the file. -/
def Event.usage : Event → Usage
  | published _ => .leaves
  | tried effect => effect.usage

/-- What an event has written to the file. -/
def Event.written : Event → Text
  | published _ => []
  | tried effect => effect.written

/-- The text that an event publishes. -/
def Event.text? : Event → Option String
  | published text => some text
  | tried _ => none

/-- The operation of an event did not raise. -/
def Event.succeeded : Event → Bool
  | published _ => true
  | tried effect => effect.succeeded

/-- The line of a dump that can be formatted. -/
def lineOf (setup : Setup) (entry : Moment × List Int8) : Text :=
  match formatOutput setup.output entry.1.now entry.2 with
  | .error _ => []
  | .ok text => text ++ ['\n']

section Deliveries

variable {setup : Setup}

/-- What tried operations write is what their events write. -/
theorem written_tried (effects : List Effect) :
    (effects.map Event.tried).flatMap Event.written = effects.flatMap Effect.written :=
  List.flatMap_map _ _ _

/-- What tried operations do with the file is what their events do. -/
theorem follow_tried (opened : Bool) (effects : List Effect) :
    follow Event.usage opened (effects.map Event.tried) = follow Effect.usage opened effects :=
  List.foldlM_map

/-- The text on the screen leaves the file alone. -/
theorem screen_leaves (setup : Setup) (moment : Moment) (output : Text) :
    ∀ effect ∈ (attempt (screenOutputs setup moment output)).1, effect.usage = .leaves := by
  apply attempt_leaves
  intro tried member
  rw [screenOutputs] at member
  split at member
  · rw [List.mem_singleton.mp member]
    rfl
  · contradiction

/-- The line goes to an open file whole, or a beginning of it does and the file is closed. -/
theorem logLine_open (file : LogFile) (moment : Moment) (output : Text) :
    (logLine (some file) moment output).1.flatMap Effect.written <+: output ++ ['\n'] ∧
      (moment.fails = false →
        (logLine (some file) moment output).1.flatMap Effect.written = output ++ ['\n'] ∧
        follow Effect.usage true (logLine (some file) moment output).1 = some true) ∧
      ∃ still, follow Effect.usage true (logLine (some file) moment output).1 = some still ∧
        ((logLine (some file) moment output).2 = .ok none → still = false) := by
  rw [logLine, Moment.fails]
  cases moment.write <;> cases moment.flush <;> cases moment.complain <;>
    cases moment.explain <;> cases moment.close <;>
    simp [attempt, follow, Effect.usage, Operation.usage, Usage.follow, Effect.written]

/-- The text on the screen is not in the file. -/
theorem screen_unwritten (setup : Setup) (moment : Moment) (output : Text) :
    (attempt (screenOutputs setup moment output)).1.flatMap Effect.written = [] :=
  List.flatMap_eq_nil_iff.mpr fun effect member =>
    written_of_leaves (screen_leaves setup moment output effect member)

/-- A dump whose text the screen does not take stops the block and leaves the file alone. -/
theorem deliver_blocked {fp : Option LogFile} {moment : Moment} {dump : List Int8} {output : Text}
    (formatted : formatOutput setup.output moment.now dump = .ok output)
    (blocked : (setup.stdout && moment.print) = true) (opened : Bool) :
    (deliver setup fp (moment, dump)).emitted.flatMap Event.written = [] ∧
      follow Event.usage opened (deliver setup fp (moment, dump)).emitted = some opened ∧
      (deliver setup fp (moment, dump)).after = .error .ioError := by
  rw [deliver_formatted fp formatted, blocked, if_pos rfl]
  refine ⟨?_, ?_, rfl⟩
  · rw [List.flatMap_cons, written_tried, screen_unwritten]
    rfl
  · rw [follow_cons]
    exact (follow_tried opened _).trans
      (@follow_leaves _ Effect.usage _ (screen_leaves setup moment output) opened)

/-- A dump whose text the screen takes does with the file what its line does. -/
theorem deliver_shown {fp : Option LogFile} {moment : Moment} {dump : List Int8} {output : Text}
    (formatted : formatOutput setup.output moment.now dump = .ok output)
    (free : (setup.stdout && moment.print) = false) (opened : Bool) :
    (deliver setup fp (moment, dump)).emitted.flatMap Event.written =
        (logLine fp moment output).1.flatMap Effect.written ∧
      follow Event.usage opened (deliver setup fp (moment, dump)).emitted =
        follow Effect.usage opened (logLine fp moment output).1 ∧
      (deliver setup fp (moment, dump)).after = (logLine fp moment output).2 := by
  rw [deliver_formatted fp formatted, free, if_neg Bool.false_ne_true]
  refine ⟨?_, ?_, rfl⟩
  · rw [List.flatMap_cons, written_tried, List.flatMap_append, screen_unwritten]
    rfl
  · rw [follow_cons]
    change follow Event.usage opened (List.map Event.tried _) = _
    rw [follow_tried, follow_append,
      @follow_leaves _ Effect.usage _ (screen_leaves setup moment output) opened]
    rfl

/-- Without a file a delivery leaves it alone. -/
theorem deliver_leaves (moment : Moment) (dump : List Int8) :
    ∀ event ∈ (deliver setup none (moment, dump)).emitted,
      event.usage = .leaves ∧ event.written = [] := by
  cases formatted : formatOutput setup.output moment.now dump with
  | error e =>
    rw [deliver_unformatted none formatted]
    exact List.forall_mem_singleton.mpr ⟨rfl, rfl⟩
  | ok output =>
    have leaves := screen_leaves setup moment output
    have tried : ∀ event ∈ (attempt (screenOutputs setup moment output)).1.map Event.tried,
        event.usage = .leaves ∧ event.written = [] := by
      intro event member
      have ⟨effect, listed, same⟩ := List.mem_map.mp member
      rw [← same]
      exact ⟨leaves effect listed, written_of_leaves (leaves effect listed)⟩
    rw [deliver_formatted none formatted, logLine]
    split
    · exact List.forall_mem_cons.mpr ⟨⟨rfl, rfl⟩, tried⟩
    · rw [List.append_nil]
      exact List.forall_mem_cons.mpr ⟨⟨rfl, rfl⟩, tried⟩

/-- A delivery keeps the log. -/
theorem deliver_logger (setup : Setup) :
    Logger (deliver setup) (fun fp => fp.isSome) Event.usage Event.written
      (lineOf setup) where
  writes := by
    rintro fp ⟨moment, dump⟩ opened
    have ⟨file, handle⟩ := Option.isSome_iff_exists.mp opened
    cases formatted : formatOutput setup.output moment.now dump with
    | error e =>
      right
      rw [deliver_unformatted fp formatted]
      exact ⟨List.nil_prefix, true, rfl, nofun⟩
    | ok output =>
      have line : lineOf setup (moment, dump) = output ++ ['\n'] := by rw [lineOf, formatted]
      cases blocked : setup.stdout && moment.print with
      | true =>
        right
        have ⟨text, use, after⟩ := @deliver_blocked setup fp _ _ _ formatted blocked true
        rw [text, use, after]
        exact ⟨List.nil_prefix, true, rfl, nofun⟩
      | false =>
        have ⟨text, use, after⟩ := @deliver_shown setup fp _ _ _ formatted blocked true
        have ⟨start, whole, still, followed, closes⟩ := logLine_open file moment output
        rw [← handle] at start whole followed closes
        rw [line, text, use, after, logLine_after, opened, Bool.true_and]
        cases fails : moment.fails with
        | false => exact .inl ⟨fp, rfl, opened, whole fails⟩
        | true =>
          refine .inr ⟨start, still, followed, fun next same => ?_⟩
          rw [if_pos rfl] at same
          split at same
          · contradiction
          · rw [← Except.ok.inj same]
            refine ⟨rfl, closes ?_⟩
            rw [logLine_after, opened, fails, Bool.true_and, if_pos rfl, if_neg ‹_›]
  silent := by
    rintro fp ⟨moment, dump⟩ closed
    have absent : fp = none := Option.isNone_iff_eq_none.mp (by simpa using closed)
    rw [absent]
    refine ⟨deliver_leaves moment dump, fun next same => ?_⟩
    rw [((deliver_after_iff setup none moment dump next).mp same).2, ite_self]
    rfl

/-- A delivery publishes the text of its dump. -/
theorem deliver_published (setup : Setup) (fp : Option LogFile) (entry : Moment × List Int8) :
    (deliver setup fp entry).emitted.filterMap Event.text? = [dumpText entry.2] := by
  have ⟨moment, dump⟩ := entry
  have silent : ∀ effects : List Effect, (effects.map Event.tried).filterMap Event.text? = [] := by
    intro effects
    rw [List.filterMap_map]
    exact List.filterMap_eq_nil_iff.mpr fun _ _ => rfl
  cases formatted : formatOutput setup.output moment.now dump with
  | error e =>
    rw [deliver_unformatted fp formatted]
    rfl
  | ok output =>
    rw [deliver_formatted fp formatted]
    split
    · rw [List.filterMap_cons]
      change dumpText dump :: _ = _
      rw [silent]
    · rw [List.filterMap_cons]
      change dumpText dump :: _ = _
      rw [silent]

/-- Deliveries publish the texts of the dumps that they handle. -/
theorem work_deliver_published (fp : Option LogFile) (items : List (Moment × List Int8)) :
    (work (deliver setup) fp items).published.filterMap Event.text? =
      (work (deliver setup) fp items).history.map fun t => dumpText t.input.2 := by
  have single : ∀ t ∈ (work (deliver setup) fp items).history,
      t.emitted.filterMap Event.text? = [dumpText t.input.2] := by
    intro t member
    have step := (work_steps (deliver setup) member).1
    rw [step]
    exact deliver_published setup t.before t.input
  rw [Run.published, List.filterMap_flatMap, List.flatMap_congr single, List.map_eq_flatMap]

/-- A delivery that drops the file has an operation that failed. -/
theorem deliver_working {fp next : Option LogFile} {entry : Moment × List Int8}
    (after : (deliver setup fp entry).after = .ok next)
    (working : ∀ event ∈ (deliver setup fp entry).emitted, event.succeeded = true) :
    next = fp := by
  obtain ⟨moment, dump⟩ := entry
  obtain ⟨delivered, same⟩ := (deliver_after_iff setup fp moment dump next).mp after
  cases fp with
  | none => rw [same, ite_self]
  | some file =>
    cases fails : moment.fails with
    | false => rw [same, fails, if_neg Bool.false_ne_true]
    | true =>
      have broken : ∀ output, ∃ effect ∈ (logLine (some file) moment output).1,
          effect.succeeded = false := by
        intro output
        have failed := @attempt_fails
          [(.write (output ++ ['\n']), moment.write), (.flush, moment.flush)]
        rw [Moment.fails] at fails
        have tried : (attempt [(.write (output ++ ['\n']), moment.write),
            (.flush, moment.flush)]).2 = false := by
          revert fails
          cases moment.write <;> cases moment.flush <;> simp [attempt]
        obtain ⟨operation, _, member⟩ := failed tried
        refine ⟨⟨operation, false⟩, ?_, rfl⟩
        simp only [logLine, tried]
        exact List.mem_append_left _ member
      obtain ⟨output, formatted⟩ := (formatOutput_ok_iff setup.output moment.now dump).mpr
        ⟨delivered.bytes, delivered.time⟩
      have printed : (setup.stdout && moment.print) = false := by
        cases stdout : setup.stdout with
        | false => rfl
        | true => exact delivered.shown stdout
      obtain ⟨effect, member, failed⟩ := broken output
      rw [deliver_formatted _ formatted, printed, if_neg Bool.false_ne_true] at working
      have here := working (.tried effect) (List.mem_cons_of_mem _
        (List.mem_map_of_mem (List.mem_append_right _ member)))
      rw [Event.succeeded, failed] at here
      contradiction

/-- Deliveries in which nothing fails keep the file. -/
theorem work_deliver_working {fp last : Option LogFile} {items : List (Moment × List Int8)}
    (final : (work (deliver setup) fp items).final = .ok last)
    (working : ∀ event ∈ (work (deliver setup) fp items).published, event.succeeded = true) :
    last = fp := by
  induction items generalizing fp with
  | nil => exact (Except.ok.inj final).symm
  | cons entry items ih =>
    cases step : (deliver setup fp entry).after with
    | error e =>
      rw [work_cons_error _ items step] at final
      contradiction
    | ok next =>
      rw [work_cons_ok _ items step] at final working
      rw [Run.published, List.flatMap_cons, List.forall_mem_append] at working
      have same := deliver_working step working.1
      rw [same] at final working
      exact ih final working.2

end Deliveries

/-! ## Whole sessions -/

/-- The constructor opens the file. -/
def Setup.opened (setup : Setup) (faults : SessionFaults) : Bool :=
  setup.file.isSome && !faults.opening

/-- A block from its constructor on. -/
structure Session where
  /-- What it does to the outside world. -/
  events : List Event
  /-- `fp` at the end. -/
  final : Except PyError (Option LogFile)
  /-- What is in the file at the end. -/
  contents : Text

/-- The constructor, the calls of `work` and `stop`: what happens, and `fp` at the end. -/
def sessionEvents (setup : Setup) (faults : SessionFaults) (moment : Nat → Moment)
    (chunks : List (List Int8)) : List Event × Except PyError (Option LogFile) :=
  let built := openDump setup faults
  match built.after with
  | .error e => (built.emitted, .error e)
  | .ok fp =>
    let ran := service setup moment fp chunks
    match ran.final with
    | .error e => (built.emitted ++ ran.published, .error e)
    | .ok last =>
      let stopped := stopDump last.2.1 faults
      (built.emitted ++ (ran.published ++ stopped.emitted), stopped.after)

/-- A session with a file that has this text before. Opening the file empties it. -/
def session (setup : Setup) (faults : SessionFaults) (moment : Nat → Moment) (before : Text)
    (chunks : List (List Int8)) : Session :=
  let (events, final) := sessionEvents setup faults moment chunks
  ⟨events, final, if setup.opened faults then events.flatMap Event.written else before⟩

/-- A session with a file in which nothing fails. -/
structure DumpWorks (setup : Setup) (faults : SessionFaults) (session : Session) : Prop where
  /-- The file was opened. -/
  opened : setup.opened faults = true
  /-- The session ends without an exception. -/
  returns : ∃ last, session.final = .ok last
  /-- No operation raised. -/
  working : ∀ event ∈ session.events, event.succeeded = true

/-- The file is lost with the last of these dumps: an exception leaves the constructor or a
delivery, which is how the session ends, or the file is dropped. -/
def LosesFile (setup : Setup) (faults : SessionFaults) (items : List (Moment × List Int8))
    (final : Except PyError (Option LogFile)) : Prop :=
  let delivered := work (deliver setup) (setup.file.map LogFile.mk) items
  (∃ e, final = .error e ∧
    ((openDump setup faults).after = .error e ∨ delivered.final = .error e)) ∨
      delivered.final = .ok none

/-- What holds of a session on a stream. -/
structure KeepsLog (setup : Setup) (faults : SessionFaults) (moment : Nat → Moment) (before : Text)
    (stream : List Int8) (session : Session) : Prop where
  /-- The file is used and closed only while it is open. -/
  orderly : ∃ still, follow Event.usage (setup.opened faults) session.events = some still
  /-- A session that ends without an exception has no open file, and has closed it once. -/
  closed : ∀ last, session.final = .ok last → last = none ∧
    (setup.opened faults = true → ClosedOnce Event.usage session.events)
  /-- The published texts have the ones of the first dumps, and of all dumps without an
  exception. -/
  published : ∃ handled, handled <+: scanned setup.queues stream ∧
    (session.events.filterMap Event.text?).map samplesOf = handled.map (some ∘ onesOf) ∧
    ∀ last, session.final = .ok last → handled = scanned setup.queues stream
  /-- The file has whole lines, one for each of the first dumps that can be formatted, and the
  beginning of one more if it was lost with it. -/
  lines : setup.opened faults = true → ∃ whole rest torn,
    entries setup moment stream = whole ++ rest ∧
    session.contents = whole.flatMap (lineOf setup) ++ torn ∧ (rest = [] → torn = []) ∧
    ∀ entry more, rest = entry :: more → torn <+: lineOf setup entry ∧
      LosesFile setup faults (whole ++ [entry]) session.final
  /-- It has the lines of all dumps when nothing failed. -/
  complete : setup.opened faults = true → (∃ last, session.final = .ok last) →
    (∀ event ∈ session.events, event.succeeded = true) →
    session.contents = (entries setup moment stream).flatMap (lineOf setup)
  /-- A file that was not opened stays as it is, and nothing is tried on it. -/
  silent : setup.opened faults = false →
    session.contents = before ∧ ∀ event ∈ session.events, event.usage = .leaves

section Sessions

variable {setup : Setup}

/-- An event that leaves the file alone writes nothing to it. -/
theorem Event.written_of_leaves {event : Event} (leaves : event.usage = .leaves) :
    event.written = [] := by
  cases event with
  | published text => rfl
  | tried effect => exact PacketFormatter.written_of_leaves leaves

/-- The constructor leaves the file alone once it is open, and publishes nothing. -/
theorem openDump_leaves (setup : Setup) (faults : SessionFaults) :
    (∀ event ∈ (openDump setup faults).emitted, event.usage = .leaves ∧ event.text? = none) ∧
      ∀ fp, (openDump setup faults).after = .ok fp → fp.isSome = setup.opened faults := by
  rw [openDump, Setup.opened]
  cases setup.file with
  | none =>
    refine ⟨by simp, fun fp same => ?_⟩
    rw [← Except.ok.inj same]
    rfl
  | some name =>
    cases faults.opening <;> cases faults.announce <;> cases faults.complain <;>
      cases faults.explain <;>
      simp [attempt, Event.usage, Effect.usage, Operation.usage, Event.text?]

/-- The constructor neither uses the file that it opens nor publishes. -/
theorem openDump_neutral (setup : Setup) (faults : SessionFaults) (opened : Bool) :
    follow Event.usage opened (openDump setup faults).emitted = some opened ∧
      (openDump setup faults).emitted.flatMap Event.written = [] ∧
      (openDump setup faults).emitted.filterMap Event.text? = [] := by
  have leaves := (openDump_leaves setup faults).1
  refine ⟨@follow_leaves _ Event.usage _ (fun event member => (leaves event member).1) opened,
    List.flatMap_eq_nil_iff.mpr fun event member => ?_,
    List.filterMap_eq_nil_iff.mpr fun event member => (leaves event member).2⟩
  exact Event.written_of_leaves (leaves event member).1

/-- `stop` closes an open file, writes nothing and publishes nothing. -/
theorem stopDump_follow (fp : Option LogFile) (faults : SessionFaults) :
    (stopDump fp faults).emitted.flatMap Event.written = [] ∧
      (stopDump fp faults).emitted.filterMap Event.text? = [] ∧
      ∃ still, follow Event.usage fp.isSome (stopDump fp faults).emitted = some still ∧
        ∀ last, (stopDump fp faults).after = .ok last → last = none ∧ still = false := by
  cases fp with
  | none => exact ⟨rfl, rfl, false, rfl, fun last same => ⟨(Except.ok.inj same).symm, rfl⟩⟩
  | some file =>
    rw [stopDump]
    cases faults.farewell <;> cases faults.close <;>
      simp [attempt, follow, Event.usage, Effect.usage, Operation.usage, Usage.follow,
        Event.written, Effect.written, Event.text?]

/-- The events of a session that the constructor lets begin: those of the constructor, of the
deliveries and of `stop`, if it comes to that. -/
theorem sessionEvents_built {faults : SessionFaults} {moment : Nat → Moment}
    {chunks : List (List Int8)} {fp : Option LogFile}
    (built : (openDump setup faults).after = .ok fp) :
    let delivered := work (deliver setup) fp (entries setup moment chunks.flatten)
    ∃ ending still, (sessionEvents setup faults moment chunks).1 =
        (openDump setup faults).emitted ++ (delivered.published ++ ending) ∧
      ending.flatMap Event.written = [] ∧ ending.filterMap Event.text? = [] ∧
      follow Event.usage fp.isSome (delivered.published ++ ending) = some still ∧
      ∀ last, (sessionEvents setup faults moment chunks).2 = .ok last →
        last = none ∧ still = false ∧ ∃ kept, delivered.final = .ok kept := by
  intro delivered
  have ⟨published, final⟩ := service_delivers setup moment fp chunks
  have ⟨middle, followed, keeps⟩ := (deliver_logger setup).run_follow fp
    (entries setup moment chunks.flatten)
  rw [sessionEvents]
  simp only [built]
  cases ended : (service setup moment fp chunks).final with
  | error e =>
    refine ⟨[], middle, ?_, rfl, rfl, ?_, nofun⟩
    · rw [List.append_nil]
      exact congrArg (_ ++ ·) published
    · rw [List.append_nil]
      exact followed
  | ok last =>
    rw [ended] at final
    have ⟨unwritten, silent, still, stopped, closes⟩ := stopDump_follow last.2.1 faults
    refine ⟨(stopDump last.2.1 faults).emitted, still, ?_, unwritten, silent, ?_, ?_⟩
    · dsimp only
      rw [published]
    · rw [follow_append]
      change (follow Event.usage fp.isSome (work _ _ _).published).bind _ = _
      rw [followed, ← keeps last.2.1 final.symm]
      exact stopped
    · intro kept after
      have ⟨gone, shut⟩ := closes kept after
      exact ⟨gone, shut, last.2.1, final.symm⟩

/-- A file that was opened is the one with the given name. -/
theorem openDump_file {faults : SessionFaults} {fp : Option LogFile}
    (built : (openDump setup faults).after = .ok fp) (opened : setup.opened faults = true) :
    fp = setup.file.map LogFile.mk := by
  have ⟨named, works⟩ := Bool.and_eq_true_iff.mp opened
  have ⟨name, file⟩ := Option.isSome_iff_exists.mp named
  have opens : faults.opening = false := by simpa using works
  rw [openDump, file] at built
  rw [file, Option.map_some]
  simp only [opens, Bool.false_eq_true, if_false] at built
  split at built
  · exact (Except.ok.inj built).symm
  · dsimp only at built
    split at built
    · exact (Except.ok.inj built).symm
    · contradiction

/-- An exception of a delivery ends the session. -/
theorem sessionEvents_raises {faults : SessionFaults} {moment : Nat → Moment}
    {chunks : List (List Int8)} {fp : Option LogFile} {e : PyError}
    (built : (openDump setup faults).after = .ok fp)
    (raises : (work (deliver setup) fp (entries setup moment chunks.flatten)).final = .error e) :
    (sessionEvents setup faults moment chunks).2 = .error e := by
  have ⟨_, final⟩ := service_delivers setup moment fp chunks
  rw [raises] at final
  simp only [sessionEvents, built]
  cases ended : (service setup moment fp chunks).final with
  | error e' =>
    rw [ended] at final
    exact final
  | ok last =>
    rw [ended] at final
    contradiction

/-- A file that is lost with some first dumps is lost by the session. -/
theorem losesFile_of_lost {faults : SessionFaults} {moment : Nat → Moment}
    {chunks : List (List Int8)} {fp : Option LogFile} {front back : List (Moment × List Int8)}
    (built : (openDump setup faults).after = .ok fp) (opened : setup.opened faults = true)
    (split : entries setup moment chunks.flatten = front ++ back)
    (lost : Lost (deliver setup) (fun fp => fp.isSome) fp front) :
    LosesFile setup faults front (sessionEvents setup faults moment chunks).2 := by
  rw [LosesFile, ← openDump_file built opened]
  cases ended : (work (deliver setup) fp front).final with
  | error e =>
    have raises := work_raises (deliver setup) ended back
    rw [← split] at raises
    exact .inl ⟨e, sessionEvents_raises built raises, .inr rfl⟩
  | ok last =>
    have gone : last = none := Option.isNone_iff_eq_none.mp (by simpa using lost last ended)
    exact .inr (by rw [gone])

/-- A session writes what its deliveries write. -/
theorem sessionEvents_written {faults : SessionFaults} {moment : Nat → Moment}
    {chunks : List (List Int8)} {fp : Option LogFile}
    (built : (openDump setup faults).after = .ok fp) :
    (sessionEvents setup faults moment chunks).1.flatMap Event.written =
      (work (deliver setup) fp (entries setup moment chunks.flatten)).published.flatMap
        Event.written := by
  have ⟨_, _, events, nothing, _⟩ := @sessionEvents_built setup faults moment chunks fp built
  rw [events, List.flatMap_append, List.flatMap_append,
    (openDump_neutral setup faults true).2.1, nothing, List.append_nil]
  rfl

/-- A session in which nothing fails has the lines of all dumps. -/
theorem session_complete {faults : SessionFaults} {moment : Nat → Moment} {before : Text}
    {chunks : List (List Int8)}
    (works : DumpWorks setup faults (session setup faults moment before chunks)) :
    (session setup faults moment before chunks).contents =
      (entries setup moment chunks.flatten).flatMap (lineOf setup) := by
  have ⟨opened, ⟨last, final⟩, working⟩ := works
  cases built : (openDump setup faults).after with
  | error e =>
    have raised : sessionEvents setup faults moment chunks =
        ((openDump setup faults).emitted, .error e) := by simp only [sessionEvents, built]
    rw [session, raised] at final
    contradiction
  | ok fp =>
    have handle := ((openDump_leaves setup faults).2 fp built).trans opened
    have ⟨_, _, events, _, _, _, closes⟩ :=
      @sessionEvents_built setup faults moment chunks fp built
    have ⟨whole, rest, torn, split, log, complete, _, keeps⟩ :=
      (deliver_logger setup).run_lines handle (entries setup moment chunks.flatten)
    have ⟨_, _, kept, ends⟩ := closes last final
    change ∀ event ∈ (sessionEvents setup faults moment chunks).1, event.succeeded = true at working
    rw [events, List.forall_mem_append, List.forall_mem_append] at working
    have same := work_deliver_working ends working.2.1
    have empty := keeps kept ends (same ▸ handle)
    rw [session]
    dsimp only
    rw [if_pos opened, sessionEvents_written built, log, complete empty, split, empty,
      List.append_nil, List.append_nil]

/-- A session that ends in the constructor keeps its log. -/
theorem keepsLog_raised {faults : SessionFaults} {e : PyError}
    (raised : (openDump setup faults).after = .error e) (moment : Nat → Moment) (before : Text)
    (chunks : List (List Int8)) :
    KeepsLog setup faults moment before chunks.flatten
      (session setup faults moment before chunks) := by
  have ⟨alone, unwritten, unpublished⟩ := openDump_neutral setup faults (setup.opened faults)
  have events : sessionEvents setup faults moment chunks =
      ((openDump setup faults).emitted, .error e) := by simp only [sessionEvents, raised]
  rw [session, events]
  refine ⟨⟨_, alone⟩, nofun, ⟨[], List.nil_prefix, by rw [unpublished]; rfl, nofun⟩,
    fun opened => ?_, ?_,
    fun unopened => ?_⟩
  · refine ⟨[], _, [], rfl, ?_, fun _ => rfl, fun _ _ _ =>
      ⟨List.nil_prefix, .inl ⟨e, rfl, .inl raised⟩⟩⟩
    dsimp only
    rw [if_pos opened, unwritten]
    rfl
  · rintro _ ⟨last, same⟩
    contradiction
  · dsimp only
    rw [unopened, if_neg Bool.false_ne_true]
    exact ⟨rfl, fun event member => ((openDump_leaves setup faults).1 event member).1⟩

/-- Every session keeps its log. -/
theorem dump_keepsLog (setup : Setup) (faults : SessionFaults) (moment : Nat → Moment)
    (before : Text) (chunks : List (List Int8)) :
    KeepsLog setup faults moment before chunks.flatten
      (session setup faults moment before chunks) := by
  cases built : (openDump setup faults).after with
  | error e => exact keepsLog_raised built moment before chunks
  | ok fp =>
    have opening := (openDump_leaves setup faults).2 fp built
    obtain ⟨alone, _, unpublished⟩ := openDump_neutral setup faults (setup.opened faults)
    obtain ⟨ending, still, events, _, silent, followed, closes⟩ :=
      @sessionEvents_built setup faults moment chunks fp built
    have all : follow Event.usage (setup.opened faults)
        (sessionEvents setup faults moment chunks).1 = some still := by
      rw [events, follow_append, alone, ← opening]
      exact followed
    rw [session]
    constructor
    · exact ⟨still, all⟩
    · intro last final
      obtain ⟨gone, shut, _⟩ := closes last final
      refine ⟨gone, fun opened => ?_⟩
      rw [opened, shut] at all
      exact closes_of_follow all
    · have handled := work_inputs_prefix (deliver setup) fp (entries setup moment chunks.flatten)
      have dumps := @map_entries setup moment chunks.flatten
      refine ⟨_, dumps ▸ handled.map Prod.snd, ?_, fun last final => ?_⟩
      · dsimp only
        rw [events, List.filterMap_append, List.filterMap_append, unpublished, silent,
          List.append_nil, work_deliver_published, List.map_map, List.map_map, List.nil_append,
          List.map_map]
        exact List.map_congr_left fun t _ => samplesOf_dumpText t.input.2
      · obtain ⟨_, _, kept, ends⟩ := closes last final
        rw [work_inputs (deliver setup) ends, dumps]
    · intro opened
      obtain ⟨whole, rest, torn, split, log, complete, cut, _⟩ :=
        (deliver_logger setup).run_lines (opening.trans opened)
          (entries setup moment chunks.flatten)
      refine ⟨whole, rest, torn, split, ?_, complete, fun entry more behind => ?_⟩
      · dsimp only
        rw [if_pos opened, sessionEvents_written built, log]
      · have ⟨start, lost⟩ := cut entry more behind
        have parts : entries setup moment chunks.flatten = whole ++ [entry] ++ more := by
          rw [List.append_assoc, List.singleton_append, ← behind, split]
        exact ⟨start, losesFile_of_lost built opened parts lost⟩
    · intro opened returns working
      have complete := @session_complete setup faults moment before chunks
      rw [session] at complete
      exact complete ⟨opened, returns, working⟩
    · intro unopened
      dsimp only
      rw [unopened] at all
      exact ⟨if_neg (Bool.not_eq_true _ ▸ unopened), (leaves_of_follow all).2⟩

end Sessions

end GrReveng.PatternDump
