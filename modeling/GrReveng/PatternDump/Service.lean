import GrReveng.Library.Channels
import GrReveng.PacketFormatter.Lifecycle
import GrReveng.PatternDump.Dumps
import GrReveng.PatternDump.Format

/-!
# What pattern dump does with its dumps

The whole of `work`: a completed dump is published, formatted, printed and written to the log file
before the queues are cleared. An exception that leaves this stops the block. The block is its
queues with this delivery behind them, so its runs deliver the scan of the samples in order.
-/

namespace GrReveng.PatternDump

open Python Reactive PacketFormatter

/-- The arguments of the constructor. -/
structure Setup where
  /-- `pattern` and `dump_len`. -/
  queues : Config
  /-- `output_fmt` and `rel_time`. -/
  output : Output
  /-- `file_name`. -/
  fileName : Option Text
  /-- `stdout`. -/
  stdout : Bool

/-- What a dump meets: the clock, and the operations that raise `IOError`. -/
structure Moment where
  /-- The clock. -/
  now : Now
  /-- `print output`. -/
  print : Bool
  /-- Writing the line. -/
  write : Bool
  /-- Flushing the file. -/
  flush : Bool
  /-- Printing that the file failed. -/
  complain : Bool
  /-- Printing why. -/
  explain : Bool
  /-- Closing the file. -/
  close : Bool
  /-- `str(e)`. -/
  reason : Text

/-- What the block does to the outside world. -/
inductive Event
  /-- The message port publishes this text. -/
  | published (text : String)
  /-- An operation is tried. -/
  | tried (effect : Effect)

/-- What is printed when the file fails. -/
def complaint : Text := "Error while writing to file:".toList

/-- The line goes to the file. When the file fails it is closed and dropped; an exception of this
is not caught. -/
def logLine (fp : Option LogFile) (moment : Moment) (output : Text) :
    List Effect × Except PyError (Option LogFile) :=
  match fp with
  | none => ([], .ok none)
  | some file =>
    let (effects, succeeded) :=
      attempt [(.write (output ++ ['\n']), moment.write), (.flush, moment.flush)]
    if succeeded then (effects, .ok (some file))
    else
      let (cleanup, closed) := attempt [(.printOpen complaint, moment.complain),
        (.print moment.reason, moment.explain), (.close, moment.close)]
      (effects ++ cleanup, if closed then .ok none else .error .ioError)

/-- The text of a dump on the screen. -/
def screenOutputs (setup : Setup) (moment : Moment) (output : Text) : List (Operation × Bool) :=
  if setup.stdout then [(.print output, moment.print)] else []

/-- `work` for a completed dump. -/
def deliver (setup : Setup) (fp : Option LogFile) (entry : Moment × List Int8) :
    Reaction (Option LogFile) Event PyError :=
  let (moment, dump) := entry
  match formatOutput setup.output moment.now dump with
  | .error e => ⟨[.published (dumpText dump)], .error e⟩
  | .ok output =>
    let (screen, shown) := attempt (screenOutputs setup moment output)
    if shown then
      let (effects, after) := logLine fp moment output
      ⟨.published (dumpText dump) :: (screen ++ effects).map .tried, after⟩
    else ⟨.published (dumpText dump) :: screen.map .tried, .error .ioError⟩

/-- The members that change: the queues, `fp` and the number of dumps so far. -/
abbrev Setup.State (setup : Setup) : Type := setup.queues.State × (Option LogFile × Nat)

/-- One iteration of the loop in `work`, with what each dump meets. The queues are cleared behind
the delivery. -/
def serve (setup : Setup) (moment : Nat → Moment) (s : setup.State) (bit : Int8) :
    Reaction setup.State Event PyError :=
  let (queues, fp, count) := s
  if queues.patternCheck = setup.queues.patternRegister then
    let queues := { queues with output := queues.output.push bit }
    if queues.output.items.length = setup.queues.dumpLen then
      let delivered := deliver setup fp (moment count, queues.output.items)
      ⟨delivered.emitted, delivered.after.map fun fp =>
        (⟨ShiftRegister.empty, ShiftRegister.empty⟩, fp, count + 1)⟩
    else ⟨[], .ok (queues, fp, count)⟩
  else ⟨[], .ok ({ queues with patternCheck := queues.patternCheck.push bit }, fp, count)⟩

/-- Calls of `work` behind the constructor, one for each chunk of the samples. -/
def service (setup : Setup) (moment : Nat → Moment) (fp : Option LogFile)
    (chunks : List (List Int8)) : Run setup.State Int8 Event PyError :=
  feed (serve setup moment) (make setup.queues, fp, 0) chunks

/-- The dumps of a stream with what they meet. -/
def entries (setup : Setup) (moment : Nat → Moment) (stream : List Int8) :
    List (Moment × List Int8) :=
  (scanned setup.queues stream).mapIdx fun i dump => (moment i, dump)

section Service

variable {setup : Setup} {moment : Nat → Moment}

/-- The dumps that are delivered are those of the stream. -/
theorem map_entries (stream : List Int8) :
    (entries setup moment stream).map Prod.snd = scanned setup.queues stream := by
  apply List.ext_getElem?
  intro i
  rw [List.getElem?_map, entries, List.getElem?_mapIdx]
  cases (scanned setup.queues stream)[i]? <;> rfl

/-- The block is its queues with the delivery behind them. -/
theorem serve_eq_piped (setup : Setup) (moment : Nat → Moment) :
    serve setup moment = piped (collect setup.queues)
      (numbered (deliver setup) fun i dump => (moment i, dump)) := by
  funext ⟨queues, fp, count⟩ bit
  rw [serve, piped, collect]
  dsimp only
  split
  · split
    · dsimp only
      obtain ⟨published, final⟩ := work_singleton
        (numbered (deliver setup) fun i dump => (moment i, dump)) (fp, count)
        (queues.output.push bit).items
      rw [published, final, numbered]
      dsimp only
      cases (deliver setup fp (moment count, (queues.output.push bit).items)).after with
      | error e => rfl
      | ok next => rfl
    · rfl
  · rfl

/-- A run delivers the scan of the samples in order, as far as no exception stops it. -/
theorem service_delivers (setup : Setup) (moment : Nat → Moment) (fp : Option LogFile)
    (chunks : List (List Int8)) :
    (service setup moment fp chunks).published =
        (work (deliver setup) fp (entries setup moment chunks.flatten)).published ∧
      (service setup moment fp chunks).final.map (fun last => last.2.1) =
        (work (deliver setup) fp (entries setup moment chunks.flatten)).final := by
  have dumps := work_dumps setup.queues chunks.flatten
  have ⟨published, ok, error⟩ := work_piped (collect setup.queues)
    (numbered (deliver setup) fun i dump => (moment i, dump)) (make setup.queues) (fp, 0)
    chunks.flatten
  have delivered := work_numbered (deliver setup) (fun i dump => (moment i, dump)) fp 0
    (work (collect setup.queues) (make setup.queues) chunks.flatten).published
  have ended := work_numbered_final (deliver setup) (fun i dump => (moment i, dump)) fp 0
    (work (collect setup.queues) (make setup.queues) chunks.flatten).published
  simp only [Nat.zero_add] at delivered ended
  rw [service, feed_eq_work, serve_eq_piped, entries, ← dumps, ← delivered, ← ended]
  refine ⟨published, ?_⟩
  cases final : (work (piped (collect setup.queues)
      (numbered (deliver setup) fun i dump => (moment i, dump))) (make setup.queues, fp, 0)
      chunks.flatten).final with
  | error e => rw [error e final]; rfl
  | ok last => rw [(ok last final).2]; rfl

end Service

/-- The file fails for a dump. -/
def Moment.fails (moment : Moment) : Bool := moment.write || moment.flush

/-- A dump that is delivered without an exception, with an open file or without one. -/
structure Delivered (setup : Setup) (opened : Bool) (moment : Moment) (dump : List Int8) :
    Prop where
  /-- No sample is negative. -/
  bytes : ∀ x ∈ dump, 0 ≤ x
  /-- An absolute time can be written. -/
  time : setup.output.relTime = .absolute →
    ∃ text, moment.now.strftime setup.output.outputFmt = .ok text
  /-- The screen takes the text. -/
  shown : setup.stdout = true → moment.print = false
  /-- A file that fails can be dropped. -/
  dropped : opened = true → moment.fails = true →
    moment.complain = false ∧ moment.explain = false ∧ moment.close = false

/-- Samples are bytes when none is negative. -/
theorem sampleBytes_ok_iff (dump : List Int8) :
    (∃ bytes, sampleBytes dump = .ok bytes) ↔ ∀ x ∈ dump, 0 ≤ x := by
  induction dump with
  | nil => exact iff_of_true ⟨[], rfl⟩ (by simp)
  | cons x dump ih =>
    rw [List.forall_mem_cons, ← ih, sampleBytes, List.mapM_cons]
    by_cases positive : 0 ≤ x
    · rw [if_pos positive]
      change (∃ bytes, (sampleBytes dump >>= fun rest => Except.ok (x.toUInt8 :: rest)) =
        .ok bytes) ↔ _
      cases sampleBytes dump with
      | error e => simp [bind, Except.bind]
      | ok bytes => simp [bind, Except.bind, positive]
    · rw [if_neg positive]
      simp [bind, Except.bind, positive]

/-- The dumps that can be formatted. -/
theorem formatOutput_ok_iff (cfg : Output) (now : Now) (dump : List Int8) :
    (∃ text, formatOutput cfg now dump = .ok text) ↔
      (∀ x ∈ dump, 0 ≤ x) ∧
        (cfg.relTime = .absolute → ∃ text, now.strftime cfg.outputFmt = .ok text) := by
  rw [← sampleBytes_ok_iff, formatOutput]
  cases cfg.relTime with
  | absolute =>
    cases now.strftime cfg.outputFmt with
    | error e => simp [bind, Except.bind]
    | ok out =>
      cases sampleBytes dump with
      | error e => simp [bind, Except.bind]
      | ok bytes => simp [bind, Except.bind, pure, Except.pure]
  | _ =>
    cases sampleBytes dump with
    | error e => simp [bind, Except.bind, pure, Except.pure]
    | ok bytes => simp [bind, Except.bind, pure, Except.pure]

/-- What becomes of the file with a dump. -/
theorem logLine_after (fp : Option LogFile) (moment : Moment) (output : Text) :
    (logLine fp moment output).2 =
      if fp.isSome && moment.fails then
        if moment.complain || moment.explain || moment.close then .error .ioError else .ok none
      else .ok fp := by
  cases fp with
  | none => rfl
  | some file =>
    rw [logLine, Moment.fails]
    cases moment.write <;> cases moment.flush <;> cases moment.complain <;>
      cases moment.explain <;> cases moment.close <;> rfl

/-- The file takes a dump or can be dropped, and it is dropped when it fails. -/
theorem logLine_ok_iff (fp : Option LogFile) (moment : Moment) (output : Text)
    (next : Option LogFile) :
    (logLine fp moment output).2 = .ok next ↔
      (fp.isSome = true → moment.fails = true →
        moment.complain = false ∧ moment.explain = false ∧ moment.close = false) ∧
        next = if moment.fails then none else fp := by
  rw [logLine_after]
  cases fp with
  | none => simp [@eq_comm _ next]
  | some file =>
    cases moment.fails with
    | false => simp [@eq_comm _ next]
    | true =>
      cases moment.complain <;> cases moment.explain <;> cases moment.close <;>
        simp [@eq_comm _ next]

/-- A dump that cannot be formatted is published only. -/
theorem deliver_unformatted {setup : Setup} {moment : Moment} {dump : List Int8} {e : PyError}
    (fp : Option LogFile) (failed : formatOutput setup.output moment.now dump = .error e) :
    deliver setup fp (moment, dump) = ⟨[.published (dumpText dump)], .error e⟩ := by
  simp only [deliver, failed]

/-- A dump that can be formatted goes to the screen and then to the file. -/
theorem deliver_formatted {setup : Setup} {moment : Moment} {dump : List Int8} {output : Text}
    (fp : Option LogFile) (formatted : formatOutput setup.output moment.now dump = .ok output) :
    deliver setup fp (moment, dump) =
      if setup.stdout && moment.print then
        ⟨.published (dumpText dump) ::
          (attempt (screenOutputs setup moment output)).1.map .tried, .error .ioError⟩
      else
        ⟨.published (dumpText dump) ::
          ((attempt (screenOutputs setup moment output)).1 ++
            (logLine fp moment output).1).map .tried, (logLine fp moment output).2⟩ := by
  have screen : (attempt (screenOutputs setup moment output)).2 =
      !(setup.stdout && moment.print) := by
    rw [screenOutputs]
    cases setup.stdout <;> cases moment.print <;> rfl
  simp only [deliver, formatted, screen]
  cases setup.stdout && moment.print <;> rfl

/-- A delivery returns exactly when it meets no exception, and drops a file that fails. -/
theorem deliver_after_iff (setup : Setup) (fp : Option LogFile) (moment : Moment)
    (dump : List Int8) (next : Option LogFile) :
    (deliver setup fp (moment, dump)).after = .ok next ↔
      Delivered setup fp.isSome moment dump ∧
        next = if moment.fails then none else fp := by
  have format := formatOutput_ok_iff setup.output moment.now dump
  cases formatted : formatOutput setup.output moment.now dump with
  | error e =>
    rw [deliver_unformatted fp formatted]
    refine iff_of_false nofun fun delivered => ?_
    have ⟨text, ok⟩ := format.mpr ⟨delivered.1.bytes, delivered.1.time⟩
    rw [formatted] at ok
    contradiction
  | ok text =>
    have ⟨bytes, time⟩ := format.mp ⟨text, formatted⟩
    rw [deliver_formatted fp formatted]
    cases blocked : setup.stdout && moment.print with
    | true =>
      have ⟨stdout, print⟩ := Bool.and_eq_true_iff.mp blocked
      rw [if_pos rfl]
      refine iff_of_false nofun fun delivered => ?_
      rw [delivered.1.shown stdout] at print
      contradiction
    | false =>
      have printed : setup.stdout = true → moment.print = false := by
        intro stdout
        rwa [stdout, Bool.true_and] at blocked
      rw [if_neg Bool.false_ne_true]
      dsimp only
      rw [logLine_ok_iff]
      constructor
      · rintro ⟨dropped, same⟩
        exact ⟨⟨bytes, time, printed, dropped⟩, same⟩
      · rintro ⟨delivered, same⟩
        exact ⟨delivered.dropped, same⟩

section Returns

variable {setup : Setup}

/-- Deliveries return when each of them does with the file that is left to it. -/
theorem work_deliver_ok_iff (fp : Option LogFile) (items : List (Moment × List Int8)) :
    (∃ last, (work (deliver setup) fp items).final = .ok last) ↔
      ∀ i moment dump, items[i]? = some (moment, dump) →
        Delivered setup (fp.isSome && (items.take i).all fun entry => !entry.1.fails) moment
          dump := by
  induction items generalizing fp with
  | nil => exact iff_of_true ⟨fp, rfl⟩ (by simp)
  | cons entry items ih =>
    have ⟨moment, dump⟩ := entry
    have handle : (if moment.fails then none else fp).isSome = (fp.isSome && !moment.fails) := by
      cases moment.fails <;> simp
    have step := deliver_after_iff setup fp moment dump
    constructor
    · intro returns i moment' dump' found
      cases after : (deliver setup fp (moment, dump)).after with
      | error e =>
        rw [work_cons_error _ items after] at returns
        have ⟨last, ends⟩ := returns
        contradiction
      | ok next =>
        have ⟨here, same⟩ := (step next).mp after
        rw [work_cons_ok _ items after] at returns
        cases i with
        | zero =>
          rw [List.getElem?_cons_zero, Option.some.injEq, Prod.mk.injEq] at found
          rw [← found.1, ← found.2, List.take_zero, List.all_nil, Bool.and_true]
          exact here
        | succ i =>
          rw [List.getElem?_cons_succ] at found
          have later := (ih next).mp returns i moment' dump' found
          rw [List.take_succ_cons, List.all_cons]
          rwa [same, handle, Bool.and_assoc] at later
    · intro each
      have here := each 0 moment dump rfl
      rw [List.take_zero, List.all_nil, Bool.and_true] at here
      rw [work_cons_ok _ items ((step _).mpr ⟨here, rfl⟩)]
      apply (ih _).mpr
      intro i moment' dump' found
      have later := each (i + 1) moment' dump' found
      rwa [List.take_succ_cons, List.all_cons, ← Bool.and_assoc, ← handle] at later

/-- An element of a list of numbered dumps. -/
theorem entries_getElem?_eq_some_iff {moment : Nat → Moment} {stream : List Int8} {i : Nat}
    {here : Moment} {dump : List Int8} :
    (entries setup moment stream)[i]? = some (here, dump) ↔
      here = moment i ∧ (scanned setup.queues stream)[i]? = some dump := by
  rw [entries, List.getElem?_mapIdx, Option.map_eq_some_iff]
  constructor
  · rintro ⟨found, inside, same⟩
    cases same
    exact ⟨rfl, inside⟩
  · rintro ⟨same, inside⟩
    exact ⟨dump, inside, by rw [same]⟩

/-- No exception leaves `work` exactly when each dump has no negative sample, its time can be
written, the screen takes it, and a file that fails with it and not before can be dropped. -/
theorem service_returns_iff (moment : Nat → Moment) (fp : Option LogFile)
    (chunks : List (List Int8)) :
    (∃ last, (service setup moment fp chunks).final = .ok last) ↔
      ∀ i dump, (scanned setup.queues chunks.flatten)[i]? = some dump →
        Delivered setup (fp.isSome && (List.range i).all fun j => !(moment j).fails) (moment i)
          dump := by
  have ended := (service_delivers setup moment fp chunks).2
  have returns : (∃ last, (service setup moment fp chunks).final = .ok last) ↔
      ∃ last, (work (deliver setup) fp (entries setup moment chunks.flatten)).final =
        .ok last := by
    rw [← ended]
    cases (service setup moment fp chunks).final with
    | error e => exact iff_of_false nofun nofun
    | ok last => exact iff_of_true ⟨last, rfl⟩ ⟨last.2.1, rfl⟩
  have before : ∀ i dump, (scanned setup.queues chunks.flatten)[i]? = some dump →
      ((entries setup moment chunks.flatten).take i).all (fun entry => !entry.1.fails) =
        (List.range i).all fun j => !(moment j).fails := by
    intro i dump found
    have inside := (List.getElem?_eq_some_iff.mp found).1
    have moments : ((entries setup moment chunks.flatten).take i).map Prod.fst =
        (List.range i).map moment := by
      apply List.ext_getElem
      · rw [List.length_map, List.length_take, entries, List.length_mapIdx, List.length_map,
          List.length_range]
        exact Nat.min_eq_left (Nat.le_of_lt inside)
      · intro j _ _
        simp [entries]
    have all := congrArg (List.all · fun here => !here.fails) moments
    rwa [List.all_map, List.all_map] at all
  rw [returns, work_deliver_ok_iff]
  constructor
  · intro each i dump found
    have here := each i (moment i) dump (entries_getElem?_eq_some_iff.mpr ⟨rfl, found⟩)
    rwa [before i dump found] at here
  · intro each i here dump found
    have ⟨same, inside⟩ := entries_getElem?_eq_some_iff.mp found
    rw [before i dump inside, same]
    exact each i dump inside

end Returns

end GrReveng.PatternDump
