import GrReveng.Library.Reactive

/-!
# Machines that keep a log

A machine has a handle to a log while it is open, and its outputs use the handle, close it or leave
it alone. A step with an open handle writes a text of its own; when this fails it has written a
beginning of the text and the machine has no handle any more, if it goes on at all. Then a run
never uses a closed handle, and the log is made of whole texts in their order, except for the end
of it when the handle was lost.
-/

namespace GrReveng.Reactive

variable {σ ι ο ε α : Type}

/-- What an operation does with a handle. -/
inductive Usage
  /-- It leaves the handle alone. -/
  | leaves
  /-- It uses the handle. -/
  | uses
  /-- It closes the handle. -/
  | closes
  deriving DecidableEq

/-- Whether a handle is open behind an operation, or nothing when the operation needs a handle that
is closed. -/
def Usage.follow : Usage → Bool → Option Bool
  | leaves, opened => some opened
  | uses, true => some true
  | closes, true => some false
  | _, false => none

section Handles

variable (usage : ο → Usage)

/-- Whether a handle is open behind some operations, or nothing when one of them needs a handle that
is closed. -/
def follow (opened : Bool) (operations : List ο) : Option Bool :=
  operations.foldlM (fun opened operation => (usage operation).follow opened) opened

/-- An open handle is closed once: behind some operations that do not close it and in front of
others that leave it alone. -/
def ClosedOnce (operations : List ο) : Prop :=
  ∃ front closing back, operations = front ++ closing :: back ∧
    (∀ a ∈ front, usage a ≠ .closes) ∧ usage closing = .closes ∧ ∀ a ∈ back, usage a = .leaves

variable {usage}

/-- Operations behind others. -/
theorem follow_append (opened : Bool) (front back : List ο) :
    follow usage opened (front ++ back) =
      (follow usage opened front).bind fun middle => follow usage middle back :=
  List.foldlM_append

/-- One operation in front of others. -/
theorem follow_cons (opened : Bool) (operation : ο) (rest : List ο) :
    follow usage opened (operation :: rest) =
      ((usage operation).follow opened).bind fun middle => follow usage middle rest :=
  List.foldlM_cons

/-- Operations that leave a handle alone. -/
theorem follow_leaves {operations : List ο} (leaves : ∀ a ∈ operations, usage a = .leaves)
    (opened : Bool) : follow usage opened operations = some opened := by
  induction operations with
  | nil => rfl
  | cons operation rest ih =>
    rw [follow_cons, leaves operation List.mem_cons_self]
    exact ih fun a member => leaves a (List.mem_cons_of_mem _ member)

/-- With a closed handle all operations leave it alone. -/
theorem leaves_of_follow {operations : List ο} {after : Bool}
    (followed : follow usage false operations = some after) :
    after = false ∧ ∀ a ∈ operations, usage a = .leaves := by
  induction operations with
  | nil => exact ⟨(Option.some.inj followed).symm, by simp⟩
  | cons operation rest ih =>
    rw [follow_cons] at followed
    cases kind : usage operation with
    | leaves =>
      rw [kind] at followed
      have ⟨closed, others⟩ := ih followed
      exact ⟨closed, List.forall_mem_cons.mpr ⟨kind, others⟩⟩
    | uses =>
      rw [kind] at followed
      contradiction
    | closes =>
      rw [kind] at followed
      contradiction

/-- An open handle that is closed in the end is closed once. -/
theorem closes_of_follow {operations : List ο}
    (followed : follow usage true operations = some false) : ClosedOnce usage operations := by
  induction operations with
  | nil => cases Option.some.inj followed
  | cons operation rest ih =>
    rw [follow_cons] at followed
    cases kind : usage operation with
    | closes =>
      rw [kind] at followed
      exact ⟨[], operation, rest, rfl, by simp, kind, (leaves_of_follow followed).2⟩
    | _ =>
      rw [kind] at followed
      have ⟨front, closing, back, split, before, closes, behind⟩ := ih followed
      refine ⟨operation :: front, closing, back, by rw [split]; rfl, ?_, closes, behind⟩
      exact List.forall_mem_cons.mpr ⟨by rw [kind]; exact nofun, before⟩

end Handles

/-- A machine with an open handle in some of its states, the use that an output makes of it, what it
writes, and the line that an input should make. -/
structure Logger (react : σ → ι → Reaction σ ο ε) (opened : σ → Bool) (usage : ο → Usage)
    (written : ο → List α) (line : ι → List α) : Prop where
  /-- A step with an open handle writes its line and keeps the handle, or it writes a beginning of
  the line, and the handle is closed and lost if the machine goes on. -/
  writes : ∀ s x, opened s = true →
    (∃ next, (react s x).after = .ok next ∧ opened next = true ∧
      (react s x).emitted.flatMap written = line x ∧
      follow usage true (react s x).emitted = some true) ∨
    (react s x).emitted.flatMap written <+: line x ∧
      ∃ still, follow usage true (react s x).emitted = some still ∧
        ∀ next, (react s x).after = .ok next → opened next = false ∧ still = false
  /-- A step without a handle writes nothing and gets none. -/
  silent : ∀ s x, opened s = false →
    (∀ out ∈ (react s x).emitted, usage out = .leaves ∧ written out = []) ∧
      ∀ next, (react s x).after = .ok next → opened next = false

/-- The inputs of a run are the first ones that it was given. -/
theorem work_inputs_prefix (react : σ → ι → Reaction σ ο ε) (s : σ) (xs : List ι) :
    (work react s xs).history.map Transition.input <+: xs := by
  induction xs generalizing s with
  | nil => exact List.prefix_rfl
  | cons x xs ih =>
    cases step : (react s x).after with
    | error e =>
      rw [work_cons_error react xs step]
      exact (List.prefix_cons_inj x).mpr List.nil_prefix
    | ok next =>
      rw [work_cons_ok react xs step]
      exact (List.prefix_cons_inj x).mpr (ih next)

/-- What stops a run on the first inputs stops the whole run. -/
theorem work_raises (react : σ → ι → Reaction σ ο ε) {s : σ} {front : List ι} {e : ε}
    (raises : (work react s front).final = .error e) (back : List ι) :
    (work react s (front ++ back)).final = .error e := by
  rw [work_append, Run.andThen_error raises, raises]

/-- The handle is lost with the last of these inputs: the run on them stops, or ends without it. -/
def Lost (react : σ → ι → Reaction σ ο ε) (opened : σ → Bool) (s : σ) (xs : List ι) : Prop :=
  ∀ last, (work react s xs).final = .ok last → opened last = false

namespace Logger

variable {react : σ → ι → Reaction σ ο ε} {opened : σ → Bool} {usage : ο → Usage}
  {written : ο → List α} {line : ι → List α}

/-- A step uses the handle only while it is open. -/
theorem step_follow (logger : Logger react opened usage written line) (s : σ) (x : ι) :
    ∃ still, follow usage (opened s) (react s x).emitted = some still ∧
      ∀ next, (react s x).after = .ok next → opened next = still := by
  cases handle : opened s with
  | true =>
    rcases logger.writes s x handle with
      ⟨next, after, keeps, _, followed⟩ | ⟨_, still, followed, lost⟩
    · refine ⟨true, followed, fun other same => ?_⟩
      cases after.symm.trans same
      exact keeps
    · refine ⟨still, followed, fun next same => ?_⟩
      rw [(lost next same).1, (lost next same).2]
  | false =>
    have ⟨leaves, lost⟩ := logger.silent s x handle
    exact ⟨false, follow_leaves (fun a member => (leaves a member).1) false, lost⟩

/-- A run uses the handle only while it is open. -/
theorem run_follow (logger : Logger react opened usage written line) (s : σ) (xs : List ι) :
    ∃ still, follow usage (opened s) (work react s xs).published = some still ∧
      ∀ last, (work react s xs).final = .ok last → opened last = still := by
  induction xs generalizing s with
  | nil =>
    refine ⟨opened s, rfl, fun last same => ?_⟩
    cases same
    rfl
  | cons x xs ih =>
    obtain ⟨still, followed, keeps⟩ := logger.step_follow s x
    cases step : (react s x).after with
    | error e =>
      rw [work_cons_error react xs step, Run.published, List.flatMap_singleton]
      exact ⟨still, followed, fun last same => by contradiction⟩
    | ok next =>
      obtain ⟨lasting, later, ends⟩ := ih next
      rw [keeps next step] at later
      rw [work_cons_ok react xs step, Run.published, List.flatMap_cons, follow_append]
      refine ⟨lasting, ?_, ends⟩
      change (follow usage (opened s) (react s x).emitted).bind _ = _
      rw [followed]
      exact later

/-- A run without a handle writes nothing. -/
theorem run_silent (logger : Logger react opened usage written line) {s : σ}
    (closed : opened s = false) (xs : List ι) :
    (work react s xs).published.flatMap written = [] := by
  induction xs generalizing s with
  | nil => rfl
  | cons x xs ih =>
    obtain ⟨leaves, lost⟩ := logger.silent s x closed
    have here : (react s x).emitted.flatMap written = [] :=
      List.flatMap_eq_nil_iff.mpr fun out member => (leaves out member).2
    cases step : (react s x).after with
    | error e =>
      rw [work_cons_error react xs step, Run.published, List.flatMap_singleton]
      exact here
    | ok next =>
      rw [work_cons_ok react xs step, Run.published, List.flatMap_cons, List.flatMap_append]
      change (react s x).emitted.flatMap written ++ _ = _
      rw [here]
      exact ih (lost next step)

/-- A step that loses the handle writes the end of the log. -/
theorem run_lost (logger : Logger react opened usage written line) {s : σ} {x : ι}
    (lost : ∀ next, (react s x).after = .ok next → opened next = false) (xs : List ι) :
    (work react s (x :: xs)).published.flatMap written = (react s x).emitted.flatMap written ∧
      (∀ last, (work react s (x :: xs)).final = .ok last → opened last = false) := by
  cases step : (react s x).after with
  | error e =>
    rw [work_cons_error react xs step, Run.published, List.flatMap_singleton]
    exact ⟨rfl, fun last same => by contradiction⟩
  | ok next =>
    have closed := lost next step
    have silent := logger.run_silent closed xs
    obtain ⟨still, followed, keeps⟩ := logger.run_follow next xs
    rw [closed] at followed
    rw [work_cons_ok react xs step, Run.published, List.flatMap_cons, List.flatMap_append]
    constructor
    · change (react s x).emitted.flatMap written ++ _ = _
      rw [Run.published] at silent
      rw [silent, List.append_nil]
    · intro last final
      rw [keeps last final, (leaves_of_follow followed).1]

/-- The log of a run is made of the lines of its first inputs, and of a beginning of the line of the
next one if the handle was lost with it. -/
theorem run_lines (logger : Logger react opened usage written line) {s : σ}
    (handle : opened s = true) (xs : List ι) :
    ∃ whole rest torn, xs = whole ++ rest ∧
      (work react s xs).published.flatMap written = whole.flatMap line ++ torn ∧
      (rest = [] → torn = []) ∧
      (∀ x more, rest = x :: more → torn <+: line x ∧ Lost react opened s (whole ++ [x])) ∧
      ∀ last, (work react s xs).final = .ok last → opened last = true → rest = [] := by
  induction xs generalizing s with
  | nil => exact ⟨[], [], [], rfl, rfl, fun _ => rfl, by simp, fun _ _ _ => rfl⟩
  | cons x xs ih =>
    rcases logger.writes s x handle with ⟨next, step, keeps, text, _⟩ | ⟨start, _, _, lost⟩
    · obtain ⟨whole, rest, torn, split, log, empty, cut, ends⟩ := ih keeps
      refine ⟨x :: whole, rest, torn, by rw [split]; rfl, ?_, empty, fun y more behind => ?_, ?_⟩
      · rw [work_cons_ok react xs step, Run.published, List.flatMap_cons, List.flatMap_append,
          List.flatMap_cons, List.append_assoc, ← log]
        exact congrArg (· ++ _) text
      · refine ⟨(cut y more behind).1, fun last final => (cut y more behind).2 last ?_⟩
        rwa [List.cons_append, work_cons_ok react (whole ++ [y]) step] at final
      · rwa [work_cons_ok react xs step]
    · have closes : ∀ next, (react s x).after = .ok next → opened next = false :=
        fun next step => (lost next step).1
      obtain ⟨text, gone⟩ := logger.run_lost closes xs
      refine ⟨[], x :: xs, (react s x).emitted.flatMap written, rfl, text, by simp,
        fun y more behind => ?_, fun last final still => ?_⟩
      · rw [← (List.cons.inj behind).1]
        exact ⟨start, (logger.run_lost closes []).2⟩
      · rw [gone last final] at still
        cases still

end Logger

end GrReveng.Reactive
