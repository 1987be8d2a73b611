import Mathlib.Data.List.Forall2

/-!
# Reactive machines

A reactive machine takes its inputs one at a time. Each input makes it emit some outputs and
then either continue in a new state or stop with an exception; what was emitted before the
exception stays emitted. A work call runs the machine over one chunk of input, and a feed is a
sequence of work calls. The history of a run keeps every transition, so a property of a run can
speak about positions in the stream. The rules below are the ones a verification uses: cutting
a stream into chunks does not matter, an invariant of the history holds at every transition,
and related machines have related histories.
-/

namespace GrReveng.Reactive

variable {σ τ ι κ ο π ε ξ : Type}

/-- What one input makes a machine do. -/
structure Reaction (σ ο ε : Type) where
  /-- Outputs in the order they were emitted. -/
  emitted : List ο
  /-- The next state, or the exception that stops the machine. -/
  after : Except ε σ

/-- One step of a run, with the state and the input it started from. -/
structure Transition (σ ι ο ε : Type) where
  /-- The state the input found. -/
  before : σ
  /-- The input consumed. -/
  input : ι
  /-- Outputs emitted by this step. -/
  emitted : List ο
  /-- The state the step left, or its exception. -/
  after : Except ε σ

/-- All transitions of a run in order, and what the run left behind. -/
structure Run (σ ι ο ε : Type) where
  /-- Transitions in stream order; a stopping transition is the last one. -/
  history : List (Transition σ ι ο ε)
  /-- The state after the last input, or the exception that stopped the run. -/
  final : Except ε σ

/-- Everything a run emitted, in order. -/
def Run.published (run : Run σ ι ο ε) : List ο := run.history.flatMap Transition.emitted

/-- Continue a run that has not stopped. -/
def Run.andThen (run : Run σ ι ο ε) (next : σ → Run σ ι ο ε) : Run σ ι ο ε :=
  match run.final with
  | .error e => ⟨run.history, .error e⟩
  | .ok s => ⟨run.history ++ (next s).history, (next s).final⟩

/-- The transition that an input makes from a state. -/
def transition (react : σ → ι → Reaction σ ο ε) (s : σ) (x : ι) : Transition σ ι ο ε :=
  ⟨s, x, (react s x).emitted, (react s x).after⟩

/-- One work call: the loop over the inputs of one chunk. -/
def work (react : σ → ι → Reaction σ ο ε) : σ → List ι → Run σ ι ο ε
  | s, [] => ⟨[], .ok s⟩
  | s, x :: xs =>
    Run.andThen ⟨[transition react s x], (react s x).after⟩ (fun next => work react next xs)

/-- Successive work calls; the state is carried from each to the next. -/
def feed (react : σ → ι → Reaction σ ο ε) : σ → List (List ι) → Run σ ι ο ε
  | s, [] => ⟨[], .ok s⟩
  | s, chunk :: chunks => (work react s chunk).andThen (fun next => feed react next chunks)

/-- Continuing after a continuation is one continuation. -/
theorem Run.andThen_assoc (run : Run σ ι ο ε) (next last : σ → Run σ ι ο ε) :
    (run.andThen next).andThen last = run.andThen (fun s => (next s).andThen last) := by
  cases stop : run.final with
  | error e => simp [Run.andThen, stop]
  | ok s =>
    cases stop' : (next s).final <;> simp [Run.andThen, stop, stop', List.append_assoc]

/-- A run that has not stopped continues from its final state. -/
theorem Run.andThen_ok {run : Run σ ι ο ε} {s : σ} (final : run.final = .ok s)
    (next : σ → Run σ ι ο ε) :
    run.andThen next = ⟨run.history ++ (next s).history, (next s).final⟩ := by
  simp [Run.andThen, final]

/-- A stopped run stays as it is. -/
theorem Run.andThen_error {run : Run σ ι ο ε} {e : ε} (final : run.final = .error e)
    (next : σ → Run σ ι ο ε) : run.andThen next = run := by
  cases run
  simp_all [Run.andThen]

variable (react : σ → ι → Reaction σ ο ε)

@[simp] theorem work_nil (s : σ) : work react s [] = ⟨[], .ok s⟩ := rfl

/-- A step that continues puts its transition in front of the remaining run. -/
theorem work_cons_ok {s next : σ} {x : ι} (xs : List ι) (step : (react s x).after = .ok next) :
    work react s (x :: xs) =
      ⟨transition react s x :: (work react next xs).history, (work react next xs).final⟩ := by
  simp [work, Run.andThen, step]

/-- A step that stops ends the run. -/
theorem work_cons_error {s : σ} {x : ι} {e : ε} (xs : List ι)
    (step : (react s x).after = .error e) :
    work react s (x :: xs) = ⟨[transition react s x], .error e⟩ := by
  simp [work, Run.andThen, step]

/-- One more input in front of a run that continues. -/
theorem work_cons {s next : σ} {x : ι} {out : List ο} (xs : List ι)
    (step : react s x = ⟨out, .ok next⟩) :
    (work react s (x :: xs)).final = (work react next xs).final ∧
      (work react s (x :: xs)).published = out ++ (work react next xs).published ∧
      (work react s (x :: xs)).history = transition react s x :: (work react next xs).history := by
  rw [work_cons_ok react xs (congrArg Reaction.after step)]
  refine ⟨rfl, ?_, rfl⟩
  rw [Run.published, List.flatMap_cons, transition, step]
  rfl

/-- Working through two pieces is working through the first and continuing with the second. -/
theorem work_append (s : σ) (xs ys : List ι) :
    work react s (xs ++ ys) = (work react s xs).andThen (fun next => work react next ys) := by
  induction xs generalizing s with
  | nil => simp [Run.andThen]
  | cons x xs ih => simp only [List.cons_append, work, ih, Run.andThen_assoc]

/-- However a stream is split over work calls, the run is the run over the whole stream. -/
theorem feed_eq_work (s : σ) (chunks : List (List ι)) :
    feed react s chunks = work react s chunks.flatten := by
  induction chunks generalizing s with
  | nil => rfl
  | cons chunk chunks ih => simp only [feed, ih, List.flatten_cons, work_append]

/-- The run over two pieces, when the first piece does not stop it. -/
theorem work_append_ok {s middle : σ} {xs : List ι} (ys : List ι)
    (final : (work react s xs).final = .ok middle) :
    work react s (xs ++ ys) =
      ⟨(work react s xs).history ++ (work react middle ys).history,
        (work react middle ys).final⟩ := by
  rw [work_append, Run.andThen_ok final]

/-- The outputs over two pieces, when the first piece does not stop the run. -/
theorem work_append_published {s middle : σ} {xs : List ι} (ys : List ι)
    (final : (work react s xs).final = .ok middle) :
    (work react s (xs ++ ys)).published =
      (work react s xs).published ++ (work react middle ys).published := by
  simp [work_append_ok react ys final, Run.published]

/-- One more input adds its transition to the history, also when it stops the run. -/
theorem work_concat_history {s middle : σ} {xs : List ι}
    (final : (work react s xs).final = .ok middle) (x : ι) :
    (work react s (xs ++ [x])).history =
      (work react s xs).history ++ [transition react middle x] := by
  rw [work_append_ok react [x] final]
  cases step : (react middle x).after with
  | error e => rw [work_cons_error react [] step]
  | ok next =>
    rw [work_cons_ok react [] step]
    rfl

/-- One more input after inputs that do not stop the run. -/
theorem work_concat {s middle next : σ} {xs : List ι} {x : ι} {out : List ο}
    (final : (work react s xs).final = .ok middle) (step : react middle x = ⟨out, .ok next⟩) :
    (work react s (xs ++ [x])).final = .ok next ∧
      (work react s (xs ++ [x])).published = (work react s xs).published ++ out := by
  constructor
  · rw [work_append_ok react [x] final, work_cons_ok react [] (congrArg Reaction.after step)]
    rfl
  · rw [Run.published, work_concat_history react final, List.flatMap_append,
      List.flatMap_singleton, transition, step]
    rfl

/-- A run that is silent up to its last input. -/
theorem work_last {s middle next : σ} {xs : List ι} {out : List ο} (some : xs ≠ [])
    (silent : (work react s xs.dropLast).final = .ok middle ∧
      (work react s xs.dropLast).published = [])
    (step : react middle (xs.getLast some) = ⟨out, .ok next⟩) :
    (work react s xs).final = .ok next ∧ (work react s xs).published = out ∧
      (work react s xs).history =
        (work react s xs.dropLast).history ++ [transition react middle (xs.getLast some)] := by
  have whole := List.dropLast_append_getLast some
  have extended := work_concat react silent.1 step
  have history := work_concat_history react silent.1 (xs.getLast some)
  rw [whole, silent.2] at extended
  rw [whole] at history
  exact ⟨extended.1, extended.2, history⟩

/-- A run that reaches a state has consumed every input. -/
theorem work_inputs {s last : σ} {xs : List ι} (final : (work react s xs).final = .ok last) :
    (work react s xs).history.map Transition.input = xs := by
  induction xs generalizing s with
  | nil => rfl
  | cons x xs ih =>
    cases step : (react s x).after with
    | error e => simp [work_cons_error react xs step] at final
    | ok next =>
      rw [work_cons_ok react xs step] at final ⊢
      simpa [transition] using ih final

/-- A run ends in a state exactly when every one of its steps continues. -/
theorem work_final_ok_iff (s : σ) (xs : List ι) :
    (∃ last, (work react s xs).final = .ok last) ↔
      ∀ t ∈ (work react s xs).history, ∃ next, t.after = .ok next := by
  induction xs generalizing s with
  | nil => simp
  | cons x xs ih =>
    cases step : (react s x).after with
    | error e => simp [work_cons_error react xs step, transition, step]
    | ok next =>
      rw [work_cons_ok react xs step, List.forall_mem_cons]
      have first : ∃ after, (transition react s x).after = .ok after := ⟨next, step⟩
      exact (ih next).trans (and_iff_right first).symm

/-- The transition of the first input is the first one of the history. -/
theorem transition_mem_work_cons (s : σ) (x : ι) (xs : List ι) :
    transition react s x ∈ (work react s (x :: xs)).history := by
  cases step : (react s x).after with
  | error e => rw [work_cons_error react xs step]; exact List.mem_cons_self
  | ok next => rw [work_cons_ok react xs step]; exact List.mem_cons_self

/-- Where every step continues, each input of the stream has its transition in the history. -/
theorem work_split {s last : σ} {early late : List ι} {x : ι}
    (final : (work react s (early ++ x :: late)).final = .ok last) :
    ∃ middle, (work react s early).final = .ok middle ∧
      transition react middle x ∈ (work react s (early ++ x :: late)).history := by
  cases stop : (work react s early).final with
  | error e => rw [work_append, Run.andThen_error stop, stop] at final; cases final
  | ok middle =>
    refine ⟨middle, rfl, ?_⟩
    rw [work_append_ok react (x :: late) stop]
    exact List.mem_append_right _ (transition_mem_work_cons react middle x late)

/-- An input that leaves the state as it found it can be taken out of the stream. -/
theorem work_skip {s middle : σ} {early : List ι} {x : ι} (late : List ι)
    (final : (work react s early).final = .ok middle)
    (step : (react middle x).after = .ok middle) :
    work react s (early ++ late) =
      ⟨(work react s (early ++ x :: late)).history.eraseIdx early.length,
        (work react s (early ++ x :: late)).final⟩ := by
  have count : (work react s early).history.length = early.length := by
    rw [← List.length_map Transition.input, work_inputs react final]
  rw [work_append_ok react late final, work_append_ok react (x :: late) final,
    work_cons_ok react late step, ← count, List.eraseIdx_append_of_length_le Nat.le.refl]
  simp

/-- A property of the transitions so far and the current state, kept by every step, holds
before every transition of a run and at its end. -/
theorem work_invariant {Inv : List (Transition σ ι ο ε) → σ → Prop} {s : σ} {xs : List ι}
    (step : ∀ past now x next, x ∈ xs → Inv past now → (react now x).after = .ok next →
      Inv (past ++ [transition react now x]) next)
    (past : List (Transition σ ι ο ε)) (start : Inv past s) :
    (∀ early t late, (work react s xs).history = early ++ t :: late →
        Inv (past ++ early) t.before ∧ t = transition react t.before t.input ∧ t.input ∈ xs) ∧
      ∀ last, (work react s xs).final = .ok last →
        Inv (past ++ (work react s xs).history) last := by
  induction xs generalizing s past with
  | nil =>
    refine ⟨fun early t late split => by simp at split, fun last final => ?_⟩
    cases Except.ok.inj final
    simpa using start
  | cons x xs ih =>
    have here : Inv (past ++ []) (transition react s x).before ∧
        transition react s x = transition react s x ∧ (transition react s x).input ∈ x :: xs :=
      ⟨by simpa [transition] using start, rfl, List.mem_cons_self⟩
    cases stepped : (react s x).after with
    | error e =>
      rw [work_cons_error react xs stepped]
      refine ⟨fun early t late split => ?_, fun last final => by simp at final⟩
      cases early with
      | nil => rw [← (List.cons.inj split).1]; exact here
      | cons first early => simp at split
    | ok next =>
      have kept := step past s x next (by simp) start stepped
      have rest := ih (fun past now y after member =>
        step past now y after (List.mem_cons_of_mem x member)) (past ++ [transition react s x]) kept
      rw [work_cons_ok react xs stepped]
      constructor
      · intro early t late split
        cases early with
        | nil => rw [← (List.cons.inj split).1]; exact here
        | cons first early =>
          have parts := List.cons.inj split
          have found := rest.1 early t late parts.2
          rw [← parts.1]
          exact ⟨by simpa using found.1, found.2.1, List.mem_cons_of_mem x found.2.2⟩
      · intro last final
        simpa using rest.2 last final

/-- Every transition of a run is a step of the machine on an input of the stream. -/
theorem work_steps {s : σ} {xs : List ι} {t : Transition σ ι ο ε}
    (member : t ∈ (work react s xs).history) :
    t = transition react t.before t.input ∧ t.input ∈ xs := by
  have kept := @work_invariant σ ι ο ε react (fun _ _ => True) s xs (fun _ _ _ _ _ _ _ => trivial)
    [] trivial
  obtain ⟨early, late, split⟩ := List.append_of_mem member
  exact (kept.1 early t late split).2

/-- A machine that can always step while it keeps a property of the history reaches a state with
the property. -/
theorem work_total {Inv : List (Transition σ ι ο ε) → σ → Prop} {s : σ} {xs : List ι}
    (step : ∀ past now x, x ∈ xs → Inv past now → ∃ next, (react now x).after = .ok next ∧
      Inv (past ++ [transition react now x]) next)
    (past : List (Transition σ ι ο ε)) (start : Inv past s) :
    ∃ last, (work react s xs).final = .ok last ∧ Inv (past ++ (work react s xs).history) last := by
  induction xs generalizing s past with
  | nil => exact ⟨s, rfl, by simpa using start⟩
  | cons x xs ih =>
    obtain ⟨next, stepped, kept⟩ := step past s x (by simp) start
    obtain ⟨last, final, rest⟩ := ih (fun past now y member =>
      step past now y (List.mem_cons_of_mem x member)) (past ++ [transition react s x]) kept
    rw [work_cons_ok react xs stepped]
    exact ⟨last, final, by simpa using rest⟩

/-- A property of states, kept by every step, holds before every transition and at the end. -/
theorem work_state_invariant {Inv : σ → Prop} {s : σ} {xs : List ι}
    (step : ∀ now x next, x ∈ xs → Inv now → (react now x).after = .ok next → Inv next)
    (start : Inv s) :
    (∀ t ∈ (work react s xs).history, Inv t.before) ∧
      ∀ last, (work react s xs).final = .ok last → Inv last := by
  have kept := @work_invariant σ ι ο ε react (fun _ now => Inv now) s xs
    (fun _ now x next => step now x next) [] start
  refine ⟨fun t member => ?_, kept.2⟩
  obtain ⟨early, late, split⟩ := List.append_of_mem member
  exact (kept.1 early t late split).1

/-! ## Related machines -/

/-- Both results continue in related states, or both stop. -/
inductive AfterRelated (R : σ → τ → Prop) : Except ε σ → Except ξ τ → Prop
  /-- Both continue. -/
  | ok {s : σ} {t : τ} (related : R s t) : AfterRelated R (.ok s) (.ok t)
  /-- Both stop. -/
  | error (e : ε) (x : ξ) : AfterRelated R (.error e) (.error x)

/-- Two transitions with related states, inputs and outputs. -/
structure TransitionRelated (R : σ → τ → Prop) (I : ι → κ → Prop) (O : ο → π → Prop)
    (left : Transition σ ι ο ε) (right : Transition τ κ π ξ) : Prop where
  /-- The inputs found related states. -/
  before : R left.before right.before
  /-- The inputs are related. -/
  input : I left.input right.input
  /-- The outputs are related one by one. -/
  emitted : List.Forall₂ O left.emitted right.emitted
  /-- The results are related. -/
  after : AfterRelated R left.after right.after

variable {react} {react' : τ → κ → Reaction τ π ξ} {R : σ → τ → Prop} {I : ι → κ → Prop}
  {O : ο → π → Prop}

/-- Transitions are related by what the machines do. -/
theorem TransitionRelated.of_reactions {s : σ} {t : τ} {x : ι} {y : κ} {out : List ο}
    {out' : List π} {after : Except ε σ} {after' : Except ξ τ} (before : R s t) (input : I x y)
    (left : react s x = ⟨out, after⟩) (right : react' t y = ⟨out', after'⟩)
    (emitted : List.Forall₂ O out out') (related : AfterRelated R after after') :
    TransitionRelated R I O (transition react s x) (transition react' t y) := by
  rw [transition, transition, left, right]
  exact ⟨before, input, emitted, related⟩

/-- Machines whose steps keep a relation have related histories and results on related
streams. -/
theorem work_related {xs : List ι} {ys : List κ} {s : σ} {t : τ}
    (step : ∀ s t x y, x ∈ xs → y ∈ ys → R s t → I x y →
      TransitionRelated R I O (transition react s x) (transition react' t y))
    (inputs : List.Forall₂ I xs ys) (start : R s t) :
    List.Forall₂ (TransitionRelated R I O) (work react s xs).history
        (work react' t ys).history ∧
      AfterRelated R (work react s xs).final (work react' t ys).final := by
  induction inputs generalizing s t with
  | nil => exact ⟨.nil, .ok start⟩
  | @cons x y xs ys here there ih =>
    have first := step s t x y (by simp) (by simp) start here
    have rest := fun {s t} => ih (s := s) (t := t) (fun s t x y hx hy =>
      step s t x y (List.mem_cons_of_mem _ hx) (List.mem_cons_of_mem _ hy))
    have results := first.after
    simp only [transition] at results
    cases left : (react s x).after with
    | error e =>
      cases right : (react' t y).after with
      | error e' =>
        rw [work_cons_error react xs left, work_cons_error react' ys right]
        exact ⟨.cons first .nil, .error e e'⟩
      | ok next => rw [left, right] at results; cases results
    | ok next =>
      cases right : (react' t y).after with
      | error e' => rw [left, right] at results; cases results
      | ok next' =>
        rw [left, right] at results
        cases results with
        | ok related =>
          rw [work_cons_ok react xs left, work_cons_ok react' ys right]
          exact ⟨.cons first (rest related).1, (rest related).2⟩

/-- Related histories publish related outputs. -/
theorem published_related {left : List (Transition σ ι ο ε)} {right : List (Transition τ κ π ξ)}
    (related : List.Forall₂ (TransitionRelated R I O) left right) :
    List.Forall₂ O (left.flatMap Transition.emitted) (right.flatMap Transition.emitted) := by
  induction related with
  | nil => exact .nil
  | cons first rest ih => exact List.rel_append first.emitted ih

/-- Related histories emit equal outputs at equal places when the outputs are related by
equality. -/
theorem emitted_related {R : σ → τ → Prop} {left : List (Transition σ ι ο ε)}
    {right : List (Transition τ κ ο ξ)}
    (related : List.Forall₂ (TransitionRelated R I Eq) left right) :
    left.map Transition.emitted = right.map Transition.emitted := by
  induction related with
  | nil => rfl
  | cons first rest ih =>
    have same := first.emitted
    rw [List.forall₂_eq_eq_eq] at same
    rw [List.map_cons, List.map_cons, same, ih]

section Readings

variable {entries : List ο} {count : Nat} {reading : Nat → ο}
  (entry : ∀ i, entries[i]? = if i < count then some (reading i) else none)
include entry

/-- What holds of the entries of a list with one reading for each output holds of the readings. -/
theorem forall_readings_iff {P : Nat → ο → Prop} :
    (∀ i x, entries[i]? = some x → P i x) ↔ ∀ i < count, P i (reading i) := by
  constructor
  · intro all i inside
    apply all i
    rw [entry, if_pos inside]
  · intro all i x found
    rw [entry] at found
    split at found
    · next inside =>
      rw [← Option.some.inj found]
      exact all i inside
    · cases found

/-- Such a list is ordered when its readings are. -/
theorem pairwise_readings_iff {R : ο → ο → Prop} :
    entries.Pairwise R ↔ ∀ i j, i < j → j < count → R (reading i) (reading j) := by
  have within : ∀ i, i < entries.length ↔ i < count := by
    intro i
    have found := entry i
    by_cases below : i < count
    · rw [if_pos below] at found
      exact iff_of_true (List.getElem?_eq_some_iff.mp found).1 below
    · rw [if_neg below] at found
      exact iff_of_false (Nat.not_lt.mpr (List.getElem?_eq_none_iff.mp found)) below
  have value : ∀ i (inside : i < entries.length), entries[i] = reading i := by
    intro i inside
    apply Option.some.inj
    rw [← List.getElem?_eq_getElem inside, entry, if_pos ((within i).mp inside)]
  rw [List.pairwise_iff_getElem]
  constructor
  · intro ordered i j before inside
    have left : i < entries.length := (within i).mpr (Nat.lt_trans before inside)
    have right : j < entries.length := (within j).mpr inside
    have related := ordered i j left right before
    rwa [value i left, value j right] at related
  · intro ordered i j left right before
    rw [value i left, value j right]
    exact ordered i j before ((within j).mp right)

end Readings

end GrReveng.Reactive
