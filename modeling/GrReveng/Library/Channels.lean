import GrReveng.Library.Reactive
import Mathlib.Logic.Relation

/-!
# Machines behind a channel

A machine sends what it emits to a second one, which handles the messages in their order. Nothing
is said about when: between two inputs of the first machine the second one may handle any number
of the messages that are on their way. Every schedule comes to an end, and the outputs it ends
with are those of the second machine on everything the first one emits (`Network.settled_log`); at
any time before they are those on the first of these messages (`Network.log_handled`).
-/

namespace GrReveng.Reactive

variable {σ τ ι μ ο ε ξ : Type}

section Longer

variable (react : σ → ι → Reaction σ ο ε)

/-- What a run emits begins with what its first input makes the machine emit. -/
theorem work_cons_published (s : σ) (x : ι) (xs : List ι) :
    (work react s (x :: xs)).published = (react s x).emitted ++
      match (react s x).after with
      | .error _ => []
      | .ok next => (work react next xs).published := by
  cases step : (react s x).after with
  | error e =>
    rw [work_cons_error react xs step]
    rfl
  | ok next =>
    rw [work_cons_ok react xs step]
    rfl

/-- One more input after inputs that do not stop the run, whatever becomes of it. -/
theorem work_snoc {s middle : σ} {xs : List ι} (final : (work react s xs).final = .ok middle)
    (x : ι) :
    (work react s (xs ++ [x])).final = (react middle x).after ∧
      (work react s (xs ++ [x])).published =
        (work react s xs).published ++ (react middle x).emitted := by
  constructor
  · rw [work_append_ok react [x] final]
    cases step : (react middle x).after with
    | error e => rw [work_cons_error react [] step]
    | ok next =>
      rw [work_cons_ok react [] step]
      rfl
  · rw [Run.published, work_concat_history react final, List.flatMap_append,
      List.flatMap_singleton]
    rfl

/-- A run that has stopped takes no further input. -/
theorem work_stopped {s : σ} {xs : List ι} {e : ε} (final : (work react s xs).final = .error e)
    (ys : List ι) : work react s (xs ++ ys) = work react s xs := by
  rw [work_append, Run.andThen_error final]

/-- What a run emits is the beginning of what a longer run emits. -/
theorem work_published_mono (s : σ) {xs ys : List ι} (longer : xs <+: ys) :
    (work react s xs).published <+: (work react s ys).published := by
  have ⟨more, split⟩ := longer
  rw [← split]
  cases final : (work react s xs).final with
  | error e =>
    simp only [work_stopped react final, List.prefix_rfl]
  | ok middle =>
    rw [work_append_published react more final]
    exact List.prefix_append _ _

end Longer

/-- Items that are changed and then numbered. -/
theorem mapIdx_map {α β γ : Type} (f : Nat → β → γ) (k : α → β) (items : List α) :
    (items.map k).mapIdx f = items.mapIdx fun i a => f i (k a) := by
  rw [List.mapIdx_eq_iff]
  intro i
  rw [List.getElem?_mapIdx, List.getElem?_map, Option.map_map]
  rfl

section Numbered

variable (react : σ → ι → Reaction σ ο ε)

/-- A machine that makes something of each output and its number. -/
def labelled (label : Nat → ο → μ) (s : σ × Nat) (x : ι) : Reaction (σ × Nat) μ ε where
  emitted := (react s.1 x).emitted.mapIdx fun i out => label (s.2 + i) out
  after := (react s.1 x).after.map fun next => (next, s.2 + (react s.1 x).emitted.length)

/-- A machine that takes something made of each input and its number. -/
def numbered (input : Nat → μ → ι) (s : σ × Nat) (m : μ) : Reaction (σ × Nat) ο ε where
  emitted := (react s.1 (input s.2 m)).emitted
  after := (react s.1 (input s.2 m)).after.map fun next => (next, s.2 + 1)

/-- A labelled machine emits the labelled outputs. -/
theorem work_labelled (label : Nat → ο → μ) (s : σ) (n : Nat) (xs : List ι) :
    (work (labelled react label) (s, n) xs).published =
      (work react s xs).published.mapIdx fun i out => label (n + i) out := by
  induction xs generalizing s n with
  | nil => rfl
  | cons x xs ih =>
    rw [work_cons_published, work_cons_published, labelled]
    cases step : (react s x).after with
    | error e => simp [Except.map]
    | ok next =>
      have places : ∀ i, n + ((react s x).emitted.length + i) =
          n + (i + (react s x).emitted.length) := fun i => by omega
      simp [Except.map, ih, List.mapIdx_append, Nat.add_assoc, places]

/-- A numbered machine does with its inputs what the machine does with those made of them. -/
theorem work_numbered (input : Nat → μ → ι) (s : σ) (n : Nat) (ms : List μ) :
    (work (numbered react input) (s, n) ms).published =
      (work react s (ms.mapIdx fun i m => input (n + i) m)).published := by
  induction ms generalizing s n with
  | nil => rfl
  | cons m ms ih =>
    rw [List.mapIdx_cons, work_cons_published, work_cons_published, numbered]
    cases step : (react s (input n m)).after with
    | error e => simp [Except.map]
    | ok next => simp [Except.map, ih, Nat.add_comm 1, Nat.add_assoc]

/-- A numbered machine stops with the same exceptions. -/
theorem work_numbered_final (input : Nat → μ → ι) (s : σ) (n : Nat) (ms : List μ) :
    ((work (numbered react input) (s, n) ms).final.map fun last => last.1) =
      (work react s (ms.mapIdx fun i m => input (n + i) m)).final := by
  induction ms generalizing s n with
  | nil => rfl
  | cons m ms ih =>
    rw [List.mapIdx_cons, Nat.add_zero]
    cases step : (react s (input n m)).after with
    | error e =>
      have after : (numbered react input (s, n) m).after = .error e := by
        rw [numbered, step]
        rfl
      rw [work_cons_error _ _ step, work_cons_error _ _ after]
      rfl
    | ok next =>
      have after : (numbered react input (s, n) m).after = .ok (next, n + 1) := by
        rw [numbered, step]
        rfl
      rw [work_cons_ok _ _ step, work_cons_ok _ _ after, ih]
      simp only [Nat.add_assoc, Nat.add_comm 1]

end Numbered

/-- Two machines and the channel between them. -/
structure Network (σ τ ι μ ο ε ξ : Type) where
  /-- Inputs that the first machine has not taken. -/
  inputs : List ι
  /-- The first machine, or the exception that stopped it. -/
  producer : Except ε σ
  /-- Messages on their way, the next one first. -/
  channel : List μ
  /-- The second machine, or the exception that stopped it. -/
  consumer : Except ξ τ
  /-- What the second machine has emitted. -/
  log : List ο

namespace Network

variable (produce : σ → ι → Reaction σ μ ε) (consume : τ → μ → Reaction τ ο ξ)

/-- Two machines at their start. -/
def start (s : σ) (t : τ) (inputs : List ι) : Network σ τ ι μ ο ε ξ :=
  ⟨inputs, .ok s, [], .ok t, []⟩

/-- One of the machines takes a step. -/
inductive Step : Network σ τ ι μ ο ε ξ → Network σ τ ι μ ο ε ξ → Prop
  /-- The first machine takes an input and sends what it emits. -/
  | produce (s : σ) (x : ι) (inputs : List ι) (channel : List μ) (consumer : Except ξ τ)
      (log : List ο) :
      Step ⟨x :: inputs, .ok s, channel, consumer, log⟩
        ⟨inputs, (produce s x).after, channel ++ (produce s x).emitted, consumer, log⟩
  /-- The second machine handles the next message. -/
  | consume (t : τ) (m : μ) (inputs : List ι) (producer : Except ε σ) (channel : List μ)
      (log : List ο) :
      Step ⟨inputs, producer, m :: channel, .ok t, log⟩
        ⟨inputs, producer, channel, (consume t m).after, log ++ (consume t m).emitted⟩

/-- Any number of steps. -/
abbrev Steps : Network σ τ ι μ ο ε ξ → Network σ τ ι μ ο ε ξ → Prop :=
  Relation.ReflTransGen (Step produce consume)

/-- No step is possible. -/
def Settled (network : Network σ τ ι μ ο ε ξ) : Prop :=
  ∀ next, ¬Step produce consume network next

/-- What the second machine emits on everything the first one emits. -/
def outcome (s : σ) (t : τ) (inputs : List ι) : List ο :=
  (work consume t (work produce s inputs).published).published

/-- The machines are where their runs on the inputs taken and the messages handled are, and what
has been sent is handled or on its way. -/
structure Tracks (s : σ) (t : τ) (inputs : List ι) (network : Network σ τ ι μ ο ε ξ) : Prop where
  /-- No input, no message and no output is lost, doubled or moved. -/
  parts : ∃ taken handled, inputs = taken ++ network.inputs ∧
    (work produce s taken).final = network.producer ∧
    (work produce s taken).published = handled ++ network.channel ∧
    (work consume t handled).final = network.consumer ∧
    (work consume t handled).published = network.log

variable {produce consume} {s : σ} {t : τ} {inputs : List ι} {network next : Network σ τ ι μ ο ε ξ}

/-- A step keeps the machines on their runs. -/
theorem Tracks.step (tracks : Tracks produce consume s t inputs network)
    (step : Step produce consume network next) : Tracks produce consume s t inputs next := by
  have ⟨taken, handled, split, producer, sent, consumer, log⟩ := tracks.parts
  cases step with
  | produce s' x rest channel =>
    have ⟨after, emitted⟩ := work_snoc produce producer x
    refine ⟨⟨taken ++ [x], handled, ?_, after, ?_, consumer, log⟩⟩
    · rw [split, List.append_assoc]
      rfl
    · rw [emitted, sent, List.append_assoc]
  | consume t' m rest producer' channel =>
    have ⟨after, emitted⟩ := work_snoc consume consumer m
    refine ⟨⟨taken, handled ++ [m], split, producer, ?_, after, ?_⟩⟩
    · rw [sent, List.append_assoc]
      rfl
    · rw [emitted, log]

/-- The machines stay on their runs. -/
theorem Tracks.steps (steps : Steps produce consume (start s t inputs) network) :
    Tracks produce consume s t inputs network := by
  induction steps with
  | refl => exact ⟨⟨[], [], rfl, rfl, rfl, rfl, rfl⟩⟩
  | tail _ step ih => exact ih.step step

/-- At any time the outputs are those on the messages handled, the first ones that are emitted. -/
theorem log_handled (steps : Steps produce consume (start s t inputs) network) :
    ∃ handled, handled <+: (work produce s inputs).published ∧
      network.log = (work consume t handled).published := by
  have ⟨taken, handled, split, _, sent, _, log⟩ := (Tracks.steps steps).parts
  have first : handled <+: (work produce s taken).published := sent ▸ List.prefix_append _ _
  have more := work_published_mono produce s (split ▸ List.prefix_append taken network.inputs)
  exact ⟨handled, first.trans more, log.symm⟩

/-- When no step is possible any more the outputs are the outcome. -/
theorem settled_log (steps : Steps produce consume (start s t inputs) network)
    (settled : Settled produce consume network) :
    network.log = outcome produce consume s t inputs := by
  have ⟨taken, handled, split, producer, sent, consumer, log⟩ := (Tracks.steps steps).parts
  obtain ⟨rest, first, channel, second, out⟩ := network
  dsimp only at split producer sent consumer log
  have all : (work produce s inputs).published = (work produce s taken).published := by
    cases first with
    | error e => rw [split, work_stopped produce producer]
    | ok s' =>
      cases rest with
      | nil => rw [split, List.append_nil]
      | cons x rest => exact absurd (Step.produce s' x rest channel second out) (settled _)
  rw [outcome, all, sent, ← log]
  cases second with
  | error e => rw [work_stopped consume consumer]
  | ok t' =>
    cases channel with
    | nil => rw [List.append_nil]
    | cons m channel => exact absurd (Step.consume t' m rest first channel out) (settled _)

/-- Every schedule comes to an end. -/
theorem step_wellFounded :
    WellFounded fun (next network : Network σ τ ι μ ο ε ξ) =>
      Step produce consume network next := by
  apply Subrelation.wf (r := InvImage (Prod.Lex (· < ·) (· < ·))
    fun network : Network σ τ ι μ ο ε ξ => (network.inputs.length, network.channel.length))
  · intro next network step
    cases step with
    | produce s' x rest channel =>
      exact .left _ _ (Nat.lt_succ_self _)
    | consume t' m rest producer channel =>
      exact .right _ (Nat.lt_succ_self _)
  · exact InvImage.wf _ (Prod.lex Nat.lt_wfRel Nat.lt_wfRel).wf

/-- From every place a schedule can go on to the end, and there the outputs are the outcome. -/
theorem settles (steps : Steps produce consume (start s t inputs) network) :
    ∃ last, Steps produce consume network last ∧ Settled produce consume last ∧
      last.log = outcome produce consume s t inputs := by
  induction network using (@step_wellFounded σ τ ι μ ο ε ξ produce consume).induction with
  | _ network ih =>
    by_cases settled : Settled produce consume network
    · exact ⟨network, .refl, settled, settled_log steps settled⟩
    · rw [Settled, not_forall_not] at settled
      have ⟨next, step⟩ := settled
      have ⟨last, rest, settled, log⟩ := ih next step (steps.tail step)
      exact ⟨last, .head step rest, settled, log⟩

end Network

end GrReveng.Reactive
