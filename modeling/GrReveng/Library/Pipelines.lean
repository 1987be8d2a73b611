import GrReveng.Library.Reactive

/-!
# Machines one behind the other

A machine whose outputs are taken by a second one in the same step. A run is the run of the second
machine on everything the first one emits (`work_piped`), as far as the second one goes on.
-/

namespace GrReveng.Reactive

variable {σ τ ι μ ο ε : Type}

section Mapped

variable (make : μ → ο) (react : σ → ι → Reaction σ μ ε)

/-- A machine that makes something of each output. -/
def mapped (s : σ) (x : ι) : Reaction σ ο ε :=
  ⟨(react s x).emitted.map make, (react s x).after⟩

/-- A run emits what is made of the outputs, and ends in the same state. -/
theorem work_mapped (s : σ) (xs : List ι) :
    (work (mapped make react) s xs).published = (work react s xs).published.map make ∧
      (work (mapped make react) s xs).final = (work react s xs).final := by
  induction xs generalizing s with
  | nil => exact ⟨rfl, rfl⟩
  | cons x xs ih =>
    cases step : (react s x).after with
    | error e =>
      rw [work_cons_error react xs step, work_cons_error (mapped make react) xs step, Run.published,
        Run.published, List.flatMap_singleton, List.flatMap_singleton]
      exact ⟨rfl, rfl⟩
    | ok next =>
      obtain ⟨published, final⟩ := ih next
      rw [work_cons_ok react xs step, work_cons_ok (mapped make react) xs step, Run.published,
        Run.published, List.flatMap_cons, List.flatMap_cons, List.map_append]
      exact ⟨congrArg (_ ++ ·) published, final⟩

end Mapped

/-- A run of one step. -/
theorem work_singleton (react : σ → ι → Reaction σ ο ε) (s : σ) (x : ι) :
    (work react s [x]).published = (react s x).emitted ∧
      (work react s [x]).final = (react s x).after := by
  cases step : (react s x).after with
  | error e =>
    rw [work_cons_error react [] step, Run.published, List.flatMap_singleton]
    exact ⟨rfl, rfl⟩
  | ok next =>
    rw [work_cons_ok react [] step, Run.published]
    exact ⟨List.append_nil _, rfl⟩

section Piped

variable (first : σ → ι → Reaction σ μ Empty) (second : τ → μ → Reaction τ ο ε)

/-- A machine that cannot stop, and one that takes its outputs in the same step. -/
def piped (s : σ × τ) (x : ι) : Reaction (σ × τ) ο ε :=
  let taken := work second s.2 (first s.1 x).emitted
  ⟨taken.published, match (first s.1 x).after with
    | .ok next => taken.final.map fun last => (next, last)⟩

/-- A run of the two is the run of the second one on what the first one emits. -/
theorem work_piped (s : σ) (t : τ) (xs : List ι) :
    (work (piped first second) (s, t) xs).published =
        (work second t (work first s xs).published).published ∧
      (∀ last, (work (piped first second) (s, t) xs).final = .ok last →
        (work first s xs).final = .ok last.1 ∧
          (work second t (work first s xs).published).final = .ok last.2) ∧
      ∀ e, (work (piped first second) (s, t) xs).final = .error e →
        (work second t (work first s xs).published).final = .error e := by
  induction xs generalizing s t with
  | nil =>
    refine ⟨rfl, fun last same => ?_, fun e same => by contradiction⟩
    rw [← Except.ok.inj same]
    exact ⟨rfl, rfl⟩
  | cons x xs ih =>
    cases step : (first s x).after with
    | error e => exact e.elim
    | ok next =>
      have inputs : (work first s (x :: xs)).published =
          (first s x).emitted ++ (work first next xs).published := by
        rw [work_cons_ok first xs step, Run.published, List.flatMap_cons]
        rfl
      have goes : (work first s (x :: xs)).final = (work first next xs).final := by
        rw [work_cons_ok first xs step]
      rw [inputs, goes]
      cases taken : (work second t (first s x).emitted).final with
      | error e =>
        have after : (piped first second (s, t) x).after = .error e := by
          simp only [piped, step, taken]
          rfl
        rw [work_cons_error _ xs after, work_append second, Run.andThen_error taken, Run.published,
          List.flatMap_singleton]
        refine ⟨rfl, fun last same => by contradiction, fun e' same => ?_⟩
        rw [taken, ← Except.error.inj same]
      | ok last =>
        have after : (piped first second (s, t) x).after = .ok (next, last) := by
          simp only [piped, step, taken]
          rfl
        obtain ⟨published, ok, error⟩ := ih next last
        rw [work_cons_ok _ xs after, work_append_ok second _ taken, Run.published,
          List.flatMap_cons, Run.published, List.flatMap_append]
        exact ⟨congrArg (_ ++ ·) published, ok, error⟩

end Piped

end GrReveng.Reactive
