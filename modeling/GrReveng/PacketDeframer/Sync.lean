import GrReveng.PacketDeframer.Announced

/-!
# Where captures start

The search register is never cleared: when a capture ends it still holds the sync word that
started it. A capture starts where a whole sync word has been searched, and also where the end of
the old sync word is completed by fewer new samples than the word is long (`starts_iff`). The
second happens for some stream exactly when the sync word overlaps itself (`sync_detection`).
-/

namespace GrReveng.PacketDeframer

open Reactive

variable {cfg : Config}

/-- The block goes from searching to capturing. -/
def Starts (t : cfg.Transition) : Prop :=
  t.before.inSync = false ∧ ∃ next, t.after = .ok next ∧ next.inSync = true

/-- The last samples, as many as the sync word has, were all searched and equal the sync word. -/
def WholeSyncSearched (upTo : List cfg.Transition) : Prop :=
  (∀ t ∈ upTo.rtake cfg.sync.length, t.before.inSync = false) ∧
    (upTo.rtake cfg.sync.length).map Transition.input = cfg.sync

instance (upTo : List cfg.Transition) : Decidable (WholeSyncSearched upTo) :=
  inferInstanceAs (Decidable (_ ∧ _))

/-- Captures start exactly where a whole sync word has been searched. -/
def SyncExact (history : List cfg.Transition) : Prop :=
  ∀ early t late, history = early ++ t :: late → (Starts t ↔ WholeSyncSearched (early ++ [t]))

/-- The samples searched since the last captured one. -/
def searchedSince (past : List cfg.Transition) : List Int8 :=
  (past.rtakeWhile fun t => !t.before.inSync).map Transition.input

/-- Since a capture ended fewer samples than the sync word has were searched, and put after that
sync word they complete it again. -/
def OldSyncCompleted (upTo : List cfg.Transition) : Prop :=
  (∃ t ∈ upTo, t.before.inSync = true) ∧ searchedSince upTo ≠ [] ∧
    (searchedSince upTo).length < cfg.sync.length ∧
    (cfg.sync ++ searchedSince upTo).drop (searchedSince upTo).length = cfg.sync

/-- One more searched sample, or none since a captured one. -/
theorem searchedSince_concat (past : List cfg.Transition) (t : cfg.Transition) :
    searchedSince (past ++ [t]) =
      if t.before.inSync then [] else searchedSince past ++ [t.input] := by
  unfold searchedSince
  cases running : t.before.inSync with
  | true =>
    rw [List.rtakeWhile_concat_neg (fun t : cfg.Transition => !t.before.inSync) _ _
      (by simp [running])]
    simp
  | false =>
    rw [List.rtakeWhile_concat_pos (fun t : cfg.Transition => !t.before.inSync) _ _
      (by simp [running])]
    simp

/-- What the register held before the samples searched last: the sync word of the capture before
them, or nothing before the first capture. -/
def searchOrigin (past : List cfg.Transition) : ShiftRegister Int8 cfg.sync.length :=
  if past.any fun t => t.before.inSync then ShiftRegister.ofWord cfg.sync else ShiftRegister.empty

/-- A searched sample does not change what the register held before the search. -/
theorem searchOrigin_concat (past : List cfg.Transition) {t : cfg.Transition} :
    searchOrigin (past ++ [t]) =
      if t.before.inSync then ShiftRegister.ofWord cfg.sync else searchOrigin past := by
  cases running : t.before.inSync <;> simp [searchOrigin, running]

/-- The search register fits the history. -/
structure SearchTracks (past : List cfg.Transition) (now : cfg.State) : Prop where
  /-- During a capture the register holds the sync word. -/
  capturing : now.inSync = true → now.search = ShiftRegister.ofWord cfg.sync
  /-- During a search it holds what was pushed since the search began. -/
  searching : now.inSync = false → now.search = (searchOrigin past).pushAll (searchedSince past)

/-- A fresh block has pushed nothing. -/
theorem searchTracks_make (garbage : Uninitialised) :
    SearchTracks [] (make cfg garbage) :=
  ⟨fun running => by simp [make] at running, fun _ => rfl⟩

/-- A captured sample does not move the register. -/
theorem react_capturing_search {s next : cfg.State} {x : Int8} (running : s.inSync = true)
    (stepped : (react cfg s x).after = .ok next) : next.search = s.search := by
  rw [react, if_pos running] at stepped
  split at stepped
  · contradiction
  · rename_i middle added
    have kept := addSymbol_search added
    split at stepped
    · cases Except.ok.inj stepped
      exact kept
    · cases Except.ok.inj stepped
      exact kept

/-- A capture that starts leaves the register at the sync word. -/
theorem startCapture_frame {s next : cfg.State} (started : startCapture cfg s = .ok next) :
    next.search = s.search ∧ next.inSync = true := by
  unfold startCapture at started
  dsimp only at started
  split at started
  · cases room : reservePacket cfg s.pktLen with
    | error e => simp [room, bind, Except.bind] at started
    | ok _ =>
      cases length : reserve s.pktLen with
      | error e => simp [room, length, bind, Except.bind] at started
      | ok _ =>
        simp only [room, length, bind, Except.bind, pure, Except.pure, Except.ok.injEq] at started
        rw [← started]
        exact ⟨rfl, rfl⟩
  · cases Except.ok.inj started
    exact ⟨rfl, rfl⟩

/-- A searched sample joins those since the origin of the search. -/
theorem SearchTracks.push {past : List cfg.Transition} {t : cfg.Transition}
    (tracks : SearchTracks past t.before) (running : t.before.inSync = false) :
    t.before.search.push t.input =
      (searchOrigin (past ++ [t])).pushAll (searchedSince (past ++ [t])) := by
  rw [searchOrigin_concat, searchedSince_concat]
  simp only [running, Bool.false_eq_true, ↓reduceIte]
  rw [ShiftRegister.pushAll_append, ← tracks.searching running]
  rfl

/-- Every step keeps the register in agreement with the history. -/
theorem SearchTracks.step {past : List cfg.Transition} {now next : cfg.State} {x : Int8}
    (tracks : SearchTracks past now) (stepped : (react cfg now x).after = .ok next) :
    SearchTracks (past ++ [transition (react cfg) now x]) next := by
  cases running : now.inSync with
  | true =>
    have kept := (react_capturing_search running stepped).trans (tracks.capturing running)
    refine ⟨fun _ => kept, fun _ => ?_⟩
    rw [kept, searchOrigin_concat, searchedSince_concat, transition, if_pos running,
      if_pos running]
    rfl
  | false =>
    have pushed := SearchTracks.push (t := transition (react cfg) now x) tracks running
    by_cases found : now.search.push x = ShiftRegister.ofWord cfg.sync
    · rw [react_search_hit running found] at stepped
      obtain ⟨search, capturing⟩ := startCapture_frame stepped
      exact ⟨fun _ => search.trans found, fun searching => by simp [capturing] at searching⟩
    · rw [react_search_miss running found] at stepped
      cases Except.ok.inj stepped
      exact ⟨fun capturing => by simp [running] at capturing, fun _ => pushed⟩

/-- The samples of a suffix that was all searched are searched since the last captured one. -/
theorem searchedSince_append {rest window : List cfg.Transition}
    (searched : ∀ t ∈ window, t.before.inSync = false) :
    searchedSince (rest ++ window) = searchedSince rest ++ window.map Transition.input := by
  induction window using List.reverseRecOn with
  | nil => simp
  | append_singleton window t ih =>
    have last := searched t (by simp)
    have before := ih fun t member => searched t (by simp [member])
    rw [← List.append_assoc, searchedSince_concat, before, if_neg (by simp [last])]
    simp

/-- The last transitions, as many as were searched since the last captured one, were searched. -/
theorem searched_of_length_le {upTo : List cfg.Transition} {count : Nat}
    (long : count ≤ (searchedSince upTo).length) :
    (∀ t ∈ upTo.rtake count, t.before.inSync = false) ∧
      (upTo.rtake count).map Transition.input =
        (searchedSince upTo).drop ((searchedSince upTo).length - count) := by
  have whole := @List.rdropWhile_append_rtakeWhile _ (fun t : cfg.Transition => !t.before.inSync)
    upTo
  have searched := fun t : cfg.Transition =>
    @List.mem_rtakeWhile_imp _ (fun t : cfg.Transition => !t.before.inSync) upTo t
  unfold searchedSince at long ⊢
  revert long searched
  generalize upTo.rtakeWhile (fun t => !t.before.inSync) = window at whole ⊢
  intro long searched
  rw [List.length_map] at long ⊢
  have taken : upTo.rtake count = window.drop (window.length - count) := by
    rw [← whole, List.rtake, List.length_append, List.drop_append,
      List.drop_of_length_le (by omega), List.nil_append]
    congr 1
    omega
  rw [taken, List.map_drop]
  exact ⟨fun t member => by simpa using searched t (List.mem_of_mem_drop member), rfl⟩

/-- A whole sync word was searched when the samples searched last end with it. -/
theorem wholeSyncSearched_iff (upTo : List cfg.Transition) :
    WholeSyncSearched upTo ↔ cfg.sync.length ≤ (searchedSince upTo).length ∧
      (searchedSince upTo).drop ((searchedSince upTo).length - cfg.sync.length) = cfg.sync := by
  constructor
  · rintro ⟨searched, same⟩
    have lengths := congrArg List.length same
    rw [List.length_map] at lengths
    have split := @searchedSince_append cfg (upTo.rdrop cfg.sync.length) _ searched
    rw [same, List.rdrop, List.rtake, List.take_append_drop] at split
    rw [split]
    simp
  · rintro ⟨long, same⟩
    obtain ⟨searched, inputs⟩ := searched_of_length_le long
    exact ⟨searched, inputs.trans same⟩

/-- The completed register of a search is a whole sync word searched, or the old sync word
completed again; never both. -/
theorem register_completed_iff {upTo : List cfg.Transition}
    (some : searchedSince upTo ≠ []) :
    (searchOrigin upTo).pushAll (searchedSince upTo) = ShiftRegister.ofWord cfg.sync ↔
      WholeSyncSearched upTo ∨ OldSyncCompleted upTo := by
  rw [wholeSyncSearched_iff, OldSyncCompleted, searchOrigin]
  by_cases earlier : ∃ t ∈ upTo, t.before.inSync = true
  · rw [if_pos (by simpa using earlier), ShiftRegister.ext_iff,
      ShiftRegister.items_pushAll_ofWord]
    change (cfg.sync ++ searchedSince upTo).drop (searchedSince upTo).length = cfg.sync ↔ _
    by_cases long : cfg.sync.length ≤ (searchedSince upTo).length
    · rw [List.drop_append, List.drop_of_length_le long, List.nil_append]
      simp only [long, true_and, Nat.not_lt.mpr long, false_and, and_false, or_false]
    · simp only [long, false_and, false_or, earlier, true_and, ne_eq, some, not_false_eq_true,
        Nat.lt_of_not_le long]
  · rw [if_neg (by simpa using earlier), ShiftRegister.pushAll_empty_eq_iff]
    simp only [earlier, false_and, or_false]

/-- The two ways exclude each other. -/
theorem wholeSync_excludes_oldSync {upTo : List cfg.Transition}
    (whole : WholeSyncSearched upTo) : ¬ OldSyncCompleted upTo := by
  rintro ⟨-, -, short, -⟩
  have long := ((wholeSyncSearched_iff upTo).mp whole).1
  omega

/-- A searched sample starts a capture exactly when it completes the sync word. -/
theorem starts_transition_iff (fixed : cfg.fixedLen = true → 1 ≤ cfg.pktLen.toInt) {s : cfg.State}
    {x : Int8} (running : s.inSync = false) (length : cfg.fixedLen = true → s.pktLen = cfg.pktLen) :
    Starts (transition (react cfg) s x) ↔ s.search.push x = ShiftRegister.ofWord cfg.sync := by
  by_cases found : s.search.push x = ShiftRegister.ofWord cfg.sync
  · have started := startCapture_ok (s := { s with search := s.search.push x }) fun mode => by
      have positive := fixed mode
      rw [length mode]
      omega
    have after : (transition (react cfg) s x).after = startCapture cfg
        { s with search := s.search.push x } := by
      rw [transition, react_search_hit running found]
    exact iff_of_true ⟨running, _, after.trans started, rfl⟩ found
  · refine iff_of_false (fun starts => ?_) found
    obtain ⟨_, next, after, capturing⟩ := starts
    rw [transition, react_search_miss running found] at after
    cases Except.ok.inj after
    simp [running] at capturing

/-- In every run a capture starts where a whole sync word has been searched, and where the old
sync word is completed again, and nowhere else. -/
theorem starts_iff (nonempty : cfg.sync ≠ [])
    (fixed : cfg.fixedLen = true → 1 ≤ cfg.pktLen.toInt)
    (garbage : Uninitialised) (chunks : List (List Int8)) {early : List cfg.Transition}
    {t : cfg.Transition} {late : List cfg.Transition}
    (split : (run cfg garbage chunks).history = early ++ t :: late) :
    Starts t ↔ WholeSyncSearched (early ++ [t]) ∨ OldSyncCompleted (early ++ [t]) := by
  have register := split
  rw [run, feed_eq_work] at register
  obtain ⟨tracks, stepped, -⟩ := (work_invariant (react cfg)
    (fun _ _ _ _ _ tracks stepped => SearchTracks.step tracks stepped) []
    (searchTracks_make garbage)).1 early t late register
  have length : cfg.fixedLen = true → t.before.pktLen = cfg.pktLen := fun mode =>
    ((run_tracks ⟨fixed, fun variable_ => by simp [mode] at variable_⟩ garbage chunks).1
      early t late split).1.fixed mode
  cases running : t.before.inSync with
  | true =>
    have none : searchedSince (early ++ [t]) = [] := by rw [searchedSince_concat, if_pos running]
    rw [wholeSyncSearched_iff, OldSyncCompleted, none]
    have positive := List.length_pos_iff.mpr nonempty
    simp only [Starts, running, Bool.true_eq_false, false_and, List.length_nil, Nat.le_zero,
      List.length_eq_zero_iff, nonempty, ne_eq, not_true_eq_false, and_false, or_self]
  | false =>
    have some : searchedSince (early ++ [t]) ≠ [] := by
      simp [searchedSince_concat, running]
    have pushed := SearchTracks.push tracks running
    rw [List.nil_append] at pushed
    rw [← register_completed_iff some, ← pushed, stepped]
    exact starts_transition_iff fixed running length

/-- A run is exact as long as no old sync word is completed again. -/
theorem syncExact_iff (nonempty : cfg.sync ≠ [])
    (fixed : cfg.fixedLen = true → 1 ≤ cfg.pktLen.toInt)
    (garbage : Uninitialised) (chunks : List (List Int8)) :
    SyncExact (run cfg garbage chunks).history ↔ ∀ early t late,
      (run cfg garbage chunks).history = early ++ t :: late →
        ¬ OldSyncCompleted (early ++ [t]) := by
  constructor
  · intro exact early t late split old
    have starts := (starts_iff nonempty fixed garbage chunks split).mpr (.inr old)
    exact wholeSync_excludes_oldSync ((exact early t late split).mp starts) old
  · intro never early t late split
    rw [starts_iff nonempty fixed garbage chunks split]
    exact ⟨fun either => either.resolve_right (never early t late split), .inl⟩

/-- An old sync word completed by fewer new samples is an overlap. -/
theorem OldSyncCompleted.hasBorder {upTo : List cfg.Transition} (old : OldSyncCompleted upTo) :
    HasBorder cfg.sync :=
  hasBorder_of_completed old.2.1 old.2.2.1 old.2.2.2

/-- For a sync word that overlaps itself, a packet of zeros and the end of the sync word complete
the old copy. -/
theorem exists_oldSyncCompleted (nonempty : cfg.sync ≠ []) (binary : ∀ x ∈ cfg.sync, Binary x)
    (valid : cfg.Valid) (border : HasBorder cfg.sync) (garbage : Uninitialised) :
    ∃ stream : List Int8, (∀ x ∈ stream, Binary x) ∧ ∃ early t,
      (run cfg garbage [stream]).history = early ++ [t] ∧ OldSyncCompleted (early ++ [t]) := by
  obtain ⟨k, front, back, below, split, short, finds⟩ :=
    ShiftRegister.exists_finds_of_border border
  obtain ⟨count, complete⟩ := complete_zeros valid
  obtain ⟨sync, -⟩ := @work_finds cfg valid.framed (make cfg garbage) cfg.sync rfl (fun _ => rfl)
    (ShiftRegister.finds_word nonempty)
  obtain ⟨packet, -, early, last, packetHistory, captured⟩ := work_complete valid.framed complete
  obtain ⟨found, -, searched⟩ := @work_finds cfg valid.framed
    (finished cfg (List.replicate count 0)) front rfl (fun mode => captured_pktLen mode _) finds
  have inputs := work_inputs (react cfg) found
  refine ⟨cfg.sync ++ (List.replicate count 0 ++ front), ?_, ?_⟩
  · intro x member
    rw [List.mem_append, List.mem_append] at member
    rcases member with old | zero | fresh
    · exact binary x old
    · exact .inl (List.eq_of_mem_replicate zero)
    · have inside : x ∈ cfg.sync.drop (cfg.sync.length - k) := by
        rw [split]
        exact List.mem_append_left back fresh
      exact binary x (List.mem_of_mem_drop inside)
  · rw [run, feed_eq_work, List.flatten_singleton, work_append_ok (react cfg) _ sync,
      work_append_ok (react cfg) _ packet, packetHistory]
    revert searched inputs
    generalize (work (react cfg) (finished cfg (List.replicate count 0)) front).history = fresh
    generalize (work (react cfg) (make cfg garbage) cfg.sync).history = before
    intro searched inputs
    have some : fresh ≠ [] := by
      rintro rfl
      exact finds.nonempty (by simpa using inputs.symm)
    have whole := List.dropLast_append_getLast some
    have since : searchedSince (before ++ (early ++ [last] ++ fresh)) = front := by
      rw [← List.append_assoc, searchedSince_append searched, ← List.append_assoc,
        searchedSince_concat, if_pos captured, inputs, List.nil_append]
    refine ⟨before ++ (early ++ [last]) ++ fresh.dropLast, fresh.getLast some, ?_, ?_⟩
    · simp only [List.append_assoc, whole]
    · rw [List.append_assoc, whole, List.append_assoc, OldSyncCompleted, since]
      refine ⟨⟨last, by simp, captured⟩, finds.nonempty, by omega, ?_⟩
      have held := congrArg ShiftRegister.items finds.found
      rwa [ShiftRegister.items_pushAll_ofWord] at held

/-- Sync detection. A run is exact when no old sync word is completed again, and the runs of a
configuration are all exact when its sync word does not overlap itself. -/
theorem sync_detection (nonempty : cfg.sync ≠ []) (binary : ∀ x ∈ cfg.sync, Binary x)
    (fixed : cfg.fixedLen = true → 1 ≤ cfg.pktLen.toInt) :
    (∀ garbage chunks, SyncExact (run cfg garbage chunks).history ↔ ∀ early t late,
      (run cfg garbage chunks).history = early ++ t :: late →
        ¬ OldSyncCompleted (early ++ [t])) ∧
    (cfg.Valid → ((∀ garbage chunks, (∀ x ∈ chunks.flatten, Binary x) →
      SyncExact (run cfg garbage chunks).history) ↔ ¬ HasBorder cfg.sync)) := by
  refine ⟨syncExact_iff nonempty fixed, fun valid => ⟨fun exact border => ?_, fun free => ?_⟩⟩
  · obtain ⟨stream, inputs, early, t, split, old⟩ :=
      exists_oldSyncCompleted nonempty binary valid border ⟨0, 0, false⟩
    have runExact := exact ⟨0, 0, false⟩ [stream] (by simpa using inputs)
    exact (syncExact_iff nonempty fixed _ _).mp runExact early t [] split old
  · intro garbage chunks _
    rw [syncExact_iff nonempty fixed]
    exact fun early t late _ old => free old.hasBorder

/-- The sync word of two ones, in fixed length mode with packets of one sample. -/
def doubleOne : Config := ⟨"", [1, 1], true, 1, -1, 0, 0, false⟩

/-- After the packet `[0]` a single one starts the second capture. -/
theorem doubleOne_not_exact :
    ¬ SyncExact (run doubleOne ⟨0, 0, false⟩ [[1, 1, 0, 1]]).history := by
  intro exact
  have whole := (exact ((run doubleOne ⟨0, 0, false⟩ [[1, 1, 0, 1]]).history.take 3)
    ((run doubleOne ⟨0, 0, false⟩ [[1, 1, 0, 1]]).history.getLast (by decide)) []
    (by rfl)).mp ⟨by decide, _, rfl, by decide⟩
  revert whole
  decide

/-- A sync word that does not overlap itself, and one that does. -/
theorem sync_detection_examples :
    (∀ garbage chunks, (∀ x ∈ chunks.flatten, Binary x) →
      SyncExact (run { doubleOne with sync := [1, 1, 0] } garbage chunks).history) ∧
    ¬ ∀ garbage chunks, (∀ x ∈ chunks.flatten, Binary x) →
      SyncExact (run doubleOne garbage chunks).history := by
  have valid : ∀ sync, Config.Valid { doubleOne with sync := sync } := fun sync =>
    ⟨fun _ => (by decide : (1 : Int) ≤ (1 : Int32).toInt), fun mode => by simp [doubleOne] at mode⟩
  have free := (@sync_detection { doubleOne with sync := [1, 1, 0] } (by decide)
    (binary_of_all rfl) (fun _ => by decide)).2 (valid _)
  have bordered := (@sync_detection doubleOne (by decide) (binary_of_all rfl)
    (fun _ => by decide)).2 (valid [1, 1])
  exact ⟨free.mpr (by decide), fun exact => bordered.mp exact (by decide)⟩

end GrReveng.PacketDeframer
