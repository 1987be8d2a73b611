import GrReveng.Library.Frames
import GrReveng.Library.Scan

/-!
# Bursts

A stream of bursts: data of a fixed length behind a word, with anything in front of the word that
does not complete it. The scan for the word takes the data of the bursts. A burst whose word was
damaged belongs to what is in front of the next one.
-/

namespace GrReveng

variable {α : Type}

/-- A burst. -/
structure Burst (α : Type) where
  /-- What is in front of the word. -/
  gap : List α
  /-- What is behind it. -/
  data : List α

/-- The bursts with their words, and what follows the last one. -/
def burstStream (word : List α) (bursts : List (Burst α)) (rest : List α) : List α :=
  (bursts.flatMap fun burst => burst.gap ++ word ++ burst.data) ++ rest

/-- The first burst of a transmission. -/
theorem burstStream_cons (word : List α) (burst : Burst α) (bursts : List (Burst α))
    (rest : List α) : burstStream word (burst :: bursts) rest =
      burst.gap ++ word ++ (burst.data ++ burstStream word bursts rest) := by
  simp only [burstStream, List.flatMap_cons, List.append_assoc]

variable [DecidableEq α]

/-- Bursts that can be told apart from what is between them. -/
structure Distinct (word : List α) (count : Nat) (bursts : List (Burst α)) (rest : List α) :
    Prop where
  /-- A search that begins with a burst finds its word and none before. -/
  found : ∀ burst ∈ bursts, behindWord word [] (burst.gap ++ word) = some []
  /-- The data has the fixed length. -/
  length : ∀ burst ∈ bursts, burst.data.length = count
  /-- No data of this length follows. -/
  ends : ∀ tail, behindWord word [] rest = some tail → tail.length < count

section Scans

variable {word text : List α} {count start : Nat}

/-- Where a word that is looked for from a position on ends. -/
theorem leastEnd_found (nonempty : word ≠ []) {front back : List α}
    (split : text.drop start = front ++ back) (found : behindWord word [] front = some []) :
    leastEnd word text start = some (start + front.length) := by
  have empty : (ShiftRegister.empty : ShiftRegister α word.length).items = [] := rfl
  exact leastEnd_finds nonempty split (finds_of_found (empty ▸ found))

/-- A scan of a remainder with too few elements behind the word takes nothing. -/
theorem scanFrom_ends (nonempty : word ≠ []) (inside : start ≤ text.length)
    (ends : ∀ tail, behindWord word [] (text.drop start) = some tail → tail.length < count) :
    scanFrom word text count start = [] := by
  cases found : behindWord word [] (text.drop start) with
  | none =>
    have empty : (ShiftRegister.empty : ShiftRegister α word.length).items = [] := rfl
    exact scanFrom_none (leastEnd_quiet nonempty (quiet_of_absent (empty ▸ found)))
  | some tail =>
    have ⟨front, split, occupied, ending, before⟩ := behindWord_eq_some found
    have stop := leastEnd_found nonempty split (behindWord_last occupied ending before)
    have lengths := congrArg List.length split
    rw [List.length_drop, List.length_append] at lengths
    have short := ends tail found
    exact scanFrom_short stop (by omega)

/-- From any position the scan takes the data of the bursts that remain. -/
theorem scanFrom_burstStream (nonempty : word ≠ []) (positive : 0 < count)
    {bursts : List (Burst α)} {rest : List α} (distinct : Distinct word count bursts rest)
    (inside : start ≤ text.length) (remaining : text.drop start = burstStream word bursts rest) :
    scanFrom word text count start = bursts.map Burst.data := by
  induction bursts generalizing start with
  | nil => exact scanFrom_ends nonempty inside (remaining ▸ distinct.ends)
  | cons burst bursts ih =>
    rw [burstStream_cons] at remaining
    have stop := leastEnd_found nonempty remaining (distinct.found burst List.mem_cons_self)
    have length := distinct.length burst List.mem_cons_self
    have room : start + (burst.gap ++ word).length + count ≤ text.length := by
      have lengths := congrArg List.length remaining
      simp only [List.length_drop, List.length_append] at lengths ⊢
      omega
    have behind : text.drop (start + (burst.gap ++ word).length) =
        burst.data ++ burstStream word bursts rest := by
      rw [← List.drop_drop, remaining, List.drop_left]
    have later : Distinct word count bursts rest :=
      ⟨fun other member => distinct.found other (List.mem_cons_of_mem burst member),
        fun other member => distinct.length other (List.mem_cons_of_mem burst member),
        distinct.ends⟩
    have next : text.drop (start + (burst.gap ++ word).length + count) =
        burstStream word bursts rest := by
      rw [← List.drop_drop, behind, ← length, List.drop_left]
    rw [scanFrom_take stop positive room, behind, ih later room next, ← length, List.take_left]
    rfl

/-- The scan of a transmission takes the data of its bursts. -/
theorem scan_burstStream (nonempty : word ≠ []) (positive : 0 < count)
    {bursts : List (Burst α)} {rest : List α} (distinct : Distinct word count bursts rest) :
    scan word count (burstStream word bursts rest) = bursts.map Burst.data :=
  scanFrom_burstStream nonempty positive distinct (Nat.zero_le _) rfl

end Scans

end GrReveng
