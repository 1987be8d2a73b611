import GrReveng.Library.Templates
import GrReveng.PacketFormatter.Formatting

/-!
# Formats as templates

The value of a match of the format depends on this match alone, and `format_output` is meant to
put each value where its match stands. Its loop looks the match up in what has become of the
format. It finds every match where it stands, and renders the format, exactly when all matches
have values and no match that is replaced occurs in the rendering of what stands in front of it.
-/

namespace GrReveng.PacketFormatter

open Python

/-- The text of a match, or nothing for a type that is skipped: what the loop computes before it
looks for the match. -/
def valueOf (metadata : Entries) (bits : Value) (inside : Text) : Except PyError (Option Text) := do
  let what := (rstrip ']' inside).splitOn '['
  let (start, stop) ← address what
  let subBits ← bits.slice start stop
  let lBites := packbits (← byteArray subBits)
  let elements ← addable subBits
  match ← render metadata (what.headD []) elements lBites with
  | none => return none
  | some tmp => return some (← tmp.characters)

/-- Every match of the format has a value or is skipped. -/
def Evaluates (formatStr : Text) (metadata : Entries) (bits : Value) : Prop :=
  ∀ inside ∈ placeholders formatStr, ∃ text, valueOf metadata bits inside = .ok text

/-- The values of the matches. -/
def values (metadata : Entries) (bits : Value) (inside : Text) : Option Text :=
  match valueOf metadata bits inside with
  | .ok text => text
  | .error _ => none

/-- Two computations that begin alike differ by a map when what follows does. -/
theorem bind_eq_map {α β γ : Type} {first : Except PyError α} {next : α → Except PyError γ}
    {next' : α → Except PyError β} {f : β → γ} (there : ∀ a, next a = (next' a).map f) :
    first >>= next = (first >>= next').map f := by
  cases first with
  | error e => rfl
  | ok a => exact there a

/-- What an iteration makes of a value. -/
def placed (out inside : Text) : Option Text → Text
  | none => out
  | some text => replaceFirst (wholeMatch inside) text out

/-- An iteration raises what the value raises, and puts it in otherwise. -/
theorem substitute_eq_map (metadata : Entries) (bits : Value) (out inside : Text) :
    substitute metadata bits out inside =
      (valueOf metadata bits inside).map (placed out inside) := by
  apply bind_eq_map
  intro range
  apply bind_eq_map
  intro subBits
  apply bind_eq_map
  intro bytes
  apply bind_eq_map
  intro elements
  apply bind_eq_map
  intro rendered
  cases rendered with
  | none => rfl
  | some tmp => exact bind_eq_map fun text => rfl

section Loop

variable {metadata : Entries} {bits : Value}

/-- An iteration for a match that has a value or is skipped. -/
theorem substitute_of_value {inside : Text} {text : Option Text} (out : Text)
    (value : valueOf metadata bits inside = .ok text) :
    substitute metadata bits out inside = .ok (fillFirst (values metadata bits) out inside) := by
  rw [substitute_eq_map, value, fillFirst, values, value]
  cases text <;> rfl

/-- The loop for matches that have values or are skipped. -/
theorem loop_of_values {matched : List Text}
    (each : ∀ inside ∈ matched, ∃ text, valueOf metadata bits inside = .ok text) (out : Text) :
    matched.foldlM (substitute metadata bits) out =
      .ok (matched.foldl (fillFirst (values metadata bits)) out) := by
  induction matched generalizing out with
  | nil => rfl
  | cons inside rest ih =>
    obtain ⟨text, value⟩ := each inside List.mem_cons_self
    rw [List.foldlM_cons, substitute_of_value out value]
    exact ih (fun later member => each later (List.mem_cons_of_mem _ member)) _

/-- A loop that does not raise has a value for every match that it does not skip. -/
theorem values_of_loop {matched : List Text} {out result : Text}
    (done : matched.foldlM (substitute metadata bits) out = .ok result) :
    ∀ inside ∈ matched, ∃ text, valueOf metadata bits inside = .ok text := by
  induction matched generalizing out with
  | nil => simp
  | cons first rest ih =>
    rw [List.foldlM_cons] at done
    cases value : valueOf metadata bits first with
    | error e =>
      rw [substitute_eq_map, value] at done
      contradiction
    | ok text =>
      rw [substitute_of_value out value] at done
      intro inside member
      cases List.mem_cons.mp member with
      | inl same => exact ⟨text, same ▸ value⟩
      | inr later => exact ih done inside later

/-- `format_output` raises when a match does. -/
theorem formatOutput_error {formatStr inside : Text} {e : PyError}
    (member : inside ∈ placeholders formatStr) (raised : valueOf metadata bits inside = .error e) :
    ∃ e', formatOutput formatStr metadata bits = .error e' := by
  cases done : formatOutput formatStr metadata bits with
  | error e' => exact ⟨e', rfl⟩
  | ok text =>
    obtain ⟨_, value⟩ := values_of_loop done inside member
    rw [raised] at value
    contradiction

/-- The loop up to a piece of the format. -/
theorem loop_of_evaluates {formatStr : Text} (evaluates : Evaluates formatStr metadata bits)
    {before after : List Piece} (split : pieces formatStr = before ++ after) :
    (insides before).foldlM (substitute metadata bits) formatStr =
      .ok (filled (values metadata bits) formatStr before) := by
  apply loop_of_values
  intro inside member
  apply evaluates
  rw [← insides_pieces, split, insides, List.filterMap_append]
  exact List.mem_append_left _ member

/-- A match has a value exactly when it is replaced. -/
theorem values_ne_none_iff {inside : Text} :
    values metadata bits inside ≠ none ↔
      ∃ text, valueOf metadata bits inside = .ok (some text) := by
  rw [values]
  cases valueOf metadata bits inside with
  | error e => simp
  | ok text => cases text <;> simp

/-- The text of a format whose matches have values and are fresh. -/
theorem formatOutput_of_fresh {formatStr : Text} (evaluates : Evaluates formatStr metadata bits)
    (fresh : Fresh (values metadata bits) formatStr) :
    formatOutput formatStr metadata bits =
      .ok (rendering (values metadata bits) (pieces formatStr)) := by
  rw [formatOutput, loop_of_values evaluates, fresh.foldl_eq]

/-- The value of a match that selects a part of an array. -/
theorem valueOf_array {inside : Text} {start stop : Option Int} {elements : List Element}
    (range : address ((rstrip ']' inside).splitOn '[') = .ok (start, stop))
    (sliced : bits.slice start stop = .ok (.array elements)) :
    valueOf metadata bits inside =
      render metadata (placeholderType inside) elements
          (packbits (elements.flatMap Element.memory)) >>= fun rendered => match rendered with
        | none => .ok none
        | some tmp => tmp.characters.map some := by
  rw [placeholderType]
  unfold valueOf
  simp only [range, sliced, bind, Except.bind, byteArray, addable]
  cases render metadata _ elements _ with
  | error e => rfl
  | ok rendered =>
    cases rendered with
    | none => rfl
    | some tmp => cases tmp.characters <;> rfl

/-- A format with one match. -/
theorem formatOutput_single {before inside after : Text} (front : '%' ∉ before)
    (enclosed : Enclosed inside) (behind : '%' ∉ after) :
    formatOutput (before ++ (wholeMatch inside ++ after)) metadata bits =
      (valueOf metadata bits inside).map fun text =>
        before ++ (text.getD (wholeMatch inside) ++ after) := by
  have absent : ¬ wholeMatch inside <:+: before := fun found =>
    front (found.subset List.mem_cons_self)
  have place := (firstPlace_wholeMatch_iff enclosed.closed before after).mpr absent
  rw [formatOutput, placeholders_single front enclosed behind, List.foldlM_cons, substitute_eq_map]
  cases valueOf metadata bits inside with
  | error e => rfl
  | ok text =>
    cases text with
    | none => rfl
    | some text => exact congrArg Except.ok (replaceFirst_of_firstPlace text place)

/-- A match on its own. -/
theorem formatOutput_wholeMatch {inside : Text} (enclosed : Enclosed inside) :
    formatOutput (wholeMatch inside) metadata bits =
      (valueOf metadata bits inside).map fun text => text.getD (wholeMatch inside) := by
  have free : '%' ∉ ([] : Text) := List.not_mem_nil
  have alone := @formatOutput_single metadata bits [] inside [] free enclosed free
  simp only [List.nil_append, List.append_nil] at alone
  exact alone

/-- The format string of all bits, `%(bits)`. -/
def bitsFormat : Text := ['%', '(', 'b', 'i', 't', 's', ')']

/-- The format of all bits writes the elements of an array one after the other. -/
theorem formatOutput_bits (metadata : Entries) (elements : List Element) :
    formatOutput bitsFormat metadata (.array elements) = .ok (joined elements) := by
  have enclosed : Enclosed ['b', 'i', 't', 's'] := ⟨by decide, by decide⟩
  have whole : (Value.array elements).slice none none = .ok (.array elements) := by
    rw [Value.slice, slice_none]
  have value := @valueOf_array metadata (.array elements) ['b', 'i', 't', 's'] none none elements
    rfl whole
  change formatOutput (wholeMatch ['b', 'i', 't', 's']) metadata _ = _
  rw [formatOutput_wholeMatch enclosed, value]
  rfl

end Loop

/-- The format is rendered: the output is the format with every match that has a value replaced by
it and everything else unchanged, and the iteration for each such match does not raise and finds
the match where it stands in the format, behind the rendering of what stands in front of it. -/
structure Rendered (formatStr : Text) (metadata : Entries) (bits : Value) : Prop where
  /-- The output. -/
  output : formatOutput formatStr metadata bits =
    .ok (rendering (values metadata bits) (pieces formatStr))
  /-- The places of the replacements. -/
  ownPlace : ∀ before inside after, pieces formatStr = before ++ .placeholder inside :: after →
    ∀ text, valueOf metadata bits inside = .ok (some text) →
      ∃ out, (insides before).foldlM (substitute metadata bits) formatStr = .ok out ∧
        firstPlace (wholeMatch inside) out =
          some (rendering (values metadata bits) before).length

/-- The format is rendered exactly when its matches evaluate and no match that is replaced occurs
in the rendering of what stands in front of it. -/
theorem rendered_iff (formatStr : Text) (metadata : Entries) (bits : Value) :
    Rendered formatStr metadata bits ↔
      Evaluates formatStr metadata bits ∧ Fresh (values metadata bits) formatStr := by
  constructor
  · intro rendered
    have evaluates : Evaluates formatStr metadata bits := values_of_loop rendered.output
    constructor
    · exact evaluates
    rw [← inPlace_iff_fresh]
    intro before inside after split given
    obtain ⟨text, value⟩ := values_ne_none_iff.mp given
    obtain ⟨out, done, place⟩ := rendered.ownPlace before inside after split text value
    rw [loop_of_evaluates evaluates split] at done
    rw [Except.ok.inj done]
    exact place
  · intro condition
    have inPlace := (inPlace_iff_fresh formatStr).mpr condition.2
    constructor
    · exact formatOutput_of_fresh condition.1 condition.2
    · intro before inside after split text value
      have given := values_ne_none_iff.mpr ⟨text, value⟩
      exact ⟨_, loop_of_evaluates condition.1 split, inPlace before inside after split given⟩

/-- The name of a message that looks like a match of the format. -/
def placeholderName : Entries := [(.str "name".toList, .str "%(bits)".toList)]

/-- With the name `%(bits)` in front of `%(bits)`, the bits go into the name. -/
theorem name_taken_as_match :
    Evaluates "%(name) %(bits)".toList placeholderName (.bytes [0, 1]) ∧
      formatOutput "%(name) %(bits)".toList placeholderName (.bytes [0, 1]) =
        .ok "01 %(bits)".toList ∧
      formatOutput "%(name) %(bits)".toList placeholderName (.bytes [0, 1]) ≠
        .ok (rendering (values placeholderName (.bytes [0, 1]))
          (pieces "%(name) %(bits)".toList)) := by
  have name : valueOf placeholderName (.bytes [0, 1]) "name".toList =
      .ok (some "%(bits)".toList) := rfl
  have bits : valueOf placeholderName (.bytes [0, 1]) "bits".toList = .ok (some "01".toList) := rfl
  have matched : placeholders "%(name) %(bits)".toList = ["name".toList, "bits".toList] := by decide
  have output : formatOutput "%(name) %(bits)".toList placeholderName (.bytes [0, 1]) =
      .ok "01 %(bits)".toList := rfl
  have meant : rendering (values placeholderName (.bytes [0, 1]))
      (pieces "%(name) %(bits)".toList) = "%(bits) 01".toList := rfl
  constructor
  · intro inside member
    rw [matched] at member
    cases List.mem_cons.mp member with
    | inl same => exact ⟨_, same ▸ name⟩
    | inr later => exact ⟨_, List.mem_singleton.mp later ▸ bits⟩
  · rw [output, meant]
    exact ⟨rfl, fun same => absurd (Except.ok.inj same) (by decide)⟩

end GrReveng.PacketFormatter
