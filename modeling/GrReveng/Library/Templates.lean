import GrReveng.Library.PyText
import Mathlib.Data.List.Infix
import Mathlib.Data.List.Induction
import Mathlib.Data.List.TakeWhile

/-!
# Templates

A template is a text with placeholders, the matches of `%\(([^\)]+)\)`. Rendering it replaces the
placeholders simultaneously, each one where it stands. A loop over the matches that puts each value
in with `str.replace(old, new, 1)` looks for the placeholder again, in a text that contains the
earlier values already. The place where it finds it is its own for every placeholder exactly when
no placeholder occurs in the rendering of what stands in front of it (`inPlace_iff_fresh`).
-/

namespace GrReveng.Python

/-- A piece of a template. -/
inductive Piece
  /-- A character outside of the placeholders. -/
  | literal (c : Char)
  /-- A placeholder with this text between its parentheses. -/
  | placeholder (inside : Text)
  deriving DecidableEq

/-- What is written in the template. -/
def Piece.source : Piece → Text
  | literal c => [c]
  | placeholder inside => wholeMatch inside

/-- The text between the parentheses of a placeholder. -/
def Piece.inside? : Piece → Option Text
  | literal _ => none
  | placeholder inside => some inside

/-- The pieces of a template. The number counts the characters that the current placeholder still
covers. -/
def piecesBehind : Nat → Text → List Piece
  | _, [] => []
  | covered + 1, _ :: rest => piecesBehind covered rest
  | 0, c :: rest =>
    match placeholderHere (c :: rest) with
    | some inside => .placeholder inside :: piecesBehind (inside.length + 2) rest
    | none => .literal c :: piecesBehind 0 rest

/-- The pieces of a template. -/
def pieces (template : Text) : List Piece := piecesBehind 0 template

/-- The template that has these pieces. -/
def sources (parts : List Piece) : Text := parts.flatMap Piece.source

/-- The placeholders among some pieces. -/
def insides (parts : List Piece) : List Text := parts.filterMap Piece.inside?

/-- A text that can stand between the parentheses of a placeholder. -/
structure Enclosed (inside : Text) : Prop where
  /-- It is not empty. -/
  some : inside ≠ []
  /-- It does not close the placeholder. -/
  closed : ')' ∉ inside

/-- A match at the beginning of a text. -/
theorem placeholderHere_some {text inside : Text} (found : placeholderHere text = some inside) :
    Enclosed inside ∧ wholeMatch inside <+: text := by
  unfold placeholderHere at found
  split at found
  case h_2 => contradiction
  case h_1 rest =>
    dsimp only at found
    split at found
    case isFalse => contradiction
    case isTrue inner =>
      cases Option.some.inj found
      have whole := @List.takeWhile_append_dropWhile _ (fun c => decide (c ≠ ')')) rest
      have behind : rest.dropWhile (fun c => decide (c ≠ ')')) ≠ [] := by
        intro empty
        rw [empty, List.append_nil] at whole
        exact absurd (congrArg List.length whole) (Nat.ne_of_lt inner.2)
      have parenthesis := List.head_dropWhile_not (fun c => decide (c ≠ ')')) behind
      rw [← List.cons_head_tail behind, of_not_not (of_decide_eq_false parenthesis)] at whole
      constructor
      · constructor
        · exact inner.1
        · intro member
          have free := List.mem_takeWhile_imp (p := fun c => decide (c ≠ ')')) member
          exact of_decide_eq_true free rfl
      · refine ⟨(rest.dropWhile fun c => decide (c ≠ ')')).tail, ?_⟩
        simpa [wholeMatch] using whole

/-- A placeholder at the beginning of a text is a match. -/
theorem placeholderHere_wholeMatch {inside : Text} (enclosed : Enclosed inside) (rest : Text) :
    placeholderHere (wholeMatch inside ++ rest) = some inside := by
  have taken : (inside ++ [')'] ++ rest).takeWhile (fun c => decide (c ≠ ')')) = inside := by
    rw [List.append_assoc, List.takeWhile_append_of_pos]
    · simp
    · intro c member
      exact decide_eq_true fun same => enclosed.closed (same ▸ member)
  change placeholderHere ('%' :: '(' :: (inside ++ [')'] ++ rest)) = some inside
  rw [placeholderHere, taken, if_pos ⟨enclosed.some, by simp⟩]

/-- The placeholders of a template are those among its pieces. -/
theorem insides_piecesBehind (covered : Nat) (text : Text) :
    insides (piecesBehind covered text) = placeholdersBehind covered text := by
  induction text generalizing covered with
  | nil =>
    rw [piecesBehind, placeholdersBehind]
    rfl
  | cons c rest ih =>
    cases covered with
    | succ covered => rw [piecesBehind, placeholdersBehind, ih]
    | zero =>
      rw [piecesBehind, placeholdersBehind]
      cases placeholderHere (c :: rest) with
      | none => exact ih 0
      | some inside => exact congrArg (inside :: ·) (ih (inside.length + 2))

/-- The pieces of a template have its placeholders. -/
theorem insides_pieces (template : Text) : insides (pieces template) = placeholders template :=
  insides_piecesBehind 0 template

/-- The pieces behind a placeholder are those of the text behind it. -/
theorem piecesBehind_eq_drop (covered : Nat) (text : Text) :
    piecesBehind covered text = pieces (text.drop covered) := by
  induction text generalizing covered with
  | nil =>
    rw [List.drop_nil, pieces, piecesBehind, piecesBehind]
  | cons c rest ih =>
    cases covered with
    | zero => rfl
    | succ covered => rw [piecesBehind, ih, List.drop_succ_cons]

/-- The length of a placeholder. -/
theorem length_wholeMatch (inside : Text) : (wholeMatch inside).length = inside.length + 3 := by
  simp [wholeMatch]

/-- A placeholder at the front is the first piece. -/
theorem pieces_wholeMatch {inside : Text} (enclosed : Enclosed inside) (rest : Text) :
    pieces (wholeMatch inside ++ rest) = .placeholder inside :: pieces rest := by
  have here := placeholderHere_wholeMatch enclosed rest
  have behind : ((inside ++ [')'] ++ rest).drop (inside.length + 1)) = rest := by simp
  rw [pieces]
  change piecesBehind 0 ('%' :: ('(' :: (inside ++ [')'] ++ rest))) = _
  change placeholderHere ('%' :: ('(' :: (inside ++ [')'] ++ rest))) = _ at here
  rw [piecesBehind, here]
  dsimp only
  rw [piecesBehind_eq_drop, List.drop_succ_cons, behind]

/-- Characters that begin no placeholder are the first pieces. -/
theorem pieces_literals {front : Text} (free : '%' ∉ front) (rest : Text) :
    pieces (front ++ rest) = front.map .literal ++ pieces rest := by
  induction front with
  | nil => rfl
  | cons c front ih =>
    have other : placeholderHere (c :: (front ++ rest)) = none := by
      unfold placeholderHere
      split
      · next same => exact absurd (List.cons.inj same).1 (List.ne_of_not_mem_cons free).symm
      · rfl
    rw [List.cons_append, pieces, piecesBehind, other]
    exact congrArg (_ :: ·) (ih (List.not_mem_of_not_mem_cons free))

/-- The pieces are written one after the other in the template. -/
theorem sources_piecesBehind (covered : Nat) (text : Text) :
    sources (piecesBehind covered text) = text.drop covered := by
  induction text generalizing covered with
  | nil =>
    rw [piecesBehind, List.drop_nil]
    rfl
  | cons c rest ih =>
    cases covered with
    | succ covered => rw [piecesBehind, ih, List.drop_succ_cons]
    | zero =>
      rw [piecesBehind]
      cases found : placeholderHere (c :: rest) with
      | none => exact congrArg (c :: ·) (ih 0)
      | some inside =>
        have front := List.prefix_iff_eq_append.mp (placeholderHere_some found).2
        rw [length_wholeMatch, List.drop_succ_cons] at front
        change wholeMatch inside ++ sources (piecesBehind (inside.length + 2) rest) = c :: rest
        rw [ih, front]

/-- The template is what its pieces are written like. -/
theorem sources_pieces (template : Text) : sources (pieces template) = template :=
  sources_piecesBehind 0 template

/-- What stands between the parentheses of a placeholder. -/
theorem enclosed_of_mem_piecesBehind {covered : Nat} {text inside : Text}
    (member : .placeholder inside ∈ piecesBehind covered text) : Enclosed inside := by
  induction text generalizing covered with
  | nil =>
    rw [piecesBehind] at member
    contradiction
  | cons c rest ih =>
    cases covered with
    | succ covered =>
      rw [piecesBehind] at member
      exact ih member
    | zero =>
      rw [piecesBehind] at member
      cases found : placeholderHere (c :: rest) with
      | none =>
        rw [found] at member
        cases List.mem_cons.mp member with
        | inl same => contradiction
        | inr later => exact ih later
      | some first =>
        rw [found] at member
        cases List.mem_cons.mp member with
        | inl same =>
          rw [Piece.placeholder.inj same]
          exact (placeholderHere_some found).1
        | inr later => exact ih later

/-- A text without placeholders has literals only. -/
theorem pieces_of_free {text : Text} (free : '%' ∉ text) : pieces text = text.map .literal := by
  have all := pieces_literals free []
  rw [List.append_nil] at all
  rw [all]
  exact List.append_nil _

/-- The pieces of a text with one placeholder. -/
theorem pieces_single {before inside after : Text} (front : '%' ∉ before)
    (enclosed : Enclosed inside) (behind : '%' ∉ after) :
    pieces (before ++ (wholeMatch inside ++ after)) =
      before.map .literal ++ .placeholder inside :: after.map .literal := by
  rw [pieces_literals front, pieces_wholeMatch enclosed, pieces_of_free behind]

/-- Pieces without a `%` among the literals are the pieces of what is written for them. -/
theorem pieces_sources {parts : List Piece} (literals : .literal '%' ∉ parts)
    (enclosed : ∀ inside, .placeholder inside ∈ parts → Enclosed inside) :
    pieces (sources parts) = parts := by
  induction parts with
  | nil => rfl
  | cons part parts ih =>
    have later := ih (List.not_mem_of_not_mem_cons literals) fun inside member =>
      enclosed inside (List.mem_cons_of_mem part member)
    rw [sources, List.flatMap_cons, ← sources]
    cases part with
    | literal c =>
      have free : '%' ∉ [c] := by
        rw [List.mem_singleton]
        intro same
        exact literals (same ▸ List.mem_cons_self)
      rw [Piece.source, pieces_literals free, later]
      rfl
    | placeholder inside =>
      rw [Piece.source, pieces_wholeMatch (enclosed inside List.mem_cons_self), later]

/-- Pieces are written one after the other. -/
theorem sources_append (front back : List Piece) :
    sources (front ++ back) = sources front ++ sources back :=
  List.flatMap_append

/-- Literals are written as they are. -/
theorem sources_literals (text : Text) : sources (text.map .literal) = text := by
  induction text with
  | nil => rfl
  | cons c text ih => exact congrArg (c :: ·) ih

/-- Literals are no placeholders. -/
theorem insides_literals (text : Text) : insides (text.map .literal) = [] := by
  induction text with
  | nil => rfl
  | cons c text ih => exact ih

/-- The placeholder of a text with one. -/
theorem placeholders_single {before inside after : Text} (front : '%' ∉ before)
    (enclosed : Enclosed inside) (behind : '%' ∉ after) :
    placeholders (before ++ (wholeMatch inside ++ after)) = [inside] := by
  rw [← insides_pieces, pieces_single front enclosed behind, insides, List.filterMap_append]
  change insides (before.map .literal) ++ inside :: insides (after.map .literal) = _
  rw [insides_literals, insides_literals, List.nil_append]

/-- A placeholder on its own. -/
theorem placeholders_wholeMatch {inside : Text} (enclosed : Enclosed inside) :
    placeholders (wholeMatch inside) = [inside] := by
  have free : '%' ∉ ([] : Text) := List.not_mem_nil
  have alone := placeholders_single free enclosed free
  rw [List.nil_append, List.append_nil] at alone
  exact alone

/-- The first place of a word that is not empty, `text.find(word)`. -/
def firstPlace (word : Text) : Text → Option Nat
  | [] => none
  | c :: rest => if word <+: c :: rest then some 0 else (firstPlace word rest).map (· + 1)

/-- Replacing a word changes its first place. -/
theorem replaceFirst_of_firstPlace {word : Text} (value : Text) {front rest : Text}
    (place : firstPlace word (front ++ (word ++ rest)) = some front.length) :
    replaceFirst word value (front ++ (word ++ rest)) = front ++ (value ++ rest) := by
  induction front with
  | nil =>
    rw [List.nil_append, List.nil_append] at *
    cases text : word ++ rest with
    | nil =>
      rw [text] at place
      contradiction
    | cons c more =>
      have here : word <+: c :: more := text ▸ List.prefix_append word rest
      rw [replaceFirst, if_pos here, ← text, List.drop_left]
  | cons c front ih =>
    rw [List.cons_append, firstPlace] at place
    rw [List.cons_append, replaceFirst]
    split at place
    case isTrue => exact absurd (Option.some.inj place) (Nat.succ_ne_zero _).symm
    case isFalse absent =>
      obtain ⟨n, found, same⟩ := Option.map_eq_some_iff.mp place
      cases Nat.succ.inj same
      rw [if_neg absent, ih found]
      rfl

/-- A placeholder that begins in front of another one ends in front of it. -/
theorem wholeMatch_not_across {inside tail rest : Text} (closed : ')' ∉ inside) (some : tail ≠ [])
    (found : wholeMatch inside <+: tail ++ (wholeMatch inside ++ rest)) :
    wholeMatch inside <+: tail := by
  have opening : wholeMatch inside = ('%' :: '(' :: inside) ++ [')'] := rfl
  have free : ')' ∉ '%' :: '(' :: inside := by simpa using closed
  generalize '%' :: '(' :: inside = front at opening free
  cases List.prefix_or_prefix_of_prefix found (List.prefix_append tail _) with
  | inl before => exact before
  | inr across =>
    obtain ⟨piece, whole⟩ := across
    -- What reaches into the other placeholder would end with the parenthesis at its end.
    cases List.eq_nil_or_concat piece with
    | inl empty =>
      rw [empty, List.append_nil] at whole
      rw [whole]
    | inr ending =>
      obtain ⟨more, last, shape⟩ := ending
      rw [shape, List.concat_eq_append, ← List.append_assoc, opening] at whole
      have before := (List.append_inj' whole rfl).1
      have shifted : tail ++ (more ++ [')']) <+: tail ++ (front ++ ([')'] ++ rest)) := by
        rw [← List.append_assoc, before, ← List.append_assoc front, ← opening]
        exact found
      have behind := (List.prefix_append_right_inj tail).mp shifted
      have shorter : (more ++ [')']).length ≤ front.length := by
        have positive := List.length_pos_of_ne_nil some
        rw [← before, List.length_append, List.length_append, List.length_singleton]
        omega
      have inner := List.prefix_of_prefix_length_le behind (List.prefix_append front _) shorter
      exact absurd (inner.subset (by simp)) free

/-- The first place of a placeholder is its own exactly when it does not occur in front. -/
theorem firstPlace_wholeMatch_iff {inside : Text} (closed : ')' ∉ inside) (front rest : Text) :
    firstPlace (wholeMatch inside) (front ++ (wholeMatch inside ++ rest)) = some front.length ↔
      ¬ wholeMatch inside <:+: front := by
  induction front with
  | nil =>
    have here : wholeMatch inside <+: wholeMatch inside ++ rest := List.prefix_append _ _
    have absent : ¬ wholeMatch inside <:+: [] := fun inner =>
      absurd (List.infix_nil.mp inner) (List.cons_ne_nil _ _)
    simp only [List.nil_append, List.length_nil, absent, not_false_eq_true, iff_true]
    exact if_pos here
  | cons c front ih =>
    rw [List.cons_append, firstPlace, List.infix_cons_iff, not_or]
    by_cases here : wholeMatch inside <+: c :: (front ++ (wholeMatch inside ++ rest))
    · have first := wholeMatch_not_across closed (List.cons_ne_nil c front) here
      simp [here, first]
    · have later : ¬ wholeMatch inside <+: c :: front := fun found =>
        here (found.trans (List.prefix_append (c :: front) _))
      rw [if_neg here, ← ih]
      simp [later]

section Rendering

variable (values : Text → Option Text)

/-- What a piece is rendered to. A placeholder without a value stays as it is. -/
def Piece.rendered : Piece → Text
  | literal c => [c]
  | placeholder inside => (values inside).getD (wholeMatch inside)

/-- All placeholders replaced simultaneously. -/
def rendering (parts : List Piece) : Text := parts.flatMap (Piece.rendered values)

/-- One iteration of the loop: the value goes to the first place of the placeholder. -/
def fillFirst (out inside : Text) : Text :=
  match values inside with
  | none => out
  | some value => replaceFirst (wholeMatch inside) value out

/-- What the loop has made of a template after the placeholders of some pieces. -/
def filled (template : Text) (parts : List Piece) : Text :=
  (insides parts).foldl (fillFirst values) template

/-- The loop finds every placeholder where it stands. -/
def InPlace (template : Text) : Prop :=
  ∀ before inside after, pieces template = before ++ .placeholder inside :: after →
    values inside ≠ none → firstPlace (wholeMatch inside) (filled values template before) =
      some (rendering values before).length

/-- No placeholder with a value occurs in the rendering of what stands in front of it. -/
def Fresh (template : Text) : Prop :=
  ∀ before inside after, pieces template = before ++ .placeholder inside :: after →
    values inside ≠ none → ¬ wholeMatch inside <:+: rendering values before

variable {values}

/-- One piece more is rendered behind the others. -/
theorem rendering_concat (parts : List Piece) (part : Piece) :
    rendering values (parts ++ [part]) = rendering values parts ++ part.rendered values := by
  rw [rendering, List.flatMap_append, List.flatMap_singleton]
  rfl

/-- A placeholder more is one iteration more. -/
theorem filled_placeholder (template : Text) (parts : List Piece) (inside : Text) :
    filled values template (parts ++ [.placeholder inside]) =
      fillFirst values (filled values template parts) inside := by
  simp [filled, insides, Piece.inside?]

/-- A literal more is no iteration. -/
theorem filled_literal (template : Text) (parts : List Piece) (c : Char) :
    filled values template (parts ++ [.literal c]) = filled values template parts := by
  rw [filled, insides, List.filterMap_append]
  exact congrArg _ (List.append_nil _)

/-- An iteration that finds the placeholder where it stands renders it. -/
theorem filled_concat {template : Text} {before after : List Piece} {part : Piece}
    (done : filled values template before = rendering values before ++ sources (part :: after))
    (place : ∀ inside, part = .placeholder inside → values inside ≠ none →
      firstPlace (wholeMatch inside) (filled values template before) =
        some (rendering values before).length) :
    filled values template (before ++ [part]) =
      rendering values (before ++ [part]) ++ sources after := by
  rw [rendering_concat, List.append_assoc]
  cases part with
  | literal c => rw [filled_literal, done]; rfl
  | placeholder inside =>
    have here := place inside rfl
    rw [filled_placeholder, fillFirst, Piece.rendered]
    cases given : values inside with
    | none => exact done
    | some value =>
      have source : sources (.placeholder inside :: after) = wholeMatch inside ++ sources after :=
        List.flatMap_cons
      have found := here (by rw [given]; exact Option.some_ne_none value)
      rw [done, source] at found
      rw [done, source]
      exact replaceFirst_of_firstPlace value found

/-- A loop that finds every placeholder where it stands, as long as it has rendered what stands in
front of it, has rendered the pieces up to any of them. -/
theorem filled_of_place {template : Text}
    (place : ∀ before inside after, pieces template = before ++ .placeholder inside :: after →
      values inside ≠ none →
      filled values template before =
        rendering values before ++ sources (.placeholder inside :: after) →
      firstPlace (wholeMatch inside) (filled values template before) =
        some (rendering values before).length)
    {before after : List Piece} (split : pieces template = before ++ after) :
    filled values template before = rendering values before ++ sources after := by
  induction before using List.reverseRecOn generalizing after with
  | nil =>
    rw [List.nil_append] at split
    rw [← split, sources_pieces]
    rfl
  | append_singleton before part ih =>
    rw [List.append_assoc] at split
    have done := ih split
    apply filled_concat done
    intro inside same given
    cases same
    exact place before inside after split given done

/-- Where the loop has rendered what stands in front of a placeholder, it finds the placeholder
where it stands exactly when it does not occur in what has been rendered. -/
theorem place_iff_absent {template inside : Text} {before after : List Piece}
    (split : pieces template = before ++ .placeholder inside :: after)
    (done : filled values template before =
      rendering values before ++ sources (.placeholder inside :: after)) :
    firstPlace (wholeMatch inside) (filled values template before) =
        some (rendering values before).length ↔
      ¬ wholeMatch inside <:+: rendering values before := by
  have member : .placeholder inside ∈ pieces template := by simp [split]
  have source : sources (.placeholder inside :: after) = wholeMatch inside ++ sources after :=
    List.flatMap_cons
  rw [done, source]
  exact firstPlace_wholeMatch_iff (enclosed_of_mem_piecesBehind member).closed _ _

/-- The loop has rendered the pieces up to any of them when it finds every placeholder where it
stands. -/
theorem InPlace.filled_eq {template : Text} (inPlace : InPlace values template)
    {before after : List Piece} (split : pieces template = before ++ after) :
    filled values template before = rendering values before ++ sources after :=
  filled_of_place (fun before inside after split given _ =>
    inPlace before inside after split given) split

/-- The loop finds every placeholder where it stands exactly when none with a value occurs in the
rendering of what stands in front of it. -/
theorem inPlace_iff_fresh (template : Text) : InPlace values template ↔ Fresh values template := by
  constructor
  · intro inPlace before inside after split given
    rw [← place_iff_absent split (inPlace.filled_eq split)]
    exact inPlace before inside after split given
  · intro fresh before inside after split given
    have done := @filled_of_place values template (fun before inside after split given done =>
      (place_iff_absent split done).mpr (fresh before inside after split given)) before _ split
    exact (place_iff_absent split done).mpr (fresh before inside after split given)

/-- The loop renders a template whose placeholders are fresh. -/
theorem Fresh.foldl_eq {template : Text} (fresh : Fresh values template) :
    (placeholders template).foldl (fillFirst values) template =
      rendering values (pieces template) := by
  have inPlace := (inPlace_iff_fresh template).mpr fresh
  have done := inPlace.filled_eq (List.append_nil (pieces template)).symm
  rw [filled, insides_pieces] at done
  rw [done]
  exact List.append_nil _

/-- Pieces are rendered one after the other. -/
theorem rendering_append (front back : List Piece) :
    rendering values (front ++ back) = rendering values front ++ rendering values back :=
  List.flatMap_append

/-- Literals are rendered as they are. -/
theorem rendering_literals (text : Text) : rendering values (text.map .literal) = text := by
  induction text with
  | nil => rfl
  | cons c text ih => exact congrArg (c :: ·) ih

/-- A placeholder with a value is rendered as the value, in front of the other pieces. -/
theorem rendering_placeholder {inside value : Text} (given : values inside = some value)
    (parts : List Piece) :
    rendering values (.placeholder inside :: parts) = value ++ rendering values parts := by
  rw [rendering, List.flatMap_cons, Piece.rendered, given]
  rfl

/-- Placeholders are fresh when nothing that stands between them, and no value, has the character
that they begin with. -/
theorem fresh_of_free {template : Text} (literals : .literal '%' ∉ pieces template)
    (free : ∀ inside ∈ placeholders template, ∃ value, values inside = some value ∧ '%' ∉ value) :
    Fresh values template := by
  intro before inside after split _ found
  have opening : '%' ∈ rendering values before := found.subset List.mem_cons_self
  have ⟨piece, listed, shown⟩ := List.mem_flatMap.mp opening
  have member : piece ∈ pieces template := split ▸ List.mem_append_left _ listed
  cases piece with
  | literal c =>
    cases List.mem_singleton.mp shown
    exact literals member
  | placeholder other =>
    have place : other ∈ placeholders template := by
      rw [← insides_pieces]
      exact List.mem_filterMap.mpr ⟨_, member, rfl⟩
    have ⟨value, given, clean⟩ := free other place
    rw [Piece.rendered, given] at shown
    exact clean shown

end Rendering

end GrReveng.Python
