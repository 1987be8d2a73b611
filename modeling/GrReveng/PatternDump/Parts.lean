import GrReveng.Library.Segments
import GrReveng.Library.Representations
import GrReveng.PatternDump.Substitution

/-!
# Formats of variables and labels

An output format made of variables and of labels without a `%`. On bits `format_output` shows its
parts one after the other, each variable as its value, as long as no value that comes into the text
has a `%`; only the characters of the dump can have one.
-/

namespace GrReveng.PatternDump

open Python PacketFormatter

/-- The variables of an output format. -/
inductive Variable
  /-- `%s`, the relative time. -/
  | time
  /-- `%[bits]`. -/
  | bits
  /-- `%[hex]`. -/
  | hex
  /-- `%[ascii]`. -/
  | ascii
  /-- `%[man-bits]`. -/
  | manBits
  /-- `%[pwm-bits]`. -/
  | pwmBits
  /-- `%[hdlcd]`. -/
  | hdlcd
  deriving DecidableEq

/-- How a variable is written. -/
def Variable.name : Variable → Text
  | time => "%s".toList
  | bits => "%[bits]".toList
  | hex => "%[hex]".toList
  | ascii => "%[ascii]".toList
  | manBits => "%[man-bits]".toList
  | pwmBits => "%[pwm-bits]".toList
  | hdlcd => "%[hdlcd]".toList

/-- What a variable shows. -/
def Variable.value (now : Now) (samples : List Bool) : Variable → Text
  | time => timeStr now.diff
  | bits => bitsText (samples.map bitSample)
  | hex => hexText (dumpBites samples)
  | ascii => asciiText (dumpBites samples)
  | manBits => manDecode (samples.map bitSample)
  | pwmBits => pwmDecode (samples.map bitSample)
  | hdlcd => hdlcDataDecode (samples.map bitSample)

/-- A part of an output format. -/
inductive Part
  /-- A text that is shown as it is. -/
  | label (text : Text)
  /-- A variable. -/
  | shown (what : Variable)
  deriving DecidableEq

/-- How a part is written. -/
def Part.source : Part → Text
  | label text => text
  | shown what => what.name

/-- What a part shows. -/
def Part.value (now : Now) (samples : List Bool) : Part → Text
  | label text => text
  | shown what => what.value now samples

/-- A part that begins no other variable: a label without a `%`, or a variable. -/
def Part.Clean : Part → Prop
  | label text => '%' ∉ text
  | shown _ => True

instance : DecidablePred Part.Clean
  | .label text => inferInstanceAs (Decidable ('%' ∉ text))
  | .shown _ => .isTrue trivial

/-- A format whose parts are shown one by one. -/
structure Separable (cfg : Output) (parts : List Part) : Prop where
  /-- The time is not absolute. -/
  timed : cfg.relTime ≠ .absolute
  /-- The format has these parts. -/
  format : cfg.outputFmt = parts.flatMap Part.source
  /-- No label has a `%`. -/
  labels : ∀ part ∈ parts, part.Clean
  /-- A time that is shown is relative. -/
  relative : .shown .time ∈ parts → cfg.relTime = .relative

/-- Bits whose characters are shown have no `%` among them. -/
def Unambiguous (parts : List Part) (samples : List Bool) : Prop :=
  .shown .ascii ∈ parts → 37 ∉ dumpBites samples

section Values

variable {cfg : Output} {parts : List Part} {samples : List Bool}

/-- The names that are replaced. -/
theorem formatVariables_names (timed : cfg.relTime ≠ .absolute) (now : Now) (samples : List Bool) :
    ((formatVariables cfg now samples).map Prod.fst).Sublist variableNames := by
  rw [formatVariables, earlyVariables]
  cases mode : cfg.relTime with
  | none => exact List.tail_sublist variableNames
  | relative => exact List.Sublist.refl variableNames
  | absolute => exact absurd mode timed

/-- The rule of a variable. -/
theorem mem_formatVariables (now : Now) (samples : List Bool) {what : Variable}
    (relative : what = .time → cfg.relTime = .relative) :
    (what.name, what.value now samples) ∈ formatVariables cfg now samples := by
  let rule := fun what : Variable => (what.name, what.value now samples)
  have untimed : [("%[bits]".toList, bitsText (samples.map bitSample)),
      ("%[hex]".toList, hexText (dumpBites samples))] ++
        asciiVariable samples :: lateVariables samples =
      [Variable.bits, .hex, .ascii, .manBits, .pwmBits, .hdlcd].map rule := rfl
  rw [formatVariables, earlyVariables, List.append_assoc, untimed]
  by_cases timed : what = .time
  · rw [if_pos (relative timed), timed]
    exact List.mem_append_left _ List.mem_cons_self
  · have other : what ∈ [Variable.bits, .hex, .ascii, .manBits, .pwmBits, .hdlcd] := by
      cases what with
      | time => exact absurd rfl timed
      | _ => decide
    exact List.mem_append_right _ (List.mem_map_of_mem other)

/-- The value that a variable gets. -/
theorem resolved_name (timed : cfg.relTime ≠ .absolute) (now : Now) (samples : List Bool)
    {what : Variable} (relative : what = .time → cfg.relTime = .relative) :
    resolved (formatVariables cfg now samples) what.name = what.value now samples := by
  have names := formatVariables_names timed now samples
  have different : variableNames.Nodup := by decide
  exact resolved_of_mem (different.sublist names) (mem_formatVariables now samples relative)

/-- A rule whose name is a part of the format brings no `%` into the text. -/
theorem free_of_part (separable : Separable cfg parts) (clear : Unambiguous parts samples)
    (now : Now) {rule : Rule Char} (member : rule ∈ formatVariables cfg now samples)
    (inside : rule.1 ∈ parts.map Part.source) : '%' ∉ rule.2 := by
  rw [formatVariables, List.mem_append, List.mem_cons] at member
  rcases member with early | same | late
  · exact free_values cfg now samples rule (List.mem_append_left _ early)
  · obtain ⟨part, listed, name⟩ := List.mem_map.mp inside
    rw [same] at name ⊢
    change part.source = Variable.ascii.name at name
    have shown : part = .shown .ascii := by
      cases part with
      | label text =>
        have given : text = Variable.ascii.name := name
        have sign : '%' ∈ Variable.ascii.name := by decide
        exact absurd (given ▸ sign) (separable.labels (.label text) listed)
      | shown what =>
        cases what with
        | ascii => rfl
        | _ => exact absurd name (by decide)
    exact percent_not_mem_reprInside (percent_not_mem_characters (clear (shown ▸ listed)))
  · exact free_values cfg now samples rule (List.mem_append_right _ late)

/-- The output shows the parts of the format one after the other. -/
theorem formatOutput_parts (separable : Separable cfg parts) (clear : Unambiguous parts samples)
    (now : Now) :
    formatOutput cfg now (samples.map bitSample) =
      .ok (parts.flatMap (Part.value now samples)) := by
  have vocabulary : Vocabulary '%' variableNames := ⟨by decide, by decide⟩
  have names : ∀ rule ∈ formatVariables cfg now samples, rule.1 ∈ variableNames :=
    fun rule member => (formatVariables_names separable.timed now samples).subset
      (List.mem_map_of_mem member)
  have segmented : Segmented '%' variableNames (parts.map Part.source) := by
    intro segment member
    have ⟨part, listed, same⟩ := List.mem_map.mp member
    rw [← same]
    cases part with
    | label text => exact .inr (separable.labels (.label text) listed)
    | shown what =>
      left
      cases what <;> decide
  have each := vocabulary.replaceEach_flatten names segmented fun rule member =>
    free_of_part separable clear now member
  have marked : ∀ rule ∈ formatVariables cfg now samples, Marked '%' rule.1 :=
    fun rule member => vocabulary.marked _ (names rule member)
  rw [formatOutput_bits separable.timed, separable.format, List.flatMap_def, each,
    List.flatMap_map]
  congr 1
  apply List.flatMap_congr
  intro part member
  cases part with
  | label text => exact resolved_free marked (separable.labels (.label text) member)
  | shown what =>
    exact resolved_name separable.timed now samples fun same =>
      separable.relative (same ▸ member)

/-- All values but the characters are plain. -/
theorem plain_value (now : Now) (samples : List Bool) {what : Variable} (other : what ≠ .ascii) :
    Plain (what.value now samples) := by
  cases what with
  | time => exact plain_timeStr now.diff
  | bits => exact plain_bitsText samples
  | hex =>
    rw [Variable.value, hexText_eq]
    exact plain_hexBytes _
  | ascii => exact absurd rfl other
  | hdlcd =>
    rw [Variable.value, hdlcDataDecode_eq]
    exact plain_hexBytes _
  | _ => exact plain_decodeSymbols _ _ _ _

/-- No value has the end of a line in it. -/
theorem newline_not_mem_value (now : Now) (samples : List Bool) (what : Variable) :
    '\n' ∉ what.value now samples := by
  intro member
  by_cases shown : what = .ascii
  · rw [shown] at member
    exact newline_not_printable (printable_reprInside member)
  · exact absurd (plain_value now samples shown _ member) (by decide)

end Values

end GrReveng.PatternDump
