import GrReveng.PacketFormatter.Block

/-!
# Formatting

Facts about `format_output` as a whole, for every format string and every message: how it is
read, which errors it can raise, and which parts of the metadata the format reads.
-/

namespace GrReveng.PacketFormatter

open Python

/-- The memory of an array of bytes has these bytes. -/
theorem byteArray_bytes (data : List UInt8) : byteArray (.bytes data) = .ok data := by
  rw [Value.bytes, byteArray, List.flatMap_map]
  exact congrArg Except.ok (List.flatMap_singleton' data)

/-- Metadata without a truth is that of an empty dictionary. -/
theorem readPdu_falsy {car : Value} (cdr : Value) (given : car.truth = .ok false) :
    readPdu car cdr = .ok ([], cdr) := by
  rw [readPdu, given]
  rfl

/-- A dictionary says whether the bits are packed. -/
theorem readPdu_dict {entries : Entries} (cdr : Value)
    (given : (Value.dict entries).truth = .ok true) :
    readPdu (.dict entries) cdr =
      (get entries "packed".toList (.bool false)).truth >>= fun packed =>
        if packed then byteArray cdr >>= fun bytes => .ok (entries, unpackbits bytes)
        else .ok (entries, cdr) := by
  rw [readPdu, given]
  rfl

/-- Other metadata has no method `get`. -/
theorem readPdu_other {car : Value} (cdr : Value) (given : car.truth = .ok true)
    (other : ∀ entries, car ≠ .dict entries) : readPdu car cdr = .error .attributeError := by
  rw [readPdu, given]
  cases car with
  | dict entries => exact absurd rfl (other entries)
  | _ => rfl

/-- The result is no `IOError`. -/
def NoInputOutput {α : Type} (result : Except PyError α) : Prop := result ≠ .error .ioError

/-- A value is no error. -/
theorem NoInputOutput.ok {α : Type} (a : α) : NoInputOutput (.ok a) := fun h => nomatch h

/-- The other errors are no `IOError`. -/
theorem NoInputOutput.error {α : Type} {e : PyError} (other : e ≠ .ioError) :
    NoInputOutput (.error e : Except PyError α) := fun h => other (Except.error.inj h)

/-- A sequence of two computations without `IOError` has none. -/
theorem NoInputOutput.bind {α β : Type} {first : Except PyError α} {next : α → Except PyError β}
    (here : NoInputOutput first) (there : ∀ a, NoInputOutput (next a)) :
    NoInputOutput (first >>= next) := by
  cases first with
  | error e => exact NoInputOutput.error fun same => here (congrArg Except.error same)
  | ok a => exact there a

/-- A computation of every item has no `IOError` when that of each item has none. -/
theorem NoInputOutput.mapM {α β : Type} {f : α → Except PyError β}
    (each : ∀ a, NoInputOutput (f a)) (items : List α) : NoInputOutput (items.mapM f) := by
  induction items with
  | nil => exact NoInputOutput.ok []
  | cons a items ih =>
    rw [List.mapM_cons]
    exact (each a).bind fun b => ih.bind fun rest => NoInputOutput.ok (b :: rest)

/-- A loop whose body raises no `IOError` raises none. -/
theorem NoInputOutput.foldlM {α β : Type} {f : β → α → Except PyError β}
    (each : ∀ b a, NoInputOutput (f b a)) (items : List α) (b : β) :
    NoInputOutput (items.foldlM f b) := by
  induction items generalizing b with
  | nil => exact NoInputOutput.ok b
  | cons a items ih =>
    rw [List.foldlM_cons]
    exact (each b a).bind ih

/-- `int` of a text. -/
theorem pyInt_noInputOutput (base : Nat) (text : Text) : NoInputOutput (pyInt base text) := by
  unfold pyInt
  dsimp only
  split
  · exact NoInputOutput.ok _
  · exact NoInputOutput.error (by decide)

/-- The address of a placeholder. -/
theorem address_noInputOutput (what : List Text) : NoInputOutput (address what) := by
  unfold address
  split
  · split
    · exact NoInputOutput.error (by decide)
    · exact (pyInt_noInputOutput 10 _).bind fun start => NoInputOutput.ok _
    · apply (pyInt_noInputOutput 10 _).bind
      intro start
      split
      · exact NoInputOutput.ok _
      · exact (pyInt_noInputOutput 10 _).bind fun stop => NoInputOutput.ok _
  · exact NoInputOutput.ok _

/-- A byte of a sequence. -/
theorem byte_noInputOutput (item : Value) : NoInputOutput item.byte := by
  unfold Value.byte
  split
  · exact NoInputOutput.ok _
  · split
    · exact NoInputOutput.ok _
    · exact NoInputOutput.error (by decide)
  · exact NoInputOutput.ok _
  · exact NoInputOutput.error (by decide)
  · exact NoInputOutput.error (by decide)

/-- A conversion to a `bytearray`. -/
theorem byteArray_noInputOutput (value : Value) : NoInputOutput (byteArray value) := by
  unfold byteArray
  split
  · exact NoInputOutput.ok _
  · split
    · exact NoInputOutput.error (by decide)
    · split
      · exact NoInputOutput.error (by decide)
      · exact NoInputOutput.ok _
  · exact NoInputOutput.ok _
  · exact NoInputOutput.mapM byte_noInputOutput _
  · exact NoInputOutput.mapM byte_noInputOutput _
  · exact NoInputOutput.mapM (fun entry : Value × Value => byte_noInputOutput entry.1) _
  · exact NoInputOutput.ok _
  · exact NoInputOutput.error (by decide)

/-- A slice. -/
theorem slice_noInputOutput (start stop : Option Int) (value : Value) :
    NoInputOutput (value.slice start stop) := by
  unfold Value.slice
  split
  case h_5 => exact NoInputOutput.error (by decide)
  all_goals exact NoInputOutput.ok _

/-- A conversion to a float. -/
theorem number_noInputOutput (value : Value) : NoInputOutput value.number := by
  unfold Value.number
  split
  · exact NoInputOutput.ok _
  · unfold Double.ofInt
    dsimp only
    split
    · exact NoInputOutput.ok _
    · exact NoInputOutput.error (by decide)
  · exact NoInputOutput.ok _
  · split
    · exact NoInputOutput.ok _
    · exact NoInputOutput.error (by decide)
  · exact NoInputOutput.error (by decide)

/-- A float format. -/
theorem fixedSix_noInputOutput (value : Value) : NoInputOutput value.fixedSix := by
  have mapped : ∀ item : Value, NoInputOutput (item.number.map Double.fixedSix) := by
    intro item
    have number := number_noInputOutput item
    cases converted : item.number with
    | error e => exact NoInputOutput.error fun same => number (by rw [converted, same])
    | ok x => exact NoInputOutput.ok _
  unfold Value.fixedSix
  split
  · exact NoInputOutput.error (by decide)
  · exact mapped _
  · exact (number_noInputOutput _).bind fun _ => NoInputOutput.error (by decide)
  · exact mapped _

/-- The text of a placeholder. -/
theorem render_noInputOutput (metadata : Entries) (tipe : Text) (elements : List Element)
    (lBites : List UInt8) : NoInputOutput (render metadata tipe elements lBites) := by
  unfold render
  split
  · exact NoInputOutput.ok _
  split
  · exact (fixedSix_noInputOutput _).bind fun _ => NoInputOutput.ok _
  split
  · exact NoInputOutput.ok _
  split
  · exact NoInputOutput.ok _
  split
  · exact (pyInt_noInputOutput 2 _).bind fun _ => NoInputOutput.ok _
  split
  · exact NoInputOutput.ok _
  · exact NoInputOutput.ok _

/-- The elements of an array, or the error of another sequence. -/
theorem addable_noInputOutput (value : Value) : NoInputOutput (addable value) := by
  unfold addable
  split
  · exact NoInputOutput.ok _
  · exact NoInputOutput.error (by decide)

/-- The characters of a replacement. -/
theorem characters_noInputOutput (value : Value) : NoInputOutput value.characters := by
  unfold Value.characters
  split
  case h_3 => exact NoInputOutput.error (by decide)
  all_goals exact NoInputOutput.ok _

/-- One placeholder. -/
theorem substitute_noInputOutput (metadata : Entries) (bits : Value) (out inside : Text) :
    NoInputOutput (substitute metadata bits out inside) := by
  apply (address_noInputOutput _).bind
  intro range
  apply (slice_noInputOutput _ _ bits).bind
  intro subBits
  apply (byteArray_noInputOutput subBits).bind
  intro bytes
  apply (addable_noInputOutput subBits).bind
  intro elements
  apply (render_noInputOutput metadata _ elements _).bind
  intro rendered
  cases rendered with
  | none => exact NoInputOutput.ok out
  | some tmp => exact (characters_noInputOutput tmp).bind fun text => NoInputOutput.ok _

/-- No message makes `format_output` raise `IOError`. -/
theorem formatOutput_noInputOutput (formatStr : Text) (metadata : Entries) (bits : Value) :
    NoInputOutput (formatOutput formatStr metadata bits) :=
  NoInputOutput.foldlM (substitute_noInputOutput metadata bits) _ formatStr

/-- The type of a placeholder. -/
def placeholderType (inside : Text) : Text := ((rstrip ']' inside).splitOn '[').headD []

/-- The format reads the time stamp. -/
def ReadsTime (formatStr : Text) : Prop :=
  ∃ inside ∈ placeholders formatStr, placeholderType inside = "ts".toList

section Metadata

variable {metadata metadata' : Entries}

/-- A placeholder reads the name and, when it is of that type, the time stamp. -/
theorem render_congr {tipe : Text}
    (name : get metadata "name".toList (.str "None".toList) =
      get metadata' "name".toList (.str "None".toList))
    (time : tipe = "ts".toList →
      get metadata "ts".toList (.int (-1)) = get metadata' "ts".toList (.int (-1)))
    (elements : List Element) (lBites : List UInt8) :
    render metadata tipe elements lBites = render metadata' tipe elements lBites := by
  unfold render
  rw [name]
  by_cases stamped : tipe = "ts".toList
  · rw [time stamped]
  · rw [if_neg stamped, if_neg stamped]

/-- The metadata enters a text by the name and, when the format reads it, the time stamp. -/
theorem formatOutput_congr {formatStr : Text}
    (name : get metadata "name".toList (.str "None".toList) =
      get metadata' "name".toList (.str "None".toList))
    (time : ReadsTime formatStr →
      get metadata "ts".toList (.int (-1)) = get metadata' "ts".toList (.int (-1)))
    (bits : Value) :
    formatOutput formatStr metadata bits = formatOutput formatStr metadata' bits := by
  have each : ∀ inside ∈ placeholders formatStr, ∀ out,
      substitute metadata bits out inside = substitute metadata' bits out inside := by
    intro inside member out
    have same := @render_congr metadata metadata' (placeholderType inside) name
      fun stamped => time ⟨inside, member, stamped⟩
    rw [placeholderType] at same
    simp only [substitute, same]
  unfold formatOutput
  generalize placeholders formatStr = matched at each
  generalize formatStr = out
  induction matched generalizing out with
  | nil => rfl
  | cons inside rest ih =>
    rw [List.foldlM_cons, List.foldlM_cons, each inside List.mem_cons_self]
    exact congrArg _ (funext (ih fun later member => each later (List.mem_cons_of_mem _ member)))

end Metadata

end GrReveng.PacketFormatter
