import GrReveng.Library.BitPacking
import GrReveng.Library.PyText

/-!
# Decoded values

The Python values that `pmt.to_python` makes, as far as the formatter looks into them: their
truth, their conversion to a `bytearray`, their slices, and what the format operators do with
them. An array knows of each element its text, its bytes in memory, its truth and its conversion
to a float. Arrays are read by `bytearray` through their memory.
-/

namespace GrReveng.PacketFormatter

open Python

/-- An element of an array. -/
structure Element where
  /-- `str` of the element. -/
  text : Text
  /-- Its bytes in memory. -/
  memory : List UInt8
  /-- Its truth. -/
  truth : Bool
  /-- `float` of the element, which a complex one does not have. -/
  number : Option Double

/-- A Python value. -/
inductive Value
  /-- `None`. -/
  | none
  /-- A truth value. -/
  | bool (truth : Bool)
  /-- An integer. -/
  | int (n : Int)
  /-- A float. -/
  | float (x : Double)
  /-- A complex number, of which only its being zero matters. -/
  | complex (zero : Bool)
  /-- A byte string. -/
  | str (text : Text)
  /-- A tuple. -/
  | tuple (items : List Value)
  /-- A list. -/
  | list (items : List Value)
  /-- A dictionary. -/
  | dict (entries : List (Value × Value))
  /-- A `numpy` array of one dimension. -/
  | array (elements : List Element)

/-- Entries of a dictionary. -/
abbrev Entries := List (Value × Value)

/-- The element of an array of bytes. -/
def Element.ofByte (byte : UInt8) : Element where
  text := decimal byte.toNat
  memory := [byte]
  truth := byte ≠ 0
  number := some (.finite false byte.toNat)

/-- An array of bytes. -/
def Value.bytes (data : List UInt8) : Value := .array (data.map Element.ofByte)

/-- `d.get(key, default)`; the keys of a dictionary are different. -/
def get (entries : Entries) (key : Text) (default : Value) : Value :=
  match entries.find? fun entry => match entry.1 with
    | .str text => text = key
    | _ => false with
  | some entry => entry.2
  | Option.none => default

/-- The truth of a value. An array of several elements has none. -/
def Value.truth : Value → Except PyError Bool
  | none => .ok false
  | bool truth => .ok truth
  | int n => .ok (n ≠ 0)
  | float (.finite _ magnitude) => .ok (magnitude ≠ 0)
  | float _ => .ok true
  | complex zero => .ok (!zero)
  | str text => .ok (text ≠ [])
  | tuple items => .ok (!items.isEmpty)
  | list items => .ok (!items.isEmpty)
  | dict entries => .ok (!entries.isEmpty)
  | array [] => .ok false
  | array [element] => .ok element.truth
  | array _ => .error .valueError

/-- The byte that an item of a sequence gives to `bytearray`. -/
def Value.byte : Value → Except PyError UInt8
  | bool truth => .ok (if truth then 1 else 0)
  | int n => if 0 ≤ n ∧ n < 256 then .ok (UInt8.ofNat n.toNat) else .error .valueError
  | str [c] => .ok (UInt8.ofNat c.toNat)
  | str _ => .error .valueError
  | _ => .error .typeError

/-- `bytearray(value)`. A number gives that many zeros, as many as it may be: memory has no limit
here. An array is read through its memory, as `numpy` allows since 1.12. -/
def byteArray : Value → Except PyError (List UInt8)
  | .bool truth => .ok (List.replicate (if truth then 1 else 0) 0)
  | .int n =>
    if n < -(2 : Int) ^ 63 ∨ (2 : Int) ^ 63 ≤ n then .error .overflowError
    else if n < 0 then .error .valueError
    else .ok (List.replicate n.toNat 0)
  | .str text => .ok (text.map fun c => UInt8.ofNat c.toNat)
  | .tuple items => items.mapM Value.byte
  | .list items => items.mapM Value.byte
  | .dict entries => entries.mapM fun entry => entry.1.byte
  | .array elements => .ok (elements.flatMap Element.memory)
  | _ => .error .typeError

/-- `value[start:stop]`. -/
def Value.slice (start stop : Option Int) : Value → Except PyError Value
  | str text => .ok (.str (Python.slice start stop text))
  | tuple items => .ok (.tuple (Python.slice start stop items))
  | list items => .ok (.list (Python.slice start stop items))
  | array elements => .ok (.array (Python.slice start stop elements))
  | _ => .error .typeError

/-- `float(value)`, as a float format converts its argument. -/
def Value.number : Value → Except PyError Double
  | bool truth => .ok (.finite false (if truth then 1 else 0))
  | int n => Double.ofInt n
  | float x => .ok x
  | array [element] => match element.number with
    | some x => .ok x
    | Option.none => .error .typeError
  | _ => .error .typeError

/-- `'%.6f' % value`. A tuple is the list of the arguments. -/
def Value.fixedSix : Value → Except PyError Text
  | tuple [] => .error .typeError
  | tuple [item] => item.number.map Double.fixedSix
  | tuple (item :: _) => item.number.bind fun _ => .error .typeError
  | value => value.number.map Double.fixedSix

/-- The characters of a replacement argument of `str.replace`; an array gives its memory. -/
def Value.characters : Value → Except PyError Text
  | str text => .ok text
  | array elements => .ok ((elements.flatMap Element.memory).map fun byte => Char.ofNat byte.toNat)
  | _ => .error .typeError

/-- `numpy.packbits(bytes)`: every byte that is not zero is a one, most significant bit first, and
the last byte is filled up with zeros. -/
def packbits (bytes : List UInt8) : List UInt8 :=
  packBytes ((bytes.map fun byte => decide (byte ≠ 0)) ++
    List.replicate ((8 - bytes.length % 8) % 8) false)

/-- `numpy.unpackbits(bytes)`, an array of bits. -/
def unpackbits (bytes : List UInt8) : Value :=
  .bytes ((unpackBytes bytes).map fun bit => if bit then 1 else 0)

end GrReveng.PacketFormatter
