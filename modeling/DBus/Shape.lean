import DBus.View

/-!
# Shapes of data

A `Shape` says which data is expected of a value: a number of some width, a text, a sequence of
elements of one shape, a record with named fields, and so on. `Shape.decode` gets the data of
the shape out of a value, or tells the first thing that is not as expected.

A tuple and a record take as many elements of a sequence as they have fields, and leave the
rest. A record also takes a dictionary, whose keys name its fields or count them; entries for
no field are left out, and an optional field may be missing.

How a value looks when it is asked for a kind of data is up to the value (`Value.view`). What is
asked for, what is made of the answer, and the words in which another answer is refused are up to
the type of the data, which brings its own decoder along. The decoders here are those that come
with the types of the standard library, and those that are derived for records and enumerations.
What each of them is taken to do is said where it is defined.
-/

namespace DBus

/-! ## Shapes -/

/-- The integer types of data: those of messages, and three that messages have not. -/
inductive NumberKind
  | wire (k : IntKind) | int8 | int128 | uint128
  deriving DecidableEq, Repr

/-- The name of the integer type in messages about data. -/
def NumberKind.name : NumberKind → String
  | wire k => NativeType.scalarName (.int k)
  | int8 => "i8"
  | int128 => "i128"
  | uint128 => "u128"

/-- The bounds of the integer type: the least number, and the first one above all. Integers of
128 bits have none, as no value is read as one. -/
def NumberKind.bounds? : NumberKind → Option (Int × Int)
  | wire k => some (k.lo, k.hi)
  | int8 => some (-128, 128)
  | int128 | uint128 => none

mutual

/-- What data is expected to be. -/
inductive Shape
  | int (k : NumberKind)
  | single
  | double
  | boolean
  | char
  /-- A text that is kept, or one that is only looked at. -/
  | text (owned : Bool)
  /-- Bytes that are kept, or those of a text, which are only looked at. -/
  | bytes (owned : Bool)
  | unit
  | unitStruct (name : String)
  /-- Anything, of which nothing is kept. -/
  | ignored
  | option (inside : Shape)
  | newtype (name : String) (inside : Shape)
  | seq (element : Shape)
  | tuple (elements : List Shape)
  | tupleStruct (name : String) (elements : List Shape)
  | map (key value : Shape)
  /-- A map of which a value is read before any key. -/
  | mapValueFirst
  | struct (name : String) (fields : List (String × Shape))
  | enum (name : String) (variants : List (String × VariantShape))
  /-- Anything, as the value looks when it is asked for the kind of data. -/
  | observed (request : Request)

/-- What the contents of a variant are expected to be. -/
inductive VariantShape
  | unit
  | newtype (inside : Shape)
  | tuple (elements : List Shape)
  | struct (fields : List (String × Shape))

end

/-- Data got out of a value. -/
inductive Decoded
  | int (k : NumberKind) (n : Int)
  | single (s : Single)
  | double (d : Double)
  | boolean (b : Bool)
  | char (c : Char)
  | text (s : String)
  | bytes (bs : Bytes)
  | unit
  | ignored
  | none
  | some (inside : Decoded)
  | seq (items : List Decoded)
  | map (entries : List (Decoded × Decoded))
  | variant (name : String) (contents : Decoded)
  | observed (s : Sighting)
  deriving Repr

/-- What gets data out of a value. -/
abbrev Decoder := Value → Except Error Decoded

/-! ## Single values -/

/-- The view is not of the kind that is expected. Every decoder refuses like this what it has no
use for, and tells what it expects in words of its own. -/
def View.refuse {α : Type} (v : View) (expected : String) : Except Error α :=
  .error (.decoding (.invalidType v.unexpected expected))

namespace Decoder

/-- An integer of any type within the bounds of the expected one. It asks for nothing in particular.
An integer out of the bounds is refused as a wrong value, and anything else, doubles and booleans
included, as a wrong kind of data. Integers of 128 bits are not asked for at all. -/
def int (k : NumberKind) : Decoder := fun v =>
  match k.bounds? with
  | none => .error (.decoding (.unsupported k.name))
  | some (lo, hi) =>
    match v.viewAny with
    | .scalar (.int _ n _) =>
      if lo ≤ n ∧ n < hi then .ok (.int k n)
      else .error (.decoding (.invalidValue (.integer n) k.name))
    | w => w.refuse k.name

/-- A double, or the one nearest to an integer. It asks for nothing in particular and takes every
number, so that an integer may lose digits. -/
def double : Decoder := fun v =>
  match v.viewAny with
  | .scalar (.double d) => .ok (.double d)
  | .scalar (.int _ n _) => .ok (.double (.ofInt n))
  | w => w.refuse "f64"

/-- The single nearest to a double or to an integer. It asks for nothing in particular and takes
every number. A double out of its range becomes infinite. -/
def single : Decoder := fun v =>
  match v.viewAny with
  | .scalar (.double d) => .ok (.single d.toSingle)
  | .scalar (.int _ n _) => .ok (.single (.ofInt n))
  | w => w.refuse "f32"

/-- A boolean. It asks for nothing in particular and takes no number for one. -/
def boolean : Decoder := fun v =>
  match v.viewAny with
  | .scalar (.boolean b) => .ok (.boolean b)
  | w => w.refuse "a boolean"

/-- A character, or a text of just one. It asks for a character. A text of another length is refused
as a wrong value, and anything else as a wrong kind of data. -/
def char : Decoder := fun v => do
  match ← v.viewChar with
  | .char c => return .char c
  | .text s =>
    match s.toList with
    | [c] => return .char c
    | _ => throw (.decoding (.invalidValue (.text s) "a character"))
  | w => w.refuse "a character"

/-- A text. It asks for nothing in particular. A text that is only looked at is taken from the value
just as one that is kept, for the value lends its texts, and only the words of a refusal differ. -/
def text (owned : Bool) : Decoder := fun v =>
  match v.viewAny with
  | .text s => .ok (.text s)
  | w => w.refuse (if owned then "a string" else "a borrowed string")

/-- The bytes of a text or, if they are kept, of an array. It asks for bytes. Those of an array are
made for the purpose, so they cannot be only looked at. -/
def bytes (owned : Bool) : Decoder := fun v => do
  match owned, ← v.viewBytes with
  | _, .textBytes bs => return .bytes bs
  | true, .arrayBytes bs => return .bytes bs
  | _, w => w.refuse (if owned then "a byte array" else "a borrowed byte array")

/-- Nothing. It asks for nothing in particular and takes only the empty struct. -/
def unit (expected : String) : Decoder := fun v =>
  match v.viewAny with
  | .unit => .ok .unit
  | w => w.refuse expected

/-- A value as it looks when it is asked for the kind of data. This one takes everything, and asks
what is inside for nothing in particular. -/
def observed (request : Request) : Decoder := fun v => do
  return .observed (← (← v.view request).sighting)

/-! ## Sequences and maps -/

/-- A sequence of elements, of any length. It asks for nothing in particular, and gets the elements
out in their order up to the first that fails. -/
def seq (element : Decoder) : Decoder := fun v =>
  match v.viewAny with
  | .seq vs => do return .seq (← vs.mapM element)
  | w => w.refuse "a sequence"

/-- One element for each decoder, the first of them being element number `index` of what the
label names. The elements are got out in their order up to the first that fails or is missing,
and a missing one is told by how many there were. Further elements are left and are no error. -/
def elements (label : String) : (index : Nat) → List Decoder → List Value →
    Except Error (List Decoded)
  | _, [], _ => .ok []
  | index, _ :: _, [] => .error (.decoding (.invalidLength index label))
  | index, f :: fs, v :: vs => do
    let d ← f v
    let ds ← elements label (index + 1) fs vs
    return d :: ds

/-- A sequence with an element for each decoder. It asks for nothing in particular. -/
def tuple (expected label : String) (fs : List Decoder) : Decoder := fun v =>
  match v.viewAny with
  | .seq vs => do return .seq (← elements label 0 fs vs)
  | w => w.refuse expected

/-- A dictionary, entry by entry. It asks for a map, and gets each key out before the value of its
entry, up to the first that fails. Keys may come twice. -/
def map (key value : Decoder) : Decoder := fun v =>
  match v.viewMap with
  | .map entries => do
    return .map (← entries.mapM fun e => do
      let k ← key e.1
      let d ← value e.2
      return (k, d))
  | w => w.refuse "a map"

/-- A dictionary, asked for a value before any key. No data type of its own accord does that. -/
def mapValueFirst : Decoder := fun v =>
  match v.viewMap with
  | .map _ => .error (.decoding .valueBeforeKey)
  | w => w.refuse "a map"

/-! ## Records -/

/-- A field of a record. A derived decoder lets fields be missing whose type is an option, and no
others. -/
structure Field where
  name : String
  optional : Bool
  decode : Decoder

/-- The field that a key stands for, if there is one: by name, or by number if the key is an
unsigned integer. A derived decoder refuses any other key, but not one that stands for no field. -/
def fieldIndex (fields : List Field) (key : Value) : Except Error (Option Nat) :=
  match key.viewAny with
  | .text s => .ok (fields.findIdx? fun f => f.name = s)
  | .scalar (.int k n h) =>
    if k.signed then (View.scalar (.int k n h)).refuse "field identifier"
    else .ok (if n.toNat < fields.length then some n.toNat else none)
  | w => w.refuse "field identifier"

/-- The fields found in the entries of a dictionary, on top of those found before. No field may
come twice, which is noticed before the second one is got out. The value of a key for no field is
not looked at. -/
def collect (fields : List Field) :
    List (Option Decoded) → List (Value × Value) → Except Error (List (Option Decoded))
  | found, [] => .ok found
  | found, (k, v) :: entries => do
    match ← fieldIndex fields k with
    | none => collect fields found entries
    | some i =>
      match fields[i]?, found[i]? with
      | some f, some none =>
        let d ← f.decode v
        collect fields (found.set i (some d)) entries
      | some f, _ => throw (.decoding (.duplicateField f.name))
      | none, _ => collect fields found entries

/-- Every field, where those not found have to be optional. The first one missing is told. -/
def complete : List Field → List (Option Decoded) → Except Error (List Decoded)
  | f :: fs, found => do
    let d ←
      match found.head?.join with
      | some d => pure d
      | none => if f.optional then pure .none else throw (.decoding (.missingField f.name))
    let ds ← complete fs found.tail
    return d :: ds
  | [], _ => .ok []

/-- The fields of a record out of a view: those of a sequence by their places, those of a
dictionary by their keys. A derived decoder takes both, whatever it has asked for. -/
def fieldsOf (expected label : String) (fields : List Field) : View → Except Error Decoded
  | .seq vs => do return .seq (← elements label 0 (fields.map Field.decode) vs)
  | .map entries => do
    return .seq (← complete fields (← collect fields (fields.map fun _ => none) entries))
  | w => w.refuse expected

/-! ## Enumerations -/

/-- What gets data out of the contents of a variant. -/
structure Variant where
  name : String
  decode : (contents : Option Value) → Except Error Decoded

/-- A variant of an enumeration with its contents. It asks for a variant of the enumeration by
name. A name that no variant has is refused before the contents are looked at, with the names
there are. -/
def enum (name : String) (variants : List Variant) : Decoder := fun v => do
  match ← v.viewEnum name with
  | .enum s contents =>
    match variants.find? fun x => x.name = s with
    | some x => return .variant s (← x.decode contents)
    | none => throw (.decoding (.unknownVariant s (variants.map Variant.name)))
  | w => w.refuse ("enum " ++ name)

end Decoder

/-! ## Decoding -/

/-- A name of something that has `n` elements. -/
def withElements (what : String) (n : Nat) : String :=
  what ++ s!" with {n} " ++ if n = 1 then "element" else "elements"

namespace Shape

/-- A field of the shape may be missing. -/
def isOption : Shape → Bool
  | option _ => true
  | _ => false

mutual

/-- The data of the shape that a value holds. An option is asked for as such, and the value itself
is inside of it unless it is absent. A newtype is decoded as what is inside of it, and what is
ignored is not looked at. A record asks for a map. -/
def decode : Shape → Decoder
  | int k => Decoder.int k
  | single => Decoder.single
  | double => Decoder.double
  | boolean => Decoder.boolean
  | char => Decoder.char
  | text owned => Decoder.text owned
  | bytes owned => Decoder.bytes owned
  | unit => Decoder.unit "unit"
  | unitStruct name => Decoder.unit ("unit struct " ++ name)
  | ignored => fun _ => .ok .ignored
  | option t => fun v => if v.isAbsent then .ok .none else do return .some (← t.decode v)
  | newtype _ t => t.decode
  | seq t => Decoder.seq t.decode
  | tuple ts =>
    let label := s!"a tuple of size {ts.length}"
    Decoder.tuple label label (decoders ts)
  | tupleStruct name ts =>
    let expected := "tuple struct " ++ name
    Decoder.tuple expected (withElements expected ts.length) (decoders ts)
  | map k t => Decoder.map k.decode t.decode
  | mapValueFirst => Decoder.mapValueFirst
  | struct name fields => fun v =>
    let expected := "struct " ++ name
    Decoder.fieldsOf expected (withElements expected fields.length) (fieldDecoders fields)
      v.viewMap
  | enum name variants => Decoder.enum name (variantDecoders name variants)
  | observed request => Decoder.observed request

/-- Each of a list of shapes. -/
def decoders : List Shape → List Decoder
  | [] => []
  | t :: ts => t.decode :: decoders ts

/-- The fields of a record. -/
def fieldDecoders : List (String × Shape) → List Decoder.Field
  | [] => []
  | (name, t) :: fields => ⟨name, t.isOption, t.decode⟩ :: fieldDecoders fields

/-- The variants of the enumeration `enum`. -/
def variantDecoders (enum : String) : List (String × VariantShape) → List Decoder.Variant
  | [] => []
  | (name, shape) :: variants =>
    ⟨name, contentsDecoder enum name shape⟩ :: variantDecoders enum variants

/-- The contents of a variant of the enumeration `enum`. Those of a tuple or a record are asked for
nothing in particular. -/
def contentsDecoder (enum name : String) : VariantShape → Option Value → Except Error Decoded
  | .unit, contents => do
    unitVariant name contents
    return .unit
  | .newtype t, contents => do t.decode (← variantContents name contents)
  | .tuple ts, contents => do
    let expected := "tuple variant " ++ enum ++ "::" ++ name
    Decoder.tuple expected (withElements expected ts.length) (decoders ts)
      (← variantContents name contents)
  | .struct fields, contents => do
    let expected := "struct variant " ++ enum ++ "::" ++ name
    Decoder.fieldsOf expected (withElements expected fields.length) (fieldDecoders fields)
      (← variantContents name contents).viewAny

end

/-- The data of the shape that a message holds. -/
def decodeMessage (t : Shape) (m : Message) : Except Error Decoded := do
  t.decode (← m.value)

end Shape

end DBus
