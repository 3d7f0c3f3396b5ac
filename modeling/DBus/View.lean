import DBus.Data
import DBus.Receive

/-!
# Views of a value

A value does not say which data it was made from: a string may be a variant of an enumeration,
and an empty array a sequence or a map without entries. Data is got out of a value by asking for
a kind of data (`Request`), and the answer is a `View` of the value. Variants are looked through.

`Value.sighting` is all of a value as it looks when nothing in particular is asked for.
-/

namespace DBus

/-! ## Looking through variants -/

namespace Value

/-- The value inside of any number of variants. -/
def bare : Value → Value
  | variant _ v => v.bare
  | v => v

/-- Whether the value stands for nothing: the empty struct, or what stands for it among the
elements of an array of variants. -/
def isAbsent : Value → Bool
  | struct vs => vs.isEmpty
  | variant t v =>
    if t.ty = absentType then
      match v with
      | array vs => vs.isEmpty
      | _ => false
    else v.isAbsent
  | _ => false

/-- The keys and values of a dictionary: an array with entries and nothing else. -/
def dictionary? : List Value → Option (List (Value × Value))
  | [] => none
  | [dictEntry k v] => some [(k, v)]
  | dictEntry k v :: vs => do return (k, v) :: (← dictionary? vs)
  | _ => none

end Value

/-! ## Asking for a view -/

/-- The kind of data that a value is asked for. -/
inductive Request
  | any | char | bytes | option | newtype | map
  | enum (name : String)
  deriving DecidableEq, Repr

/-- A value as data, one level deep. -/
inductive View
  | scalar (s : Scalar)
  | char (c : Char)
  | text (s : String)
  /-- The bytes of a text. -/
  | textBytes (bs : Bytes)
  /-- The bytes of an array. -/
  | arrayBytes (bs : Bytes)
  | none
  | some (v : Value)
  | unit
  | newtype (v : Value)
  | seq (items : List Value)
  | map (entries : List (Value × Value))
  /-- A variant of an enumeration, with contents or without. -/
  | enum (variant : String) (contents : Option Value)
  deriving Repr

/-- A view as the messages about unexpected data call it. -/
def View.unexpected : View → Unexpected
  | scalar (.boolean b) => .boolean b
  | scalar (.int _ n _) => .integer n
  | scalar (.double d) => .double d
  | char c => .character c
  | text s => .text s
  | textBytes _ | arrayBytes _ => .bytes
  | none | some _ => .option
  | unit => .unit
  | newtype _ => .newtype
  | seq _ => .sequence
  | map _ => .map
  | enum _ _ => .enum

namespace Value

/-- The view of a value that is not asked for anything in particular. -/
def viewAny : Value → View
  | scalar s => .scalar s
  | text _ s => .text s
  | array vs =>
    match dictionary? vs with
    | some entries => .map entries
    | none => .seq vs
  | struct vs => if vs.isEmpty then .unit else .seq vs
  | dictEntry k v => .seq [k, v]
  | variant _ v => v.viewAny

/-- A number that stands for a character. -/
def viewChar (v : Value) : Except Error View :=
  match v.bare with
  | scalar (.int .uint32 n _) =>
    if n.toNat.isValidChar then .ok (.char (Char.ofNat n.toNat))
    else .error (.typeMismatch (.character n))
  | v => .ok v.viewAny

/-- The byte of an array of bytes. -/
def toByte : Value → Except Error UInt8
  | scalar (.int .byte n _) => .ok (.ofNat n.toNat)
  | v => .error (.typeMismatch (.byte v.code))

/-- A string or an array of bytes. -/
def viewBytes (v : Value) : Except Error View :=
  match v.bare with
  | text .string s => .ok (.textBytes (utf8 s))
  | array vs => do return .arrayBytes (← vs.mapM toByte)
  | v => .error (.typeMismatch (.byteArray v.code))

/-- A dictionary. The empty array has no entries to tell it from a sequence. -/
def viewMap (v : Value) : View :=
  match v.bare with
  | array [] => .map []
  | v => v.viewAny

/-- A variant of an enumeration: its name, or a pair of its name and its contents. -/
def viewEnum (name : String) (v : Value) : Except Error View :=
  match v.bare with
  | text .string s => .ok (.enum s none)
  | struct [text .string s, contents] => .ok (.enum s (some contents))
  | struct _ => .error (.typeMismatch (.enumPair name))
  | v => .error (.typeMismatch (.enumValue name v.code))

/-- The view of a value that is asked for a kind of data. -/
def view (v : Value) : Request → Except Error View
  | .any => .ok v.viewAny
  | .char => v.viewChar
  | .bytes => v.viewBytes
  | .option => .ok (if v.isAbsent then .none else .some v)
  | .newtype => .ok (.newtype v)
  | .map => .ok v.viewMap
  | .enum name => v.viewEnum name

end Value

/-- The contents of a variant of an enumeration, which has to have them. -/
def variantContents (variant : String) : Option Value → Except Error Value
  | some v => .ok v
  | none => .error (.typeMismatch (.variantContents variant))

/-- A variant of an enumeration that has to have no contents. -/
def unitVariant (variant : String) : Option Value → Except Error Unit
  | some v => .error (.typeMismatch (.unitVariant variant v.code))
  | none => .ok ()

/-! ## Sightings -/

/-- A value as data, all of it. -/
inductive Sighting
  | scalar (s : Scalar)
  | char (c : Char)
  | text (s : String)
  | textBytes (bs : Bytes)
  | arrayBytes (bs : Bytes)
  | none
  | some (inside : Sighting)
  | unit
  | newtype (inside : Sighting)
  | seq (items : List Sighting)
  | map (entries : List (Sighting × Sighting))
  | enum (variant contents : Sighting)
  deriving Repr

namespace Value

mutual

/-- All of a value as data. -/
def sighting : Value → Sighting
  | scalar s => .scalar s
  | text _ s => .text s
  | array vs =>
    if (dictionary? vs).isSome then .map (entrySightings vs) else .seq (sightings vs)
  | struct vs => if vs.isEmpty then .unit else .seq (sightings vs)
  | dictEntry k v => .seq [k.sighting, v.sighting]
  | variant _ v => v.sighting

/-- Each of a list of values as data. -/
def sightings : List Value → List Sighting
  | [] => []
  | v :: vs => v.sighting :: sightings vs

/-- The entries of a dictionary as data. -/
def entrySightings : List Value → List (Sighting × Sighting)
  | dictEntry k v :: vs => (k.sighting, v.sighting) :: entrySightings vs
  | _ => []

end

end Value

/-- What a view shows, all of it. -/
def View.sighting : View → Except Error Sighting
  | scalar s => .ok (.scalar s)
  | char c => .ok (.char c)
  | text s => .ok (.text s)
  | textBytes bs => .ok (.textBytes bs)
  | arrayBytes bs => .ok (.arrayBytes bs)
  | none => .ok .none
  | some v => .ok (.some v.sighting)
  | unit => .ok .unit
  | newtype v => .ok (.newtype v.sighting)
  | seq vs => .ok (.seq (vs.map Value.sighting))
  | map entries => .ok (.map (entries.map fun e => (e.1.sighting, e.2.sighting)))
  | enum variant contents => do
    return .enum (.text variant) (← variantContents variant contents).sighting

/-! ## Values of messages -/

/-- All that a message body in little-endian order holds: its one value, or the struct of its
values. -/
def Message.value (m : Message) : Except Error Value := do
  discard (readText m.signature)
  let args ← Argument.listOfSignature m.signature
  match ({} : Marshaller).receiveAll args (← m.reader .little) with
  | .error e _ => throw e
  | .ok vs r =>
    r.finish
    match vs with
    | [v] => return v
    | vs => return .struct vs

end DBus
