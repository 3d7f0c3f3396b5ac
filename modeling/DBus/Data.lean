import DBus.Marshal

/-!
# Data as values

`Data` is structured data of a program, in the terms in which data describes itself: numbers and
texts, options, sequences, tuples, maps, records with named fields and the variants of
enumerations. `Data.toValue` makes it a value of a message.

A sequence becomes an array of its elements if they have a type in common, and otherwise an
array of variants. A map becomes a dictionary of variants. A record becomes a dictionary of
variants by name, or a struct of its fields, as a policy says for its name (`StructStyle`). A
variant of an enumeration is its name, or a pair of its name and its contents in a variant.

Nothing and absent options become the empty struct, which no message can carry. A dictionary
leaves such entries out, and in an array of variants an empty array of bytes stands for one.
-/

namespace DBus

/-! ## Data -/

/-- What a part of a map is: a key, or the value for the key before it. -/
inductive MapRole
  | key | value
  deriving DecidableEq, Repr

/-- Structured data. -/
inductive Data
  | scalar (s : Scalar)
  | int8 (n : Int8)
  | int128 (n : Int)
  | uint128 (n : Nat)
  | single (s : Single)
  | char (c : Char)
  | text (s : String)
  | bytes (bs : Bytes)
  | none
  | some (d : Data)
  | unit
  | unitStruct (name : String)
  | newtypeStruct (name : String) (d : Data)
  | seq (items : List Data)
  | tuple (items : List Data)
  | tupleStruct (name : String) (items : List Data)
  | map (parts : List (MapRole × Data))
  | struct (name : String) (fields : List (String × Data))
  | unitVariant (enum variant : String)
  | newtypeVariant (enum variant : String) (d : Data)
  | tupleVariant (enum variant : String) (items : List Data)
  | structVariant (enum variant : String) (fields : List (String × Data))
  /-- Data that reports a failure of its own. -/
  | failure (text : String)
  deriving Repr

/-- How a record becomes a value. -/
inductive StructStyle
  /-- A struct of the fields in order. -/
  | positional
  /-- A dictionary of the fields by name. -/
  | dictionary
  deriving DecidableEq, Repr

/-- The style of each record, by its name or by the name of the variant it is the contents of. -/
abbrev StructPolicy := String → StructStyle

namespace StructPolicy

/-- All records are dictionaries. -/
def dictionaries : StructPolicy := fun _ => .dictionary

/-- All records are structs. -/
def structs : StructPolicy := fun _ => .positional

/-- The records of the given names are structs. -/
def only (names : List String) : StructPolicy := fun name =>
  if names.contains name then .positional else .dictionary

end StructPolicy

/-! ## Values made from data -/

theorem fits_byte (b : UInt8) : IntKind.byte.Fits b.toNat :=
  ⟨Int.natCast_nonneg _, Int.ofNat_lt.mpr b.toNat_lt⟩

namespace Value

/-- A byte. -/
def ofByte (b : UInt8) : Value := scalar (.int .byte b.toNat (fits_byte b))

/-- A string. -/
def ofString (s : String) : Value := text .string s

/-- The empty struct. -/
def isNothing : Value → Bool
  | struct vs => vs.isEmpty
  | _ => false

/-- The type of a value made from data. An empty array is one of variants. -/
def dataArgument : Value → Except Error Argument
  | array [] => .ok ⟨.array .variant, Option.none⟩
  | v => v.inferArgument

/-- A value made from data in a variant. -/
def wrap (v : Value) : Except Error Value := do
  return variant (← v.dataArgument) v

/-- The type of the variant that stands for nothing among the elements of an array. -/
def absentType : Ty := .array (.int .byte)

/-- A value made from data in a variant, as an element of an array of variants. -/
def wrapElement (v : Value) : Except Error Value :=
  if v.isNothing then .ok (variant ⟨absentType, Option.none⟩ (array [])) else v.wrap

/-- Whether values have a type in common, so that they can be the elements of an array. -/
def haveElementType : List Value → Bool
  | [] => true
  | v :: vs =>
    match v.infer with
    | .ok element =>
      vs.all fun u =>
        match u.infer with
        | .ok other => other = element
        | .error _ => false
    | .error _ => false

/-- The elements of a sequence as an array. -/
def ofElements (vs : List Value) : Except Error Value := do
  if haveElementType vs then return array vs else return array (← vs.mapM wrapElement)

/-- A variant of an enumeration with its contents. -/
def ofVariant (name : String) (contents : Value) : Except Error Value := do
  return struct [ofString name, ← contents.wrap]

/-- An entry of a dictionary, unless there is nothing to enter. -/
def entries (v key : Value) : Except Error (List Value) := do
  if v.isNothing then return [] else return [dictEntry key (← v.wrap)]

/-- A value as the key of a map, which has to be basic. -/
def asKey (v : Value) : Except Error Value :=
  if v.code.isContainer then .error (.encoding (.containerKey v.code)) else .ok v

end Value

namespace StructStyle

/-- A field as part of a record. -/
def field (name : String) (v : Value) : StructStyle → Except Error (List Value)
  | positional => .ok [v]
  | dictionary => v.entries (.ofString name)

/-- The record of its parts. -/
def record (vs : List Value) : StructStyle → Value
  | positional => .struct vs
  | dictionary => .array vs

end StructStyle

/-- The number of an 8-bit integer is within 16 bits. -/
theorem fits_int16 (n : Int8) : IntKind.int16.Fits n.toInt := by
  have h := n.le_toInt
  have h' := n.toInt_lt
  simp [IntKind.Fits, IntKind.lo, IntKind.hi, IntKind.bits, IntKind.size, IntKind.signed]
  omega

/-- The number of a character is within 32 bits. -/
theorem fits_uint32 (c : Char) : IntKind.uint32.Fits c.toNat := by
  have h : c.toNat < 2 ^ 32 := c.val.toNat_lt
  simp [IntKind.Fits, IntKind.lo, IntKind.hi, IntKind.bits, IntKind.size, IntKind.signed]
  omega

namespace Data

mutual

/-- Data as a value. -/
def toValue (p : StructPolicy) : Data → Except Error Value
  | scalar s => .ok (.scalar s)
  | int8 n => .ok (.scalar (.int .int16 n.toInt (fits_int16 n)))
  | int128 _ => .error (.encoding (.unsupported "i128"))
  | uint128 _ => .error (.encoding (.unsupported "u128"))
  | single s => .ok (.scalar (.double s.toDouble))
  | char c => .ok (.scalar (.int .uint32 c.toNat (fits_uint32 c)))
  | text s => .ok (.ofString s)
  | bytes bs => .ok (.array (bs.map .ofByte))
  | none | unit | unitStruct _ => .ok (.struct [])
  | some d => d.toValue p
  | newtypeStruct _ d => d.toValue p
  | seq ds => do Value.ofElements (← toValues p ds)
  | tuple ds => do return .struct (← toValues p ds)
  | tupleStruct _ ds => do return .struct (← toValues p ds)
  | map parts => do return .array (← toEntries p Option.none parts)
  | struct name fields => do return (p name).record (← toFields p (p name) fields)
  | unitVariant _ v => .ok (.ofString v)
  | newtypeVariant _ v d => do (← d.toValue p).ofVariant v
  | tupleVariant _ v ds => do (Value.struct (← toValues p ds)).ofVariant v
  | structVariant _ v fields => do ((p v).record (← toFields p (p v) fields)).ofVariant v
  | failure t => .error (.encoding (.reported t))

/-- Each of a list of data as a value. -/
def toValues (p : StructPolicy) : List Data → Except Error (List Value)
  | [] => .ok []
  | d :: ds => do
    let v ← d.toValue p
    let vs ← toValues p ds
    return v :: vs

/-- The parts of a map as entries, where `key` is waiting for its value. A key without a value
is dropped. -/
def toEntries (p : StructPolicy) (key : Option Value) :
    List (MapRole × Data) → Except Error (List Value)
  | [] => .ok []
  | (.key, d) :: parts => do
    let k ← (← d.toValue p).asKey
    toEntries p k parts
  | (.value, d) :: parts =>
    match key with
    | Option.none => .error (.encoding .valueWithoutKey)
    | Option.some k => do
      let entry ← (← d.toValue p).entries k
      let rest ← toEntries p Option.none parts
      return entry ++ rest

/-- The fields of a record as what a record of the style holds. -/
def toFields (p : StructPolicy) (style : StructStyle) :
    List (String × Data) → Except Error (List Value)
  | [] => .ok []
  | (name, d) :: fields => do
    let field ← style.field name (← d.toValue p)
    let rest ← toFields p style fields
    return field ++ rest

end

end Data

/-! ## Messages made from data -/

/-- A value made from data as the body of a message in little-endian order. -/
def Value.toMessage (v : Value) : Except Error Message := do
  let a ← v.dataArgument
  match ({} : Marshaller).writeValue a.ty v (.top .little) {} with
  | .ok () message => return message
  | .error e _ => throw e

/-- Data as the body of a message in little-endian order. -/
def Data.toMessage (p : StructPolicy) (d : Data) : Except Error Message := do
  (← d.toValue p).toMessage

end DBus
