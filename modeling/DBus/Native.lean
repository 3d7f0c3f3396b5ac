import DBus.TypeCode

/-!
# Native types

A native call takes and returns scalars, text references and *boxed* values. `NativeType` is a
type of such a call. A boxed value is named by its kind alone (`BoxedType`), or by a typed
array, struct or dictionary that also says what it holds.

The written forms are those of the declarations the library generates (`display`) and of its
messages (`describe`).
-/

namespace DBus

/-- The kind of a boxed value. -/
inductive BoxedType
  | number | boolean | string | objectPath | signature | array | dictionary | struct | variant
  deriving DecidableEq, Repr

/-- The name of the kind. -/
def BoxedType.name : BoxedType → String
  | number => "Number"
  | boolean => "Boolean"
  | string => "String"
  | objectPath => "ObjectPath"
  | signature => "Signature"
  | array => "Array"
  | dictionary => "Dictionary"
  | struct => "Struct"
  | variant => "Variant"

/-- A type in a native call. -/
inductive NativeType
  | void
  | scalar (code : FixedCode)
  | str
  | boxed (kind : BoxedType)
  | array (element : NativeType)
  | struct (fields : List NativeType)
  | dict (key value : NativeType)
  deriving Repr

namespace NativeType

/-! ## Equality -/

mutual

/-- Equality of two native types is decided node by node. -/
def decEq : (s t : NativeType) → Decidable (s = t)
  | void, void => isTrue rfl
  | scalar c, scalar d =>
    if h : c = d then isTrue (by rw [h]) else isFalse (by simpa using h)
  | str, str => isTrue rfl
  | boxed k, boxed l =>
    if h : k = l then isTrue (by rw [h]) else isFalse (by simpa using h)
  | array s, array t =>
    match decEq s t with
    | isTrue h => isTrue (by rw [h])
    | isFalse h => isFalse (by simpa using h)
  | struct ss, struct ts =>
    match decEqAll ss ts with
    | isTrue h => isTrue (by rw [h])
    | isFalse h => isFalse (by simpa using h)
  | dict k s, dict l t =>
    match decEq k l, decEq s t with
    | isTrue hk, isTrue h => isTrue (by rw [hk, h])
    | isFalse hk, _ => isFalse fun e => hk (by injection e)
    | _, isFalse h => isFalse fun e => h (by injection e)
  | void, scalar _ | void, str | void, boxed _ | void, array _ | void, struct _ | void, dict _ _
  | scalar _, void | scalar _, str | scalar _, boxed _ | scalar _, array _ | scalar _, struct _
  | scalar _, dict _ _
  | str, void | str, scalar _ | str, boxed _ | str, array _ | str, struct _ | str, dict _ _
  | boxed _, void | boxed _, scalar _ | boxed _, str | boxed _, array _ | boxed _, struct _
  | boxed _, dict _ _
  | array _, void | array _, scalar _ | array _, str | array _, boxed _ | array _, struct _
  | array _, dict _ _
  | struct _, void | struct _, scalar _ | struct _, str | struct _, boxed _ | struct _, array _
  | struct _, dict _ _
  | dict _ _, void | dict _ _, scalar _ | dict _ _, str | dict _ _, boxed _ | dict _ _, array _
  | dict _ _, struct _ => isFalse nofun

/-- Equality of two lists of native types. -/
def decEqAll : (ss ts : List NativeType) → Decidable (ss = ts)
  | [], [] => isTrue rfl
  | s :: ss, t :: ts =>
    match decEq s t, decEqAll ss ts with
    | isTrue h, isTrue hs => isTrue (by rw [h, hs])
    | isFalse h, _ => isFalse fun e => h (by injection e)
    | _, isFalse hs => isFalse fun e => hs (by injection e)
  | [], _ :: _ | _ :: _, [] => isFalse nofun

end

instance : DecidableEq NativeType := decEq

/-! ## Classes and widths -/

/-- Width of the slot in bytes. Text and boxed values are passed by a reference of eight bytes. -/
def size : NativeType → Nat
  | void => 0
  | scalar .boolean => 1
  | scalar (.int k) => k.size
  | scalar .double => 8
  | _ => 8

/-- Numbers and booleans. -/
def isScalar : NativeType → Bool
  | scalar _ => true
  | _ => false

/-- Boxed values, typed or not. -/
def isBoxed : NativeType → Bool
  | boxed _ | array _ | struct _ | dict _ _ => true
  | _ => false

/-! ## Written forms -/

/-- The scalar type as declarations write it. -/
def scalarName : FixedCode → String
  | .boolean => "bool"
  | .int .byte => "u8"
  | .int .int16 => "i16"
  | .int .uint16 => "u16"
  | .int .int32 => "i32"
  | .int .uint32 => "u32"
  | .int .int64 => "i64"
  | .int .uint64 => "u64"
  | .double => "f64"

/-- The scalar type as messages write it. -/
def scalarTitle : FixedCode → String
  | .boolean => "Bool"
  | .int .byte => "Byte"
  | .int .int16 => "I16"
  | .int .uint16 => "U16"
  | .int .int32 => "I32"
  | .int .uint32 => "U32"
  | .int .int64 => "I64"
  | .int .uint64 => "U64"
  | .double => "F64"

mutual

/-- The type as declarations write it. -/
def display : NativeType → String
  | void => "()"
  | scalar c => scalarName c
  | str => "&str"
  | boxed k => k.name
  | array e => "Array<" ++ e.display ++ ">"
  | struct ts => "(" ++ ", ".intercalate (displayAll ts) ++ ")"
  | dict k v => "Dictionary<" ++ k.display ++ ", " ++ v.display ++ ">"

/-- Each of a list of types as declarations write it. -/
def displayAll : List NativeType → List String
  | [] => []
  | t :: ts => t.display :: displayAll ts

end

mutual

/-- The type as messages write it. -/
def describe : NativeType → String
  | void => "Void"
  | scalar c => scalarTitle c
  | str => "Str"
  | boxed k => "Boxed(" ++ k.name ++ ")"
  | array e => "Array(" ++ e.describe ++ ")"
  | struct ts => "Struct([" ++ ", ".intercalate (describeAll ts) ++ "])"
  | dict k v => "Dict(" ++ k.describe ++ ", " ++ v.describe ++ ")"

/-- Each of a list of types as messages write it. -/
def describeAll : List NativeType → List String
  | [] => []
  | t :: ts => t.describe :: describeAll ts

end

end NativeType

/-- The parameter and return types of a native call. -/
structure NativeSignature where
  args : List NativeType := []
  ret : NativeType := .void
  deriving DecidableEq, Repr

/-- The types as declarations write them, parameters first. -/
def NativeSignature.display (s : NativeSignature) : String :=
  "(" ++ ", ".intercalate (s.args.map NativeType.display) ++ ") -> " ++ s.ret.display

/-! ## Native forms of a wire type -/

/-- The native type of a basic value that is not boxed. -/
def BasicCode.nativeType : BasicCode → NativeType
  | .fixed c => .scalar c
  | .text _ => .str

/-- The kind of a basic value that is boxed. -/
def BasicCode.boxedType : BasicCode → BoxedType
  | .fixed .boolean => .boolean
  | .fixed _ => .number
  | .text .string => .string
  | .text .objectPath => .objectPath
  | .text .signature => .signature

end DBus
