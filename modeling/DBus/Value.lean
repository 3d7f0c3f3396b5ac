import DBus.Argument
import DBus.ObjectPath
import DBus.Scalar

/-!
# Values

A `Value` is data as a message carries it: a scalar, a text, an array, a struct, a dict entry,
or a variant, which states the type of its contents. Nothing in it says that the items of an
array are of one type. `Value.infer` finds the signature of a value where there is one: an empty
array has none, neither has an array of items that differ, nor an empty struct.

`Value.sameAs` compares doubles as numbers, and so is no equality.
-/

namespace DBus

/-- A value of any type. -/
inductive Value
  | scalar (s : Scalar)
  | text (code : TextCode) (s : String)
  | array (items : List Value)
  | struct (fields : List Value)
  | dictEntry (key value : Value)
  | variant (type : Argument) (contents : Value)
  deriving Repr

namespace Value

/-! ## Kinds -/

/-- The outermost type. -/
def code : Value → TypeCode
  | scalar s => .fixed s.code
  | text c _ => .text c
  | array _ => .array
  | struct _ => .struct
  | dictEntry _ _ => .dictEntry
  | variant _ _ => .variant

/-- The kind that the value has when boxed. An array is a dictionary if it starts with a dict
entry. -/
def boxedType : Value → BoxedType
  | scalar s => (BasicCode.fixed s.code).boxedType
  | text c _ => (BasicCode.text c).boxedType
  | array (dictEntry _ _ :: _) => .dictionary
  | array _ => .array
  | struct _ | dictEntry _ _ => .struct
  | variant _ _ => .variant

/-- The number of an integer of any kind. -/
def integer? : Value → Option Int
  | scalar s => s.integer?
  | _ => none

/-- The characters of a text of any kind. -/
def text? : Value → Option String
  | text _ s => some s
  | _ => none

/-! ## Comparison -/

mutual

/-- Whether two values are the same, with doubles compared as numbers: zeros of either sign are
the same, and no NaN is the same as any other. -/
def sameAs : Value → Value → Bool
  | scalar (.double d), scalar (.double e) => d.sameNumber e
  | scalar s, scalar t => s = t
  | text c s, text d t => c = d && s = t
  | array vs, array ws => sameAll vs ws
  | struct vs, struct ws => sameAll vs ws
  | dictEntry k v, dictEntry l w => k.sameAs l && v.sameAs w
  | variant s v, variant t w => s = t && v.sameAs w
  | _, _ => false

/-- Whether two lists of values are the same one by one. -/
def sameAll : List Value → List Value → Bool
  | [], [] => true
  | v :: vs, w :: ws => v.sameAs w && sameAll vs ws
  | _, _ => false

end

/-! ## Inference -/

mutual

/-- The signature of the type of a value. -/
def infer : Value → Except Error Bytes
  | scalar s => .ok [(TypeCode.fixed s.code).byte]
  | text c _ => .ok [(TypeCode.text c).byte]
  | array vs => do return TypeCode.array.byte :: (← inferElement vs)
  | struct vs => do return TypeCode.struct.byte :: ((← inferFields vs) ++ [Ty.structEnd])
  | dictEntry k v => do
    let key ← k.infer
    let value ← v.infer
    return TypeCode.dictEntry.byte :: (key ++ value ++ [Ty.entryEnd])
  | variant _ _ => .ok [TypeCode.variant.byte]

/-- The signature that the items of an array have in common. -/
def inferElement : List Value → Except Error Bytes
  | [] => .error (.typeMismatch .emptyArray)
  | v :: vs => do
    let element ← v.infer
    inferSame element vs
    return element

/-- Each item has to have the signature `element`. -/
def inferSame (element : Bytes) : List Value → Except Error Unit
  | [] => .ok ()
  | v :: vs => do
    let other ← v.infer
    if other = element then inferSame element vs
    else throw (.typeMismatch (.mixedArray element other))

/-- The signatures of the fields of a struct, which has at least one. -/
def inferFields : List Value → Except Error Bytes
  | [] => .error (.typeMismatch .emptyStruct)
  | [v] => v.infer
  | v :: vs => do return (← v.infer) ++ (← inferFields vs)

end

/-- The type of a value. -/
def inferArgument (v : Value) : Except Error Argument := do
  Argument.ofSignature (← v.infer)

/-- A value as the contents of a variant of its own type. -/
def toVariant (v : Value) : Except Error Value := do
  return variant (← v.inferArgument) v

/-! ## Written form -/

/-- A scalar without its type. -/
def describeScalar : Scalar → String
  | .boolean b => toString b
  | .int _ n _ => toString n
  | .double d => Decimal.describe d

mutual

/-- A value as messages write it. -/
def describe : Value → String
  | scalar s => (TypeCode.fixed s.code).title ++ "(" ++ describeScalar s ++ ")"
  | text c s => (TypeCode.text c).title ++ "(" ++ quote s ++ ")"
  | array vs => "Array([" ++ ", ".intercalate (describeAll vs) ++ "])"
  | struct vs => "Struct([" ++ ", ".intercalate (describeAll vs) ++ "])"
  | dictEntry k v => "DictEntry(" ++ k.describe ++ ", " ++ v.describe ++ ")"
  | variant t v =>
    "Variant(Variant \x7b ty: " ++ t.describe ++ ", value: " ++ v.describe ++ " \x7d)"

/-- Each of a list of values as messages write it. -/
def describeAll : List Value → List String
  | [] => []
  | v :: vs => v.describe :: describeAll vs

end

/-- The contents of a variant behind their type. -/
def describeTyped (type : Argument) (contents : Value) : String :=
  "<" ++ type.ty.signature ++ "> " ++ contents.describe

end Value

/-! ## Well-formed text -/

/-- An object path has to have the form of one, and a signature to list complete types. -/
def TextCode.check : TextCode → String → Except Error Unit
  | .string, _ => .ok ()
  | .objectPath, s =>
    if ObjectPath.isValid s then .ok () else .error (.typeMismatch (.objectPath s))
  | .signature, s => Argument.checkSignature (utf8 s)

end DBus
