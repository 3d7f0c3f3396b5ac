import DBus.Utf8

/-!
# Types

`Ty` is the tree of one type: a basic type, an array of one element type, a struct of fields, a
dict entry or a variant. The key of a dict entry is a basic type by construction. That a struct
has fields and that a dict entry stands in an array is left to the signature grammar.

`Ty.render` writes the signature of a type. `Ty.children` is the list of types directly inside
one, and `Ty.size` counts the nodes of the tree.
-/

namespace DBus

/-- The type of a value. -/
inductive Ty
  | basic (code : BasicCode)
  | array (element : Ty)
  | struct (fields : List Ty)
  | dictEntry (key : BasicCode) (value : Ty)
  | variant
  deriving Repr

namespace Ty

/-- The type with fixed width `c`. -/
abbrev fixed (c : FixedCode) : Ty := .basic (.fixed c)

/-- The integer type `k`. -/
abbrev int (k : IntKind) : Ty := .basic (.fixed (.int k))

/-- The text type `c`. -/
abbrev text (c : TextCode) : Ty := .basic (.text c)

/-! ## Equality -/

mutual

/-- Equality of two types is decided node by node. -/
def decEq : (s t : Ty) → Decidable (s = t)
  | basic c, basic d =>
    if h : c = d then isTrue (by rw [h]) else isFalse (by simpa using h)
  | array s, array t =>
    match decEq s t with
    | isTrue h => isTrue (by rw [h])
    | isFalse h => isFalse (by simpa using h)
  | struct ss, struct ts =>
    match decEqAll ss ts with
    | isTrue h => isTrue (by rw [h])
    | isFalse h => isFalse (by simpa using h)
  | dictEntry k s, dictEntry l t =>
    if hk : k = l then
      match decEq s t with
      | isTrue h => isTrue (by rw [hk, h])
      | isFalse h => isFalse fun e => h (by injection e)
    else isFalse fun e => hk (by injection e)
  | variant, variant => isTrue rfl
  | basic _, array _ | basic _, struct _ | basic _, dictEntry _ _ | basic _, variant
  | array _, basic _ | array _, struct _ | array _, dictEntry _ _ | array _, variant
  | struct _, basic _ | struct _, array _ | struct _, dictEntry _ _ | struct _, variant
  | dictEntry _ _, basic _ | dictEntry _ _, array _ | dictEntry _ _, struct _
  | dictEntry _ _, variant
  | variant, basic _ | variant, array _ | variant, struct _ | variant, dictEntry _ _ =>
    isFalse nofun

/-- Equality of two lists of types. -/
def decEqAll : (ss ts : List Ty) → Decidable (ss = ts)
  | [], [] => isTrue rfl
  | s :: ss, t :: ts =>
    match decEq s t, decEqAll ss ts with
    | isTrue h, isTrue hs => isTrue (by rw [h, hs])
    | isFalse h, _ => isFalse fun e => h (by injection e)
    | _, isFalse hs => isFalse fun e => hs (by injection e)
  | [], _ :: _ | _ :: _, [] => isFalse nofun

end

instance : DecidableEq Ty := decEq

/-! ## Structure -/

/-- The code of the outermost type. -/
def code : Ty → TypeCode
  | basic c => .basic c
  | array _ => .array
  | struct _ => .struct
  | dictEntry _ _ => .dictEntry
  | variant => .variant

/-- The types directly inside a type: the element of an array, the fields of a struct, the key
and the value of a dict entry. -/
def children : Ty → List Ty
  | array e => [e]
  | struct ts => ts
  | dictEntry k v => [.basic k, v]
  | basic _ | variant => []

/-- Arrays, structs, dict entries and variants. -/
def isContainer (t : Ty) : Bool := t.code.isContainer

/-- An array of dict entries. -/
def isDictionary : Ty → Bool
  | array (dictEntry _ _) => true
  | _ => false

mutual

/-- The number of types in the tree, itself included. -/
def size : Ty → Nat
  | basic _ | variant => 1
  | array e => 1 + e.size
  | struct ts => 1 + sizeAll ts
  | dictEntry _ v => 2 + v.size

/-- The number of types in a list of trees. -/
def sizeAll : List Ty → Nat
  | [] => 0
  | t :: ts => t.size + sizeAll ts

end

/-- The type at the end of a path of child positions. -/
def descend : Ty → List Nat → Option Ty
  | t, [] => some t
  | t, i :: path => t.children[i]?.bind fun u => u.descend path

/-! ## Signatures -/

/-- The closing bracket of a struct. -/
def structEnd : UInt8 := 41

/-- The closing bracket of a dict entry. -/
def entryEnd : UInt8 := 125

mutual

/-- The signature of a type, as bytes. -/
def render : Ty → Bytes
  | basic c => [(TypeCode.basic c).byte]
  | array e => TypeCode.array.byte :: e.render
  | struct ts => TypeCode.struct.byte :: (renderAll ts ++ [structEnd])
  | dictEntry k v => TypeCode.dictEntry.byte :: (TypeCode.basic k).byte :: (v.render ++ [entryEnd])
  | variant => [TypeCode.variant.byte]

/-- The signatures of a list of types, one after the other. -/
def renderAll : List Ty → Bytes
  | [] => []
  | t :: ts => t.render ++ renderAll ts

end

/-- The signature of a type, as text. -/
def signature (t : Ty) : String := asciiText t.render

end Ty

end DBus
