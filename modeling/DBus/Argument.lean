import DBus.Error

/-!
# Arguments

An `Argument` is a complete type with an optional name. It is had from a signature
(`Argument.ofSignature`) or from a native type (`Argument.ofNative`).

The types inside an argument are numbered in the order in which the signature writes them, the
outermost first, and so form a list of `Node`s, each with the numbers of its parent and of its
children (`Ty.nodes`). A path of child positions leads to one of them (`Ty.nodeId?`).

`Ty.unboxedType` and `Ty.boxedType` are the forms that a value of the type takes in a native
call.
-/

namespace DBus

/-! ## Nodes -/

/-- One type inside an argument. -/
structure Node where
  ty : Ty
  /-- The number of the type that this one stands directly inside of. -/
  parent : Option Nat
  /-- The numbers of the types directly inside this one, in order. -/
  children : List Nat
  deriving DecidableEq, Repr

namespace Ty

/-- The numbers of types that stand side by side, the first of them being `id`. -/
def siblingIds (id : Nat) : List Ty → List Nat
  | [] => []
  | t :: ts => id :: siblingIds (id + t.size) ts

mutual

/-- The nodes of a type that has the number `id`. -/
def nodesFrom (parent : Option Nat) (id : Nat) : Ty → List Node
  | basic c => [⟨basic c, parent, []⟩]
  | variant => [⟨variant, parent, []⟩]
  | array e => ⟨array e, parent, [id + 1]⟩ :: nodesFrom (some id) (id + 1) e
  | struct ts => ⟨struct ts, parent, siblingIds (id + 1) ts⟩ :: nodesFromAll (some id) (id + 1) ts
  | dictEntry k v =>
    ⟨dictEntry k v, parent, [id + 1, id + 2]⟩ :: ⟨basic k, some id, []⟩ ::
      nodesFrom (some id) (id + 2) v

/-- The nodes of types that stand side by side, the first of them having the number `id`. -/
def nodesFromAll (parent : Option Nat) (id : Nat) : List Ty → List Node
  | [] => []
  | t :: ts => nodesFrom parent id t ++ nodesFromAll parent (id + t.size) ts

end

/-- The nodes of a type by number. -/
def nodes (t : Ty) : List Node := t.nodesFrom none 0

/-- The number of the type at the end of a path of child positions. -/
def nodeId? : Ty → List Nat → Option Nat
  | _, [] => some 0
  | t, i :: path => do
    let u ← t.children[i]?
    let id ← (siblingIds 1 t.children)[i]?
    return id + (← u.nodeId? path)

/-! ## Native forms -/

/-- The kind of a boxed value of the type. -/
def boxedType : Ty → BoxedType
  | basic c => c.boxedType
  | array (dictEntry _ _) => .dictionary
  | array _ => .array
  | struct _ | dictEntry _ _ => .struct
  | variant => .variant

/-- The native type of a value that is boxed only if it has to be. Containers have to. -/
def unboxedType : Ty → NativeType
  | basic c => c.nativeType
  | t => .boxed t.boxedType

end Ty

/-- A node with its number as messages write it. -/
def Node.describe (n : Node) (id : Nat) : String :=
  "ArgumentRef \x7b id: NodeId(" ++ toString id ++ "), signature: " ++ quote n.ty.signature ++
    " \x7d"

/-! ## Arguments -/

/-- A complete type, named or not. -/
structure Argument where
  ty : Ty
  name : Option String := none
  deriving DecidableEq, Repr

namespace Argument

/-- The arguments that a signature lists. -/
def listOfSignature (s : Bytes) : Except Error (List Argument) :=
  match parseTypes s with
  | .ok ts => .ok (ts.map fun t => ⟨t, none⟩)
  | .error fault => .error (.malformedSignature (shownText s) fault)

/-- The argument of a signature that holds exactly one type. -/
def ofSignature (s : Bytes) : Except Error Argument :=
  match parseType s with
  | .ok t => .ok ⟨t, none⟩
  | .error fault => .error (.malformedSignature (shownText s) fault)

/-- A signature has to list complete types. -/
def checkSignature (s : Bytes) : Except Error Unit := do
  discard (listOfSignature s)

/-- An argument as messages write it. -/
def describe (a : Argument) : String :=
  let name :=
    match a.name with
    | some n => "Some(" ++ quote n ++ ")"
    | none => "None"
  "Argument \x7b name: " ++ name ++ ", signature: " ++ quote a.ty.signature ++ " \x7d"

end Argument

/-! ## Arguments of native types -/

namespace NativeType

mutual

/-- The signature of the wire type that a native type stands for. A boxed value stands for one
only if its kind leaves no choice. -/
def wireSignature : NativeType → Except Error Bytes
  | scalar c => .ok [(TypeCode.fixed c).byte]
  | str | boxed .string => .ok [(TypeCode.text .string).byte]
  | boxed .objectPath => .ok [(TypeCode.text .objectPath).byte]
  | boxed .signature => .ok [(TypeCode.text .signature).byte]
  | boxed .variant => .ok [TypeCode.variant.byte]
  | array e => do return TypeCode.array.byte :: (← e.wireSignature)
  | struct ts => do return TypeCode.struct.byte :: ((← wireSignatureAll ts) ++ [Ty.structEnd])
  | dict k v => do
    let key ← k.wireSignature
    let value ← v.wireSignature
    return TypeCode.array.byte :: TypeCode.dictEntry.byte :: (key ++ value ++ [Ty.entryEnd])
  | t => .error (.typeMismatch (.nativeWithoutWireType t))

/-- The signatures of a list of native types, one after the other. -/
def wireSignatureAll : List NativeType → Except Error Bytes
  | [] => .ok []
  | t :: ts => do return (← t.wireSignature) ++ (← wireSignatureAll ts)

end

end NativeType

/-- The argument that a native type stands for. -/
def Argument.ofNative (t : NativeType) : Except Error Argument := do
  ofSignature (← t.wireSignature)

end DBus
