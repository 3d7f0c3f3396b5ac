import DBus.Value

/-!
# Boxing policies

A native call takes a value boxed or unboxed. An unboxed value is a word or a text (`Unboxed`).
A `BoxingPolicy` says for each wire type how it is taken: the native type without boxing, the
kind with boxing, and the `Unboxer` that gets the unboxed form out of a boxed value. A policy
may lack any of the types; `BoxingPolicy.standard` has all sixteen.

`BoxingPolicy.boxingState` compares a native type with a wire type, child for child where the
native type says what a container holds.
-/

namespace DBus

/-! ## Unboxed values -/

/-- A value that is not boxed. -/
inductive Unboxed
  | word (w : Word)
  | str (s : String)
  deriving DecidableEq, Repr

/-- The unboxed form of a value, if it has the one that is asked for. -/
abbrev Unboxer := Value → Option Unboxed

/-- Words of a fixed-width type, from a value of any type that converts to it. -/
def FixedCode.unboxer (c : FixedCode) : Unboxer := fun v =>
  match v with
  | .scalar s => (s.convert? c).map fun s => .word s.toWord
  | _ => none

/-- Texts of a type. A string also makes an object path or a signature; both have to be well
formed. -/
def TextCode.unboxer (c : TextCode) : Unboxer := fun v =>
  match v with
  | .text d s =>
    if (d = c || d = .string) && (c.check s).toBool then some (.str s) else none
  | _ => none

/-! ## Policies -/

/-- How a policy takes one wire type. -/
structure TypeEntry where
  /-- The native type without boxing. -/
  unboxed : NativeType
  /-- The kind with boxing, if the type can be boxed. -/
  boxed : Option BoxedType
  /-- What gets the unboxed form out of a boxed value. Containers have none. -/
  unboxer : Option Unboxer

namespace TypeEntry

/-- The usual entry of a wire type. -/
def standard : TypeCode → TypeEntry
  | .basic (.fixed c) => ⟨.scalar c, some (BasicCode.fixed c).boxedType, some c.unboxer⟩
  | .basic (.text c) => ⟨.str, some (BasicCode.text c).boxedType, some c.unboxer⟩
  | .array => ⟨.boxed .array, some .array, none⟩
  | .struct | .dictEntry => ⟨.boxed .struct, some .struct, none⟩
  | .variant => ⟨.boxed .variant, some .variant, none⟩

/-- An entry as messages write it. -/
def describe (e : TypeEntry) : String :=
  let boxed :=
    match e.boxed with
    | some k => "Some(" ++ k.name ++ ")"
    | none => "None"
  "TypeEntry \x7b unboxed: " ++ e.unboxed.describe ++ ", boxed: " ++ boxed ++ ", unboxer: " ++
    toString e.unboxer.isSome ++ " \x7d"

end TypeEntry

/-- How native calls take each of the wire types that are registered. -/
structure BoxingPolicy where
  entry? : TypeCode → Option TypeEntry

/-- How a native type suits a wire type. -/
inductive BoxingState
  | unboxed | boxed | invalid
  deriving DecidableEq, Repr

/-- Whether the native type suits the wire type at all. -/
def BoxingState.isValid (s : BoxingState) : Bool := s ≠ .invalid

namespace BoxingPolicy

/-- No type is registered. -/
def empty : BoxingPolicy := ⟨fun _ => none⟩

/-- Every type has its usual entry. -/
def standard : BoxingPolicy := ⟨fun c => some (.standard c)⟩

/-- Whether a type is registered. -/
def isRegistered (p : BoxingPolicy) (c : TypeCode) : Bool := (p.entry? c).isSome

/-- Give a type an entry, in place of the one it has. -/
def register (p : BoxingPolicy) (c : TypeCode) (e : TypeEntry) : BoxingPolicy :=
  ⟨fun d => if d = c then some e else p.entry? d⟩

/-- Give a type an unboxer, in place of the one it has. A type that is not registered gets its
usual entry with this unboxer. -/
def registerUnboxer (p : BoxingPolicy) (c : TypeCode) (u : Unboxer) : BoxingPolicy :=
  p.register c { (p.entry? c).getD (.standard c) with unboxer := some u }

/-- The entry of a type. -/
def entry (p : BoxingPolicy) (c : TypeCode) : Except Error TypeEntry :=
  match p.entry? c with
  | some e => .ok e
  | none => .error (.unregisteredType c)

/-- The unboxer of a type. -/
def unboxer (p : BoxingPolicy) (c : TypeCode) : Except Error Unboxer := do
  match (← p.entry c).unboxer with
  | some u => return u
  | none => throw (.unregisteredType c)

/-- The kind of a boxed value of a type. An array of dict entries is a dictionary, where arrays
are registered as such. -/
def boxedType (p : BoxingPolicy) (t : Ty) : Except Error BoxedType := do
  match (← p.entry t.code).boxed with
  | some .array => return if t.isDictionary then .dictionary else .array
  | some k => return k
  | none => throw (.noBoxedRepresentation t.code)

/-- The native type for a type, boxed or not. Containers are always boxed. -/
def nativeType (p : BoxingPolicy) (t : Ty) (boxed : Bool) : Except Error NativeType := do
  if boxed || t.isContainer then return .boxed (← p.boxedType t)
  else return (← p.entry t.code).unboxed

/-- How a native type suits a basic type. -/
def basicState (p : BoxingPolicy) (c : BasicCode) (n : NativeType) : BoxingState :=
  match p.entry? (.basic c) with
  | none => .invalid
  | some e =>
    if e.boxed.any fun k => n = .boxed k then .boxed
    else if n = e.unboxed then .unboxed
    else .invalid

mutual

/-- How a native type suits a type. A container has to be boxed as its kind, or as a typed
container that suits it child for child. -/
def boxingState (p : BoxingPolicy) : Ty → NativeType → BoxingState
  | .basic c, n => p.basicState c n
  | t, .boxed k =>
    match p.boxedType t with
    | .ok l => if l = k then .boxed else .invalid
    | .error _ => .invalid
  | .array (.dictEntry k v), .dict m n =>
    if p.isRegistered .array && (p.basicState k m).isValid && (p.boxingState v n).isValid then
      .boxed
    else .invalid
  | .array (.dictEntry _ _), _ => .invalid
  | .array e, .array n =>
    if p.isRegistered .array && (p.boxingState e n).isValid then .boxed else .invalid
  | .struct ts, .struct ns =>
    if p.isRegistered .struct && p.suitsAll ts ns then .boxed else .invalid
  | _, _ => .invalid

/-- Whether native types suit types one by one. -/
def suitsAll (p : BoxingPolicy) : List Ty → List NativeType → Bool
  | [], [] => true
  | t :: ts, n :: ns => (p.boxingState t n).isValid && p.suitsAll ts ns
  | _, _ => false

end

end BoxingPolicy

end DBus
