import DBus.Marshal
import DBus.Member
import DBus.Receive

/-!
# Methods

A `Method` describes a method by its input and output arguments. The native call for it takes
the inputs as parameters; one output is the result, several are a boxed struct, and none is no
result. Any position may be boxed or unboxed on its own (`Method.check`).

`Method.marshal` writes the body of a call or of its reply from a call record, and
`Method.unmarshal` reads it into one.
-/

namespace DBus

/-- Which half of a method call a message is. -/
inductive MessageKind
  | call | reply
  deriving DecidableEq, Repr

/-- The description of a method. -/
structure Method where
  name : String
  interface : Option String := none
  /-- The object that has the method. -/
  path : Option String := none
  inputs : List Argument := []
  outputs : List Argument := []
  annotations : Annotations := {}

namespace Method

/-! ## Description -/

/-- A method from the signatures of its inputs and of its outputs. -/
def ofSignatures (name : String) (inputs outputs : Bytes) : Except Error Method := do
  let inputs ← Argument.listOfSignature inputs
  let outputs ← Argument.listOfSignature outputs
  return { name, inputs, outputs }

/-- The method with one more argument. -/
def addArgument (m : Method) (a : Argument) : Direction → Method
  | .input => { m with inputs := m.inputs ++ [a] }
  | .output => { m with outputs := m.outputs ++ [a] }

/-- The method with an annotation. -/
def annotate (m : Method) (name value : String) : Method :=
  { m with annotations := m.annotations.insert name value }

/-- Callers expect no reply. -/
def isOneway (m : Method) : Bool := Annotations.isTrue m.annotations noReplyAnnotation

/-- The method should not be used any more. -/
def isDeprecated (m : Method) : Bool := Annotations.isTrue m.annotations deprecatedAnnotation

/-- The arguments by a signed index: the inputs from zero up, the outputs from -1 down. -/
def argument (m : Method) (index : Int) : Except Error Argument :=
  let found :=
    match index with
    | .ofNat n => m.inputs[n]?
    | .negSucc n => m.outputs[n]?
  match found with
  | some a => .ok a
  | none => .error (.indexOutOfRange index m.inputs.length m.outputs.length)

/-- The arguments that a message carries. -/
def carried (m : Method) : MessageKind → List Argument
  | .call => m.inputs
  | .reply => m.outputs

/-- The signature of a message body. -/
def messageSignature (m : Method) (kind : MessageKind) : Bytes :=
  Ty.renderAll ((m.carried kind).map Argument.ty)

/-- The name in native code. -/
def nativeName (m : Method) : String := DBus.nativeName m.name

/-! ## Native calls -/

/-- The types of the native call, all of them boxed or as few as possible. -/
def nativeSignature (m : Method) (p : BoxingPolicy) (boxed : Bool) :
    Except Error NativeSignature := do
  let args ← m.inputs.mapM fun a => p.nativeType a.ty boxed
  match m.outputs with
  | [] => return ⟨args, .void⟩
  | [a] => return ⟨args, ← p.nativeType a.ty boxed⟩
  | outputs =>
    if boxed then return ⟨args, .boxed .struct⟩
    else throw (.unrepresentableReturn outputs.length)

/-- Whether the types are exactly those of the native call. -/
def hasNativeSignature (m : Method) (p : BoxingPolicy) (s : NativeSignature) (boxed : Bool) :
    Bool :=
  match m.nativeSignature p boxed with
  | .ok t => t = s
  | .error _ => false

/-- How a parameter suits an input. -/
def argumentState (m : Method) (p : BoxingPolicy) (input : Nat) (s : NativeSignature)
    (parameter : Nat) : BoxingState :=
  match m.inputs[input]?, s.args[parameter]? with
  | some a, some n => p.boxingState a.ty n
  | _, _ => .invalid

/-- How the result suits the outputs. -/
def returnState (m : Method) (p : BoxingPolicy) (s : NativeSignature) : BoxingState :=
  match m.outputs with
  | [] => if s.ret = .void then .boxed else .invalid
  | [a] => p.boxingState a.ty s.ret
  | _ => if s.ret = .boxed .struct then .boxed else .invalid

/-- The parameters have to suit the inputs that start with number `index`. -/
def checkArguments (m : Method) (p : BoxingPolicy) :
    (index : Nat) → List Argument → List NativeType → Except Error Unit
  | index, a :: as, n :: ns =>
    if (p.boxingState a.ty n).isValid then m.checkArguments p (index + 1) as ns
    else .error (.incompatibleSignature (.argument index m.name a.ty n))
  | _, _, _ => .ok ()

/-- The types of a native call have to suit the method, each position boxed or not. -/
def check (m : Method) (p : BoxingPolicy) (s : NativeSignature) : Except Error Unit := do
  if s.args.length ≠ m.inputs.length then
    throw (.incompatibleSignature (.argumentCount m.name m.inputs.length s))
  m.checkArguments p 0 m.inputs s.args
  if !(m.returnState p s).isValid then throw (.incompatibleSignature (.result m.name s.ret))

/-- Whether the types of a native call suit the method. -/
def isValid (m : Method) (p : BoxingPolicy) (s : NativeSignature) : Bool := (m.check p s).toBool

/-- The parameters of a declaration, those from number `index` on. -/
def parameters (index : Nat) : List Argument → List NativeType → String
  | a :: as, n :: ns =>
    let name := (a.name.map DBus.nativeName).getD s!"arg{index}"
    ", " ++ name ++ ": " ++ n.display ++ parameters (index + 1) as ns
  | _, _ => ""

/-- The declaration of the native method. -/
def declaration (m : Method) (p : BoxingPolicy) (boxed : Bool) : Except Error String := do
  let s ← m.nativeSignature p boxed
  let mark := if m.isDeprecated then "#[deprecated]\n" else ""
  let result := if s.ret = .void then "" else " -> " ++ s.ret.display
  return mark ++ "fn " ++ m.nativeName ++ "(&self" ++ parameters 0 m.inputs s.args ++ ")" ++
    result ++ ";"

/-! ## Reading a message -/

/-- A cursor and the record that is filled from it. -/
structure Delivery where
  reader : Reader
  record : CallRecord

/-- An operation on a delivery. What it has read and stored stays when it fails. -/
abbrev Deliver := EStateM Error Delivery

/-- A move of the cursor as part of a delivery. -/
instance : MonadLift Receive Deliver where
  monadLift x d :=
    match x d.reader with
    | .ok a r => .ok a { d with reader := r }
    | .error e r => .error e { d with reader := r }

/-- A result without effect on the delivery. -/
instance : MonadLift (Except Error) Deliver where
  monadLift
    | .ok a => pure a
    | .error e => throw e

/-- Whether an argument is held boxed in a slot of the native type. -/
def isBoxedAs (m : Method) (p : BoxingPolicy) (t : Ty) (n : NativeType) : Except Error Bool :=
  match p.boxingState t n with
  | .boxed => .ok true
  | .unboxed => .ok false
  | .invalid => .error (.incompatibleSignature (.slot t m.name n))

/-- Read an argument into the slot for it, as the native type of the slot has it. -/
def deliver (m : Method) (x : Marshaller) (t : Ty) (index : Int) : Deliver Unit := do
  let d ← get
  let boxed ← m.isBoxedAs x.policy t (← d.record.nativeType index)
  let record ← x.readInto t d.reader d.record index boxed
  set { d with record }
  Reader.step

/-- Read the inputs from number `index` on into their slots. -/
def deliverInputs (m : Method) (x : Marshaller) : (index : Nat) → List Argument → Deliver Unit
  | _, [] => pure ()
  | index, a :: as => do
    m.deliver x a.ty index
    m.deliverInputs x (index + 1) as

/-- Read a message into a record: the inputs of a call into the slots of the arguments, the
outputs of a reply into the slot of the result. -/
def unmarshal (m : Method) (x : Marshaller) : MessageKind → Deliver Unit
  | .call => m.deliverInputs x 0 m.inputs
  | .reply =>
    match m.outputs with
    | [] => pure ()
    | [a] => m.deliver x a.ty CallRecord.returnIndex
    | outputs => do
      let vs ← x.receiveAll outputs
      let d ← get
      set { d with record := ← d.record.set CallRecord.returnIndex (.value (.struct vs)) }

/-! ## Writing a message -/

/-- Write the inputs from number `index` on from their slots. -/
def marshalInputs (x : Marshaller) (record : CallRecord) (w : Writer) :
    (index : Nat) → List Argument → Write Unit
  | _, [] => pure ()
  | index, a :: as => do
    x.writeFrom a.ty record index w
    marshalInputs x record w (index + 1) as

/-- Write a message from a record: the inputs of a call from the slots of the arguments, the
outputs of a reply from the slot of the result. -/
def marshal (m : Method) (x : Marshaller) (record : CallRecord) (w : Writer) :
    MessageKind → Write Unit
  | .call => marshalInputs x record w 0 m.inputs
  | .reply =>
    match m.outputs with
    | [] => pure ()
    | [a] => x.writeFrom a.ty record CallRecord.returnIndex w
    | outputs =>
      let refused := throw (.typeMismatch (.returnValues outputs.length record.ret.describe))
      match record.ret with
      | .value (.struct vs) =>
        if vs.length = outputs.length then
          Marshaller.writeFields (fun t v => x.writeValue t v w) (outputs.map Argument.ty) vs
        else refused
      | _ => refused

end Method

end DBus
