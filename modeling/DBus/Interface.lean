import DBus.Method
import DBus.Property
import DBus.Signal

/-!
# Interfaces

An `Interface` has methods, signals and properties, each under its name and in the order of
names. A member that is added belongs to the interface from then on, and takes the place of a
member of the same kind and name.
-/

namespace DBus

/-- A named interface and its members. -/
structure Interface where
  name : String
  methods : Std.TreeMap String Method := {}
  signals : Std.TreeMap String Signal := {}
  properties : Std.TreeMap String Property := {}
  annotations : Annotations := {}

namespace Interface

/-- The name with underscores for its points, so that it is one word. -/
def mangledName (i : Interface) : String := i.name.map fun c => if c = '.' then '_' else c

/-- The interface with a method. -/
def addMethod (i : Interface) (m : Method) : Interface :=
  { i with methods := i.methods.insert m.name { m with interface := some i.name } }

/-- The interface with a signal. -/
def addSignal (i : Interface) (s : Signal) : Interface :=
  { i with signals := i.signals.insert s.name { s with interface := some i.name } }

/-- The interface with a property. -/
def addProperty (i : Interface) (p : Property) : Interface :=
  { i with properties := i.properties.insert p.name { p with interface := some i.name } }

/-- The interface without a signal. -/
def removeSignal (i : Interface) (name : String) : Interface :=
  { i with signals := i.signals.erase name }

/-- The method of a name. -/
def method? (i : Interface) (name : String) : Option Method := i.methods.get? name

/-- The first method with a name in native code. -/
def methodByNativeName? (i : Interface) (name : String) : Option Method :=
  i.methods.values.find? fun m => m.nativeName = name

/-- The signal of a name. -/
def signal? (i : Interface) (name : String) : Option Signal := i.signals.get? name

/-- The property of a name. -/
def property? (i : Interface) (name : String) : Option Property := i.properties.get? name

/-- The interface with an annotation. -/
def annotate (i : Interface) (name value : String) : Interface :=
  { i with annotations := i.annotations.insert name value }

end Interface

end DBus
