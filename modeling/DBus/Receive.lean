import DBus.Unmarshal

/-!
# Reading values in sequence

A `Receive` reads through a cursor and moves it along. When it fails, the cursor stays where the
failure left it.
-/

namespace DBus

/-- An operation that moves a cursor. -/
abbrev Receive := EStateM Error Reader

/-- Move the cursor past the current value. -/
def Reader.step : Receive Unit := fun r =>
  match r.next with
  | (.ok _, r) => .ok () r
  | (.error e, r) => .error e r

/-- A result had from the cursor where it stands. -/
def Reader.look {α : Type} (f : Reader → Except Error α) : Receive α := fun r =>
  match f r with
  | .ok a => .ok a r
  | .error e => .error e r

namespace Marshaller

/-- Read a value and move past it. -/
def receive (m : Marshaller) (t : Ty) : Receive Value := do
  let v ← Reader.look (m.readValue t)
  Reader.step
  return v

/-- Read one value for each argument and move past them. -/
def receiveAll (m : Marshaller) : List Argument → Receive (List Value)
  | [] => return []
  | a :: as => do
    let v ← m.receive a.ty
    let vs ← m.receiveAll as
    return v :: vs

end Marshaller

end DBus
