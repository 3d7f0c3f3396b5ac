import DBus.Proofs.Serializing

/-!
# Layers of variants

Data is pulled out of a value by asking for views of it. Most views are looked at, and nothing but
the view tells what comes out. Asked for an option, or for what a newtype is of, the value is handed
on as it is, to be asked again. `Pulls` is what all of this comes to, whatever is made of the views,
and every shape is decoded like that (`Shape.pulls`).

Whoever pulls data cannot tell a value from a variant of it (`Pulls.eq_variant`), nor from any
number of variants around it (`Value.Layered.looked_through`). The empty array of bytes in a variant
of its type is the one exception, for it stands for an absent element of a sequence.
-/

namespace DBus

/-! ## Looking through variants -/

namespace Value

variable {v w : Value} {vs : List Value}

/-- The variant does not stand for nothing unless its contents do : an array of bytes in it is not
empty. -/
def ShowsThrough (a : Argument) (v : Value) : Prop :=
  a.ty = absentType → ∃ w ws, v = .array (w :: ws)

theorem isAbsent_variant {a : Argument} (h : ShowsThrough a v) :
    (variant a v).isAbsent = v.isAbsent := by
  by_cases ha : a.ty = absentType
  · obtain ⟨w, ws, rfl⟩ := h ha
    simp [isAbsent, ha]
  · simp [isAbsent, ha]

/-- A value that is wrapped shows through. -/
theorem showsThrough_of_dataArgument {a : Argument} (h : v.dataArgument = .ok a) :
    ShowsThrough a v := by
  intro ha
  rcases dataArgument_eq_ok_iff.mp h with ⟨-, rfl⟩ | ⟨hne, h⟩
  · cases ha
  · have hcode := code_of_inferArgument h
    rw [ha] at hcode
    cases v with
    | array vs =>
      cases vs with
      | nil => exact absurd rfl hne
      | cons w ws => exact ⟨w, ws, rfl⟩
    | _ => cases hcode

/-- A value that is no variant is absent if it is the empty struct. -/
theorem isAbsent_eq_isNothing (h : v.code ≠ .variant) : v.isAbsent = v.isNothing := by
  cases v with
  | variant => exact absurd rfl h
  | _ => rfl

end Value

/-! ## Pulling data -/

/-- Asked like this, a value is handed on to be asked again. -/
def Request.handsOn : Request → Bool
  | .option | .newtype => true
  | _ => false

/-- Data is pulled out of a value : it is told by a view that is looked at, or asked for as an
option, which is absent or pulled out of the value that is handed on. A newtype is pulled as what
is inside of it. -/
inductive Pulls {α : Type} : (Value → Except Error α) → Prop
  | look {f : Value → Except Error α} (request : Request) (hrequest : request.handsOn = false)
      (told : ∀ v w, v.view request = w.view request → f v = f w) : Pulls f
  | option {f inside : Value → Except Error α} (absent : Except Error α) (h : Pulls inside)
      (told : ∀ v, f v = if v.isAbsent then absent else inside v) : Pulls f

namespace Pulls

variable {α β : Type} {f : Value → Except Error α}

theorem lookAny (told : ∀ v w, v.viewAny = w.viewAny → f v = f w) : Pulls f :=
  .look .any rfl fun v w h => told v w (Except.ok.inj h)

theorem lookMap (told : ∀ v w, v.viewMap = w.viewMap → f v = f w) : Pulls f :=
  .look .map rfl fun v w h => told v w (Except.ok.inj h)

/-- Something is made of what is pulled, or of the error. -/
theorem andThen (h : Pulls f) (k : Except Error α → Except Error β) : Pulls fun v => k (f v) := by
  induction h with
  | look request hrequest told =>
    exact .look request hrequest fun v w hview => congrArg k (told v w hview)
  | option absent _ told ih =>
    refine .option (k absent) ih fun v => ?_
    rw [told]
    split <;> rfl

/-- Only a request that hands the value on can tell a variant from its contents. -/
theorem view_variant {request : Request} (hrequest : request.handsOn = false) (a : Argument)
    (v : Value) : (Value.variant a v).view request = v.view request := by
  cases request with
  | option | newtype => cases hrequest
  | _ => rfl

/-- What is pulled out of a variant is what is pulled out of its contents. -/
theorem eq_variant (h : Pulls f) {a : Argument} {v : Value} (hv : v.ShowsThrough a) :
    f (.variant a v) = f v := by
  induction h with
  | look request hrequest told => exact told _ _ (view_variant hrequest a v)
  | option absent _ told ih => rw [told, told, Value.isAbsent_variant hv, ih]

end Pulls

/-! ## Shapes -/

namespace Value

theorem sightings_eq_map (vs : List Value) : sightings vs = vs.map sighting := by
  induction vs with
  | nil => rfl
  | cons v vs ih => rw [sightings, ih, List.map_cons]

theorem entrySightings_of_dictionary? {vs : List Value} {es : List (Value × Value)}
    (h : dictionary? vs = some es) :
    entrySightings vs = es.map fun e => (e.1.sighting, e.2.sighting) := by
  fun_induction dictionary? vs generalizing es with
  | case1 => cases h
  | case2 k v =>
    cases h
    rfl
  | case3 k v vs _ ih =>
    simp only [Option.bind_eq_bind, Option.bind_eq_some_iff, Option.pure_def,
      Option.some.injEq] at h
    obtain ⟨es, hes, rfl⟩ := h
    rw [entrySightings, ih hes, List.map_cons]
  | case4 => cases h

/-- All of a value is seen by a view of it. -/
theorem sighting_viewAny : ∀ v : Value, v.viewAny.sighting = .ok v.sighting
  | scalar _ | text _ _ => rfl
  | array vs => by
    cases h : dictionary? vs with
    | none =>
      simp only [viewAny, h, View.sighting, sighting, sightings_eq_map]
      rfl
    | some es =>
      simp only [viewAny, h, View.sighting, sighting, entrySightings_of_dictionary? h]
      rfl
  | struct vs => by
    cases vs with
    | nil => rfl
    | cons v vs =>
      simp only [viewAny, View.sighting, sighting, sightings_eq_map]
      rfl
  | dictEntry _ _ => rfl
  | variant _ v => sighting_viewAny v

theorem sighting_congr {v w : Value} (h : v.viewAny = w.viewAny) : v.sighting = w.sighting := by
  have hsighting := v.sighting_viewAny
  rw [h, sighting_viewAny, Except.ok.injEq] at hsighting
  exact hsighting.symm

end Value

/-- A shape is decoded from views of the value. -/
theorem Shape.pulls : ∀ t : Shape, Pulls t.decode
  | .option t => .option (.ok .none) ((pulls t).andThen fun x => do return .some (← x)) fun v => by
    rw [decode]
  | .newtype _ t => by
    rw [decode]
    exact pulls t
  | .observed request => by
    cases hrequest : request.handsOn with
    | false => exact .look request hrequest fun v w h => by simp only [decode, Decoder.observed, h]
    | true =>
      cases request with
      | option =>
        have hinside : Pulls fun v => .ok (Decoded.observed (.some v.sighting)) :=
          .lookAny fun v w h => by rw [Value.sighting_congr h]
        refine .option (.ok (.observed .none)) hinside fun v => ?_
        simp only [decode, Decoder.observed, Value.view]
        split <;> rfl
      | newtype =>
        refine .lookAny fun v w h => ?_
        simp only [decode, Decoder.observed, Value.view, ok_bind, View.sighting,
          Value.sighting_congr h]
      | _ => cases hrequest
  | .int _ | .single | .double | .boolean | .text _ | .unit | .unitStruct _ | .seq _ | .tuple _
  | .tupleStruct _ _ => .lookAny fun v w h => by
    simp only [decode, Decoder.int, Decoder.single, Decoder.double, Decoder.boolean, Decoder.text,
      Decoder.unit, Decoder.seq, Decoder.tuple, h]
  | .ignored => .lookAny fun _ _ _ => rfl
  | .char => .look .char rfl fun v w h => by
    rw [Value.view, Value.view] at h
    simp only [decode, Decoder.char, h]
  | .bytes _ => .look .bytes rfl fun v w h => by
    rw [Value.view, Value.view] at h
    simp only [decode, Decoder.bytes, h]
  | .map _ _ | .mapValueFirst | .struct _ _ => .lookMap fun v w h => by
    simp only [decode, Decoder.map, Decoder.mapValueFirst, h]
  | .enum name _ => .look (.enum name) rfl fun v w h => by
    rw [Value.view, Value.view] at h
    simp only [decode, Decoder.enum, h]

/-- What is got out of a value is got out of a variant of it. -/
theorem Shape.decode_variant (t : Shape) {a : Argument} {v : Value} (h : v.ShowsThrough a) :
    t.decode (.variant a v) = t.decode v :=
  t.pulls.eq_variant h

/-! ## Layers -/

namespace Value

/-- The second value is the first one in any number of variants. Each of them states a type that its
contents have, whatever the variants in these hold, and none is the empty array of bytes. -/
inductive Layered (v : Value) : Value → Prop
  | bare : Layered v v
  | variant {w : Value} {a : Argument} (h : Layered v w) (hform : w.HasForm a.ty)
      (hne : ¬(a.ty = absentType ∧ w = .array [])) : Layered v (.variant a w)

/-- A value of the type that is stated shows through, if it is not the empty array of bytes. -/
theorem HasForm.showsThrough {v : Value} {a : Argument} (h : v.HasForm a.ty)
    (hne : ¬(a.ty = absentType ∧ v = .array [])) : v.ShowsThrough a := by
  intro ha
  rw [ha, absentType] at h
  cases h with
  | @array vs _ _ =>
    cases vs with
    | nil => exact absurd ⟨ha, rfl⟩ hne
    | cons w ws => exact ⟨w, ws, rfl⟩

end Value

/-- Whatever is pulled out of a value is pulled out of any number of variants around it, with the
same result or the same error. -/
theorem Pulls.eq_of_layered {α : Type} {f : Value → Except Error α} (hf : Pulls f) {v w : Value}
    (h : v.Layered w) : f w = f v := by
  induction h with
  | bare => rfl
  | variant _ hform hne ih => rw [hf.eq_variant (hform.showsThrough hne), ih]

/-- Variants are looked through. Whatever is pulled out of a value, by a shape or by anything that
pulls data, it is the same where the value is in any number of variants. -/
theorem Value.Layered.looked_through {v w : Value} (h : v.Layered w) :
    (∀ t : Shape, t.decode w = t.decode v) ∧
      ∀ {α : Type} {f : Value → Except Error α}, Pulls f → f w = f v :=
  ⟨fun t => t.pulls.eq_of_layered h, fun hf => hf.eq_of_layered h⟩

/-- An empty array of strings in two variants, which is no missing option. -/
theorem Value.Layered.looked_through_strings :
    let v : Value := .array []
    let w : Value := .variant ⟨.variant, none⟩ (.variant ⟨.array (.text .string), none⟩ v)
    v.Layered w ∧ (Shape.option (.seq .char)).decode w = .ok (.some (.seq [])) := by
  intro v w
  have hv : v.HasForm (.array (.text .string)) := .array (List.forall_mem_nil _)
  have h : v.Layered w := .variant (.variant .bare hv nofun) (.variant _ _) nofun
  exact ⟨h, (h.looked_through.1 _).trans rfl⟩

end DBus
