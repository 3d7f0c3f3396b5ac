import DBus.Proofs.Normal
import DBus.Unmarshal

/-!
# Registered types

Every node that is read or written is looked up in the policy, before anything else is done with it.
So a policy that lacks some of the entries of the standard one lets through just the values that the
standard one lets through and that meet no type without an entry, with the same result. Any other
value fails for the first such type (`Marshaller.registered_only`).

Which nodes are met depends on the value, for it is the value that states the types in its variants
and that has items, or none, to go with the element type of an array (`Value.visits`).

Two runs are compared, under the standard policy and under the other one. At each node they agree if
its type is registered, and the second one stops there if it is not. What goes on after a node meets
what comes later (`Permits.both`, `Write.Permits.bind`).
-/

namespace DBus

/-! ## Visited types -/

namespace Value

/-- The types that are met where a plain value is taken as a type, given those that are met where
it is taken as a type that is no variant. -/
def visitsPlain (v : Value) (plain : Ty → List TypeCode) : Ty → List TypeCode
  | .variant =>
    .variant :: match v.inferArgument with
      | .ok a => plain a.ty
      | .error _ => []
  | t => plain t

mutual

/-- The types of the nodes that are met where the value is taken as a type, in order : each node
comes before those inside of it. A variant goes on with the type that it states. -/
def visits : Value → Ty → List TypeCode
  | scalar s => (scalar s).visitsPlain fun t => [t.code]
  | text c s => (text c s).visitsPlain fun t => [t.code]
  | array vs => (array vs).visitsPlain fun
    | .array t => .array :: visitsItems vs t
    | t => [t.code]
  | struct vs => (struct vs).visitsPlain fun
    | .struct ts => .struct :: visitsFields vs ts
    | t => [t.code]
  | dictEntry key value => (dictEntry key value).visitsPlain fun
    | .dictEntry k t => .dictEntry :: (key.visits (.basic k) ++ value.visits t)
    | t => [t.code]
  | variant a v => fun
    | .variant => .variant :: v.visits a.ty
    | t => [t.code]

/-- The types that are met in items of a type. -/
def visitsItems : List Value → Ty → List TypeCode
  | [], _ => []
  | v :: vs, t => v.visits t ++ visitsItems vs t

/-- The types that are met in fields of the types. -/
def visitsFields : List Value → List Ty → List TypeCode
  | v :: vs, t :: ts => v.visits t ++ visitsFields vs ts
  | _, _ => []

end

/-- A node is met before what is inside of it. -/
theorem visits_eq_cons (v : Value) (t : Ty) : v.visits t = t.code :: (v.visits t).tail := by
  cases v <;> cases t <;> rfl

theorem visits_basic (v : Value) (b : BasicCode) : v.visits (.basic b) = [.basic b] := by
  cases v <;> rfl

theorem visitsPlain_of_ne {v : Value} {plain : Ty → List TypeCode} {t : Ty} (ht : t ≠ .variant) :
    v.visitsPlain plain t = plain t := by
  cases t <;> first | rfl | exact absurd rfl ht

/-- A plain value in a variant is met as the type that is inferred. -/
theorem visitsPlain_variant {v : Value} (hv : v.Plain) {a : Argument}
    (ha : v.inferArgument = .ok a) (plain : Ty → List TypeCode) :
    v.visitsPlain plain .variant = .variant :: v.visitsPlain plain a.ty := by
  have hne : a.ty ≠ .variant := by
    intro h
    have hcode := code_of_inferArgument ha
    rw [h] at hcode
    exact hv hcode.symm
  rw [visitsPlain_of_ne hne, visitsPlain, ha]

/-- A value in a variant is met as the type that the variant has it with. -/
theorem visits_variant {v x : Value} {a : Argument} (h : v.asVariant = .ok (a, x)) :
    v.visits .variant = .variant :: x.visits a.ty := by
  cases v with
  | variant b u =>
    cases h
    rfl
  | _ =>
    simp only [asVariant, bind_eq_ok, pure_eq_ok] at h
    obtain ⟨b, hb, h⟩ := h
    cases h
    exact visitsPlain_variant (by simp [Plain, code]) hb _

end Value

/-! ## Policies without some of the entries -/

namespace BoxingPolicy

/-- The policy has been had from the standard one by leaving out entries. -/
def Reduced (p : BoxingPolicy) : Prop :=
  ∀ c, p.entry? c = none ∨ p.entry? c = standard.entry? c

/-- The first of the types that is not registered. -/
def missing? (p : BoxingPolicy) (cs : List TypeCode) : Option TypeCode :=
  cs.find? fun c => !p.isRegistered c

variable {p : BoxingPolicy} {c : TypeCode} {cs ds : List TypeCode}

theorem missing?_append : p.missing? (cs ++ ds) = (p.missing? cs).or (p.missing? ds) :=
  List.find?_append

theorem missing?_cons_of_registered (hc : p.isRegistered c = true) :
    p.missing? (c :: cs) = p.missing? cs := by
  rw [missing?, List.find?_cons_of_neg (by simp [hc])]
  rfl

theorem missing?_cons_of_not_registered (hc : p.isRegistered c = false) :
    p.missing? (c :: cs) = some c := by
  rw [missing?, List.find?_cons_of_pos (by simp [hc])]

theorem missing?_eq_none_iff : p.missing? cs = none ↔ ∀ c ∈ cs, p.isRegistered c = true := by
  simp [missing?]

theorem missing?_of_eq_append {pre post : List TypeCode} (hcs : cs = pre ++ c :: post)
    (hpre : ∀ b ∈ pre, p.isRegistered b = true) (hc : p.isRegistered c = false) :
    p.missing? cs = some c := by
  rw [hcs, missing?_append, missing?_eq_none_iff.mpr hpre, missing?_cons_of_not_registered hc]
  rfl

theorem entry_of_not_registered (hc : p.isRegistered c = false) :
    p.entry c = .error (.unregisteredType c) := by
  rw [isRegistered, Option.isSome_eq_false_iff, Option.isNone_iff_eq_none] at hc
  rw [entry, hc]

theorem Reduced.entry_of_registered (hp : p.Reduced) (hc : p.isRegistered c = true) :
    p.entry c = standard.entry c := by
  rcases hp c with h | h
  · rw [isRegistered, h] at hc
    cases hc
  · rw [entry, entry, h]

/-- A result, or the error for the first of the types that is not registered. -/
def permit {α : Type} (p : BoxingPolicy) (cs : List TypeCode) (a : α) : Except Error α :=
  match p.missing? cs with
  | none => .ok a
  | some c => .error (.unregisteredType c)

section

variable {α β : Type} {a : α} {b : β}

theorem permit_of_eq_none (h : p.missing? cs = none) : p.permit cs a = .ok a := by
  rw [permit, h]

theorem permit_of_eq_some (h : p.missing? cs = some c) :
    p.permit cs a = .error (.unregisteredType c) := by
  rw [permit, h]

theorem permit_nil : p.permit [] a = .ok a := rfl

/-- What goes on with the result meets more types. -/
theorem permit_bind {f : α → Except Error β} (h : f a = p.permit ds b) :
    (p.permit cs a >>= f) = p.permit (cs ++ ds) b := by
  cases hcs : p.missing? cs with
  | none =>
    rw [permit_of_eq_none hcs, ok_bind, h, permit, permit, missing?_append, hcs]
    rfl
  | some c =>
    rw [permit_of_eq_some hcs, permit, missing?_append, hcs]
    rfl

theorem permit_map (f : α → β) : (p.permit cs a >>= fun a => pure (f a)) = p.permit cs (f a) := by
  have hpure : (pure (f a) : Except Error β) = p.permit [] (f a) := permit_nil.symm
  rw [permit_bind (f := fun a => pure (f a)) hpure, List.append_nil]

end

end BoxingPolicy

/-! ## Reading -/

/-- The second operation has the results of the first, each unless one of the types that are met on
the way to it is not registered. -/
structure Permits {α : Type} (p : BoxingPolicy) (cs : α → List TypeCode) (x y : Except Error α) :
    Prop where
  of_ok : ∀ a, x = .ok a → y = p.permit (cs a) a
  ok_of : ∀ a, y = .ok a → x = .ok a

namespace Permits

variable {α β γ σ : Type} {p : BoxingPolicy} {x y : Except Error α}

theorem same {cs : α → List TypeCode} (h : ∀ a, x = .ok a → cs a = []) : Permits p cs x x where
  of_ok a ha := by rw [h a ha, ha, BoxingPolicy.permit_nil]
  ok_of _ ha := ha

/-- Both operations begin with the same one, which meets no types. -/
theorem same_bind (x : Except Error α) {cs : β → List TypeCode} {f g : α → Except Error β}
    (hf : ∀ a, x = .ok a → Permits p cs (f a) (g a)) : Permits p cs (x >>= f) (x >>= g) := by
  cases x with
  | ok a => exact hf a rfl
  | error e => exact ⟨nofun, nofun⟩

theorem map {cs : α → List TypeCode} {ds : β → List TypeCode} {f : α → β} (hx : Permits p cs x y)
    (h : ∀ a, ds (f a) = cs a) : Permits p ds (do return f (← x)) (do return f (← y)) where
  of_ok b hb := by
    simp only [bind_eq_ok, pure_eq_ok] at hb
    obtain ⟨a, ha, rfl⟩ := hb
    rw [hx.of_ok a ha, h, BoxingPolicy.permit_map]
  ok_of b hb := by
    simp only [bind_eq_ok, pure_eq_ok] at hb ⊢
    obtain ⟨a, ha, rfl⟩ := hb
    exact ⟨a, hx.ok_of a ha, rfl⟩

/-- Something is read, and then what is behind it. -/
theorem both {cs : α → List TypeCode} {ds : β → List TypeCode} {es : γ → List TypeCode}
    {k : Except Error σ} {f g : σ → Except Error β} {h : α → β → γ} (hx : Permits p cs x y)
    (hf : ∀ s, Permits p ds (f s) (g s)) (hes : ∀ a b, es (h a b) = cs a ++ ds b) :
    Permits p es (do let a ← x; let s ← k; let b ← f s; return h a b)
      (do let a ← y; let s ← k; let b ← g s; return h a b) where
  of_ok c hc := by
    simp only [bind_eq_ok, pure_eq_ok] at hc
    obtain ⟨a, ha, s, hs, b, hb, rfl⟩ := hc
    rw [hx.of_ok a ha, hes]
    refine BoxingPolicy.permit_bind ?_
    rw [hs, ok_bind, (hf s).of_ok b hb, BoxingPolicy.permit_map]
  ok_of c hc := by
    simp only [bind_eq_ok, pure_eq_ok] at hc ⊢
    obtain ⟨a, ha, s, hs, b, hb, rfl⟩ := hc
    exact ⟨a, hx.ok_of a ha, s, hs, b, (hf s).ok_of b hb, rfl⟩

/-- A node is met, and then what is inside of it. -/
theorem node {t : Ty} {x y : Except Error Value} (hc : p.isRegistered t.code = true)
    (h : Permits p (fun v : Value => (v.visits t).tail) x y) :
    Permits p (fun v : Value => v.visits t) x y where
  of_ok v hv := by
    rw [h.of_ok v hv, v.visits_eq_cons t, List.tail_cons, BoxingPolicy.permit, BoxingPolicy.permit,
      BoxingPolicy.missing?_cons_of_registered hc]
  ok_of := h.ok_of

/-- A node that is not registered is not gone on from. -/
theorem stop {t : Ty} (hc : p.isRegistered t.code = false) (x : Except Error Value) :
    Permits p (fun v : Value => v.visits t) x (.error (.unregisteredType t.code)) where
  of_ok v _ := by
    rw [v.visits_eq_cons t,
      BoxingPolicy.permit_of_eq_some (BoxingPolicy.missing?_cons_of_not_registered hc)]
  ok_of := nofun

end Permits

namespace Marshaller

variable {p : BoxingPolicy} {d levels room : Nat} {t : Ty} {r : Reader}

theorem permits_readItems {read read' : Reader → Except Error Value}
    (h : ∀ r, Permits p (fun v : Value => v.visits t) (read r) (read' r)) (n : Nat) (r : Reader) :
    Permits p (fun vs => Value.visitsItems vs t) (readItems read n r) (readItems read' n r) := by
  induction n generalizing r with
  | zero => exact .same fun vs h => by cases h; rfl
  | succ n ih =>
    unfold readItems
    split
    · exact .same fun vs h => by cases h; rfl
    · exact .both (h r) ih fun v vs => rfl

theorem permits_readFields {read read' : Ty → Reader → Except Error Value}
    (h : ∀ t r, Permits p (fun v : Value => v.visits t) (read t r) (read' t r)) (ts : List Ty)
    (r : Reader) : Permits p (fun vs => Value.visitsFields vs ts) (readFields read ts r)
      (readFields read' ts r) := by
  induction ts generalizing r with
  | nil => exact .same fun vs h => by cases h; rfl
  | cons t ts ih => exact .both (h t r) ih fun v vs => rfl

/-- A registered node is read as the standard policy has it. -/
theorem readBy_of_registered (hp : p.Reduced) (hc : p.isRegistered t.code = true)
    (inner : (room : Nat) → Ty → Reader → Except Error Value) :
    (⟨p, d⟩ : Marshaller).readBy inner room t r =
      (⟨.standard, d⟩ : Marshaller).readBy inner room t r := by
  unfold readBy
  rw [hp.entry_of_registered hc]
  rfl

theorem readBy_of_not_registered (hc : p.isRegistered t.code = false)
    (inner : (room : Nat) → Ty → Reader → Except Error Value) :
    (⟨p, d⟩ : Marshaller).readBy inner room t r = .error (.unregisteredType t.code) := by
  unfold readBy
  rw [BoxingPolicy.entry_of_not_registered hc]
  rfl

theorem permits_readBy (hp : p.Reduced)
    {inner inner' : (room : Nat) → Ty → Reader → Except Error Value}
    (h : ∀ room t r, Permits p (fun v : Value => v.visits t) (inner room t r) (inner' room t r)) :
    Permits p (fun v : Value => v.visits t) ((⟨.standard, d⟩ : Marshaller).readBy inner room t r)
      ((⟨p, d⟩ : Marshaller).readBy inner' room t r) := by
  cases hc : p.isRegistered t.code with
  | false =>
    rw [readBy_of_not_registered hc]
    exact .stop hc _
  | true =>
    rw [readBy_of_registered hp hc]
    refine .node hc (.same_bind _ fun _ _ => .same_bind _ fun _ _ => ?_)
    rcases t with (c | c) | e | ts | ⟨k, u⟩ | _
    · exact .same fun v _ => congrArg List.tail (v.visits_basic _)
    · exact .same fun v _ => congrArg List.tail (v.visits_basic _)
    · exact .same_bind _ fun room _ => .same_bind _ fun items _ =>
        .map (permits_readItems (h room e) _ items) fun vs => rfl
    · exact .same_bind _ fun room _ => .same_bind _ fun fields _ =>
        .map (permits_readFields (h room) ts fields) fun vs => rfl
    · exact .same_bind _ fun room _ => .same_bind _ fun entry _ =>
        .both (h room (.basic k) entry) (h room u) fun key value => rfl
    · exact .same_bind _ fun room _ => .same_bind _ fun contents _ => .same_bind _ fun u _ =>
        .map (h room u contents) fun v => rfl

theorem permits_readWithin (hp : p.Reduced) (levels room : Nat) (t : Ty) (r : Reader) :
    Permits p (fun v : Value => v.visits t)
      ((⟨.standard, d⟩ : Marshaller).readWithin levels room t r)
      ((⟨p, d⟩ : Marshaller).readWithin levels room t r) := by
  induction levels generalizing room t r with
  | zero => exact permits_readBy hp fun _ _ _ => .same fun _ h => by cases h
  | succ levels ih => exact permits_readBy hp ih

end Marshaller

/-! ## Writing -/

/-- The second operation does what the first does, unless one of the types that are met on the way
is not registered. -/
structure Write.Permits {α : Type} (p : BoxingPolicy) (cs : List TypeCode) (x y : Write α) :
    Prop where
  of_ok : ∀ msg a msg', x.run msg = .ok a msg' → p.missing? cs = none → y.run msg = .ok a msg'
  of_missing : ∀ msg a msg' c, x.run msg = .ok a msg' → p.missing? cs = some c →
    ∃ left, y.run msg = .error (.unregisteredType c) left
  ok_of : ∀ msg a msg', y.run msg = .ok a msg' → x.run msg = .ok a msg'

namespace Write.Permits

variable {α β : Type} {p : BoxingPolicy} {cs ds : List TypeCode} {x y : Write α}
  {f g : α → Write β}

theorem same (x : Write α) : Permits p [] x x where
  of_ok _ _ _ h _ := h
  of_missing := nofun
  ok_of _ _ _ h := h

theorem throw (e : Error) : Permits p cs (MonadExcept.throw e : Write α) (MonadExcept.throw e) where
  of_ok := nofun
  of_missing := nofun
  ok_of := nofun

theorem throw_bind (e : Error) :
    Permits p cs (MonadExcept.throw e >>= f) (MonadExcept.throw e >>= g) where
  of_ok := nofun
  of_missing := nofun
  ok_of := nofun

/-- Both operations begin with the same result, which meets no types. -/
theorem lift (x : Except Error α) (hf : ∀ a, x = .ok a → Permits p cs (f a) (g a)) :
    Permits p cs (liftM x >>= f) (liftM x >>= g) := by
  cases x with
  | ok a => exact hf a rfl
  | error e => exact throw_bind e

/-- What comes later meets its types after what comes first. -/
theorem bind (hx : Permits p cs x y) (hf : ∀ a, Permits p ds (f a) (g a)) :
    Permits p (cs ++ ds) (x >>= f) (y >>= g) where
  of_ok msg b msg' h hnone := by
    rw [BoxingPolicy.missing?_append, Option.or_eq_none_iff] at hnone
    obtain ⟨a, mid, ha, hb⟩ := run_bind_eq_ok.mp h
    exact run_bind_eq_ok.mpr
      ⟨a, mid, hx.of_ok msg a mid ha hnone.1, (hf a).of_ok mid b msg' hb hnone.2⟩
  of_missing msg b msg' c h hsome := by
    rw [BoxingPolicy.missing?_append] at hsome
    obtain ⟨a, mid, ha, hb⟩ := run_bind_eq_ok.mp h
    cases hcs : p.missing? cs with
    | some c' =>
      rw [hcs, Option.some_or, Option.some.injEq] at hsome
      obtain rfl := hsome
      obtain ⟨left, hleft⟩ := hx.of_missing msg a mid c' ha hcs
      exact ⟨left, run_bind_eq_error.mpr (.inl hleft)⟩
    | none =>
      rw [hcs, Option.none_or] at hsome
      obtain ⟨left, hleft⟩ := (hf a).of_missing mid b msg' c hb hsome
      exact ⟨left, run_bind_eq_error.mpr (.inr ⟨a, mid, hx.of_ok msg a mid ha hcs, hleft⟩)⟩
  ok_of msg b msg' h := by
    obtain ⟨a, mid, ha, hb⟩ := run_bind_eq_ok.mp h
    exact run_bind_eq_ok.mpr ⟨a, mid, hx.ok_of msg a mid ha, (hf a).ok_of mid b msg' hb⟩

/-- Both operations begin with the same one, which meets no types. -/
theorem same_bind (x : Write α) (hf : ∀ a, Permits p cs (f a) (g a)) :
    Permits p cs (x >>= f) (x >>= g) := bind (same x) hf

/-- Both operations end with the same one, which meets no types. -/
theorem bind_same (hx : Permits p cs x y) (f : α → Write β) : Permits p cs (x >>= f) (y >>= f) := by
  rw [← List.append_nil cs]
  exact bind hx fun a => same (f a)

theorem node {c : TypeCode} (hc : p.isRegistered c = true) (h : Permits p cs x y) :
    Permits p (c :: cs) x y where
  of_ok msg a msg' hx := by
    rw [BoxingPolicy.missing?_cons_of_registered hc]
    exact h.of_ok msg a msg' hx
  of_missing msg a msg' c' hx := by
    rw [BoxingPolicy.missing?_cons_of_registered hc]
    exact h.of_missing msg a msg' c' hx
  ok_of := h.ok_of

theorem stop {c : TypeCode} (hc : p.isRegistered c = false) (x : Write α) :
    Permits p (c :: cs) x (MonadExcept.throw (.unregisteredType c)) where
  of_ok _ _ _ _ hnone := by
    rw [BoxingPolicy.missing?_cons_of_not_registered hc] at hnone
    cases hnone
  of_missing msg _ _ c' _ hsome := by
    rw [BoxingPolicy.missing?_cons_of_not_registered hc, Option.some.injEq] at hsome
    exact ⟨msg, hsome ▸ rfl⟩
  ok_of := nofun

end Write.Permits

namespace Marshaller

variable {p : BoxingPolicy} {d room : Nat} {t : Ty} {v : Value} {w : Writer}

theorem permits_forM {write write' : Value → Write Unit}
    (h : ∀ v, Write.Permits p (v.visits t) (write v) (write' v)) (vs : List Value) :
    Write.Permits p (Value.visitsItems vs t) (vs.forM write) (vs.forM write') := by
  induction vs with
  | nil => exact .same _
  | cons v vs ih => exact .bind (h v) fun _ => ih

theorem permits_writeFields {write write' : Ty → Value → Write Unit}
    (h : ∀ t v, Write.Permits p (v.visits t) (write t v) (write' t v)) :
    ∀ (ts : List Ty) (vs : List Value),
      Write.Permits p (Value.visitsFields vs ts) (writeFields write ts vs)
        (writeFields write' ts vs)
  | [], [] => .same _
  | [], _ :: _ => .same _
  | _ :: _, [] => .same _
  | t :: ts, v :: vs => .bind (h t v) fun _ => permits_writeFields h ts vs

/-- A container meets what is written inside. -/
theorem permits_container {m : Marshaller} {cs : List TypeCode} {opening : Write Writer}
    {fill fill' : (room : Nat) → Writer → Write Unit}
    (hfill : ∀ room items, Write.Permits p cs (fill room items) (fill' room items)) :
    Write.Permits p cs
      (do
        let room ← liftM (m.deeper room)
        let items ← opening
        fill room items
        items.close)
      (do
        let room ← liftM (m.deeper room)
        let items ← opening
        fill' room items
        items.close) :=
  .same_bind _ fun room => .same_bind _ fun items => .bind_same (hfill room items) _

/-- A registered node is written as the standard policy has it. -/
theorem writeBy_of_registered (hp : p.Reduced) (hc : p.isRegistered t.code = true)
    (inner : (room : Nat) → Ty → Value → Writer → Write Unit) :
    (⟨p, d⟩ : Marshaller).writeBy inner room t v w =
      (⟨.standard, d⟩ : Marshaller).writeBy inner room t v w := by
  have hentry := hp.entry_of_registered hc
  unfold writeBy
  rw [hentry]
  cases t with
  | basic b =>
    rw [Ty.code] at hentry
    simp only [unbox, BoxingPolicy.unboxer, Ty.code, hentry]
  | _ => cases v <;> rfl

theorem writeBy_of_not_registered (hc : p.isRegistered t.code = false)
    (inner : (room : Nat) → Ty → Value → Writer → Write Unit) :
    (⟨p, d⟩ : Marshaller).writeBy inner room t v w = throw (.unregisteredType t.code) := by
  unfold writeBy
  rw [BoxingPolicy.entry_of_not_registered hc]
  rfl

/-- What is written inside of a node meets the types inside of it. -/
theorem permits_writeBy_inside {m : Marshaller}
    {inner inner' : (room : Nat) → Ty → Value → Writer → Write Unit}
    (h : ∀ room t v w, Write.Permits p (v.visits t) (inner room t v w) (inner' room t v w)) (t : Ty)
    (v : Value) : Write.Permits p (v.visits t).tail (m.writeBy inner room t v w)
      (m.writeBy inner' room t v w) := by
  refine .same_bind _ fun _ => ?_
  split
  · rw [Value.visits_basic]
    exact .same _
  · next e vs =>
    exact permits_container fun room items => permits_forM (fun v => h room e v items) vs
  · next ts vs =>
    split
    · exact .throw_bind _
    · exact permits_container fun room fields =>
        permits_writeFields (fun t v => h room t v fields) ts vs
  · next k u key value =>
    -- the key and the value are what is inside
    simp only [← bind_assoc]
    exact permits_container fun room entry =>
      .bind (h room (.basic k) key entry) fun _ => h room u value entry
  · refine .lift _ fun ⟨a, x⟩ hv => ?_
    rw [Value.visits_variant hv, List.tail_cons]
    exact permits_container fun room inside => h room a.ty x inside
  · exact .throw _

theorem permits_writeBy (hp : p.Reduced)
    {inner inner' : (room : Nat) → Ty → Value → Writer → Write Unit}
    (h : ∀ room t v w, Write.Permits p (v.visits t) (inner room t v w) (inner' room t v w)) (t : Ty)
    (v : Value) :
    Write.Permits p (v.visits t) ((⟨.standard, d⟩ : Marshaller).writeBy inner room t v w)
      ((⟨p, d⟩ : Marshaller).writeBy inner' room t v w) := by
  rw [v.visits_eq_cons t]
  cases hc : p.isRegistered t.code with
  | false =>
    rw [writeBy_of_not_registered hc]
    exact .stop hc _
  | true =>
    rw [writeBy_of_registered hp hc]
    exact .node hc (permits_writeBy_inside h t v)

theorem permits_writeWithin (hp : p.Reduced) (levels room : Nat) (t : Ty) (v : Value) (w : Writer) :
    Write.Permits p (v.visits t) ((⟨.standard, d⟩ : Marshaller).writeWithin levels room t v w)
      ((⟨p, d⟩ : Marshaller).writeWithin levels room t v w) := by
  induction levels generalizing room t v w with
  | zero => exact permits_writeBy hp (fun _ _ _ _ => .throw _) t v
  | succ levels ih => exact permits_writeBy hp ih t v

/-! ## Both ways -/

/-- A policy without some of the entries reads a value if the standard policy reads it and all of
the types that are met are registered, and it writes a value likewise, as the same bytes. Where only
the types are in the way, the first of them that is not registered is the error. -/
theorem registered_only {p : BoxingPolicy} (hp : p.Reduced) (maxDepth : Nat) (t : Ty) :
    (∀ r v, ((⟨p, maxDepth⟩ : Marshaller).readValue t r = .ok v ↔
        (⟨.standard, maxDepth⟩ : Marshaller).readValue t r = .ok v ∧
          ∀ c ∈ v.visits t, p.isRegistered c = true) ∧
      ((⟨.standard, maxDepth⟩ : Marshaller).readValue t r = .ok v →
        ∀ pre c post, v.visits t = pre ++ c :: post → (∀ b ∈ pre, p.isRegistered b = true) →
          p.isRegistered c = false →
            (⟨p, maxDepth⟩ : Marshaller).readValue t r = .error (.unregisteredType c))) ∧
    ∀ v w msg msg', (((⟨p, maxDepth⟩ : Marshaller).writeValue t v w).run msg = .ok () msg' ↔
        ((⟨.standard, maxDepth⟩ : Marshaller).writeValue t v w).run msg = .ok () msg' ∧
          ∀ c ∈ v.visits t, p.isRegistered c = true) ∧
      (((⟨.standard, maxDepth⟩ : Marshaller).writeValue t v w).run msg = .ok () msg' →
        ∀ pre c post, v.visits t = pre ++ c :: post → (∀ b ∈ pre, p.isRegistered b = true) →
          p.isRegistered c = false → ∃ left,
            ((⟨p, maxDepth⟩ : Marshaller).writeValue t v w).run msg =
              .error (.unregisteredType c) left) := by
  refine ⟨fun r v => ?_, fun v w msg msg' => ?_⟩
  · have hread := permits_readWithin (d := maxDepth) hp r.levels maxDepth t r
    refine ⟨⟨fun hv => ?_, fun ⟨hv, hall⟩ => ?_⟩, fun hv pre c post hcs hpre hc => ?_⟩
    · have hstandard := hread.ok_of v hv
      have hpermit := (hread.of_ok v hstandard).symm.trans hv
      refine ⟨hstandard, BoxingPolicy.missing?_eq_none_iff.mp ?_⟩
      cases hmissing : p.missing? (v.visits t) with
      | none => rfl
      | some c => cases (BoxingPolicy.permit_of_eq_some hmissing).symm.trans hpermit
    · exact (hread.of_ok v hv).trans
        (BoxingPolicy.permit_of_eq_none (BoxingPolicy.missing?_eq_none_iff.mpr hall))
    · exact (hread.of_ok v hv).trans
        (BoxingPolicy.permit_of_eq_some (BoxingPolicy.missing?_of_eq_append hcs hpre hc))
  · have hwrite := permits_writeWithin (d := maxDepth) hp w.levels maxDepth t v w
    refine ⟨⟨fun h => ?_, fun ⟨h, hall⟩ => ?_⟩, fun h pre c post hcs hpre hc => ?_⟩
    · have hstandard := hwrite.ok_of msg () msg' h
      refine ⟨hstandard, BoxingPolicy.missing?_eq_none_iff.mp ?_⟩
      cases hmissing : p.missing? (v.visits t) with
      | none => rfl
      | some c =>
        obtain ⟨left, hleft⟩ := hwrite.of_missing msg () msg' c hstandard hmissing
        cases hleft.symm.trans h
    · exact hwrite.of_ok msg () msg' h (BoxingPolicy.missing?_eq_none_iff.mpr hall)
    · exact hwrite.of_missing msg () msg' c h (BoxingPolicy.missing?_of_eq_append hcs hpre hc)

/-- Booleans are not registered. They are not met in an empty array of them, but in a variant. -/
theorem registered_only_variant :
    let p : BoxingPolicy := ⟨fun c => if c = .fixed .boolean then none else some (.standard c)⟩
    let t : Ty := .struct [.array (.fixed .boolean), .variant]
    let plain : Value := .struct [.array [], .scalar (.boolean true)]
    let r : Reader := ⟨.little, [0, 0, 0, 0, 1, 98, 0, 0, 1, 0, 0, 0], 0, 12,
      [40, 97, 98, 118, 41], 0, false, 64⟩
    (⟨p, 64⟩ : Marshaller).readValue t r = .error (.unregisteredType (.fixed .boolean)) ∧
      (∃ left, ((⟨p, 64⟩ : Marshaller).writeValue t plain (.top .little)).run {} =
        .error (.unregisteredType (.fixed .boolean)) left) ∧
      (⟨p, 64⟩ : Marshaller).readValue (.array (.fixed .boolean))
        { r with signature := [97, 98] } = .ok (.array []) := by
  intro p t plain r
  have hp : p.Reduced := by
    intro c
    by_cases hc : c = .fixed .boolean
    · exact .inl (if_pos hc)
    · exact .inr (if_neg hc)
  have hv : (⟨.standard, 64⟩ : Marshaller).readValue t r =
      .ok (.struct [.array [], .variant ⟨.fixed .boolean, none⟩ (.scalar (.boolean true))]) := by
    simp only [t, r]
    rfl
  have hmsg : ((⟨.standard, 64⟩ : Marshaller).writeValue t plain (.top .little)).run {} =
      .ok () ⟨[0, 0, 0, 0, 1, 98, 0, 0, 1, 0, 0, 0], [40, 97, 98, 118, 41]⟩ := by
    simp only [t, plain]
    rfl
  have hempty : (⟨.standard, 64⟩ : Marshaller).readValue (.array (.fixed .boolean))
      { r with signature := [97, 98] } = .ok (.array []) := by
    simp only [r]
    rfl
  have hpre : ∀ b ∈ [TypeCode.struct, .array, .variant], p.isRegistered b = true := by decide
  have hvisits : plain.visits t =
      [TypeCode.struct, .array, .variant] ++ TypeCode.fixed .boolean :: [] := by rfl
  obtain ⟨hread, hwrite⟩ := registered_only hp 64 t
  obtain ⟨hitems, -⟩ := registered_only hp 64 (.array (.fixed .boolean))
  exact ⟨(hread r _).2 hv _ _ [] rfl hpre rfl, (hwrite _ _ _ _).2 hmsg _ _ [] hvisits hpre rfl,
    (hitems _ _).1.mpr ⟨hempty, by decide⟩⟩

end Marshaller

end DBus
