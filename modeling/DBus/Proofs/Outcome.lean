import DBus.Marshal
import DBus.Unmarshal

/-!
# Outcomes

An operation that succeeds has succeeded at each of its steps. The lemmas of this file take the
result of a composed operation apart, for plain results (`bind_eq_ok`) and for operations with a
state (`run_bind_eq_ok`), which each step hands on to the next.

Where an operation succeeds on a condition and has a single way to fail, its result is `Decided` by
the condition, and so is that of the operation on each of a list (`Decided.mapM`).

One level of writing is an equation for each type (`Marshaller.writeBy_array` and the others). One
level of reading is taken apart by cases on `Marshaller.ReadLevel`, which has one for each type
(`Marshaller.readBy_eq_ok_iff`).
-/

namespace DBus

/-! ## Results -/

section Results

variable {ε α β : Type}

/-- Two steps succeed if both do. -/
@[simp] theorem bind_eq_ok {x : Except ε α} {f : α → Except ε β} {b : β} :
    (x >>= f) = .ok b ↔ ∃ a, x = .ok a ∧ f a = .ok b := by
  cases x <;> simp [bind, Except.bind]

@[simp] theorem map_eq_ok {x : Except ε α} {f : α → β} {b : β} :
    (f <$> x) = .ok b ↔ ∃ a, x = .ok a ∧ f a = b := by
  cases x <;> simp [Functor.map, Except.map]

@[simp] theorem pure_eq_ok {a b : α} : (pure a : Except ε α) = .ok b ↔ a = b := by
  simp [pure, Except.pure]

@[simp] theorem throw_ne_ok {e : ε} {a : α} : (throw e : Except ε α) ≠ .ok a := nofun

@[simp] theorem ok_bind {a : α} {f : α → Except ε β} : (.ok a >>= f) = f a := rfl

@[simp] theorem throw_bind {e : ε} {f : α → Except ε β} : (throw e >>= f) = throw e := rfl

/-- The result does not matter, but there has to be one. -/
@[simp] theorem discard_eq_ok {x : Except ε α} {u : PUnit} :
    discard x = .ok u ↔ ∃ a, x = .ok a := by
  cases x <;> simp [discard, Functor.discard, Functor.mapConst, Except.map]

/-- A check in front of an operation has to hold. -/
@[simp] theorem ite_throw_eq_ok {p : Prop} [Decidable p] {e : ε} {x : Except ε α} {a : α} :
    (if p then throw e else x) = .ok a ↔ ¬p ∧ x = .ok a := by
  by_cases hp : p <;> simp [hp]

/-- An operation on each of a list succeeds if it does on every one of them. -/
theorem mapM_eq_ok_iff {f : α → Except ε β} {as : List α} {bs : List β} :
    as.mapM f = .ok bs ↔ as.length = bs.length ∧ ∀ q ∈ as.zip bs, f q.1 = .ok q.2 := by
  induction as generalizing bs with
  | nil =>
    cases bs with
    | nil => simp
    | cons b bs => simp
  | cons a as ih =>
    simp only [List.mapM_cons, bind_eq_ok, pure_eq_ok, ih]
    cases bs with
    | nil => simp
    | cons b bs =>
      rw [List.zip_cons_cons, List.forall_mem_cons, List.length_cons, List.length_cons]
      constructor
      · rintro ⟨_, hb, _, ⟨hlen, hall⟩, h⟩
        obtain ⟨rfl, rfl⟩ := List.cons.inj h
        exact ⟨congrArg _ hlen, hb, hall⟩
      · rintro ⟨hlen, hb, hall⟩
        exact ⟨b, hb, bs, ⟨Nat.succ.inj hlen, hall⟩, rfl⟩

/-- In lists of one length each item has a partner. -/
theorem exists_mem_zip {as : List α} {bs : List β} (hlen : as.length = bs.length) {a : α}
    (ha : a ∈ as) : ∃ b, (a, b) ∈ as.zip bs := by
  have hfst : (as.zip bs).map Prod.fst = as := List.map_fst_zip (by omega)
  rw [← hfst, List.mem_map] at ha
  obtain ⟨⟨_, b⟩, hb, rfl⟩ := ha
  exact ⟨b, hb⟩

/-- Each of the right list is paired with one of the left list. -/
theorem exists_mem_zip_right {as : List α} {bs : List β} (hlen : as.length = bs.length) {b : β}
    (hb : b ∈ bs) : ∃ a, (a, b) ∈ as.zip bs := by
  have hsnd : (as.zip bs).map Prod.snd = bs := List.map_snd_zip (by omega)
  rw [← hsnd, List.mem_map] at hb
  obtain ⟨⟨a, _⟩, ha, rfl⟩ := hb
  exact ⟨a, ha⟩

/-- Each result is that of one of the list. -/
theorem exists_mem_of_mapM {f : α → Except ε β} {as : List α} {bs : List β}
    (h : as.mapM f = .ok bs) {b : β} (hb : b ∈ bs) : ∃ a ∈ as, f a = .ok b := by
  obtain ⟨hlen, hall⟩ := mapM_eq_ok_iff.mp h
  obtain ⟨a, hab⟩ := exists_mem_zip_right hlen hb
  exact ⟨a, (List.of_mem_zip hab).1, hall _ hab⟩

/-- Each of the list has its result. -/
theorem exists_result_of_mapM {f : α → Except ε β} {as : List α} {bs : List β}
    (h : as.mapM f = .ok bs) {a : α} (ha : a ∈ as) : ∃ b ∈ bs, f a = .ok b := by
  obtain ⟨hlen, hall⟩ := mapM_eq_ok_iff.mp h
  obtain ⟨b, hab⟩ := exists_mem_zip hlen ha
  exact ⟨b, (List.of_mem_zip hab).2, hall _ hab⟩

/-- Two passes over a list are one. -/
theorem mapM_mapM {γ : Type} {f : α → Except ε β} {g : β → Except ε γ} {as : List α} {bs : List β}
    (h : as.mapM f = .ok bs) : bs.mapM g = as.mapM fun a => f a >>= g := by
  induction as generalizing bs with
  | nil =>
    cases h
    rfl
  | cons a as ih =>
    simp only [List.mapM_cons, bind_eq_ok, pure_eq_ok] at h
    obtain ⟨b, hb, bs, hbs, rfl⟩ := h
    rw [List.mapM_cons, List.mapM_cons, ih hbs, hb]
    rfl

/-- Another error does not make a success. -/
theorem mapError_eq_ok {x : Except ε α} {f : ε → β} {a : α} :
    x.mapError f = .ok a ↔ x = .ok a := by
  cases x with
  | ok b =>
    have h : (Except.ok b : Except ε α).mapError f = .ok b := rfl
    rw [h, Except.ok.injEq, Except.ok.injEq]
  | error e => exact ⟨nofun, nofun⟩

theorem ne_nil_of_forall_exists {Q : α → β → Prop} {as : List α} {bs : List β} (hne : as ≠ [])
    (h : ∀ a ∈ as, ∃ b ∈ bs, Q a b) : bs ≠ [] := by
  obtain ⟨a, ha⟩ := List.exists_mem_of_ne_nil as hne
  obtain ⟨b, hb, -⟩ := h a ha
  exact List.ne_nil_of_mem hb

/-- A result that is there if a condition holds, and is an error if it does not. -/
inductive Decided (P : Prop) (e : ε) (Q : α → Prop) (x : Except ε α) : Prop
  | ok {a : α} (hp : P) (hx : x = .ok a) (hq : Q a)
  | error (hp : ¬P) (hx : x = .error e)

namespace Decided

variable {P P' : Prop} {e : ε} {Q : α → Prop} {x : Except ε α}

/-- On the condition there is a result. -/
theorem exists_of (h : Decided P e Q x) (hp : P) : ∃ a, x = .ok a ∧ Q a := by
  cases h with
  | ok _ hx hq => exact ⟨_, hx, hq⟩
  | error hnot => exact absurd hp hnot

/-- If there is a result the condition holds. -/
theorem of_eq_ok (h : Decided P e Q x) {a : α} (ha : x = .ok a) : P ∧ Q a := by
  cases h with
  | ok hp hx hq =>
    obtain rfl := Except.ok.inj (hx.symm.trans ha)
    exact ⟨hp, hq⟩
  | error _ hx => cases hx.symm.trans ha

/-- Without the condition there is the one error. -/
theorem eq_error (h : Decided P e Q x) (hp : ¬P) : x = .error e := by
  cases h with
  | ok hp' => exact absurd hp' hp
  | error _ hx => exact hx

theorem exists_ok_iff (h : Decided P e Q x) : (∃ a, x = .ok a) ↔ P :=
  ⟨fun ⟨_, ha⟩ => (h.of_eq_ok ha).1, fun hp => (h.exists_of hp).imp fun _ => And.left⟩

/-- A condition that says the same decides the same. -/
theorem congr (h : Decided P e Q x) (hiff : P ↔ P') : Decided P' e Q x := by
  rwa [← propext hiff]

/-- A second operation goes on with the result, on a condition that the first one needs too. -/
theorem bind {f : α → Except ε β} {R : β → Prop} (h : Decided P e Q x) (hp : P' → P)
    (hf : ∀ a, x = .ok a → Q a → Decided P' e R (f a)) : Decided P' e R (x >>= f) := by
  cases h with
  | ok _ hx hq =>
    have hdecided := hf _ hx hq
    rwa [hx]
  | error hnot hx =>
    rw [hx]
    exact .error (fun h => hnot (hp h)) rfl

/-- Something is made of the result. -/
theorem map {f : α → β} {R : β → Prop} (h : Decided P e Q x)
    (hf : ∀ a, x = .ok a → Q a → R (f a)) : Decided P e R (do return f (← x)) := by
  cases h with
  | ok hp hx hq => exact .ok hp (by rw [hx]; rfl) (hf _ hx hq)
  | error hp hx => exact .error hp (by rw [hx]; rfl)

/-- An operation on each of a list is decided by all of it. -/
theorem mapM {f : α → Except ε β} {P : α → Prop} {Q : α → β → Prop} {as : List α}
    (h : ∀ a ∈ as, Decided (P a) e (Q a) (f a)) :
    Decided (∀ a ∈ as, P a) e
      (fun bs => (∀ a ∈ as, ∃ b ∈ bs, Q a b) ∧ ∀ b ∈ bs, ∃ a ∈ as, Q a b) (as.mapM f) := by
  induction as with
  | nil => exact .ok nofun rfl ⟨nofun, nofun⟩
  | cons a as ih =>
    obtain ⟨ha, has⟩ := List.forall_mem_cons.mp h
    have hcons : (∀ c ∈ a :: as, P c) ↔ P a ∧ ∀ c ∈ as, P c := List.forall_mem_cons
    rw [List.mapM_cons]
    cases ha with
    | error hp hx => exact .error (fun hall => hp (hcons.mp hall).1) (by rw [hx]; rfl)
    | @ok b hp hx hq =>
      cases ih has with
      | error hps hxs => exact .error (fun hall => hps (hcons.mp hall).2) (by rw [hx, hxs]; rfl)
      | @ok bs hps hxs hqs =>
        refine .ok (hcons.mpr ⟨hp, hps⟩) (by rw [hx, hxs]; rfl) ⟨?_, ?_⟩
        · refine List.forall_mem_cons.mpr ⟨⟨b, List.mem_cons_self, hq⟩, fun c hc => ?_⟩
          obtain ⟨y, hy, hcy⟩ := hqs.1 c hc
          exact ⟨y, List.mem_cons_of_mem b hy, hcy⟩
        · refine List.forall_mem_cons.mpr ⟨⟨a, List.mem_cons_self, hq⟩, fun y hy => ?_⟩
          obtain ⟨c, hc, hcy⟩ := hqs.2 y hy
          exact ⟨c, List.mem_cons_of_mem a hc, hcy⟩

end Decided

end Results

/-- Bytes are read as the text that is encoded as them. -/
theorem readText_eq_ok_iff {bs : Bytes} {t : String} : readText bs = .ok t ↔ utf8 t = bs := by
  rw [readText, mapError_eq_ok]
  refine ⟨utf8_of_decodeUtf8, ?_⟩
  rintro rfl
  exact decodeUtf8_utf8 t

/-! ## Operations with a state -/

section Runs

variable {σ α β : Type} {s s' : σ}

/-- Two steps succeed if the first does and the second does in the state that is handed on. -/
theorem run_bind_eq_ok {x : EStateM Error σ α} {f : α → EStateM Error σ β} {b : β} :
    (x >>= f).run s = .ok b s' ↔ ∃ a mid, x.run s = .ok a mid ∧ (f a).run mid = .ok b s' := by
  simp only [EStateM.run, bind, EStateM.bind]
  cases x s <;> simp [and_assoc]

/-- Two steps fail with the error of the first, or of the second in the state that is handed on. -/
theorem run_bind_eq_error {x : EStateM Error σ α} {f : α → EStateM Error σ β} {e : Error} :
    (x >>= f).run s = .error e s' ↔
      x.run s = .error e s' ∨ ∃ a mid, x.run s = .ok a mid ∧ (f a).run mid = .error e s' := by
  simp only [EStateM.run, bind, EStateM.bind]
  cases x s <;> simp [and_assoc]

theorem run_pure_eq_ok {a b : α} :
    (pure a : EStateM Error σ α).run s = .ok b s' ↔ a = b ∧ s = s' := by
  simp [EStateM.run, pure, EStateM.pure]

theorem run_throw_ne_ok {e : Error} {a : α} :
    (throw e : EStateM Error σ α).run s ≠ .ok a s' := nofun

theorem run_modify (f : σ → σ) :
    (modify f : EStateM Error σ PUnit).run s = .ok () (f s) := rfl

theorem run_modify_eq_ok {f : σ → σ} {u : PUnit} :
    (modify f : EStateM Error σ PUnit).run s = .ok u s' ↔ f s = s' := by
  rw [run_modify, EStateM.Result.ok.injEq]
  exact and_iff_right rfl

end Runs

namespace Write

variable {α β : Type} {msg msg' : Message}

/-- What does not write leaves the message as it is. -/
theorem lift_eq_ok {x : Except Error α} {a : α} :
    (liftM x : Write α).run msg = .ok a msg' ↔ x = .ok a ∧ msg = msg' := by
  cases x with
  | ok b => simp [liftM, monadLift, MonadLift.monadLift]
  | error e => simp [liftM, monadLift, MonadLift.monadLift, run_throw_ne_ok]

end Write

/-! ## Marshallers -/

theorem min_eq_succ_iff {a b d : Nat} :
    min a b = d + 1 ↔ ∃ a' b', a = a' + 1 ∧ b = b' + 1 ∧ min a' b' = d := by
  constructor
  · intro h
    exact ⟨a - 1, b - 1, by omega, by omega, by omega⟩
  · rintro ⟨a, b, rfl, rfl, rfl⟩
    exact Nat.succ_min_succ a b

/-- There is room for a container where there is room for all that is nested in it. -/
theorem exists_succ_of_le_min {n room levels : Nat} (h : n + 1 ≤ min room levels) :
    ∃ k l, room = k + 1 ∧ levels = l + 1 ∧ n ≤ min k l := by
  obtain ⟨k, rfl⟩ : ∃ k, room = k + 1 := Nat.exists_eq_add_of_le' (by omega)
  obtain ⟨l, rfl⟩ : ∃ l, levels = l + 1 := Nat.exists_eq_add_of_le' (by omega)
  exact ⟨k, l, rfl, rfl, by omega⟩

namespace Marshaller

variable {m : Marshaller}

/-- There is a level less below. -/
theorem deeper_eq_ok {room k : Nat} : m.deeper room = .ok k ↔ room = k + 1 := by
  cases room <;> simp [deeper]

/-- The standard policy has an entry for every code. -/
theorem entry_standard (hm : m.policy = .standard) (c : TypeCode) :
    m.policy.entry c = .ok (.standard c) := by
  rw [hm]
  rfl

/-- The standard policy has an entry for every type. -/
theorem discard_entry (hm : m.policy = .standard) (c : TypeCode) :
    discard (m.policy.entry c) = .ok () := by
  rw [entry_standard hm]
  rfl

theorem discard_lift_entry (hm : m.policy = .standard) (c : TypeCode) :
    discard (liftM (m.policy.entry c) : Write TypeEntry) = pure () := by
  rw [entry_standard hm]
  rfl

/-- The standard policy lets a value of any type through. -/
theorem discard_lift_entry_bind {α : Type} (hm : m.policy = .standard) (c : TypeCode)
    (f : Unit → Write α) : (discard (liftM (m.policy.entry c) : Write TypeEntry) >>= f) = f () := by
  rw [discard_lift_entry hm, pure_bind]

/-! ## One level of writing -/

section

variable (hm : m.policy = .standard) (inner : (room : Nat) → Ty → Value → Writer → Write Unit)
  (room : Nat) (w : Writer)

include hm

/-- A basic value is unboxed and appended. -/
theorem writeBy_basic (b : BasicCode) (v : Value) :
    m.writeBy inner room (.basic b) v w =
      liftM (m.unbox (.basic b) v) >>= fun u => writeUnboxed (.basic b) w u :=
  discard_lift_entry_bind hm _ _

/-- An array is written item by item between opening and closing. -/
theorem writeBy_array (e : Ty) (vs : List Value) :
    m.writeBy inner room (.array e) (.array vs) w = (do
      let room ← liftM (m.deeper room)
      let items ← w.openArray e.render
      vs.forM fun v => inner room e v items
      items.close) :=
  discard_lift_entry_bind hm _ _

/-- A struct is written field by field, if it has as many as the type. -/
theorem writeBy_struct {ts : List Ty} {vs : List Value} (hlen : ts.length = vs.length) :
    m.writeBy inner room (.struct ts) (.struct vs) w = (do
      let room ← liftM (m.deeper room)
      let fields ← w.openStruct (Ty.struct ts).render
      writeFields (fun t v => inner room t v fields) ts vs
      fields.close) :=
  (discard_lift_entry_bind hm _ _).trans (if_neg (not_not_intro hlen))

/-- A struct has to have as many fields as its type. -/
theorem writeBy_struct_of_ne {ts : List Ty} {vs : List Value} (hlen : ts.length ≠ vs.length) :
    m.writeBy inner room (.struct ts) (.struct vs) w =
      throw (.typeMismatch (.fieldCount ts.length vs.length)) :=
  (discard_lift_entry_bind hm _ _).trans (if_pos hlen)

/-- A dict entry is written key first. -/
theorem writeBy_dictEntry (k : BasicCode) (u : Ty) (key value : Value) :
    m.writeBy inner room (.dictEntry k u) (.dictEntry key value) w = (do
      let room ← liftM (m.deeper room)
      let entry ← w.openDictEntry
      (inner room (.basic k) key entry >>= fun _ => inner room u value entry)
      entry.close) := by
  simp only [bind_assoc]
  exact discard_lift_entry_bind hm _ _

/-- A variant is written as the type that it states, and another value as the one that is
inferred. -/
theorem writeBy_variant (v : Value) :
    m.writeBy inner room .variant v w =
      liftM v.asVariant >>= fun a => (do
        let room ← liftM (m.deeper room)
        let inside ← w.openVariant a.1.ty.render
        inner room a.1.ty a.2 inside
        inside.close) :=
  discard_lift_entry_bind hm _ _

/-- The value has to be a container of the kind of its type. -/
theorem writeBy_of_code_ne {t : Ty} {v : Value} (ht : ∀ b, t ≠ .basic b) (hvariant : t ≠ .variant)
    (hv : v.code ≠ t.code) :
    m.writeBy inner room t v w = throw (.typeMismatch (.containerType t v.code)) := by
  cases t with
  | basic b => exact absurd rfl (ht b)
  | variant => exact absurd rfl hvariant
  | _ =>
    cases v <;> first
      | exact absurd rfl hv
      | exact discard_lift_entry_bind hm _ _

end

/-- A basic value is written in its unboxed form wherever it stands, as any policy with an entry for
its type has it. -/
theorem writeWithin_basic {b : BasicCode} {entry : TypeEntry}
    (hentry : m.policy.entry (.basic b) = .ok entry) (levels room : Nat) (v : Value) (w : Writer) :
    m.writeWithin levels room (.basic b) v w =
      liftM (m.unbox (.basic b) v) >>= fun u => writeUnboxed (.basic b) w u := by
  cases levels with
  | zero =>
    rw [writeWithin, writeBy, Ty.code, hentry]
    rfl
  | succ levels =>
    rw [writeWithin, writeBy, Ty.code, hentry]
    rfl

/-! ## One level of reading -/

/-- The type at the cursor has to be the one that is read. -/
theorem expectCode_eq_ok_iff {c : TypeCode} {r : Reader} {u : Unit} :
    expectCode c r = .ok u ↔ r.require = .ok c := by
  rw [expectCode, bind_eq_ok]
  constructor
  · rintro ⟨found, hfound, h⟩
    split at h
    · next heq => rw [hfound, heq]
    · cases h
  · intro h
    exact ⟨c, h, if_pos rfl⟩

/-- The value of a type at a cursor, by what its parts are read as one level deeper. -/
inductive ReadLevel (inner : (room : Nat) → Ty → Reader → Except Error Value) :
    (room : Nat) → Ty → Reader → Value → Prop
  | fixed {room : Nat} {c : FixedCode} {r : Reader} {w : Word} : r.word = .ok w →
      ReadLevel inner room (.fixed c) r (.scalar (.ofWord c w))
  | text {room : Nat} {c : TextCode} {r : Reader} {s : String} : r.text = .ok s →
      c.check s = .ok () → ReadLevel inner room (.text c) r (.text c s)
  | array {room : Nat} {e : Ty} {r items : Reader} {vs : List Value} : r.enter = .ok items →
      readItems (inner room e) (items.stop - items.pos) items = .ok vs →
      ReadLevel inner (room + 1) (.array e) r (.array vs)
  | struct {room : Nat} {ts : List Ty} {r fields : Reader} {vs : List Value} :
      r.enter = .ok fields → readFields (inner room) ts fields = .ok vs →
      ReadLevel inner (room + 1) (.struct ts) r (.struct vs)
  | dictEntry {room : Nat} {k : BasicCode} {u : Ty} {r entry next : Reader} {key value : Value} :
      r.enter = .ok entry → inner room (.basic k) entry = .ok key → entry.advance = .ok next →
      inner room u next = .ok value →
      ReadLevel inner (room + 1) (.dictEntry k u) r (.dictEntry key value)
  | variant {room : Nat} {u : Ty} {r contents : Reader} {v : Value} : r.enter = .ok contents →
      variantType contents.signature = .ok u → inner room u contents = .ok v →
      ReadLevel inner (room + 1) .variant r (.variant ⟨u, none⟩ v)

/-- One level of reading needs the type registered and at the cursor. The rest is told by the
type. -/
theorem readBy_eq_ok_iff {inner : (room : Nat) → Ty → Reader → Except Error Value} {room : Nat}
    {t : Ty} {r : Reader} {v : Value} :
    m.readBy inner room t r = .ok v ↔
      (∃ e, m.policy.entry t.code = .ok e) ∧ r.require = .ok t.code ∧
        ReadLevel inner room t r v := by
  simp only [readBy, bind_eq_ok, discard_eq_ok, expectCode_eq_ok_iff, exists_const]
  refine and_congr_right fun _ => and_congr_right fun _ => ?_
  cases t with
  | basic b =>
    cases b with
    | fixed c =>
      simp only [bind_eq_ok, pure_eq_ok]
      constructor
      · rintro ⟨w, hw, rfl⟩
        exact .fixed hw
      · rintro ⟨hw⟩
        exact ⟨_, hw, rfl⟩
    | text c =>
      simp only [bind_eq_ok, pure_eq_ok]
      constructor
      · rintro ⟨s, hs, _, hcheck, rfl⟩
        exact .text hs hcheck
      · rintro ⟨⟩
        exact ⟨_, ‹_›, _, ‹_›, rfl⟩
  | array e =>
    simp only [bind_eq_ok, pure_eq_ok, deeper_eq_ok]
    constructor
    · rintro ⟨_, rfl, items, hitems, vs, hvs, rfl⟩
      exact .array hitems hvs
    · rintro ⟨⟩
      exact ⟨_, rfl, _, ‹_›, _, ‹_›, rfl⟩
  | struct ts =>
    simp only [bind_eq_ok, pure_eq_ok, deeper_eq_ok]
    constructor
    · rintro ⟨_, rfl, fields, hfields, vs, hvs, rfl⟩
      exact .struct hfields hvs
    · rintro ⟨⟩
      exact ⟨_, rfl, _, ‹_›, _, ‹_›, rfl⟩
  | dictEntry k u =>
    simp only [bind_eq_ok, pure_eq_ok, deeper_eq_ok]
    constructor
    · rintro ⟨_, rfl, entry, hentry, key, hkey, next, hnext, value, hvalue, rfl⟩
      exact .dictEntry hentry hkey hnext hvalue
    · rintro ⟨⟩
      exact ⟨_, rfl, _, ‹_›, _, ‹_›, _, ‹_›, _, ‹_›, rfl⟩
  | variant =>
    simp only [bind_eq_ok, pure_eq_ok, deeper_eq_ok]
    constructor
    · rintro ⟨_, rfl, contents, hcontents, u, hu, w, hw, rfl⟩
      exact .variant hcontents hu hw
    · rintro ⟨⟩
      exact ⟨_, rfl, _, ‹_›, _, ‹_›, _, ‹_›, rfl⟩

end Marshaller

end DBus
