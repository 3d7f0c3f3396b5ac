import DBus.Proofs.Traversal
import DBus.Unmarshal

/-!
# The type at the cursor and the type that is asked for

Reading compares the type at the cursor with the one that is asked for code by code, at the values
it comes by. It comes by no item of an empty array, and by no field behind the last one that is
asked for. `ReadAs` is what the two types have in common once a value has been read, and
`Value.unread` lists the parts of them that were not compared. The types are the same just if those
parts are (`Marshaller.currentSignature_of_readValue`).

For that the place of a cursor in its signature has to be known : whatever is done with it, it is
between two types (`Reader.Placed`).
-/

namespace DBus

/-! ## Types that are read as others -/

/-- A value of type `node` has been read where one of type `wire` stands. -/
inductive ReadAs : (wire node : Ty) → Value → Prop
  | basic {b : BasicCode} {v : Value} : ReadAs (.basic b) (.basic b) v
  | array {u t : Ty} {vs : List Value} : (∀ v ∈ vs, ReadAs u t v) →
      ReadAs (.array u) (.array t) (.array vs)
  | struct {us ts : List Ty} {vs : List Value} : vs.length = ts.length → ts.length ≤ us.length →
      (∀ p ∈ vs.zip (us.zip ts), ReadAs p.2.1 p.2.2 p.1) →
      ReadAs (.struct us) (.struct ts) (.struct vs)
  | dictEntry {k : BasicCode} {u t : Ty} {key value : Value} : ReadAs u t value →
      ReadAs (.dictEntry k u) (.dictEntry k t) (.dictEntry key value)
  | variant {v : Value} : ReadAs .variant .variant v

namespace Value

mutual

/-- The parts of the two types that are not compared when the value is read : the item types of an
array without items, and the fields that one struct has more than the other. -/
def unread : Value → (wire node : Ty) → List (List Ty × List Ty)
  | array [], .array u, .array t => [([u], [t])]
  | array vs, .array u, .array t => unreadItems vs u t
  | struct vs, .struct us, .struct ts =>
    (us.drop ts.length, ts.drop us.length) :: unreadFields vs us ts
  | dictEntry _ v, .dictEntry _ u, .dictEntry _ t => v.unread u t
  | _, _, _ => []

/-- The parts that are not compared in any of the items. -/
def unreadItems : List Value → (wire node : Ty) → List (List Ty × List Ty)
  | [], _, _ => []
  | v :: vs, u, t => v.unread u t ++ unreadItems vs u t

/-- The parts that are not compared in any of the fields. -/
def unreadFields : List Value → (wire node : List Ty) → List (List Ty × List Ty)
  | v :: vs, u :: us, t :: ts => v.unread u t ++ unreadFields vs us ts
  | _, _, _ => []

end

/-- The parts of the two types that are not compared are the same. -/
def UnreadAgree (v : Value) (wire node : Ty) : Prop := ∀ p ∈ v.unread wire node, p.1 = p.2

theorem forall_unreadItems {P : List Ty × List Ty → Prop} {vs : List Value} {u t : Ty} :
    (∀ p ∈ unreadItems vs u t, P p) ↔ ∀ v ∈ vs, ∀ p ∈ v.unread u t, P p := by
  induction vs with
  | nil => simp [unreadItems]
  | cons v vs ih => rw [unreadItems, List.forall_mem_append, List.forall_mem_cons, ih]

theorem forall_unreadFields {P : List Ty × List Ty → Prop} {vs : List Value} {us ts : List Ty} :
    (∀ p ∈ unreadFields vs us ts, P p) ↔
      ∀ q ∈ vs.zip (us.zip ts), ∀ p ∈ q.1.unread q.2.1 q.2.2, P p := by
  induction vs generalizing us ts with
  | nil => simp [unreadFields]
  | cons v vs ih =>
    rcases us with _ | ⟨u, us⟩ <;> rcases ts with _ | ⟨t, ts⟩ <;>
      simp only [unreadFields, List.zip_cons_cons, List.zip_nil_left, List.zip_nil_right,
        List.forall_mem_append, List.forall_mem_cons, ih, List.not_mem_nil, false_implies,
        implies_true]

/-- Arrays are of the same type if their items are, as far as there are items. -/
theorem unreadAgree_array {vs : List Value} {u t : Ty} (h : ∀ v ∈ vs, u = t ↔ v.UnreadAgree u t) :
    u = t ↔ (array vs).UnreadAgree (.array u) (.array t) := by
  cases vs with
  | nil => simp [UnreadAgree, unread]
  | cons v vs =>
    have hitems : (array (v :: vs)).UnreadAgree (.array u) (.array t) ↔
        ∀ w ∈ v :: vs, w.UnreadAgree u t := forall_unreadItems
    rw [hitems]
    exact ⟨fun hut w hw => (h w hw).mp hut, fun hall => (h v (by simp)).mpr (hall v (by simp))⟩

theorem fields_eq_iff : ∀ {vs : List Value} {us ts : List Ty}, vs.length = ts.length →
    ts.length ≤ us.length →
      (∀ q ∈ vs.zip (us.zip ts), q.2.1 = q.2.2 ↔ q.1.UnreadAgree q.2.1 q.2.2) →
        (us = ts ↔ us.drop ts.length = [] ∧
          ∀ q ∈ vs.zip (us.zip ts), q.1.UnreadAgree q.2.1 q.2.2)
  | [], us, [], _, _, _ => by simp
  | _ :: _, [], _ :: _, _, hle, _ => absurd hle (Nat.not_succ_le_zero _)
  | v :: vs, u :: us, t :: ts, hlen, hle, h => by
    rw [List.zip_cons_cons, List.zip_cons_cons, List.forall_mem_cons] at h ⊢
    have ih := fields_eq_iff (Nat.succ.inj hlen) (Nat.le_of_succ_le_succ hle) h.2
    rw [List.cons.injEq, h.1, ih, List.length_cons, List.drop_succ_cons]
    exact and_left_comm

/-- Structs are of the same type if they have as many fields and these are. -/
theorem unreadAgree_struct {vs : List Value} {us ts : List Ty} (hlen : vs.length = ts.length)
    (hle : ts.length ≤ us.length)
    (h : ∀ q ∈ vs.zip (us.zip ts), q.2.1 = q.2.2 ↔ q.1.UnreadAgree q.2.1 q.2.2) :
    us = ts ↔ (struct vs).UnreadAgree (.struct us) (.struct ts) := by
  rw [fields_eq_iff hlen hle h, UnreadAgree, unread, List.forall_mem_cons, forall_unreadFields,
    List.drop_eq_nil_of_le hle]
  rfl

end Value

/-- A value that has been read is of the type that stood there just if the parts of the types that
were not compared are the same. -/
theorem ReadAs.eq_iff {u t : Ty} {v : Value} (h : ReadAs u t v) : u = t ↔ v.UnreadAgree u t := by
  induction h with
  | basic | variant => simp [Value.UnreadAgree, Value.unread]
  | array _ ih => rw [Ty.array.injEq, Value.unreadAgree_array ih]
  | struct hlen hle _ ih => rw [Ty.struct.injEq, Value.unreadAgree_struct hlen hle ih]
  | @dictEntry k u t key value _ ih =>
    rw [Ty.dictEntry.injEq, ih, and_iff_right rfl]
    rfl

/-! ## Places in a signature -/

/-- The types of the values directly inside of a value of the type. Those inside of a variant are
told by its bytes. -/
inductive Ty.Holds : Ty → List Ty → Prop
  | children {t : Ty} : t.code ≠ .variant → Ty.Holds t t.children
  | contents {u : Ty} : u.Valid → Ty.Holds .variant [u]

namespace Reader

variable {r s : Reader} {done ts : List Ty}

/-- The cursor has types behind it and types to come, the current one first. -/
structure Placed (r : Reader) (done ts : List Ty) : Prop where
  signature : r.signature = Ty.renderAll (done ++ ts)
  ix : r.ix = (Ty.renderAll done).length

namespace Placed

/-- The rest of the signature is the rendering of the types not passed yet. -/
theorem drop_eq (h : r.Placed done ts) : r.signature.drop r.ix = Ty.renderAll ts := by
  rw [h.signature, h.ix, Ty.renderAll_append, List.drop_left]

/-- Where there is a current value, one of the types to come is its type. -/
theorem exists_standsAt (h : r.Placed done ts) {c : TypeCode} (hc : r.require = .ok c) :
    ∃ u us, ts = u :: us ∧ r.StandsAt u us := by
  cases ts with
  | nil =>
    have hnone := current_of_drop_eq_nil h.drop_eq
    simp [require, hnone] at hc
  | cons u us =>
    refine ⟨u, us, rfl, fun hrep => ?_, h.drop_eq⟩
    refine Nat.lt_of_not_le fun hle => ?_
    simp [require, current, hrep, hle] at hc

/-- A cursor that moves passes one type. -/
theorem moveTo (h : r.Placed done ts) {p : Nat} (hs : r.moveTo p = .ok s) :
    ∃ u us, ts = u :: us ∧ s.Placed (done ++ [u]) us := by
  simp only [Reader.moveTo, bind_eq_ok, pure_eq_ok] at hs
  obtain ⟨stop, hstop, rfl⟩ := hs
  cases ts with
  | nil =>
    rw [typeEnd, h.drop_eq] at hstop
    cases hstop
  | cons u us =>
    rw [typeEnd_of_drop h.drop_eq, Except.ok.injEq] at hstop
    refine ⟨u, us, rfl, ?_, ?_⟩
    · simpa using h.signature
    · simp [← hstop, h.ix, Ty.renderAll_append, Ty.renderAll]

theorem rewind (h : r.Placed done ts) (hs : r.rewind = .ok s) : ∃ done ts, s.Placed done ts := by
  unfold Reader.rewind at hs
  split at hs
  · split at hs <;> cases hs
    exact ⟨[], done ++ ts, h.signature, rfl⟩
  · cases hs
    exact ⟨done, ts, h⟩

/-- A cursor that moves on stays between two types, also where it fails. -/
theorem next (h : r.Placed done ts) : ∃ done ts, r.next.2.Placed done ts := by
  unfold Reader.next
  split
  · exact ⟨done, ts, h⟩
  · next moved hm =>
    simp only [bind_eq_ok] at hm
    obtain ⟨p, -, hm⟩ := hm
    obtain ⟨u, us, -, hmoved⟩ := h.moveTo hm
    split
    · exact ⟨_, _, hmoved⟩
    · exact hmoved.rewind ‹_›

end Placed

/-- The cursor over the contents of a container is at the first of their types, and only that over
the items of an array comes back to it. -/
theorem StandsAt.enter {u : Ty} {us : List Ty} (h : r.StandsAt u us) (hs : r.enter = .ok s) :
    ∃ ts, u.Holds ts ∧ s.Placed [] ts ∧ (s.repeats = true ↔ u.code = .array) := by
  cases u with
  | basic b => exact absurd hs (enter_basic_ne_ok h)
  | array e =>
    obtain ⟨n, levels, -, -, -, -, rfl⟩ := (enter_array_eq_ok_iff h).mp hs
    exact ⟨[e], .children (by simp [Ty.code]), ⟨by simp [Ty.renderAll], rfl⟩, by simp [Ty.code]⟩
  | struct ts =>
    obtain ⟨levels, -, -, rfl⟩ := (enter_struct_eq_ok_iff h).mp hs
    exact ⟨ts, .children (by simp [Ty.code]), ⟨rfl, rfl⟩, by simp [Ty.code]⟩
  | dictEntry k e =>
    obtain ⟨levels, -, -, rfl⟩ := (enter_dictEntry_eq_ok_iff h).mp hs
    exact ⟨[.basic k, e], .children (by simp [Ty.code]), ⟨rfl, rfl⟩, by simp [Ty.code]⟩
  | variant =>
    obtain ⟨u, levels, hu, -, -, rfl⟩ := (enter_variant_eq_ok_iff h).mp hs
    exact ⟨[u], .contents hu, ⟨by simp [Ty.renderAll], rfl⟩, by simp [Ty.code]⟩

/-- Every cursor of a message is between two types of its signature. -/
theorem Reachable.placed {msg : Message} {e : Endian} (h : Reachable msg e r) :
    ∃ done ts, r.Placed done ts := by
  induction h with
  | @start r hr =>
    simp only [Message.reader, bind_eq_ok, pure_eq_ok, Argument.checkSignature_eq_ok_iff] at hr
    obtain ⟨-, -, -, ⟨ts, hts⟩, rfl⟩ := hr
    obtain ⟨-, -, hrender⟩ := parseTypes_eq_ok_iff.mp hts
    exact ⟨[], ts, hrender.symm, rfl⟩
  | next _ ih =>
    obtain ⟨done, ts, h⟩ := ih
    exact h.next
  | @enter r s _ hs ih =>
    obtain ⟨done, ts, h⟩ := ih
    obtain ⟨c, hc⟩ := require_of_enter hs
    obtain ⟨u, us, -, hu⟩ := h.exists_standsAt hc
    obtain ⟨ts, -, hts, -⟩ := hu.enter hs
    exact ⟨[], ts, hts⟩

/-- The current signature is that of the type at the cursor. -/
theorem StandsAt.currentSignature_eq {u : Ty} {us : List Ty} (h : r.StandsAt u us) :
    r.currentSignature = .ok u.render := by
  simp only [currentSignature, h.require_eq, h.typeEnd_eq]
  exact congrArg Except.ok (drop_take_of_drop h.signature)

/-! ## Moving on inside a container -/

/-- A cursor before several types passes the first of them. -/
theorem Follows.advance {us : List Ty} (h : r.Follows us) (hs : r.advance = .ok s) :
    ∃ u us', us = u :: us' ∧ r.StandsAt u us' ∧ s.Follows us' := by
  simp only [Reader.advance, bind_eq_ok] at hs
  obtain ⟨p, -, moved, hm, hs⟩ := hs
  simp only [Reader.moveTo, bind_eq_ok, pure_eq_ok] at hm
  obtain ⟨stop, hstop, rfl⟩ := hm
  cases us with
  | nil =>
    rw [typeEnd, h.signature] at hstop
    cases hstop
  | cons u us =>
    rw [h.standsAt.typeEnd_eq, Except.ok.injEq] at hstop
    subst hstop
    have hmoved : Follows { r with pos := p, ix := r.ix + u.render.length } us :=
      ⟨h.repeats, drop_add_of_drop h.signature⟩
    rw [hmoved.rewind_eq, Except.ok.injEq] at hs
    subst hs
    exact ⟨u, us, rfl, h.standsAt, hmoved⟩

/-- A cursor over items comes to the next item, or to their end. -/
theorem Repeats.advance {u : Ty} (h : r.Repeats u) (hs : r.advance = .ok s) : s.Repeats u := by
  simp only [Reader.advance, bind_eq_ok] at hs
  obtain ⟨p, -, moved, hm, hs⟩ := hs
  simp only [Reader.moveTo, bind_eq_ok, pure_eq_ok] at hm
  obtain ⟨stop, -, rfl⟩ := hm
  simp only [Reader.rewind, h.repeats, if_true] at hs
  split at hs <;> cases hs
  exact ⟨rfl, rfl, h.signature⟩

end Reader

namespace Marshaller

variable {m : Marshaller} {r : Reader} {t u : Ty} {us : List Ty} {v : Value}

/-! ## The loops -/

/-- Wherever a cursor stands, what is read there is read as the type. -/
def ReadsAs (read : Reader → Except Error Value) (t : Ty) : Prop :=
  ∀ {r : Reader} {u : Ty} {us : List Ty} {v : Value}, r.StandsAt u us → read r = .ok v →
    ReadAs u t v

/-- Items are read as the type if each of them is. -/
theorem readAs_of_readItems {read : Reader → Except Error Value} (hread : ReadsAs read t) :
    ∀ {n : Nat} {r : Reader} {vs : List Value}, r.Repeats u → readItems read n r = .ok vs →
      ∀ v ∈ vs, ReadAs u t v
  | 0, r, vs, _, h => by
    cases h
    simp
  | n + 1, r, vs, hr, h => by
    rw [readItems] at h
    split at h
    · cases h
      simp
    · next c hc =>
      have hmore := hr.lt_stop hc
      simp only [bind_eq_ok, pure_eq_ok] at h
      obtain ⟨v, hv, s, hs, ws, hws, rfl⟩ := h
      exact List.forall_mem_cons.mpr ⟨hread (hr.standsAt hmore) hv,
        readAs_of_readItems hread (hr.advance hs) hws⟩

/-- Fields are read as their types, one by one. There may be more of them at the cursor than are
asked for. -/
theorem readAs_of_readFields {read : Ty → Reader → Except Error Value}
    (hread : ∀ t, ReadsAs (read t) t) :
    ∀ {ts us : List Ty} {r : Reader} {vs : List Value}, r.Follows us →
      readFields read ts r = .ok vs → vs.length = ts.length ∧ ts.length ≤ us.length ∧
        ∀ q ∈ vs.zip (us.zip ts), ReadAs q.2.1 q.2.2 q.1
  | [], us, r, vs, _, h => by
    cases h
    simp
  | t :: ts, us, r, vs, hr, h => by
    simp only [readFields, bind_eq_ok, pure_eq_ok] at h
    obtain ⟨v, hv, s, hs, ws, hws, rfl⟩ := h
    obtain ⟨u, us, rfl, hu, hus⟩ := hr.advance hs
    obtain ⟨hlen, hle, hall⟩ := readAs_of_readFields hread hus hws
    rw [List.zip_cons_cons, List.zip_cons_cons, List.forall_mem_cons]
    exact ⟨by simp [hlen], by simpa using hle, hread t hu hv, hall⟩

/-! ## One level -/

/-- The codes of the two types are compared first. -/
theorem require_of_readBy {inner : (room : Nat) → Ty → Reader → Except Error Value} {room : Nat}
    (h : m.readBy inner room t r = .ok v) : r.require = .ok t.code :=
  (readBy_eq_ok_iff.mp h).2.1

/-- One level of reading compares the codes, and leaves the rest to the level below. -/
theorem readAs_of_readBy {inner : (room : Nat) → Ty → Reader → Except Error Value}
    (hinner : ∀ room t, ReadsAs (inner room t) t) {room : Nat} (hr : r.StandsAt u us)
    (h : m.readBy inner room t r = .ok v) : ReadAs u t v := by
  obtain ⟨-, hrequire, h⟩ := readBy_eq_ok_iff.mp h
  have hcode : u.code = t.code := Except.ok.inj (hr.require_eq.symm.trans hrequire)
  cases h with
  | fixed | text =>
    cases u with
    | basic c =>
      cases hcode
      exact .basic
    | _ => simp [Ty.code] at hcode
  | @array room e _ items vs henter hvs =>
    cases u with
    | array u =>
      obtain ⟨n, levels, -, -, -, -, rfl⟩ := (Reader.enter_array_eq_ok_iff hr).mp henter
      exact .array (readAs_of_readItems (hinner room e) ⟨rfl, rfl, rfl⟩ hvs)
    | _ => simp [Ty.code] at hcode
  | @struct room ts _ fields vs henter hvs =>
    cases u with
    | struct us =>
      obtain ⟨levels, -, -, rfl⟩ := (Reader.enter_struct_eq_ok_iff hr).mp henter
      obtain ⟨hlen, hle, hall⟩ := readAs_of_readFields (hinner room) ⟨rfl, rfl⟩ hvs
      exact .struct hlen hle hall
    | _ => simp [Ty.code] at hcode
  | @dictEntry room k e _ entry next key value henter hkey hnext hvalue =>
    cases u with
    | dictEntry l u =>
      obtain ⟨levels, -, -, rfl⟩ := (Reader.enter_dictEntry_eq_ok_iff hr).mp henter
      have hfollows : Reader.Follows ⟨r.endian, r.data, alignUp r.pos 8, r.data.length,
          Ty.renderAll [.basic l, u], 0, false, levels⟩ [.basic l, u] := ⟨rfl, rfl⟩
      obtain ⟨_, _, ⟨rfl, rfl⟩, hl, hu⟩ := hfollows.advance hnext
      cases hinner room (.basic k) hl hkey
      exact .dictEntry (hinner room e hu.standsAt hvalue)
    | _ => simp [Ty.code] at hcode
  | variant =>
    cases u with
    | variant => exact .variant
    | _ => simp [Ty.code] at hcode

/-! ## All levels -/

theorem require_of_readValue (h : m.readValue t r = .ok v) : r.require = .ok t.code := by
  rw [readValue] at h
  cases hl : r.levels <;> rw [hl] at h <;> exact require_of_readBy h

/-- Any number of levels of reading, by induction on them. -/
theorem readAs_of_readWithin (levels room : Nat) (t : Ty) :
    ReadsAs (m.readWithin levels room t) t := by
  induction levels generalizing room t with
  | zero => exact readAs_of_readBy fun _ _ _ _ _ _ _ h => by cases h
  | succ levels ih => exact readAs_of_readBy fun room t => ih room t

/-- A value is read only where one of its type stands, as far as the codes of the two types have
been compared. Whatever cursor of a message a value is read through, the type that stands there is
the one that was asked for just if the parts of the two that were not compared are the same : the
item types of arrays that turned out to be empty, and the fields that the structs at the cursor
have behind the last one asked for. -/
theorem currentSignature_of_readValue {msg : Message} {e : Endian} {r : Reader}
    (hr : Reader.Reachable msg e r) {maxDepth : Nat} {t : Ty} {v : Value}
    (h : (⟨.standard, maxDepth⟩ : Marshaller).readValue t r = .ok v) :
    ∃ u : Ty, r.currentSignature = .ok u.render ∧ ReadAs u t v ∧
      (r.currentSignature = .ok t.render ↔ v.UnreadAgree u t) := by
  obtain ⟨done, ts, hplaced⟩ := hr.placed
  obtain ⟨u, us, -, hu⟩ := hplaced.exists_standsAt (require_of_readValue h)
  have hread := readAs_of_readWithin _ _ t hu h
  have hsignature := hu.currentSignature_eq
  refine ⟨u, hsignature, hread, ?_⟩
  rw [hsignature, Except.ok.injEq, ← hread.eq_iff]
  exact ⟨Ty.render_inj, congrArg Ty.render⟩

/-- An array of integers without items is read as an array of strings. -/
theorem currentSignature_of_readValue_emptyArray :
    Reader.Reachable ⟨[0, 0, 0, 0], [97, 105]⟩ .little
        ⟨.little, [0, 0, 0, 0], 0, 4, [97, 105], 0, false, 64⟩ ∧
      (⟨.standard, 64⟩ : Marshaller).readValue (.array (.text .string))
        ⟨.little, [0, 0, 0, 0], 0, 4, [97, 105], 0, false, 64⟩ = .ok (.array []) ∧
      ∃ u : Ty, u.render = [97, 105] ∧ ReadAs u (.array (.text .string)) (.array []) ∧
        ¬(Value.array []).UnreadAgree u (.array (.text .string)) := by
  have hr : Reader.Reachable ⟨[0, 0, 0, 0], [97, 105]⟩ .little
      ⟨.little, [0, 0, 0, 0], 0, 4, [97, 105], 0, false, 64⟩ := .start (by rfl)
  have hv : (⟨.standard, 64⟩ : Marshaller).readValue (.array (.text .string))
      ⟨.little, [0, 0, 0, 0], 0, 4, [97, 105], 0, false, 64⟩ = .ok (.array []) := by rfl
  obtain ⟨u, hu, hread, hagree⟩ := currentSignature_of_readValue hr hv
  have hsignature : Reader.currentSignature
      ⟨.little, [0, 0, 0, 0], 0, 4, [97, 105], 0, false, 64⟩ = .ok [97, 105] := by rfl
  rw [hsignature, Except.ok.injEq] at hu hagree
  exact ⟨hr, hv, u, hu.symm, hread, fun h => absurd (hagree.mpr h) (by decide)⟩

/-- A struct of two booleans is read as one of a single boolean, although their types differ. -/
theorem exists_readValue_ne_currentSignature :
    ¬∀ (msg : Message) (e : Endian) (r : Reader) (maxDepth : Nat) (t : Ty) (v : Value),
      Reader.Reachable msg e r → (⟨.standard, maxDepth⟩ : Marshaller).readValue t r = .ok v →
        r.currentSignature = .ok t.render := by
  intro h
  have hr : Reader.Reachable ⟨[1, 0, 0, 0, 0, 0, 0, 0], [40, 98, 98, 41]⟩ .little
      ⟨.little, [1, 0, 0, 0, 0, 0, 0, 0], 0, 8, [40, 98, 98, 41], 0, false, 64⟩ := .start (by rfl)
  have hv : (⟨.standard, 64⟩ : Marshaller).readValue (.struct [.fixed .boolean])
      ⟨.little, [1, 0, 0, 0, 0, 0, 0, 0], 0, 8, [40, 98, 98, 41], 0, false, 64⟩ =
        .ok (.struct [.scalar (.boolean true)]) := by rfl
  have hsignature : Reader.currentSignature
      ⟨.little, [1, 0, 0, 0, 0, 0, 0, 0], 0, 8, [40, 98, 98, 41], 0, false, 64⟩ =
        .ok [40, 98, 98, 41] := by rfl
  have hsame := h _ _ _ _ _ _ hr hv
  rw [hsignature, Except.ok.injEq] at hsame
  exact absurd hsame (by decide)

end Marshaller

end DBus
