import DBus.Proofs.Accepted
import DBus.Proofs.Agreement
import DBus.Proofs.Filling
import DBus.Proofs.Registered
import DBus.Proofs.RoundTrip

/-!
# Where reading a message stops

A method reads a message argument by argument. What it reads of one is put into its slot, or kept
for the struct that several outputs make, and the cursor moves on to the next. Whatever has been
read can be gone past (`Marshaller.passes_of_readSlot`), so that reading never fails between
putting an argument into its slot and moving on from it.

A message that is not read to its end therefore stops at one of its arguments (`StopsAt`), and the
cursor stands there. The slots of the inputs before it have been filled, and nothing else in the
record has changed (`Method.stops_of_unmarshal`). A policy may register what it likes, for the
values that are read under it are read under the standard one (`Marshaller.readValue_standard`).
-/

namespace DBus

/-! ## Reading under any policy -/

namespace BoxingPolicy

variable {p : BoxingPolicy}

/-- The usual entries of the types that a policy registers. -/
def usual (p : BoxingPolicy) : BoxingPolicy :=
  ⟨fun c => if p.isRegistered c then standard.entry? c else none⟩

theorem reduced_usual : p.usual.Reduced := fun c => by
  cases hc : p.isRegistered c with
  | false => exact .inl (if_neg (by simp [hc]))
  | true => exact .inr (if_pos hc)

/-- The same types are registered. -/
theorem discard_entry_usual (c : TypeCode) :
    discard (p.usual.entry c) = discard (p.entry c) := by
  cases hc : p.entry? c <;> simp only [entry, usual, isRegistered, hc] <;> rfl

end BoxingPolicy

namespace Marshaller

variable {p : BoxingPolicy} {d levels room : Nat} {x : Marshaller} {t : Ty} {ts : List Ty}
  {r : Reader} {v : Value}

theorem readBy_usual (inner : (room : Nat) → Ty → Reader → Except Error Value) :
    (⟨p.usual, d⟩ : Marshaller).readBy inner = (⟨p, d⟩ : Marshaller).readBy inner := by
  funext room t r
  unfold readBy
  rw [BoxingPolicy.discard_entry_usual]
  rfl

/-- Reading looks at nothing of an entry but that it is there. -/
theorem readWithin_usual (levels : Nat) :
    (⟨p.usual, d⟩ : Marshaller).readWithin levels = (⟨p, d⟩ : Marshaller).readWithin levels := by
  induction levels with
  | zero => rw [readWithin, readWithin, readBy_usual]
  | succ levels ih => rw [readWithin, readWithin, readBy_usual, ih]

/-- A value that is read under any policy is read under the standard one. -/
theorem readValue_standard (h : x.readValue t r = .ok v) :
    (⟨.standard, x.maxDepth⟩ : Marshaller).readValue t r = .ok v := by
  rw [readValue, ← readWithin_usual] at h
  exact (permits_readWithin BoxingPolicy.reduced_usual r.levels x.maxDepth t r).ok_of v h

theorem exists_readValue_of_readUnboxed {b : BasicCode} {u : Unboxed}
    (h : x.readUnboxed b r = .ok u) :
    ∃ v, (⟨.standard, x.maxDepth⟩ : Marshaller).readValue (.basic b) r = .ok v := by
  simp only [readUnboxed, bind_eq_ok] at h
  obtain ⟨entry, -, _, hcode, h⟩ := h
  split at h
  · next c _ =>
    simp only [bind_eq_ok] at h
    obtain ⟨s, hs, _, hcheck, -⟩ := h
    exact ⟨.text c s, by rw [readValue_text rfl, hcode, ok_bind, hs, ok_bind, hcheck]; rfl⟩
  · next c _ _ =>
    simp only [bind_eq_ok] at h
    obtain ⟨w, hw, -⟩ := h
    exact ⟨.scalar (.ofWord c w), by rw [readValue_fixed rfl, hcode, ok_bind, hw]; rfl⟩
  · cases h

/-- What a slot holds has been read as a value of the type, boxed or not. -/
theorem exists_readValue_of_readSlot {boxed : Bool} {s : Slot}
    (h : x.readSlot t r boxed = .ok s) :
    ∃ v, (⟨.standard, x.maxDepth⟩ : Marshaller).readValue t r = .ok v := by
  unfold readSlot at h
  split at h
  · simp only [bind_eq_ok] at h
    obtain ⟨u, hu, -⟩ := h
    exact exists_readValue_of_readUnboxed hu
  · simp only [bind_eq_ok] at h
    obtain ⟨v, hv, -⟩ := h
    exact ⟨v, readValue_standard hv⟩

end Marshaller

/-! ## Going past what has been read -/

/-- A value of the type is laid out where the cursor stands, and the cursor moves on to the end of
it. -/
def Reader.Passes (r : Reader) (maxDepth : Nat) (t : Ty) : Prop :=
  ∃ v cs more, LaidOut r.endian (min maxDepth r.levels) t v r.pos cs ∧ At r.data r.pos cs ∧
    r.next = (.ok more, r.past t cs.length)

section

variable {r : Reader} {maxDepth : Nat} {t : Ty} {ts : List Ty}

theorem Reader.Passes.exists_next (h : r.Passes maxDepth t) :
    ∃ more, r.next = (.ok more, r.next.2) := by
  obtain ⟨v, cs, more, -, -, hnext⟩ := h
  exact ⟨more, by rw [hnext]⟩

/-- The types that follow come up. -/
theorem Reader.Passes.follows (h : r.Passes maxDepth t) (hr : r.Follows (t :: ts)) :
    r.next.2.Follows ts := by
  obtain ⟨v, cs, more, -, -, hnext⟩ := h
  rw [hnext]
  exact hr.past _

end

namespace Marshaller

variable {x : Marshaller} {t : Ty} {ts : List Ty} {r : Reader} {v : Value}

theorem passes_of_readValue (ht : t.Regular) (hr : r.Follows (t :: ts))
    (h : x.readValue t r = .ok v) : r.Passes x.maxDepth t := by
  obtain ⟨cs, hcs, hat⟩ := (readValue_eq_ok_iff rfl ht hr.standsAt).mp (readValue_standard h)
  exact ⟨v, cs, _, hcs, hat, Reader.next_eq (Nat.min_le_right _ _) hcs hat hr⟩

theorem passes_of_readSlot (ht : t.Regular) (hr : r.Follows (t :: ts)) {boxed : Bool} {s : Slot}
    (h : x.readSlot t r boxed = .ok s) : r.Passes x.maxDepth t := by
  obtain ⟨v, hv⟩ := exists_readValue_of_readSlot h
  exact passes_of_readValue (x := ⟨.standard, x.maxDepth⟩) ht hr hv

/-- A value is not read and the cursor stays, or it is read and the cursor moves past it. -/
theorem receive_cases (ht : t.Regular) (hr : r.Follows (t :: ts)) :
    (∃ e, x.readValue t r = .error e ∧ (x.receive t).run r = .error e r) ∨
      ∃ v, x.readValue t r = .ok v ∧ r.Passes x.maxDepth t ∧
        (x.receive t).run r = .ok v r.next.2 := by
  cases hv : x.readValue t r with
  | error e =>
    exact .inl ⟨e, rfl, run_bind_eq_error.mpr (.inl (run_look_eq_error.mpr ⟨hv, rfl⟩))⟩
  | ok v =>
    have hpasses := passes_of_readValue ht hr hv
    exact .inr ⟨v, rfl, hpasses, receive_eq_ok_iff.mpr ⟨hv, hpasses.exists_next⟩⟩

end Marshaller

/-! ## Where a row of arguments stops -/

/-- The cursor after so many moves. -/
def Reader.after (r : Reader) : (moves : Nat) → Reader
  | 0 => r
  | k + 1 => r.next.2.after k

/-- Arguments of the types are read in a row up to number `k`, where reading fails. Those before it
are read and gone past, and the cursor stands at a value of the type that is not read. -/
structure StopsAt (read : (i : Nat) → Ty → Reader → Except Error Slot) (maxDepth : Nat)
    (ts : List Ty) (r : Reader) (k : Nat) (e : Error) : Prop where
  passed : ∀ i < k, ∃ t s, ts[i]? = some t ∧ read i t (r.after i) = .ok s ∧
    (r.after i).Passes maxDepth t
  refused : ∃ t, ts[k]? = some t ∧ (r.after k).currentSignature = .ok t.render ∧
    read k t (r.after k) = .error e

namespace StopsAt

variable {read : Nat → Ty → Reader → Except Error Slot} {maxDepth : Nat} {t : Ty} {ts : List Ty}
  {r : Reader} {e : Error}

theorem here (hr : r.Follows (t :: ts)) (h : read 0 t r = .error e) :
    StopsAt read maxDepth (t :: ts) r 0 e where
  passed i hi := absurd hi (Nat.not_lt_zero i)
  refused := ⟨t, rfl, hr.standsAt.currentSignature_eq, h⟩

theorem there {s : Slot} (hs : read 0 t r = .ok s) (hpasses : r.Passes maxDepth t) {k : Nat}
    (h : StopsAt (fun i => read (i + 1)) maxDepth ts r.next.2 k e) :
    StopsAt read maxDepth (t :: ts) r (k + 1) e where
  passed i hi := by
    cases i with
    | zero => exact ⟨t, s, rfl, hs, hpasses⟩
    | succ i => exact h.passed i (Nat.lt_of_succ_lt_succ hi)
  refused := h.refused

end StopsAt

/-- Values that are read in sequence are kept by no slot. -/
theorem Marshaller.stops_of_receiveAll {x : Marshaller} {as : List Argument}
    (has : ∀ a ∈ as, a.ty.Regular) {r s : Reader} (hr : r.Follows (as.map Argument.ty)) {e : Error}
    (h : (x.receiveAll as).run r = .error e s) :
    ∃ k, StopsAt (fun _ t r => do return .value (← x.readValue t r)) x.maxDepth
      (as.map Argument.ty) r k e ∧ s = r.after k := by
  induction as generalizing r with
  | nil => cases h
  | cons a as ih =>
    rw [List.forall_mem_cons] at has
    rcases receive_cases (x := x) has.1 hr with ⟨e', he, hrun⟩ | ⟨v, hv, hpasses, hrun⟩
    · have hall : (x.receiveAll (a :: as)).run r = .error e' r := run_bind_eq_error.mpr (.inl hrun)
      cases hall.symm.trans h
      exact ⟨0, .here hr (by rw [he]; rfl), rfl⟩
    · rcases run_bind_eq_error.mp h with h | ⟨_, mid, hmid, h⟩
      · cases hrun.symm.trans h
      cases hrun.symm.trans hmid
      rcases run_bind_eq_error.mp h with h | ⟨_, _, -, h⟩
      · obtain ⟨k, hstops, rfl⟩ := ih has.2 (hpasses.follows hr) h
        exact ⟨k + 1, .there (s := .value v) (by rw [hv]; rfl) hpasses hstops, rfl⟩
      · cases h

/-! ## Arguments and slots -/

/-- Setting a slot changes no declared type. -/
theorem CallRecord.nativeType_set {r r' : CallRecord} {index : Int} {s : Slot}
    (h : r.set index s = .ok r') (j : Int) : r'.nativeType j = r.nativeType j := by
  rw [nativeType, nativeType, signature_of_set h, outOfRange_of_set h]

namespace Method

/-- What a slot of a record gets of the value at a cursor. -/
def slotFrom (m : Method) (x : Marshaller) (record : CallRecord) (index : Int) (t : Ty)
    (r : Reader) : Except Error Slot := do
  let boxed ← m.isBoxedAs x.policy t (← record.nativeType index)
  x.readSlot t r boxed

/-- What is read of argument number `i` of a message: what its slot gets, or one of the fields
that several outputs are. -/
def argumentFrom (m : Method) (x : Marshaller) (record : CallRecord) (kind : MessageKind) (i : Nat)
    (t : Ty) (r : Reader) : Except Error Slot :=
  match kind, m.outputs with
  | .call, _ => m.slotFrom x record i t r
  | .reply, [_] => m.slotFrom x record CallRecord.returnIndex t r
  | .reply, _ => do return .value (← x.readValue t r)

variable {m : Method} {x : Marshaller} {d d' : Delivery} {t : Ty} {ts : List Ty} {index : Int}
  {e : Error}

theorem slotFrom_set {record record' : CallRecord} {s : Slot}
    (h : record.set index s = .ok record') (j : Int) :
    m.slotFrom x record' j = m.slotFrom x record j := by
  funext t r
  rw [slotFrom, slotFrom, CallRecord.nativeType_set h]

/-- What is read for a slot can be put there. -/
theorem exists_set_of_slotFrom {record : CallRecord} {r : Reader} {s : Slot}
    (h : m.slotFrom x record index t r = .ok s) : ∃ record', record.set index s = .ok record' := by
  simp only [slotFrom, bind_eq_ok] at h
  obtain ⟨n, hn, -⟩ := h
  obtain ⟨old, hold⟩ := CallRecord.exists_slot_of_nativeType hn
  exact CallRecord.exists_set hold s

theorem passes_of_slotFrom (ht : t.Regular) {record : CallRecord} {r : Reader}
    (hr : r.Follows (t :: ts)) {s : Slot} (h : m.slotFrom x record index t r = .ok s) :
    r.Passes x.maxDepth t := by
  simp only [slotFrom, bind_eq_ok] at h
  obtain ⟨n, -, b, -, hs⟩ := h
  exact Marshaller.passes_of_readSlot ht hr hs

theorem lift_bind {α β : Type} (y : Except Error α) (f : α → Except Error β) :
    (liftM (y >>= f) : Deliver β) = liftM y >>= fun a => liftM (f a) := by
  cases y <;> rfl

/-- An argument is read for its slot, put there, and gone past. -/
theorem deliver_eq (m : Method) (x : Marshaller) (t : Ty) (index : Int) :
    m.deliver x t index = (do
      let d ← get
      let s ← m.slotFrom x d.record index t d.reader
      let record ← d.record.set index s
      set { d with record }
      Reader.step) := by
  simp only [deliver, slotFrom, Marshaller.readInto, lift_bind, bind_assoc]

/-- Reading an argument fails with nothing done, or it fills the slot and moves past the value. -/
theorem deliver_cases (ht : t.Regular) (hr : d.reader.Follows (t :: ts)) :
    (∃ e, m.slotFrom x d.record index t d.reader = .error e ∧
        (m.deliver x t index).run d = .error e d) ∨
      ∃ s record, m.slotFrom x d.record index t d.reader = .ok s ∧
        d.record.set index s = .ok record ∧ d.reader.Passes x.maxDepth t ∧
        (m.deliver x t index).run d = .ok () ⟨d.reader.next.2, record⟩ := by
  rw [deliver_eq]
  cases hs : m.slotFrom x d.record index t d.reader with
  | error e =>
    refine .inl ⟨e, rfl, ?_⟩
    simp only [run_bind_eq_error, lift_eq_error]
    exact .inr ⟨d, d, rfl, .inl ⟨hs, rfl⟩⟩
  | ok s =>
    obtain ⟨record, hset⟩ := exists_set_of_slotFrom hs
    have hpasses := passes_of_slotFrom ht hr hs
    have hstep : Reader.step.run d.reader = .ok () d.reader.next.2 :=
      Marshaller.run_step_eq_ok.mpr hpasses.exists_next
    refine .inr ⟨s, record, rfl, hset, hpasses, ?_⟩
    simp only [run_bind_eq_ok, lift_eq_ok, lift_receive_eq_ok]
    exact ⟨d, d, rfl, s, d, ⟨hs, rfl⟩, record, d, ⟨hset, rfl⟩, (), ⟨d.reader, record⟩, rfl, _,
      hstep, rfl⟩

/-- Reading inputs stops at one of them. The slots of those before it have been filled, and nothing
else has changed. -/
theorem stops_of_deliverInputs {as : List Argument} (has : ∀ a ∈ as, a.ty.Regular) {index : Nat}
    (hr : d.reader.Follows (as.map Argument.ty))
    (h : (m.deliverInputs x index as).run d = .error e d') :
    ∃ k, StopsAt (fun i => m.slotFrom x d.record (index + i : Nat)) x.maxDepth
        (as.map Argument.ty) d.reader k e ∧
      d'.reader = d.reader.after k ∧ d'.record.signature = d.record.signature ∧
      (∀ i < k, ∀ t s, (as.map Argument.ty)[i]? = some t →
        m.slotFrom x d.record (index + i : Nat) t (d.reader.after i) = .ok s →
          d'.record.slot (index + i : Nat) = .ok s) ∧
      ∀ j : Int, j < index ∨ index + k ≤ j → d'.record.slot j = d.record.slot j := by
  -- the slots of the inputs that follow are counted from the next one, in the record with this one
  induction as generalizing index d with
  | nil => cases h
  | cons a as ih =>
    rw [List.forall_mem_cons] at has
    rcases @deliver_cases m x d a.ty (as.map Argument.ty) index has.1 hr with
      ⟨e', he, hrun⟩ | ⟨s, record, hs, hset, hpasses, hrun⟩
    · have hall : (m.deliverInputs x index (a :: as)).run d = .error e' d :=
        run_bind_eq_error.mpr (.inl hrun)
      cases hall.symm.trans h
      exact ⟨0, .here hr he, rfl, rfl, nofun, fun _ _ => rfl⟩
    · rcases run_bind_eq_error.mp h with h | ⟨_, mid, hmid, h⟩
      · cases hrun.symm.trans h
      cases hrun.symm.trans hmid
      obtain ⟨k, hstops, hreader, hsignature, hfilled, hkept⟩ := ih has.2 (hpasses.follows hr) h
      have hshift : ∀ i, index + 1 + i = index + (i + 1) := fun i => by omega
      simp only [hshift, slotFrom_set hset] at hstops hfilled
      refine ⟨k + 1, .there hs hpasses hstops, hreader,
        hsignature.trans (CallRecord.signature_of_set hset), fun i hi t s' ht hs' => ?_,
        fun j hj => ?_⟩
      · cases i with
        | zero =>
          -- the inputs that follow leave this slot alone
          cases ht
          cases hs.symm.trans hs'
          exact (hkept index (by omega)).trans (CallRecord.slot_set_self hset)
        | succ i => exact hfilled i (Nat.lt_of_succ_lt_succ hi) t s' ht hs'
      · rw [hkept j (by omega), CallRecord.slot_set_of_ne hset (by omega)]

/-- If a message is not read to its end, there is one of its arguments that does not suit its slot
or is not read, and the cursor stands at that one, behind all of those before it. Of a call, the
slots of the inputs before have what is read of these, and every other slot is as it was. Of a
reply, the whole record is as it was. -/
theorem stops_of_unmarshal {kind : MessageKind} {msg : Message} {order : Endian} {r : Reader}
    {record : CallRecord} (hr : msg.reader order = .ok r)
    (hsignature : msg.signature = m.messageSignature kind)
    (h : (m.unmarshal x kind).run ⟨r, record⟩ = .error e d') :
    ∃ k, StopsAt (m.argumentFrom x record kind) x.maxDepth (m.types kind) r k e ∧
      d'.reader = r.after k ∧
      (kind = .call → d'.record.signature = record.signature ∧
        (∀ i < k, ∃ t s, (m.types kind)[i]? = some t ∧
          m.argumentFrom x record kind i t (r.after i) = .ok s ∧ d'.record.slot i = .ok s) ∧
        ∀ j : Int, j < 0 ∨ k ≤ j → d'.record.slot j = record.slot j) ∧
      (kind = .reply → d'.record = record) := by
  -- the types of the arguments are those of the body
  obtain ⟨⟨ts, hparse⟩, -⟩ := Message.reader_eq_ok_iff.mp hr
  obtain ⟨-, hcomplete, hrender⟩ := parseTypes_eq_ok_iff.mp hparse
  obtain rfl : ts = m.types kind := Ty.renderAll_inj (hrender.trans hsignature)
  have hfollows := Message.follows_of_reader hr hparse
  have has : ∀ a ∈ m.carried kind, a.ty.Regular := fun a ha =>
    ⟨_, _, _, hcomplete _ (List.mem_map_of_mem ha)⟩
  cases kind with
  | call =>
    obtain ⟨k, hstops, hreader, hsame, hfilled, hkept⟩ :=
      stops_of_deliverInputs (d := ⟨r, record⟩) has hfollows h
    simp only [Nat.zero_add] at hstops hfilled
    refine ⟨k, hstops, hreader, fun _ => ⟨hsame, fun i hi => ?_, fun j hj => ?_⟩,
      fun hkind => by cases hkind⟩
    · obtain ⟨t, s, ht, hs, -⟩ := hstops.passed i hi
      exact ⟨t, s, ht, hs, hfilled i hi t s ht hs⟩
    · exact hkept j (by omega)
  | reply =>
    obtain ⟨name, interface, path, inputs, _ | ⟨a, _ | ⟨b, outputs⟩⟩, annotations⟩ := m
    · cases h
    · rcases deliver_cases (d := ⟨r, record⟩) (has a (by simp [carried])) hfollows with
        ⟨e', he, hrun⟩ | ⟨s, record', -, -, -, hrun⟩
      · cases hrun.symm.trans h
        exact ⟨0, .here hfollows he, rfl, (fun hkind => by cases hkind), fun _ => rfl⟩
      · cases hrun.symm.trans h
    · simp only [unmarshal, run_bind_eq_error, lift_receive_eq_error, lift_eq_error] at h
      rcases h with ⟨s, h, rfl⟩ | ⟨vs, _, -, h | ⟨_, _, -, ⟨h, -⟩ | ⟨_, _, -, h⟩⟩⟩
      · obtain ⟨k, hstops, rfl⟩ := Marshaller.stops_of_receiveAll has hfollows h
        exact ⟨k, hstops, rfl, (fun hkind => by cases hkind), fun _ => rfl⟩
      · cases h
      · cases h
      · cases h

/-- A call with a boolean that is read, and with a string that does not end in a zero byte. -/
theorem stops_of_unmarshal_unended :
    let m : Method := { name := "Set", inputs := [⟨.fixed .boolean, none⟩, ⟨.text .string, none⟩] }
    let msg : Message := ⟨[1, 0, 0, 0, 1, 0, 0, 0, 120, 9], [98, 115]⟩
    let record : CallRecord :=
      ⟨⟨[.scalar .boolean, .str], .scalar .boolean⟩, [.empty, .str "old"], .word (.ofBool false),
        rfl⟩
    ∃ r d', msg.reader .little = .ok r ∧ msg.signature = m.messageSignature .call ∧
      (m.unmarshal {} .call).run ⟨r, record⟩ = .error (.missingNul 9) d' ∧
      d'.reader = r.after 1 ∧ d'.record.slot 0 = .ok (.word (.ofBool true)) ∧
      d'.record.slot 1 = .ok (.str "old") ∧
      d'.record.slot CallRecord.returnIndex = .ok (.word (.ofBool false)) := by
  intro m msg record
  let r : Reader := ⟨.little, msg.data, 0, 10, [98, 115], 0, false, 64⟩
  have hr : msg.reader .little = .ok r := by
    simp only [msg, r]
    rfl
  have hrun : (m.unmarshal {} .call).run ⟨r, record⟩ =
      .error (.missingNul 9) ⟨r.past (.fixed .boolean) 4,
        ⟨record.signature, [.word (.ofBool true), .str "old"], record.ret, rfl⟩⟩ := by
    simp only [m, msg, record, r]
    rfl
  have hfirst : m.argumentFrom {} record .call 0 (.fixed .boolean) r =
      .ok (.word (.ofBool true)) := by
    simp only [m, msg, record, r]
    rfl
  obtain ⟨k, ⟨-, t, ht, -, hrefused⟩, hreader, hcall, -⟩ := stops_of_unmarshal hr rfl hrun
  obtain ⟨-, hfilled, hkept⟩ := hcall rfl
  -- it does not stop at the boolean
  obtain rfl : k = 1 := by
    cases k with
    | zero =>
      cases ht
      cases hfirst.symm.trans hrefused
    | succ k =>
      cases k with
      | zero => rfl
      | succ k => cases ht
  obtain ⟨t, s, ht, hs, hslot⟩ := hfilled 0 Nat.one_pos
  cases ht
  cases hfirst.symm.trans hs
  exact ⟨r, _, hr, rfl, hrun, hreader, hslot, hkept 1 (.inr (Int.le_refl 1)),
    hkept _ (.inl (by decide))⟩

end Method

end DBus
