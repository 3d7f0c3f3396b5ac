import DBus.Method
import DBus.Proofs.Records
import DBus.Proofs.Slots

/-!
# Calls and replies

A message of a method carries values of the types of its inputs or of its outputs, in a row. The
slots of a call record stand for such values (`Method.values?`), and values fill such slots
(`Method.filled`). Writing a message is writing the values that the slots stand for
(`Method.marshal_eq_ok_iff`), and reading one fills the slots with the values that are laid out
(`Method.run_unmarshal`).

From these, a call or a reply that is written is read back into an empty record, and the record is
written as the same message again (`Method.unmarshal_of_marshal`).
-/

namespace DBus

/-! ## Slots in a row -/

/-- The values of the types that slots stand for, one by one. -/
def Slot.valuesAs? : List Slot → List Ty → Option (List Value)
  | [], [] => some []
  | s :: ss, t :: ts => do return (← s.valueAs? t) :: (← valuesAs? ss ts)
  | _, _ => none

/-- The slots of the native types that values fill, one by one. -/
def Value.toSlots (p : BoxingPolicy) : List Value → List Ty → List NativeType → List Slot
  | v :: vs, t :: ts, n :: ns => v.toSlot (p.boxes t n) :: toSlots p vs ts ns
  | _, _, _ => []

/-- Slots are canonical one by one. -/
def Slot.CanonicalAll (p : BoxingPolicy) : List Ty → List NativeType → List Slot → Prop
  | [], [], [] => True
  | t :: ts, n :: ns, s :: ss => s.Canonical p t n ∧ CanonicalAll p ts ns ss
  | _, _, _ => False

section

variable {p : BoxingPolicy} {ts : List Ty} {ns : List NativeType} {ss : List Slot}
  {vs : List Value}

/-- Slots stand for values one by one. -/
theorem Slot.valuesAs?_cons {s : Slot} {t : Ty} :
    valuesAs? (s :: ss) (t :: ts) = some vs ↔
      ∃ v ws, s.valueAs? t = some v ∧ valuesAs? ss ts = some ws ∧ v :: ws = vs := by
  simp only [valuesAs?, Option.bind_eq_bind, Option.bind_eq_some_iff, Option.pure_def,
    Option.some.injEq]
  exact ⟨fun ⟨v, hv, ws, hws, h⟩ => ⟨v, ws, hv, hws, h⟩,
    fun ⟨v, ws, hv, hws, h⟩ => ⟨v, hv, ws, hws, h⟩⟩

theorem Slot.length_of_valuesAs? (h : valuesAs? ss ts = some vs) : vs.length = ts.length := by
  induction ss generalizing ts vs with
  | nil =>
    cases ts with
    | nil =>
      cases h
      rfl
    | cons t ts => cases h
  | cons s ss ih =>
    cases ts with
    | nil => cases h
    | cons t ts =>
      obtain ⟨v, ws, -, hws, rfl⟩ := valuesAs?_cons.mp h
      rw [List.length_cons, List.length_cons, ih hws]

/-- Short slots stand for short values. -/
theorem Slot.short_of_valuesAs? (hs : ∀ s ∈ ss, s.Short) (h : valuesAs? ss ts = some vs) :
    ∀ v ∈ vs, v.Short := by
  induction ss generalizing ts vs with
  | nil =>
    cases ts with
    | nil =>
      cases h
      simp
    | cons t ts => cases h
  | cons s ss ih =>
    cases ts with
    | nil => cases h
    | cons t ts =>
      obtain ⟨v, ws, hv, hws, rfl⟩ := valuesAs?_cons.mp h
      rw [List.forall_mem_cons] at hs ⊢
      exact ⟨short_of_valueAs? hv hs.1, ih hs.2 hws⟩

/-- Short values fill short slots. -/
theorem Value.short_toSlots (hvs : ∀ v ∈ vs, v.Short) : ∀ s ∈ toSlots p vs ts ns, s.Short := by
  induction vs generalizing ts ns with
  | nil => exact nofun
  | cons v vs ih =>
    match ts, ns with
    | [], _ | _ :: _, [] => exact nofun
    | t :: ts, n :: ns =>
      rw [List.forall_mem_cons] at hvs
      exact List.forall_mem_cons.mpr ⟨hvs.1.toSlot _, ih hvs.2⟩

/-- Slots filled with values of the types stand for these. -/
theorem Slot.valuesAs?_toSlots (hlen : vs.length = ts.length) (hns : ns.length = ts.length)
    (hvs : ∀ q ∈ vs.zip ts, q.1.HasType q.2) :
    valuesAs? (Value.toSlots p vs ts ns) ts = some vs := by
  induction vs generalizing ts ns with
  | nil =>
    obtain rfl := List.eq_nil_of_length_eq_zero hlen.symm
    rfl
  | cons v vs ih =>
    match ts, ns with
    | t :: ts, n :: ns =>
      rw [List.zip_cons_cons, List.forall_mem_cons] at hvs
      rw [Value.toSlots, valuesAs?, hvs.1.valueAs?_toSlot,
        ih (Nat.succ.inj hlen) (Nat.succ.inj hns) hvs.2]
      rfl

/-- Canonical slots are what the values they stand for fill them with, but for names. -/
theorem Slot.CanonicalAll.toSlots_normalise (h : CanonicalAll .standard ts ns ss)
    (hvs : valuesAs? ss ts = some vs) :
    Value.toSlots .standard (Value.normaliseFields vs ts) ts ns = ss.map unname := by
  induction ss generalizing ts ns vs with
  | nil =>
    match ts, ns with
    | [], [] =>
      cases hvs
      rfl
  | cons s ss ih =>
    match ts, ns with
    | t :: ts, n :: ns =>
      obtain ⟨v, ws, hv, hws, rfl⟩ := valuesAs?_cons.mp hvs
      rw [Value.normaliseFields, Value.toSlots, h.1.toSlot_normalise hv, ih h.2 hws, List.map_cons]

end

namespace Method

variable {m : Method}

/-! ## Checked signatures -/

/-- Whether a value is boxed is told for native types that suit. -/
theorem isBoxedAs_eq_ok_iff {p : BoxingPolicy} {t : Ty} {n : NativeType} {b : Bool} :
    m.isBoxedAs p t n = .ok b ↔ (p.boxingState t n).isValid = true ∧ p.boxes t n = b := by
  unfold isBoxedAs BoxingPolicy.boxes
  cases p.boxingState t n <;> simp [BoxingState.isValid]

/-- The native types of all arguments have to suit. -/
theorem checkArguments_eq_ok_iff {p : BoxingPolicy} {k : Nat} {as : List Argument}
    {ns : List NativeType} {u : Unit} :
    m.checkArguments p k as ns = .ok u ↔
      ∀ q ∈ as.zip ns, (p.boxingState q.1.ty q.2).isValid = true := by
  induction as generalizing k ns with
  | nil => simp [checkArguments]
  | cons a as ih =>
    cases ns with
    | nil => simp [checkArguments]
    | cons n ns =>
      rw [checkArguments, List.zip_cons_cons, List.forall_mem_cons]
      split
      · next h => rw [ih, and_iff_right h]
      · next h => simp [h]

/-- A native signature suits a method if it has as many parameters as the method has inputs, and
each position suits. -/
theorem check_eq_ok_iff {p : BoxingPolicy} {s : NativeSignature} {u : Unit} :
    m.check p s = .ok u ↔ s.args.length = m.inputs.length ∧
      (∀ q ∈ m.inputs.zip s.args, (p.boxingState q.1.ty q.2).isValid = true) ∧
        (m.returnState p s).isValid = true := by
  simp only [check, throw_bind, ite_throw_eq_ok, bind_eq_ok, checkArguments_eq_ok_iff,
    exists_const]
  simp

/-- The types of the values that a message carries. -/
def types (m : Method) (kind : MessageKind) : List Ty := (m.carried kind).map Argument.ty

/-- The slots of a record that a message is written from and read into. -/
def slots (m : Method) (r : CallRecord) : MessageKind → List Slot
  | .call => r.args
  | .reply =>
    match m.outputs with
    | [] => []
    | _ => [r.ret]

/-- The values that the slots for a message stand for. Several outputs are the fields of one
struct. -/
def values? (m : Method) (r : CallRecord) : MessageKind → Option (List Value)
  | .call => Slot.valuesAs? r.args (m.types .call)
  | .reply =>
    match m.outputs with
    | [] => some []
    | [a] => Slot.valuesAs? [r.ret] [a.ty]
    | outputs =>
      match r.ret with
      | .value (.struct vs) => if vs.length = outputs.length then some vs else none
      | _ => none

/-- The slots for a message, filled with values. -/
def filled (m : Method) (p : BoxingPolicy) (s : NativeSignature) (vs : List Value) :
    MessageKind → List Slot
  | .call => Value.toSlots p vs (m.types .call) s.args
  | .reply =>
    match m.outputs with
    | [] => []
    | [a] => Value.toSlots p vs [a.ty] [s.ret]
    | _ => [.value (.struct vs)]

/-- The slots for a message hold what values of the types fill them with. Several outputs are one
boxed struct of values of exactly their types. -/
def CanonicalSlots (m : Method) (p : BoxingPolicy) (r : CallRecord) : MessageKind → Prop
  | .call => Slot.CanonicalAll p (m.types .call) r.signature.args r.args
  | .reply =>
    match m.outputs with
    | [] => True
    | [a] => r.ret.Canonical p a.ty r.signature.ret
    | outputs => ∃ v, r.ret = .value v ∧ v.HasType (.struct (outputs.map Argument.ty))

/-- A message has a value for each type. -/
theorem length_of_values? {r : CallRecord} {kind : MessageKind} {vs : List Value}
    (h : m.values? r kind = some vs) : vs.length = (m.types kind).length := by
  cases kind with
  | call => exact Slot.length_of_valuesAs? h
  | reply =>
    obtain ⟨name, interface, path, inputs, _ | ⟨a, _ | ⟨b, outputs⟩⟩, annotations⟩ := m
    · cases h
      rfl
    · exact Slot.length_of_valuesAs? h
    · simp only [values?] at h
      split at h
      · split at h <;> cases h
        simpa [types, carried] using ‹_›
      · cases h

/-- Short slots make a short message. -/
theorem short_of_values? {r : CallRecord} {kind : MessageKind} {vs : List Value}
    (hs : ∀ s ∈ m.slots r kind, s.Short) (h : m.values? r kind = some vs) :
    ∀ v ∈ vs, v.Short := by
  cases kind with
  | call => exact Slot.short_of_valuesAs? hs h
  | reply =>
    obtain ⟨name, interface, path, inputs, _ | ⟨a, _ | ⟨b, outputs⟩⟩, annotations⟩ := m
    · cases h
      simp
    · exact Slot.short_of_valuesAs? hs h
    · have hret : r.ret.Short := hs r.ret (by simp [slots])
      simp only [values?] at h
      split at h
      · next ws hws =>
        split at h <;> cases h
        rw [hws] at hret
        exact Value.short_struct.mp hret
      · cases h

section

variable {s : NativeSignature} {r : CallRecord} {kind : MessageKind} {vs : List Value}

/-- Slots filled with values of the types stand for these. -/
theorem values?_of_filled {p : BoxingPolicy} (hargs : s.args.length = m.inputs.length)
    (hlen : vs.length = (m.types kind).length)
    (hvs : ∀ q ∈ vs.zip (m.types kind), q.1.HasType q.2)
    (h : m.slots r kind = m.filled p s vs kind) : m.values? r kind = some vs := by
  cases kind with
  | call =>
    have hns : s.args.length = (m.types .call).length := by simpa [types, carried] using hargs
    have hslots : r.args = Value.toSlots p vs (m.types .call) s.args := h
    rw [values?, hslots, Slot.valuesAs?_toSlots hlen hns hvs]
  | reply =>
    obtain ⟨name, interface, path, inputs, _ | ⟨a, _ | ⟨b, outputs⟩⟩, annotations⟩ := m
    · obtain rfl := List.eq_nil_of_length_eq_zero hlen
      rfl
    · have hslots : [r.ret] = Value.toSlots p vs [a.ty] [s.ret] := h
      simp only [values?, hslots]
      exact Slot.valuesAs?_toSlots hlen rfl hvs
    · have hslots : r.ret = .value (.struct vs) := (List.cons.inj h).1
      simp only [values?, hslots]
      rw [if_pos (by simpa [types, carried] using hlen)]

/-- Canonical slots are what the values they stand for fill them with, but for names. -/
theorem CanonicalSlots.filled_normalise (h : m.CanonicalSlots .standard r kind)
    (hvs : m.values? r kind = some vs) :
    m.filled .standard r.signature (Value.normaliseFields vs (m.types kind)) kind =
      (m.slots r kind).map Slot.unname := by
  cases kind with
  | call => exact Slot.CanonicalAll.toSlots_normalise h hvs
  | reply =>
    obtain ⟨name, interface, path, inputs, _ | ⟨a, _ | ⟨b, outputs⟩⟩, annotations⟩ := m
    · rfl
    · have hall : Slot.CanonicalAll .standard [a.ty] [r.signature.ret] [r.ret] := ⟨h, trivial⟩
      exact hall.toSlots_normalise hvs
    · obtain ⟨v, hret, htype⟩ := h
      cases htype with
      | @struct ws _ hlen hall =>
        obtain rfl : vs = ws := by
          simp only [values?, hret] at hvs
          rw [if_pos (by simpa using hlen)] at hvs
          exact (Option.some.inj hvs).symm
        have hnormal := Value.normaliseFields_eq_map hlen fun q hq =>
          Value.normalise_eq_unname (hall q hq)
        simp only [filled, slots, types, carried, hret, List.map_cons, List.map_nil, Slot.unname,
          Value.unname, Value.unnameAll_eq_map, ← hnormal]

end

/-! ## Writing -/

section

variable {x : Marshaller} (hm : x.policy = .standard) {w : Writer} {msg msg' : Message}

theorem writeFields_singleton {write : Ty → Value → Write Unit} (t : Ty) (v : Value) :
    Marshaller.writeFields write [t] [v] = write t v := by
  simp [Marshaller.writeFields]

include hm

/-- Writing inputs is writing the values that their slots stand for. -/
theorem marshalInputs_eq_ok_iff {r : CallRecord} {k : Nat} {as : List Argument} {ss : List Slot}
    (hss : r.args.drop k = ss) (hlen : ss.length = as.length) (hshort : ∀ s ∈ ss, s.Short) :
    (marshalInputs x r w k as).run msg = .ok () msg' ↔
      ∃ vs, Slot.valuesAs? ss (as.map Argument.ty) = some vs ∧
        (Marshaller.writeFields (fun t v => x.writeValue t v w) (as.map Argument.ty) vs).run msg =
          .ok () msg' := by
  induction as generalizing k ss msg with
  | nil =>
    obtain rfl := List.eq_nil_of_length_eq_zero hlen
    simp [marshalInputs, Slot.valuesAs?, Marshaller.writeFields]
  | cons a as ih =>
    cases ss with
    | nil => cases hlen
    | cons s ss =>
      rw [List.forall_mem_cons] at hshort
      obtain ⟨hentry, hrest⟩ := CallRecord.getElem?_of_drop hss
      have hslot : r.slot k = .ok s := CallRecord.slot_natCast_eq_ok_iff.mpr hentry
      have hs : ∀ mid, (x.writeSlot a.ty w s).run msg = .ok () mid ↔
          ∃ v, s.valueAs? a.ty = some v ∧ (x.writeValue a.ty v w).run msg = .ok () mid :=
        fun mid => Marshaller.writeSlot_eq_ok_iff hm hshort.1
      simp only [marshalInputs, Marshaller.writeFrom, run_bind_eq_ok, Write.lift_eq_ok, hslot,
        Except.ok.injEq, List.map_cons, Slot.valuesAs?_cons]
      constructor
      · rintro ⟨_, mid, ⟨_, _, ⟨rfl, rfl⟩, h⟩, hmid⟩
        obtain ⟨v, hv, hwrite⟩ := (hs mid).mp h
        obtain ⟨vs, hvs, hall⟩ := (ih hrest (Nat.succ.inj hlen) hshort.2).mp hmid
        exact ⟨_, ⟨v, vs, hv, hvs, rfl⟩, run_bind_eq_ok.mpr ⟨(), mid, hwrite, hall⟩⟩
      · rintro ⟨_, ⟨v, vs, hv, hvs, rfl⟩, h⟩
        obtain ⟨_, mid, hwrite, hall⟩ := run_bind_eq_ok.mp h
        exact ⟨(), mid, ⟨s, msg, ⟨rfl, rfl⟩, (hs mid).mpr ⟨v, hv, hwrite⟩⟩,
          (ih hrest (Nat.succ.inj hlen) hshort.2).mpr ⟨vs, hvs, hall⟩⟩

/-- Writing a message is writing the values that its slots stand for. -/
theorem marshal_eq_ok_iff {r : CallRecord} (hcheck : m.check x.policy r.signature = .ok ())
    {kind : MessageKind} (hshort : ∀ s ∈ m.slots r kind, s.Short) :
    (m.marshal x r w kind).run msg = .ok () msg' ↔
      ∃ vs, m.values? r kind = some vs ∧
        (Marshaller.writeFields (fun t v => x.writeValue t v w) (m.types kind) vs).run msg =
          .ok () msg' := by
  cases kind with
  | call =>
    have hlen : r.args.length = m.inputs.length :=
      r.length_args.trans (check_eq_ok_iff.mp hcheck).1
    exact marshalInputs_eq_ok_iff hm rfl hlen hshort
  | reply =>
    obtain ⟨name, interface, path, inputs, _ | ⟨a, _ | ⟨b, outputs⟩⟩, annotations⟩ := m
    · simp [marshal, values?, types, carried, Marshaller.writeFields]
    · have hret : r.ret.Short := hshort r.ret (by simp [slots])
      have hslot : r.slot CallRecord.returnIndex = .ok r.ret := rfl
      simp only [marshal, Marshaller.writeFrom, run_bind_eq_ok, Write.lift_eq_ok, hslot,
        Except.ok.injEq, values?, types, carried, Slot.valuesAs?_cons]
      constructor
      · rintro ⟨_, _, ⟨rfl, rfl⟩, h⟩
        obtain ⟨v, hv, hwrite⟩ := (Marshaller.writeSlot_eq_ok_iff hm hret).mp h
        exact ⟨[v], ⟨v, [], hv, rfl, rfl⟩, by rwa [List.map, List.map, writeFields_singleton]⟩
      · rintro ⟨_, ⟨v, vs, hv, hvs, rfl⟩, h⟩
        cases hvs
        rw [List.map, List.map, writeFields_singleton] at h
        exact ⟨r.ret, msg, ⟨rfl, rfl⟩, (Marshaller.writeSlot_eq_ok_iff hm hret).mpr ⟨v, hv, h⟩⟩
    · cases hret : r.ret with
      | value v =>
        cases v with
        | struct vs =>
          simp only [marshal, values?, types, carried, hret]
          split <;> simp [*]
        | _ => simp [marshal, values?, hret]
      | _ => simp [marshal, values?, hret]

end

/-! ## Reading -/

section

variable {x : Marshaller} (hm : x.policy = .standard) {d : Delivery}

theorem lift_eq_ok {α : Type} {y : Except Error α} {a : α} {d' : Delivery} :
    (liftM y : Deliver α).run d = .ok a d' ↔ y = .ok a ∧ d = d' := by
  cases y with
  | ok b => simp [liftM, monadLift, MonadLift.monadLift]
  | error e => simp [liftM, monadLift, MonadLift.monadLift, run_throw_ne_ok]

theorem lift_receive_eq_ok {α : Type} {y : Receive α} {a : α} {d' : Delivery} :
    (liftM y : Deliver α).run d = .ok a d' ↔
      ∃ r, y.run d.reader = .ok a r ∧ { d with reader := r } = d' := by
  simp only [EStateM.run, liftM, monadLift, MonadLift.monadLift]
  cases y d.reader <;> simp [and_assoc]

include hm

/-- Reading an argument fills its slot with the value that is laid out, and moves past it. -/
theorem run_deliver {t : Ty} (ht : t.Regular) {ts : List Ty} {v : Value} {cs : List Cell}
    (hr : d.reader.Follows (t :: ts))
    (h : LaidOut d.reader.endian (min x.maxDepth d.reader.levels) t v d.reader.pos cs)
    (hat : At d.reader.data d.reader.pos cs) {index : Int} {n : NativeType}
    (hn : d.record.nativeType index = .ok n) (hstate : (x.policy.boxingState t n).isValid = true)
    {record : CallRecord} (hset : d.record.set index (v.toSlot (x.policy.boxes t n)) = .ok record) :
    (m.deliver x t index).run d = .ok () ⟨d.reader.past t cs.length, record⟩ := by
  have hinto : x.readInto t d.reader d.record index (x.policy.boxes t n) = .ok record := by
    rw [Marshaller.readInto, Marshaller.readSlot_eq_ok hm ht hr.standsAt h hat, ok_bind, hset]
  have hstep : Reader.step.run d.reader = .ok () (d.reader.past t cs.length) :=
    Marshaller.run_step_eq_ok.mpr ⟨_, Reader.next_eq (Nat.min_le_right _ _) h hat hr⟩
  simp only [deliver, run_bind_eq_ok, lift_eq_ok, lift_receive_eq_ok]
  exact ⟨d, d, rfl, n, d, ⟨hn, rfl⟩, x.policy.boxes t n, d,
    ⟨isBoxedAs_eq_ok_iff.mpr ⟨hstate, rfl⟩, rfl⟩, record, d, ⟨hinto, rfl⟩, (),
    ⟨d.reader, record⟩, rfl, _, hstep, rfl⟩

/-- Reading the inputs fills their slots with the values that are laid out. -/
theorem run_deliverInputs {as : List Argument} (has : ∀ a ∈ as, a.ty.Regular) {k : Nat}
    {ns : List NativeType} {vs : List Value} {cs : List Cell}
    (hns : d.record.signature.args.drop k = ns) (hlen : ns.length = as.length)
    (hstate : ∀ q ∈ as.zip ns, (x.policy.boxingState q.1.ty q.2).isValid = true)
    (hr : d.reader.Follows (as.map Argument.ty))
    (h : LaidOutAll d.reader.endian (min x.maxDepth d.reader.levels) (as.map Argument.ty) vs
      d.reader.pos cs) (hat : At d.reader.data d.reader.pos cs) :
    ∃ d', (m.deliverInputs x k as).run d = .ok () d' ∧ d'.reader.data = d.reader.data ∧
      d'.reader.pos = d.reader.pos + cs.length ∧ d'.record.signature = d.record.signature ∧
      d'.record.args =
        d.record.args.take k ++ Value.toSlots x.policy vs (as.map Argument.ty) ns := by
  induction as generalizing k ns vs cs d with
  | nil =>
    cases h
    obtain rfl := List.eq_nil_of_length_eq_zero hlen
    rw [List.drop_eq_nil_iff, ← d.record.length_args] at hns
    refine ⟨d, rfl, rfl, rfl, rfl, ?_⟩
    rw [List.take_of_length_le hns]
    exact (List.append_nil _).symm
  | cons a as ih =>
    cases ns with
    | nil => cases hlen
    | cons n ns =>
      rw [List.forall_mem_cons] at has
      rw [List.zip_cons_cons, List.forall_mem_cons] at hstate
      cases h with
      | @cons _ _ _ _ v vs c cs hc hcs =>
        obtain ⟨hat, hrest⟩ := at_append.mp hat
        obtain ⟨hentry, hdrop⟩ := CallRecord.getElem?_of_drop hns
        have hn : d.record.nativeType k = .ok n :=
          CallRecord.nativeType_natCast_eq_ok_iff.mpr hentry
        have hk : k < d.record.args.length := by
          have := congrArg List.length hns
          rw [List.length_drop, ← d.record.length_args, List.length_cons] at this
          omega
        obtain ⟨record, hset, hsignature, hset_args⟩ :=
          CallRecord.exists_set_natCast hk (v.toSlot (x.policy.boxes a.ty n))
        have hdeliver := run_deliver (m := m) hm has.1 hr hc hat hn hstate.1 hset
        rw [← hsignature] at hdrop
        obtain ⟨d', hd', hdata, hpos, hsame, hargs⟩ := @ih ⟨d.reader.past a.ty c.length, record⟩
          has.2 _ _ _ _ hdrop (Nat.succ.inj hlen) hstate.2 (hr.past _) hcs hrest
        refine ⟨d', run_bind_eq_ok.mpr ⟨(), _, hdeliver, hd'⟩, hdata, ?_,
          hsame.trans hsignature, ?_⟩
        · rw [hpos, List.length_append, ← Nat.add_assoc]
          rfl
        · rw [hargs, hset_args, List.map_cons, Value.toSlots, List.take_add_one,
            List.take_set_of_le (Nat.le_refl k), List.getElem?_set_self hk, List.append_assoc]
          rfl

/-- Reading a message fills its slots with the values that are laid out. -/
theorem run_unmarshal {kind : MessageKind} (has : ∀ a ∈ m.carried kind, a.ty.Regular)
    {s : NativeSignature} (hcheck : m.check x.policy s = .ok ()) {r : Reader} {vs : List Value}
    {cs : List Cell} (hr : r.Follows (m.types kind))
    (h : LaidOutAll r.endian (min x.maxDepth r.levels) (m.types kind) vs r.pos cs)
    (hat : At r.data r.pos cs) :
    ∃ d', (m.unmarshal x kind).run ⟨r, .new s⟩ = .ok () d' ∧ d'.reader.data = r.data ∧
      d'.reader.pos = r.pos + cs.length ∧ d'.record.signature = s ∧
      m.slots d'.record kind = m.filled x.policy s vs kind := by
  obtain ⟨hlen, hstate, hret⟩ := check_eq_ok_iff.mp hcheck
  cases kind with
  | call => exact run_deliverInputs hm (d := ⟨r, .new s⟩) has rfl hlen hstate hr h hat
  | reply =>
    obtain ⟨name, interface, path, inputs, _ | ⟨a, _ | ⟨b, outputs⟩⟩, annotations⟩ := m
    · cases h
      exact ⟨⟨r, .new s⟩, rfl, rfl, rfl, rfl, rfl⟩
    · cases h with
      | @cons _ _ _ _ v vs c cs hc hcs =>
        cases hcs
        rw [List.append_nil] at hat ⊢
        exact ⟨_, run_deliver hm (d := ⟨r, .new s⟩) (has a (by simp [carried])) hr hc hat rfl hret
          (CallRecord.set_returnIndex _), rfl, rfl, rfl, rfl⟩
    · obtain ⟨r', hr', hdata, hpos⟩ := Marshaller.receiveAll_of_laidOutAll hm has hr h hat
      refine ⟨⟨r', { CallRecord.new s with ret := .value (.struct vs) }⟩, ?_, hdata, hpos, rfl, rfl⟩
      simp only [unmarshal, run_bind_eq_ok]
      exact ⟨vs, _, lift_receive_eq_ok.mpr ⟨_, hr', rfl⟩, _, _, rfl, _, _, rfl, rfl⟩

end

/-! ## Writing and reading back -/

/-- Short values fill short slots, whatever the kind of the message is. -/
theorem short_filled {p : BoxingPolicy} {n : NativeSignature} {vs : List Value}
    {kind : MessageKind} (hvs : ∀ v ∈ vs, v.Short) : ∀ s ∈ m.filled p n vs kind, s.Short := by
  cases kind with
  | call => exact Value.short_toSlots hvs
  | reply =>
    obtain ⟨name, interface, path, inputs, _ | ⟨a, _ | ⟨b, outputs⟩⟩, annotations⟩ := m
    · simp [filled]
    · exact Value.short_toSlots hvs
    · simpa [filled, Slot.Short] using Value.short_struct.mpr hvs

/-- A message that is written from a record is read into an empty record of the same native
signature, to its end, and what has been read is written as the same message. If the slots of the
first record hold what reading fills slots with, those of the second one hold the same without the
names that types of variants have, since a message has only the signatures of these types. So the
slots are equal if no variant in them names its type. -/
theorem unmarshal_of_marshal {kind : MessageKind} (has : ∀ a ∈ m.carried kind, a.ty.Valid)
    (hlen : (m.messageSignature kind).length ≤ 255) {record : CallRecord}
    (hcheck : m.check .standard record.signature = .ok ())
    (hshort : ∀ s ∈ m.slots record kind, s.Short) {e : Endian} {maxDepth : Nat} {msg : Message}
    (hmsg : (m.marshal ⟨.standard, maxDepth⟩ record (.top e) kind).run {} = .ok () msg) :
    msg.signature = m.messageSignature kind ∧
      ∃ r d, msg.reader e = .ok r ∧
        (m.unmarshal ⟨.standard, maxDepth⟩ kind).run ⟨r, .new record.signature⟩ = .ok () d ∧
        d.reader.finish = .ok () ∧
        (m.marshal ⟨.standard, maxDepth⟩ d.record (.top e) kind).run {} = .ok () msg ∧
        (m.CanonicalSlots .standard record kind →
          m.slots d.record kind = (m.slots record kind).map Slot.unname ∧
          ((∀ v, .value v ∈ m.slots record kind → v.Unnamed) →
            m.slots d.record kind = m.slots record kind)) := by
  have htypes : ∀ t ∈ m.types kind, t.Complete := fun t ht => by
    obtain ⟨a, ha, rfl⟩ := List.mem_map.mp ht
    exact (Ty.valid_iff.mp (has a ha)).2
  obtain ⟨vs, hvs, hwrite⟩ := (marshal_eq_ok_iff rfl hcheck hshort).mp hmsg
  -- the values of the slots are laid out over the whole body
  have hwrites := Marshaller.writes_writeValue (m := ⟨.standard, maxDepth⟩) rfl
    (Writer.top e).levels
  obtain ⟨cs, h, rfl⟩ := (Marshaller.writeFields_eq_ok_iff hwrites
    (fun t ht hcode => absurd hcode (htypes t ht).code_ne_dictEntry) (length_of_values? hvs)
    (short_of_values? hshort hvs)).mp hwrite
  have hmsg : Message.extend {} cs ((Writer.top e).recorded (Ty.renderAll (m.types kind))) =
      ⟨fill cs, m.messageSignature kind⟩ := rfl
  rw [hmsg]
  -- they are read
  have hparse : parseTypes (m.messageSignature kind) = .ok (m.types kind) :=
    parseTypes_eq_ok_iff.mpr ⟨hlen, htypes, rfl⟩
  have hr : Message.reader ⟨fill cs, m.messageSignature kind⟩ e = .ok _ :=
    Message.reader_eq_ok_iff.mpr ⟨⟨_, hparse⟩, rfl⟩
  have hat : At (fill cs) 0 cs := by simpa using at_fill [] cs []
  obtain ⟨d, hd, hdata, hpos, hsignature, hslots⟩ := run_unmarshal (x := ⟨.standard, maxDepth⟩) rfl
    (fun a ha => (has a ha).regular) hcheck (Message.follows_of_reader hr hparse) h hat
  have hunnamed (hcanonical : m.CanonicalSlots .standard record kind) :
      m.slots d.record kind = (m.slots record kind).map Slot.unname :=
    hslots.trans (hcanonical.filled_normalise hvs)
  have hequal (hnames : ∀ v, .value v ∈ m.slots record kind → v.Unnamed) :
      (m.slots record kind).map Slot.unname = m.slots record kind := by
    refine (List.map_congr_left fun s hs => Slot.unname_eq_self ?_).trans (List.map_id' _)
    rintro v rfl
    exact hnames v hs
  refine ⟨rfl, _, d, hr, hd, Reader.finish_eq_ok_iff.mpr (by simp [hdata, hpos]), ?_,
    fun hcanonical => ⟨hunnamed hcanonical, fun hnames =>
      (hunnamed hcanonical).trans (hequal hnames)⟩⟩
  -- and written again
  obtain ⟨hargs, -⟩ := check_eq_ok_iff.mp hcheck
  obtain ⟨hlaid, htyped⟩ := h.forall fun _ _ _ _ h => h.wellFormed.hasType
  have hvalues := values?_of_filled hargs hlaid htyped hslots
  have hfilled : ∀ s ∈ m.slots d.record kind, s.Short := by
    rw [hslots]
    exact short_filled (h.forall_mem fun _ _ _ _ => LaidOut.short)
  rw [← hsignature] at hcheck
  exact (marshal_eq_ok_iff rfl hcheck hfilled).mpr
    ⟨_, hvalues, Marshaller.writeFields_of_laidOutAll htypes h⟩

/-- A call with a boolean that is not boxed and a string that is. -/
theorem unmarshal_of_marshal_mixed :
    let m : Method := { name := "Set", inputs := [⟨.fixed .boolean, none⟩, ⟨.text .string, none⟩] }
    let record : CallRecord :=
      ⟨⟨[.scalar .boolean, .boxed .string], .void⟩,
        [.word (.ofBool true), .value (.text .string "x")], .empty, rfl⟩
    m.check .standard record.signature = .ok () ∧
      (m.marshal ⟨.standard, 64⟩ record (.top .little) .call).run {} =
        .ok () ⟨[1, 0, 0, 0, 1, 0, 0, 0, 120, 0], [98, 115]⟩ ∧
      m.messageSignature .call = [98, 115] ∧
      ∃ r d, Message.reader ⟨[1, 0, 0, 0, 1, 0, 0, 0, 120, 0], [98, 115]⟩ .little = .ok r ∧
        (m.unmarshal ⟨.standard, 64⟩ .call).run ⟨r, .new record.signature⟩ = .ok () d ∧
        d.reader.finish = .ok () ∧ d.record.args = record.args := by
  intro m record
  have hcheck : m.check .standard record.signature = .ok () := by rfl
  have hmsg : (m.marshal ⟨.standard, 64⟩ record (.top .little) .call).run {} =
      .ok () ⟨[1, 0, 0, 0, 1, 0, 0, 0, 120, 0], [98, 115]⟩ := by rfl
  have has : ∀ a ∈ m.carried .call, a.ty.Valid := by
    have hboolean : (Ty.fixed .boolean).Valid := ⟨[98], by rfl⟩
    have hstring : (Ty.text .string).Valid := ⟨[115], by rfl⟩
    simpa [m, carried] using ⟨hboolean, hstring⟩
  have hshort : ∀ s ∈ m.slots record .call, s.Short := by
    have hx : (Value.text .string "x").Short := Value.short_text.mpr (by decide)
    simpa [m, record, slots, Slot.Short] using hx
  have hcanonical : m.CanonicalSlots .standard record .call := by
    exact ⟨.inr ⟨.boolean true, rfl, rfl⟩, ⟨_, rfl, .text .string "x"⟩, trivial⟩
  have hnames : ∀ v, .value v ∈ m.slots record .call → v.Unnamed := by
    simp [record, slots, Value.Unnamed, Value.variants]
  obtain ⟨hsignature, r, d, hr, hd, hfinish, -, hslots⟩ :=
    unmarshal_of_marshal has (by decide) hcheck hshort hmsg
  exact ⟨hcheck, hmsg, hsignature.symm, r, d, hr, hd, hfinish, (hslots hcanonical).2 hnames⟩

/-- A reply whose output is a variant. The slot has a name for the type of the byte in the variant,
and the slot filled from the message has none. -/
theorem exists_slots_ne :
    let m : Method := { name := "Frob", outputs := [⟨.variant, none⟩] }
    let v (name : Option String) : Value :=
      .variant ⟨.int .byte, name⟩ (.scalar (.ofWord (.int .byte) (.ofNat 1)))
    let record : CallRecord := ⟨⟨[], .boxed .variant⟩, [], .value (v (some "x")), rfl⟩
    (∀ a ∈ m.carried .reply, a.ty.Valid) ∧ (m.messageSignature .reply).length ≤ 255 ∧
      m.check .standard record.signature = .ok () ∧ (∀ s ∈ m.slots record .reply, s.Short) ∧
      m.CanonicalSlots .standard record .reply ∧
      (m.marshal ⟨.standard, 64⟩ record (.top .little) .reply).run {} =
        .ok () ⟨[1, 121, 0, 1], [118]⟩ ∧
      ∃ r d, Message.reader ⟨[1, 121, 0, 1], [118]⟩ .little = .ok r ∧
        (m.unmarshal ⟨.standard, 64⟩ .reply).run ⟨r, .new record.signature⟩ = .ok () d ∧
        m.slots record .reply = [.value (v (some "x"))] ∧
        m.slots d.record .reply = [.value (v none)] ∧
        m.slots d.record .reply ≠ m.slots record .reply := by
  intro m v record
  have hbyte : (Ty.int .byte).Valid := ⟨[121], by rfl⟩
  let r : Reader := ⟨.little, [1, 121, 0, 1], 0, 4, [118], 0, false, 64⟩
  let left : CallRecord := ⟨record.signature, [], .value (v none), rfl⟩
  have hread : (m.unmarshal ⟨.standard, 64⟩ .reply).run ⟨r, .new record.signature⟩ =
      .ok () ⟨{ r with pos := 4, ix := 1 }, left⟩ := by
    simp only [m, v, record, r, left]
    rfl
  have hvariant : Ty.variant.Valid := ⟨[118], by rfl⟩
  have hvalid : ∀ a ∈ m.carried .reply, a.ty.Valid := by simpa [m, carried] using hvariant
  have hshort : ∀ s ∈ m.slots record .reply, s.Short := by
    simp [m, record, v, slots, Slot.Short, Value.Short, Value.texts]
  refine ⟨hvalid, by decide, by rfl, hshort, ⟨_, rfl, .variant hbyte (.scalar _)⟩, by rfl, r, _,
    by rfl, hread, rfl, rfl, ?_⟩
  simp [slots, m, left, record, v]

end Method

end DBus
