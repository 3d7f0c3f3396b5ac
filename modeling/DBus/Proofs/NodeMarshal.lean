import DBus.NodeMarshal
import DBus.Proofs.Failures
import DBus.Proofs.Growing

/-!
# Values by the nodes of a type

A value is read and written along the nodes of an arena just as along the type itself
(`Marshaller.readNode_arena`, `Marshaller.writeNode_arena`). Along the type there is nothing to look
up, so the lookups in the arena, which could find a child missing, never do. `Arena.Made.linked`
collects what holds of every arena that a signature or a native type makes.
-/

namespace DBus

namespace Arena

variable {ns : Arena} {n : ArenaNode} {i k c : Nat}

theorem lt_of_code?_eq_some {code : TypeCode} (h : ns.code? i = some code) : i < ns.length := by
  obtain ⟨n, hn, -⟩ := Option.map_eq_some_iff.mp h
  exact (List.getElem?_eq_some_iff.mp hn).1

theorem node_eq_ok (hn : ns[i]? = some n) : ns.node i = .ok n := by
  rw [node, hn]

/-- A child that is there is found. -/
theorem child_eq_of_child? (h : ns.child? i k = some c) : ns.child i k = .ok c := by
  rw [child, h]

theorem child_eq_ok (hn : ns[i]? = some n) (hc : n.children[k]? = some c) :
    ns.child i k = .ok c :=
  child_eq_of_child? (by rw [child?, childrenOf, hn]; exact hc)

end Arena

/-- The arena of the contents of a variant is that of their type. -/
theorem variantArena_eq (signature : Bytes) :
    variantArena signature = Ty.arena <$> variantType signature := by
  rw [variantArena, variantType]
  cases readText signature with
  | error e => rfl
  | ok s =>
    simp only [ok_bind, Arena.parseType_eq]
    cases parseType signature <;> rfl

namespace Marshaller

open Ty (hasAt_zero)

variable {m : Marshaller} {t u : Ty} {i room : Nat}

/-! ## Reading -/

/-- Fields are read alike if each of them is. -/
theorem readFields_congr {α β : Type} {read : α → Reader → Except Error Value}
    {read' : β → Reader → Except Error Value} {as : List α} {bs : List β}
    (h : List.Forall₂ (fun a b => ∀ r, read a r = read' b r) as bs) (r : Reader) :
    readFields read as r = readFields read' bs r := by
  induction h generalizing r with
  | nil => rfl
  | cons hab _ ih => simp only [readFields, hab, ih]

/-- One level of reading by nodes is one level of reading by types. -/
theorem readNodeBy_arena {inner : (room : Nat) → Arena → Nat → Reader → Except Error Value}
    {inner' : (room : Nat) → Ty → Reader → Except Error Value}
    (hinner : ∀ {t u : Ty} {i : Nat}, t.HasAt i u → ∀ room r,
      inner room t.arena i r = inner' room u r)
    (h : t.HasAt i u) (room : Nat) (r : Reader) :
    m.readNodeBy inner room t.arena i r = m.readBy inner' room u r := by
  obtain ⟨n, hn, hcode, hchildren⟩ := h.exists_node
  unfold readNodeBy readBy
  rw [Arena.node_eq_ok hn, ok_bind, hcode]
  cases u with
  | basic b => cases b <;> rfl
  | variant =>
    simp only [Ty.code, variantArena_eq, bind_map_left, Arena.typeAt_arena (hasAt_zero _),
      hinner (hasAt_zero _)]
  | array e =>
    obtain ⟨c, cs, hc, hcs, hn'⟩ := List.forall₂_cons_right_iff.mp hchildren
    have hchild : t.arena.child i 0 = .ok c := Arena.child_eq_ok hn (by rw [hn']; rfl)
    have hread : ∀ room, inner room t.arena c = inner' room e := fun room => funext (hinner hc room)
    simp only [Ty.code, hchild, ok_bind, hread]
  | struct us =>
    simp only [Ty.code, readFields_congr (hchildren.imp fun _ _ hc => hinner hc _)]
    rfl
  | dictEntry k v =>
    obtain ⟨c, cs, hc, hcs, hn'⟩ := List.forall₂_cons_right_iff.mp hchildren
    obtain ⟨d, ds, hd, -, rfl⟩ := List.forall₂_cons_right_iff.mp hcs
    have hkey : t.arena.child i 0 = .ok c := Arena.child_eq_ok hn (by rw [hn']; rfl)
    have hvalue : t.arena.child i 1 = .ok d := Arena.child_eq_ok hn (by rw [hn']; rfl)
    simp only [Ty.code, hkey, hvalue, ok_bind, hinner hc, hinner hd]

/-- Any number of levels of reading, by induction on them. -/
theorem readNodeWithin_arena (levels : Nat) {t u : Ty} {i : Nat} (h : t.HasAt i u) (room : Nat)
    (r : Reader) :
    m.readNodeWithin levels room t.arena i r = m.readWithin levels room u r := by
  induction levels generalizing t u i room r with
  | zero => exact readNodeBy_arena (fun _ _ _ => rfl) h room r
  | succ levels ih => exact readNodeBy_arena (fun h room r => ih h room r) h room r

/-- Reading along the nodes of a type is reading along the tree. -/
theorem readNode_arena (h : t.HasAt i u) (r : Reader) :
    m.readNode t.arena i r = m.readValue u r :=
  readNodeWithin_arena r.levels h m.maxDepth r

/-! ## Writing -/

theorem lift_ok_bind {α β : Type} (a : α) (f : α → Write β) :
    liftM (Except.ok a : Except Error α) >>= f = f a := rfl

/-- Fields are written alike if each of them is. -/
theorem writeFields_congr {α β : Type} {write : α → Value → Write Unit}
    {write' : β → Value → Write Unit} {as : List α} {bs : List β}
    (h : List.Forall₂ (fun a b => ∀ v, write a v = write' b v) as bs) (vs : List Value) :
    writeFields write as vs = writeFields write' bs vs := by
  induction h generalizing vs with
  | nil => cases vs <;> rfl
  | cons hab _ ih => cases vs <;> simp only [writeFields, hab, ih]

/-- One level of writing by nodes is one level of writing by types. -/
theorem writeNodeBy_arena {inner : (room : Nat) → Arena → Nat → Value → Writer → Write Unit}
    {inner' : (room : Nat) → Ty → Value → Writer → Write Unit}
    (hinner : ∀ {t u : Ty} {i : Nat}, t.HasAt i u → ∀ room v w,
      inner room t.arena i v w = inner' room u v w)
    (h : t.HasAt i u) (room : Nat) (v : Value) (w : Writer) :
    m.writeNodeBy inner room t.arena i v w = m.writeBy inner' room u v w := by
  obtain ⟨n, hn, hcode, hchildren⟩ := h.exists_node
  unfold writeNodeBy writeBy
  rw [Arena.node_eq_ok hn, lift_ok_bind, hcode]
  have hsignature := Arena.signature_arena h
  have htype := Arena.typeAt_arena h
  cases u with
  | basic b => rfl
  | variant => simp only [Ty.code, hinner (hasAt_zero _)]
  | array e =>
    obtain ⟨c, cs, hc, hcs, hn'⟩ := List.forall₂_cons_right_iff.mp hchildren
    have hchild : t.arena.child i 0 = .ok c := Arena.child_eq_ok hn (by rw [hn']; rfl)
    cases v with
    | array vs => simp only [Ty.code, hchild, lift_ok_bind, Arena.signature_arena hc, hinner hc]
    | _ =>
      simp only [htype]
      rfl
  | struct us =>
    cases v with
    | struct vs =>
      have hlength : n.children.length = us.length := hchildren.length_eq
      simp only [Ty.code, hlength, hsignature,
        writeFields_congr (hchildren.imp fun _ _ hc v => hinner hc _ v _)]
      rfl
    | _ =>
      simp only [htype]
      rfl
  | dictEntry k u =>
    obtain ⟨c, cs, hc, hcs, hn'⟩ := List.forall₂_cons_right_iff.mp hchildren
    obtain ⟨d, ds, hd, -, rfl⟩ := List.forall₂_cons_right_iff.mp hcs
    have hkey : t.arena.child i 0 = .ok c := Arena.child_eq_ok hn (by rw [hn']; rfl)
    have hvalue : t.arena.child i 1 = .ok d := Arena.child_eq_ok hn (by rw [hn']; rfl)
    cases v with
    | dictEntry key value =>
      simp only [Ty.code, hkey, hvalue, lift_ok_bind, hinner hc, hinner hd]
    | _ =>
      simp only [htype]
      rfl

/-- Any number of levels of writing, by induction on them. -/
theorem writeNodeWithin_arena (levels : Nat) {t u : Ty} {i : Nat} (h : t.HasAt i u) (room : Nat)
    (v : Value) (w : Writer) :
    m.writeNodeWithin levels room t.arena i v w = m.writeWithin levels room u v w := by
  induction levels generalizing t u i room v w with
  | zero => exact writeNodeBy_arena (fun _ _ _ _ => rfl) h room v w
  | succ levels ih => exact writeNodeBy_arena (fun h room v w => ih h room v w) h room v w

/-- Writing along the nodes of a type is writing along the tree. -/
theorem writeNode_arena (h : t.HasAt i u) (v : Value) (w : Writer) :
    m.writeNode t.arena i v w = m.writeValue u v w :=
  writeNodeWithin_arena w.levels h m.maxDepth v w

end Marshaller

/-! ## Arenas that are made -/

namespace Arena

/-- Every arena that is had from a signature or a native type is linked in both directions, with its
nodes in the order in which the signature has their codes. The element of an array and the key
and value of a dict entry are found where they are looked up. Reading and writing along the nodes
comes to what it does along the type, and so never reports that a child is missing, whatever the
policy, the body and the value are. -/
theorem Made.linked {ns : Arena} (h : ns.Made) :
    ns.Linked ∧ ns.map (·.code.byte) = Ty.codes (ns.signature 0) ∧
    (∀ i, ns.code? i = some .array → ∃ e, ns.element? i = some e ∧ ns.child i 0 = .ok e) ∧
    (∀ i, ns.code? i = some .dictEntry → ∃ k v, ns.key? i = some k ∧ ns.value? i = some v ∧
      ns.child i 0 = .ok k ∧ ns.child i 1 = .ok v) ∧
    ∀ (m : Marshaller) (i : Nat), i < ns.length →
      (∀ r, m.readNode ns i r = m.readValue (ns.typeAt i) r) ∧
      (∀ v w, m.writeNode ns i v w = m.writeValue (ns.typeAt i) v w) ∧
      ∀ k s, (∀ r, m.readNode ns i r ≠ .error (.typeMismatch (.missingChild k s))) ∧
        ∀ v w msg msg',
          (m.writeNode ns i v w).run msg ≠ .error (.typeMismatch (.missingChild k s)) msg' := by
  obtain ⟨t, ht, hns⟩ := h.exists_type
  have hlinked : ns.Linked := hns ▸ linked_arena ht
  refine ⟨hlinked, ?_, fun i hcode => ?_, fun i hcode => ?_, fun m i hi => ?_⟩
  · subst hns
    rw [signature_arena t.hasAt_zero, ← t.map_code_nodesFrom none 0]
    exact List.map_map
  · have hchildren := hlinked.complete i (lt_of_code?_eq_some hcode)
    simp only [HasChildren, hcode] at hchildren
    obtain ⟨e, he⟩ := List.length_eq_one_iff.mp hchildren
    have hchild : ns.child? i 0 = some e := by rw [child?, he]; rfl
    exact ⟨e, by rw [element?, if_pos hcode, hchild], child_eq_of_child? hchild⟩
  · have hchildren := hlinked.complete i (lt_of_code?_eq_some hcode)
    simp only [HasChildren, hcode] at hchildren
    obtain ⟨⟨k, v, -, hkv, -⟩, -⟩ := hchildren
    have hkey : ns.child? i 0 = some k := by rw [child?, hkv]; rfl
    have hvalue : ns.child? i 1 = some v := by rw [child?, hkv]; rfl
    exact ⟨k, v, by rw [key?, if_pos hcode, hkey], by rw [value?, if_pos hcode, hvalue],
      child_eq_of_child? hkey, child_eq_of_child? hvalue⟩
  · subst hns
    obtain ⟨u, hu⟩ := Ty.exists_hasAt hi
    rw [typeAt_arena hu]
    refine ⟨Marshaller.readNode_arena hu, Marshaller.writeNode_arena hu, fun k s => ⟨?_, ?_⟩⟩
    · intro r hr
      rw [Marshaller.readNode_arena hu] at hr
      cases Marshaller.failsOnly_readValue u r _ hr
    · intro v w msg msg' hw
      rw [Marshaller.writeNode_arena hu] at hw
      cases Marshaller.failsOnly_writeValue u v w msg _ msg' hw

/-- A dictionary of structs, whose entry has the number 1 and the nodes up to 5 inside. -/
theorem Made.linked_dictionary :
    let t : Ty := .array (.dictEntry (.text .string) (.struct [.int .int32, .variant]))
    let ns : Arena := [⟨.array, none, [1]⟩, ⟨.dictEntry, some 0, [2, 3]⟩,
      ⟨.text .string, some 1, []⟩, ⟨.struct, some 1, [4, 5]⟩, ⟨.int .int32, some 3, []⟩,
      ⟨.variant, some 3, []⟩]
    ns.Made ∧ (∃ stop, ∀ j, Inside ns 1 j ↔ 1 ≤ j ∧ j < stop) ∧
      (∃ k v, ns.child 1 0 = .ok k ∧ ns.child 1 1 = .ok v) ∧
        (∀ (m : Marshaller) r, m.readNode ns 0 r = m.readValue t r) ∧
          ns.map (·.code.byte) = [97, 123, 115, 40, 105, 118] := by
  intro t ns
  have hmade : ns.Made := by
    refine .native (n := .dict .str (.struct [.scalar (.int .int32), .boxed .variant])) ?_
    rw [ofNative_eq]
    rfl
  obtain ⟨hlinked, hcodes, -, hentry, hvalues⟩ := hmade.linked
  obtain ⟨stop, -, -, hinside⟩ := hlinked.contiguous 1 (by decide)
  obtain ⟨k, v, -, -, hkey, hvalue⟩ := hentry 1 rfl
  exact ⟨hmade, ⟨stop, hinside⟩, ⟨k, v, hkey, hvalue⟩,
    fun m => (hvalues m 0 (by decide)).1, hcodes⟩

end Arena

end DBus
