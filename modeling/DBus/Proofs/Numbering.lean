import DBus.Method
import DBus.Proofs.Typing

/-!
# Nodes and signatures

The nodes of a type are the type itself and, behind it, the nodes of the types directly inside it
(`Ty.nodesFrom_eq`). So they go by induction on what is inside (`Ty.induction_children`). Numbering
from elsewhere moves every number by as much (`Ty.map_shift_nodesFrom`), and the nodes of any type
inside another one stand in a row among the nodes of that (`Ty.nodesFrom_prefix_drop`).

A signature that is rendered is parsed as what it was rendered from. This goes for lists of types
and for each type inside another one, but for dict entries, which are no types by themselves.
-/

namespace DBus

/-- The node with its numbers moved by `k`. -/
def Node.shift (k : Nat) (n : Node) : Node :=
  ⟨n.ty, n.parent.map (· + k), n.children.map (· + k)⟩

/-- The node inside another parent. -/
def Node.under (parent : Option Nat) (n : Node) : Node := { n with parent }

namespace Ty

/-! ## Types inside a type -/

mutual

/-- What holds of a type if it does of all directly inside it, holds of every type. -/
theorem induction_children {P : Ty → Prop} (h : ∀ t, (∀ u ∈ t.children, P u) → P t) :
    ∀ t, P t
  | basic _ => h _ nofun
  | variant => h _ nofun
  | array e => h _ (List.forall_mem_singleton.mpr (induction_children h e))
  | struct ts => h _ (forall_of_children h ts)
  | dictEntry _ v => h _ (List.forall_mem_cons.mpr
      ⟨h _ nofun, List.forall_mem_singleton.mpr (induction_children h v)⟩)

theorem forall_of_children {P : Ty → Prop} (h : ∀ t, (∀ u ∈ t.children, P u) → P t) :
    ∀ ts : List Ty, ∀ t ∈ ts, P t
  | [] => nofun
  | t :: ts => List.forall_mem_cons.mpr ⟨induction_children h t, forall_of_children h ts⟩

end

/-- A type counts as one node beside those inside of it. -/
theorem size_eq (t : Ty) : t.size = 1 + sizeAll t.children := by
  cases t <;> simp [size, sizeAll, children]
  omega

/-! ## Nodes in a row -/

/-- The nodes inside a type are those of the types directly inside it, side by side. -/
theorem nodesFrom_eq (parent : Option Nat) (id : Nat) (t : Ty) :
    t.nodesFrom parent id = ⟨t, parent, siblingIds (id + 1) t.children⟩ ::
      nodesFromAll (some id) (id + 1) t.children := by
  cases t <;> simp [nodesFrom, nodesFromAll, siblingIds, children, size]

theorem modifyHead_under_nodesFrom (parent parent' : Option Nat) (id : Nat) (t : Ty) :
    (t.nodesFrom parent id).modifyHead (Node.under parent') = t.nodesFrom parent' id := by
  rw [nodesFrom_eq, nodesFrom_eq]
  rfl

section

variable {ts : List Ty}

/-- Types side by side have as many nodes as all of them together. -/
theorem length_nodesFromAll (h : ∀ t ∈ ts, ∀ parent id, (t.nodesFrom parent id).length = t.size)
    (parent : Option Nat) (id : Nat) : (nodesFromAll parent id ts).length = sizeAll ts := by
  induction ts generalizing id with
  | nil => rfl
  | cons t ts ih =>
    rw [List.forall_mem_cons] at h
    rw [nodesFromAll, List.length_append, h.1, ih h.2, sizeAll]

theorem map_shift_siblingIds (k id : Nat) :
    (siblingIds id ts).map (· + k) = siblingIds (id + k) ts := by
  induction ts generalizing id with
  | nil => rfl
  | cons t ts ih => rw [siblingIds, siblingIds, List.map_cons, ih, Nat.add_right_comm]

theorem map_shift_nodesFromAll {k : Nat}
    (h : ∀ t ∈ ts, ∀ parent id, (t.nodesFrom parent id).map (Node.shift k) =
      t.nodesFrom (parent.map (· + k)) (id + k)) (parent : Option Nat) (id : Nat) :
    (nodesFromAll parent id ts).map (Node.shift k) =
      nodesFromAll (parent.map (· + k)) (id + k) ts := by
  induction ts generalizing id with
  | nil => rfl
  | cons t ts ih =>
    rw [List.forall_mem_cons] at h
    rw [nodesFromAll, nodesFromAll, List.map_append, h.1, ih h.2, Nat.add_right_comm]

theorem forall_mem_nodesFromAll {P : Node → Prop}
    (h : ∀ t ∈ ts, ∀ parent id, ∀ n ∈ t.nodesFrom parent id, P n) (parent : Option Nat)
    (id : Nat) : ∀ n ∈ nodesFromAll parent id ts, P n := by
  induction ts generalizing id with
  | nil => exact nofun
  | cons t ts ih =>
    rw [List.forall_mem_cons] at h
    exact List.forall_mem_append.mpr ⟨h.1 parent id, ih h.2 _⟩

end

/-- There are as many nodes as types in the tree. -/
theorem length_nodesFrom (t : Ty) : ∀ parent id, (t.nodesFrom parent id).length = t.size := by
  induction t using induction_children with
  | h t ih =>
    intro parent id
    rw [nodesFrom_eq, List.length_cons, length_nodesFromAll ih, size_eq, Nat.add_comm]

/-- Numbering from elsewhere moves every number. -/
theorem map_shift_nodesFrom (k : Nat) (t : Ty) : ∀ parent id,
    (t.nodesFrom parent id).map (Node.shift k) =
      t.nodesFrom (parent.map (· + k)) (id + k) := by
  induction t using induction_children with
  | h t ih =>
    intro parent id
    rw [nodesFrom_eq, nodesFrom_eq, List.map_cons, map_shift_nodesFromAll ih, Node.shift,
      map_shift_siblingIds, Nat.add_right_comm]
    rfl

/-- What the types directly inside a type take over from it, all its nodes have. -/
theorem forall_mem_nodesFrom {P : Ty → Prop} (hP : ∀ t, P t → ∀ u ∈ t.children, P u) (t : Ty) :
    P t → ∀ parent id, ∀ n ∈ t.nodesFrom parent id, P n.ty := by
  induction t using induction_children with
  | h t ih =>
    intro ht parent id
    rw [nodesFrom_eq]
    exact List.forall_mem_cons.mpr
      ⟨ht, forall_mem_nodesFromAll (fun u hu => ih u hu (hP t ht u hu)) _ _⟩

/-! ## Parts of a row -/

/-- The nodes of a part stand in a row among those of the types side by side. -/
theorem nodesFromAll_prefix_drop {ts : List Ty}
    (h : ∀ t ∈ ts, ∀ parent id i n, (t.nodesFrom parent id)[i]? = some n →
      n.ty.nodesFrom n.parent (id + i) <+: (t.nodesFrom parent id).drop i)
    (parent : Option Nat) {id i : Nat} {n : Node}
    (hn : (nodesFromAll parent id ts)[i]? = some n) :
    n.ty.nodesFrom n.parent (id + i) <+: (nodesFromAll parent id ts).drop i := by
  induction ts generalizing id i with
  | nil => cases hn
  | cons t ts ih =>
    rw [List.forall_mem_cons] at h
    have hlen := t.length_nodesFrom parent id
    rw [nodesFromAll] at hn ⊢
    rcases Nat.lt_or_ge i t.size with hi | hi
    · rw [List.getElem?_append_left (by omega)] at hn
      rw [List.drop_append_of_le_length (by omega)]
      exact (h.1 parent id i n hn).trans (List.prefix_append _ _)
    · -- the node is one of a later type
      obtain ⟨j, rfl⟩ := Nat.exists_eq_add_of_le hi
      rw [← hlen, List.getElem?_append_right (by omega), Nat.add_sub_cancel_left, hlen] at hn
      rw [← hlen, List.drop_append, List.drop_of_length_le (by omega), List.nil_append,
        Nat.add_sub_cancel_left, hlen, ← Nat.add_assoc]
      exact ih h.2 hn

/-- The nodes of a type inside another one are a part of the nodes of that. -/
theorem nodesFrom_prefix_drop (t : Ty) : ∀ parent id i n,
    (t.nodesFrom parent id)[i]? = some n →
      n.ty.nodesFrom n.parent (id + i) <+: (t.nodesFrom parent id).drop i := by
  induction t using induction_children with
  | h t ih =>
    intro parent id i n hn
    cases i with
    | zero =>
      rw [nodesFrom_eq] at hn
      cases hn
      exact List.prefix_refl _
    | succ i =>
      rw [nodesFrom_eq parent id t, List.getElem?_cons_succ] at hn
      rw [nodesFrom_eq parent id t, List.drop_succ_cons, Nat.add_comm i 1, ← Nat.add_assoc]
      exact nodesFromAll_prefix_drop ih _ hn

/-- From a node on, the nodes of its type follow in their order, with every number moved by that
of the node. -/
theorem take_drop_nodes {t : Ty} {i : Nat} {n : Node} (h : t.nodes[i]? = some n) :
    (t.nodes.drop i).take n.ty.nodes.length =
      (n.ty.nodes.map (Node.shift i)).modifyHead (Node.under n.parent) := by
  have hpart := t.nodesFrom_prefix_drop none 0 i n h
  have hlen : n.ty.nodes.length = (n.ty.nodesFrom n.parent (0 + i)).length := by
    rw [nodes, length_nodesFrom, length_nodesFrom]
  rw [hlen, nodes, ← List.prefix_iff_eq_take.mp hpart, nodes, map_shift_nodesFrom,
    modifyHead_under_nodesFrom]

/-! ## Types inside a valid type -/

/-- What stands directly inside of a well-formed type is well formed, and may be a dict entry. -/
theorem Formed.of_mem_children {b : Bool} {m n : Nat} {t u : Ty} (h : t.Formed b m n)
    (hu : u ∈ t.children) : u.Formed true m n := by
  cases h with
  | basic c => cases hu
  | variant => cases hu
  | array he =>
    obtain rfl := List.mem_singleton.mp hu
    exact he.mono (Nat.le_succ _) (Nat.le_refl _)
  | struct hne hts => exact (hts u hu).element.mono (Nat.le_refl _) (Nat.le_succ _)
  | dictEntry k hv =>
    rcases List.mem_cons.mp hu with rfl | hu
    · exact .basic k
    · obtain rfl := List.mem_singleton.mp hu
      exact hv.element.mono (Nat.le_refl _) (Nat.le_succ _)

/-- A type that may stand inside an array is complete, if it is no dict entry. -/
theorem Formed.complete {m n : Nat} {t : Ty} (h : t.Formed true m n) (hcode : t.code ≠ .dictEntry) :
    t.Formed false m n := by
  cases h with
  | basic c => exact .basic c
  | variant => exact .variant
  | array he => exact .array he
  | struct hne hts => exact .struct hne hts
  | dictEntry k hv => exact absurd rfl hcode

/-- The signature of a part is no longer than that of the whole. -/
theorem length_render_child_le {t u : Ty} (hu : u ∈ t.children) :
    u.render.length ≤ t.render.length := by
  cases t with
  | basic c => cases hu
  | variant => cases hu
  | array e =>
    obtain rfl := List.mem_singleton.mp hu
    exact Nat.le_succ _
  | struct ts =>
    have hlen : u.render.length ≤ (renderAll ts).length := length_render_le hu
    simp only [render, List.length_cons, List.length_append]
    omega
  | dictEntry k v =>
    rcases List.mem_cons.mp hu with rfl | hu
    · simp [render]
    · obtain rfl := List.mem_singleton.mp hu
      simp only [render, List.length_cons, List.length_append]
      omega

/-- The types inside a valid type are valid, but for dict entries. -/
theorem Valid.of_mem_nodes {t : Ty} (ht : t.Valid) {n : Node} (hn : n ∈ t.nodes)
    (hcode : n.ty.code ≠ .dictEntry) : n.ty.Valid := by
  obtain ⟨hlen, hcomplete⟩ := valid_iff.mp ht
  have hall := forall_mem_nodesFrom
    (P := fun u => u.render.length ≤ maxSignatureLength ∧ u.Formed true maxTypeDepth maxTypeDepth)
    (fun t ht u hu => ⟨Nat.le_trans (length_render_child_le hu) ht.1, ht.2.of_mem_children hu⟩)
    t ⟨hlen, hcomplete.element⟩ none 0 n hn
  exact valid_iff.mpr ⟨hall.1, hall.2.complete hcode⟩

end Ty

/-! ## Rendering and parsing -/

namespace Argument

/-- The signatures of several arguments, one behind the other, are the signature of all. -/
theorem flatten_signatures (as : List Argument) :
    (as.map fun a => utf8 a.ty.signature).flatten = Ty.renderAll (as.map Argument.ty) := by
  rw [Ty.renderAll_eq_flatten, List.map_map]
  simp [Function.comp_def, Ty.utf8_signature]

/-- The signatures of arguments, one behind the other, list these arguments. -/
theorem listOfSignature_renderAll {as : List Argument} (has : ∀ a ∈ as, a.ty.Valid)
    (hlen : (Ty.renderAll (as.map Argument.ty)).length ≤ maxSignatureLength) :
    listOfSignature (Ty.renderAll (as.map Argument.ty)) = .ok (as.map fun a => ⟨a.ty, none⟩) := by
  refine listOfSignature_eq_ok_iff.mpr ⟨as.map Argument.ty, parseTypes_eq_ok_iff.mpr
    ⟨hlen, List.forall_mem_map.mpr fun a ha => (Ty.valid_iff.mp (has a ha)).2, rfl⟩, ?_⟩
  rw [List.map_map]
  rfl

end Argument

/-- A method from signatures has valid arguments, and messages of just these signatures. -/
theorem Method.ofSignatures_eq_ok {name : String} {inputs outputs : Bytes} {m : Method}
    (h : Method.ofSignatures name inputs outputs = .ok m) :
    (∀ kind, (∀ a ∈ m.carried kind, a.ty.Valid) ∧
      (m.messageSignature kind).length ≤ maxSignatureLength) ∧
      m.messageSignature .call = inputs ∧ m.messageSignature .reply = outputs := by
  simp only [ofSignatures, bind_eq_ok, pure_eq_ok] at h
  obtain ⟨ins, hins, outs, houts, rfl⟩ := h
  obtain ⟨hlen, hvalid, hrender⟩ := Argument.listOfSignature_eq_ok hins
  obtain ⟨hlen', hvalid', hrender'⟩ := Argument.listOfSignature_eq_ok houts
  refine ⟨fun kind => ?_, hrender, hrender'⟩
  cases kind with
  | call => exact ⟨hvalid, by rwa [messageSignature, carried, hrender]⟩
  | reply => exact ⟨hvalid', by rwa [messageSignature, carried, hrender']⟩

/-- Parsing undoes rendering. The signatures of arguments in a row are parsed as these arguments,
since the signature of no type is the beginning of that of another one, and a method from
signatures gives these back. The signature of any type inside an argument, but for a dict entry, is
parsed as the tree that stands there : its nodes follow each other from that node on, with every
number moved by that of the node, and the parent of the first one is inside the argument. -/
theorem Argument.parse_of_signature :
    (∀ as : List Argument, (∀ a ∈ as, a.ty.Valid) →
      (as.map fun a => utf8 a.ty.signature).flatten.length ≤ 255 →
      listOfSignature (as.map fun a => utf8 a.ty.signature).flatten =
        .ok (as.map fun a => ⟨a.ty, none⟩)) ∧
    (∀ s t : Ty, utf8 s.signature <+: utf8 t.signature → s = t) ∧
    (∀ name inputs outputs m, Method.ofSignatures name inputs outputs = .ok m →
      m.messageSignature .call = inputs ∧ m.messageSignature .reply = outputs) ∧
    (∀ a : Argument, a.ty.Valid → ∀ i n, a.ty.nodes[i]? = some n → n.ty.code ≠ .dictEntry →
      ∃ b, ofSignature (utf8 n.ty.signature) = .ok b ∧ b.name = none ∧
        (a.ty.nodes.drop i).take b.ty.nodes.length =
          (b.ty.nodes.map (Node.shift i)).modifyHead (Node.under n.parent)) := by
  refine ⟨fun as has hlen => ?_, fun s t h => ?_, fun name inputs outputs m hm => ?_,
    fun a ha i n hn hcode => ⟨⟨n.ty, none⟩, ?_, rfl, Ty.take_drop_nodes hn⟩⟩
  · rw [flatten_signatures] at hlen ⊢
    exact listOfSignature_renderAll has hlen
  · obtain ⟨rest, hrest⟩ := h
    rw [Ty.utf8_signature, Ty.utf8_signature] at hrest
    exact (Ty.render_append_inj s t (hrest.trans (List.append_nil _).symm)).1
  · exact (Method.ofSignatures_eq_ok hm).2
  · have hvalid := ha.of_mem_nodes (List.mem_of_getElem? hn) hcode
    rw [Ty.utf8_signature]
    exact ofSignature_eq_ok_iff.mpr ⟨n.ty, hvalid.parseType_render, rfl⟩

/-- The struct in a dictionary, which has the number 3. -/
theorem Argument.parse_of_signature_dictionary :
    let a : Argument :=
      ⟨.array (.dictEntry (.text .string) (.struct [.int .int32, .variant])), some "settings"⟩
    let n : Node := ⟨.struct [.int .int32, .variant], some 1, [4, 5]⟩
    a.ty.Valid ∧ a.ty.nodes[3]? = some n ∧
      ∃ b, ofSignature [40, 105, 118, 41] = .ok b ∧ b.name = none ∧
        (a.ty.nodes.drop 3).take b.ty.nodes.length =
          (b.ty.nodes.map (Node.shift 3)).modifyHead (Node.under (some 1)) := by
  intro a n
  have ha : a.ty.Valid := ⟨[97, 123, 115, 40, 105, 118, 41, 125], by rfl⟩
  have hn : a.ty.nodes[3]? = some n := by rfl
  obtain ⟨-, -, -, hinside⟩ := parse_of_signature
  obtain ⟨b, hb, hname, hnodes⟩ := hinside a ha 3 n hn nofun
  rw [Ty.utf8_signature] at hb
  exact ⟨ha, hn, b, hb, hname, hnodes⟩

end DBus
