import DBus.Proofs.Arenas
import DBus.Proofs.NativeTypes
import Mathlib.Data.List.Forall2

/-!
# Lookups in an arena

The numbers of the children of a node lead to the types that stand directly inside of its type
(`Ty.getElem?_children`). So whatever is computed from the code of a node and from its children is
what is computed from the type there (`Arena.fold_arena`): the signature of a node is that of its
type, and the nodes come in the order in which the signature has their codes.
-/

namespace DBus

namespace Ty

variable {ts front back : List Ty} {t u : Ty} {parent : Option Nat} {id i j : Nat} {n : Node}

/-! ## Types side by side -/

/-- There is a number for each of the types side by side. -/
theorem length_siblingIds (ts : List Ty) (id : Nat) : (siblingIds id ts).length = ts.length := by
  induction ts generalizing id with
  | nil => rfl
  | cons t ts ih => rw [siblingIds, List.length_cons, ih, List.length_cons]

/-- The number of a type is behind the nodes of those in front of it. -/
theorem getElem?_siblingIds (front : List Ty) (u : Ty) (back : List Ty) (id : Nat) :
    (siblingIds id (front ++ u :: back))[front.length]? = some (id + sizeAll front) := by
  rw [siblingIds_append, List.getElem?_append_right (Nat.le_of_eq (length_siblingIds front id)),
    length_siblingIds, Nat.sub_self]
  rfl

/-- Among the nodes of types side by side, those of a type stand behind those of the types in front
of it. -/
theorem getElem?_nodesFromAll (parent : Option Nat) (front : List Ty) (u : Ty) (back : List Ty)
    (id : Nat) (hj : j < u.size) :
    (nodesFromAll parent id (front ++ u :: back))[sizeAll front + j]? =
      (u.nodesFrom parent (id + sizeAll front))[j]? := by
  have hfront := length_nodesFromAll_eq parent id front
  rw [nodesFromAll_append, List.getElem?_append_right (by omega), hfront, Nat.add_sub_cancel_left,
    nodesFromAll, List.getElem?_append_left (by rwa [length_nodesFrom])]

theorem getElem?_nodesFromAll_first (parent : Option Nat) (front : List Ty) (u : Ty)
    (back : List Ty) (id : Nat) : (nodesFromAll parent id (front ++ u :: back))[sizeAll front]? =
      some ⟨u, parent, siblingIds (id + sizeAll front + 1) u.children⟩ := by
  have hfirst := getElem?_nodesFromAll parent front u back id u.size_pos
  rwa [nodesFrom_eq, List.getElem?_cons_zero] at hfirst

/-! ## Parts -/

section

variable (h : t.nodes[i]? = some n)

include h

/-- From a node on, the nodes are those of its type. -/
theorem getElem?_nodes_add (hj : j < n.ty.size) :
    t.nodes[i + j]? = (n.ty.nodesFrom n.parent i)[j]? := by
  have hpart := t.nodesFrom_prefix_drop none 0 i n h
  rw [Nat.zero_add] at hpart
  have hlt : j < (n.ty.nodesFrom n.parent i).length := by rwa [length_nodesFrom]
  rw [nodes, ← List.getElem?_drop, List.prefix_iff_getElem?.mp hpart j hlt,
    List.getElem?_eq_getElem hlt]

/-- The nodes of a part end within the whole. -/
theorem add_size_le : i + n.ty.size ≤ t.nodes.length := by
  have hlen := (t.nodesFrom_prefix_drop none 0 i n h).length_le
  have hi := (List.getElem?_eq_some_iff.mp h).1
  rw [length_nodesFrom, List.length_drop] at hlen
  rw [nodes] at hi ⊢
  omega

/-- The children of a node are numbered from the place behind it. -/
theorem children_eq : n.children = siblingIds (i + 1) n.ty.children := by
  have hself := getElem?_nodes_add h n.ty.size_pos
  rw [Nat.add_zero, h, nodesFrom_eq, List.getElem?_cons_zero, Option.some.injEq] at hself
  rw [hself]

/-- The number of a child leads to the type that stands there. -/
theorem getElem?_children (hts : n.ty.children = front ++ u :: back) :
    n.children[front.length]? = some (i + 1 + sizeAll front) ∧
      t.nodes[i + 1 + sizeAll front]? =
        some ⟨u, some i, siblingIds (i + 1 + sizeAll front + 1) u.children⟩ := by
  have hsize := n.ty.size_eq
  have hpos := u.size_pos
  rw [hts, sizeAll_append, sizeAll] at hsize
  have hplace : i + (sizeAll front + 1) = i + 1 + sizeAll front := by omega
  have hchild : t.nodes[i + (sizeAll front + 1)]? =
      some ⟨u, some i, siblingIds (i + 1 + sizeAll front + 1) u.children⟩ := by
    rw [getElem?_nodes_add h (by omega), nodesFrom_eq, List.getElem?_cons_succ, hts,
      getElem?_nodesFromAll_first]
  rw [hplace] at hchild
  exact ⟨by rw [children_eq h, hts, getElem?_siblingIds], hchild⟩

end

/-! ## Types at nodes -/

/-- The type `u` stands at the node `i` of `t`. -/
def HasAt (t : Ty) (i : Nat) (u : Ty) : Prop := ∃ n, t.nodes[i]? = some n ∧ n.ty = u

/-- The first node is that of the type itself. -/
theorem hasAt_zero (t : Ty) : t.HasAt 0 t := by
  refine ⟨⟨t, none, siblingIds (0 + 1) t.children⟩, ?_, rfl⟩
  rw [nodes, nodesFrom_eq, List.getElem?_cons_zero]

/-- The children of a node are those of its type, in order. -/
theorem forall₂_children (h : t.nodes[i]? = some n) :
    List.Forall₂ t.HasAt n.children n.ty.children := by
  have hsuffix : ∀ back front, n.ty.children = front ++ back →
      List.Forall₂ t.HasAt (siblingIds (i + 1 + sizeAll front) back) back := by
    intro back
    induction back with
    | nil => exact fun _ _ => .nil
    | cons u back ih =>
      intro front hts
      have hrest := ih (front ++ [u]) (by simpa using hts)
      rw [sizeAll_append, sizeAll, sizeAll, Nat.add_zero, ← Nat.add_assoc] at hrest
      exact .cons ⟨_, (getElem?_children h hts).2, rfl⟩ hrest
  rw [children_eq h]
  exact hsuffix _ [] rfl

/-- What the arena of a type has where another type stands. -/
theorem HasAt.exists_node (h : t.HasAt i u) : ∃ n : ArenaNode, t.arena[i]? = some n ∧
    n.code = u.code ∧ List.Forall₂ t.HasAt n.children u.children := by
  obtain ⟨n, hn, rfl⟩ := h
  exact ⟨n.bare, by rw [arena, List.getElem?_map, hn]; rfl, rfl, forall₂_children hn⟩

/-- There is a type at every node. -/
theorem exists_hasAt (hi : i < t.arena.length) : ∃ u, t.HasAt i u := by
  rw [arena, List.length_map] at hi
  exact ⟨_, _, List.getElem?_eq_getElem hi, rfl⟩

theorem HasAt.size_le (h : t.HasAt i u) : u.size ≤ t.arena.length := by
  obtain ⟨n, hn, rfl⟩ := h
  have hle := add_size_le hn
  rw [arena, List.length_map]
  omega

/-! ## Codes -/

/-- The codes of types in a signature, without the brackets that end a type. -/
def codes (s : Bytes) : Bytes := s.filter fun b => (TypeCode.ofByte? b).isSome

theorem codes_append (s s' : Bytes) : codes (s ++ s') = codes s ++ codes s' :=
  List.filter_append ..

theorem codes_cons (c : TypeCode) (s : Bytes) : codes (c.byte :: s) = c.byte :: codes s :=
  List.filter_cons_of_pos (by rw [TypeCode.ofByte?_byte]; rfl)

/-- A signature consists of a code, of what is inside of the type, and of at most a bracket. -/
theorem exists_render_eq (t : Ty) :
    ∃ close, t.render = t.code.byte :: (renderAll t.children ++ close) ∧ codes close = [] := by
  cases t with
  | basic c => exact ⟨[], rfl, rfl⟩
  | variant => exact ⟨[], rfl, rfl⟩
  | array e => exact ⟨[], by simp [render, renderAll, children, code], rfl⟩
  | struct ts => exact ⟨[structEnd], rfl, by decide⟩
  | dictEntry k v => exact ⟨[entryEnd], by simp [render, renderAll, children, code], by decide⟩

theorem map_code_nodesFromAll (h : ∀ t ∈ ts, ∀ parent id,
    (t.nodesFrom parent id).map (·.ty.code.byte) = codes t.render) (parent : Option Nat)
    (id : Nat) : (nodesFromAll parent id ts).map (·.ty.code.byte) = codes (renderAll ts) := by
  induction ts generalizing id with
  | nil => rfl
  | cons t ts ih =>
    rw [List.forall_mem_cons] at h
    rw [nodesFromAll, List.map_append, h.1, ih h.2, renderAll, codes_append]

/-- The nodes come in the order in which the signature has their codes. -/
theorem map_code_nodesFrom (t : Ty) : ∀ parent id,
    (t.nodesFrom parent id).map (·.ty.code.byte) = codes t.render := by
  induction t using induction_children with
  | h t ih =>
    intro parent id
    obtain ⟨close, hrender, hclose⟩ := t.exists_render_eq
    rw [nodesFrom_eq, List.map_cons, map_code_nodesFromAll ih, hrender, codes_cons, codes_append,
      hclose, List.append_nil]

/-- There are no more nodes than bytes of the signature. -/
theorem length_nodes_le (t : Ty) : t.nodes.length ≤ t.render.length := by
  have hcodes := congrArg List.length (t.map_code_nodesFrom none 0)
  rw [List.length_map] at hcodes
  rw [nodes, hcodes]
  exact List.length_filter_le ..

/-! ## Nodes of a valid type -/

/-- Only an array has a dict entry in it. -/
theorem Regular.code_of_mem_children (ht : t.Regular) (hu : u ∈ t.children)
    (hcode : u.code = .dictEntry) : t.code = .array := by
  obtain ⟨b, m, k, hformed⟩ := ht
  cases hformed with
  | basic c => cases hu
  | variant => cases hu
  | array he => rfl
  | struct hne hts => cases hts u hu <;> cases hcode
  | dictEntry k hv =>
    rcases List.mem_cons.mp hu with rfl | hu
    · cases hcode
    · obtain rfl := List.mem_singleton.mp hu
      cases hv <;> cases hcode

/-- What may stand as a dict entry stands inside an array. -/
theorem Formed.inArray_of_code {b : Bool} {m k : Nat} (ht : t.Formed b m k)
    (hcode : t.code = .dictEntry) : b = true := by
  cases ht with
  | dictEntry => rfl
  | _ => cases hcode

/-- What stands directly inside of a regular type is regular. -/
theorem Regular.of_mem_children (ht : t.Regular) (hu : u ∈ t.children) : u.Regular := by
  obtain ⟨b, m, k, hformed⟩ := ht
  exact ⟨true, m, k, hformed.of_mem_children hu⟩

theorem Regular.of_mem_nodes (ht : t.Regular) (hn : n ∈ t.nodes) : n.ty.Regular :=
  forall_mem_nodesFrom (fun _ h _ hu => h.of_mem_children hu) t ht none 0 n hn

end Ty

/-! ## What is made of a node -/

namespace Arena

open Ty

variable {α : Type} {t u : Ty} {i : Nat}

/-- Where something is computed alike for nodes and for types, it is the same for a node as for the
type there. -/
theorem foldWithin_arena {f : TypeCode → List α → α} {missing : α} {F : Ty → α}
    (hF : ∀ u, F u = f u.code (u.children.map F)) {levels : Nat} (h : t.HasAt i u)
    (hlevels : u.size ≤ levels) : foldWithin f missing t.arena levels i = F u := by
  induction levels generalizing i u with
  | zero => exact absurd hlevels (Nat.not_le_of_lt u.size_pos)
  | succ levels ih =>
    obtain ⟨n, hn, hcode, hchildren⟩ := h.exists_node
    have hsize := u.size_eq
    have hparts : ∀ {cs us}, List.Forall₂ t.HasAt cs us → sizeAll us ≤ levels →
        cs.map (foldWithin f missing t.arena levels) = us.map F := by
      intro cs us hcs hle
      induction hcs with
      | nil => rfl
      | cons hc _ ihcs =>
        rw [sizeAll] at hle
        rw [List.map_cons, List.map_cons, ih hc (by omega), ihcs (by omega)]
    rw [hF u, ← hparts hchildren (by omega), ← hcode, foldWithin, hn]

/-- A fold from the top has enough levels to come to the leaves. -/
theorem fold_arena {f : TypeCode → List α → α} {missing : α} {F : Ty → α}
    (hF : ∀ u, F u = f u.code (u.children.map F)) (h : t.HasAt i u) :
    fold f missing t.arena i = F u :=
  foldWithin_arena hF h h.size_le

/-- The signature of a node is that of its type. -/
theorem signature_arena (h : t.HasAt i u) : signature t.arena i = u.render := by
  refine fold_arena (fun u => ?_) h
  cases u <;> simp [render, writeSignature, children, code, renderAll_eq_flatten]

/-- The type that an arena has at a node is the one that it was made of. -/
theorem typeAt_arena (h : t.HasAt i u) : typeAt t.arena i = u := by
  refine fold_arena (F := fun u => u) (fun u => ?_) h
  cases u <;> simp [buildType, children, code]

end Arena

end DBus
