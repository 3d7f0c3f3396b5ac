import DBus.Proofs.NodeLinks
import Mathlib.Data.List.Induction

/-!
# Arenas that grow

While a type is read, its arena is not complete : the container that is read, and those around it,
lack children. `Arena.Growing` says what holds nevertheless. The links go both ways at any time.
What is inside of a node follows it without a gap, and what is inside of an open node goes on to
the end of the arena. And the nodes that are not open have the children that their code asks for.

Two steps change which nodes are open. Pushing a node opens it (`Arena.Growing.push`), and when
it has its children it is closed (`Arena.Growing.close`). So reading a type with all that is
inside of it keeps the invariant (`Arena.keeps`), which is what each successful return of
the parser comes to (`Arena.Growing.of_completeType`).
-/

namespace DBus

namespace Arena

/-! ## What an arena keeps to -/

/-- The one node is the other or inside of it, as the parents tell. -/
inductive Inside (ns : Arena) (i : Nat) : Nat → Prop
  | self : Inside ns i i
  | child {p c : Nat} : Inside ns i p → parent? ns c = some p → Inside ns i c

/-- The nodes around the place where nodes are added are open, `parent` being the next of them. -/
def Open (ns : Arena) (parent : Option Nat) (i : Nat) : Prop :=
  ∃ p, parent = some p ∧ Inside ns i p

/-- A node has the children that its code asks for, and a dict entry stands in an array. -/
def HasChildren (ns : Arena) (i : Nat) : Prop :=
  match code? ns i with
  | some .array => (childrenOf ns i).length = 1
  | some .struct => childrenOf ns i ≠ []
  | some .dictEntry =>
    (∃ key value k, childrenOf ns i = [key, value] ∧ code? ns key = some (.basic k)) ∧
      ∃ p, parent? ns i = some p ∧ code? ns p = some .array
  | _ => childrenOf ns i = []

/-- Parents and children tell of each other. -/
structure Links (ns : Arena) : Prop where
  /-- The first node alone stands in no other. -/
  root : ∀ i < ns.length, parent? ns i = none ↔ i = 0
  /-- Any other comes after its parent, which has it once among its children. -/
  listed : ∀ i p, parent? ns i = some p → p < i ∧ (childrenOf ns p).count i = 1
  /-- Children are nodes that have the node for their parent. -/
  children : ∀ i, ∀ c ∈ childrenOf ns i, parent? ns c = some i
  increasing : ∀ i, (childrenOf ns i).Pairwise (· < ·)

/-- The nodes that have been read so far, while nodes are added inside of `parent`. -/
structure Growing (ns : Arena) (parent : Option Nat) : Prop extends Links ns where
  parent_lt : ∀ p, parent = some p → p < ns.length
  /-- What is inside of a node follows it without a gap, up to the end if it is open. -/
  contiguous : ∀ i < ns.length, ∃ stop, i < stop ∧ stop ≤ ns.length ∧
    (Open ns parent i → stop = ns.length) ∧ ∀ j, Inside ns i j ↔ i ≤ j ∧ j < stop
  /-- A node that is no longer open has its children. -/
  closed : ∀ i < ns.length, ¬ Open ns parent i → HasChildren ns i

variable {ns : Arena} {parent : Option Nat} {code : TypeCode} {i j p c : Nat}

theorem lt_of_parent?_eq_some (h : parent? ns i = some p) : i < ns.length := by
  obtain ⟨n, hn, -⟩ := Option.bind_eq_some_iff.mp h
  exact (List.getElem?_eq_some_iff.mp hn).1

theorem Links.lt_of_mem_childrenOf (h : Links ns) (hc : c ∈ childrenOf ns i) : c < ns.length :=
  lt_of_parent?_eq_some (h.children i c hc)

/-- What is inside of a node comes behind it. -/
theorem Links.le_of_inside (h : Links ns) (hin : Inside ns i j) : i ≤ j := by
  induction hin with
  | self => exact Nat.le_refl i
  | child _ hparent ih => exact Nat.le_of_lt (Nat.lt_of_le_of_lt ih (h.listed _ _ hparent).1)

/-! ## One more node -/

section

/-- A node is told of a child, and nothing else changes. -/
theorem getElem?_addChild (ns : Arena) (id : Nat) (parent : Option Nat) (i : Nat) :
    (addChild ns id parent)[i]? = ns[i]?.map fun n =>
      if parent = some i then { n with children := n.children ++ [id] } else n := by
  cases parent with
  | none => simp [addChild]
  | some p =>
    rw [addChild, List.getElem?_modify]
    cases ns[i]? <;> simp

theorem code?_addChild (ns : Arena) (id : Nat) (parent : Option Nat) (i : Nat) :
    code? (addChild ns id parent) i = code? ns i := by
  rw [code?, getElem?_addChild, code?]
  cases ns[i]? with
  | none => rfl
  | some n =>
    simp only [Option.map_some]
    split <;> rfl

theorem length_push (ns : Arena) (code : TypeCode) (parent : Option Nat) :
    (push ns code parent).length = ns.length + 1 := by
  rw [push, length_addChild, List.length_append]
  rfl

/-- What is found at a number after a push. -/
theorem getElem?_push (hp : ∀ p, parent = some p → p < ns.length) (code : TypeCode) (i : Nat) :
    (push ns code parent)[i]? = if i = ns.length then some ⟨code, parent, []⟩ else
      ns[i]?.map fun n =>
        if parent = some i then { n with children := n.children ++ [ns.length] } else n := by
  rw [push, getElem?_addChild]
  by_cases hi : i = ns.length
  · subst hi
    have hself : parent ≠ some ns.length := fun h => Nat.lt_irrefl _ (hp _ h)
    simp [hself]
  · rw [if_neg hi]
    rcases Nat.lt_or_ge i ns.length with hlt | hge
    · rw [List.getElem?_append_left hlt]
    · rw [List.getElem?_eq_none hge,
        List.getElem?_eq_none (by rw [List.length_append, List.length_singleton]; omega)]

variable (hp : ∀ p, parent = some p → p < ns.length)

include hp

/-- The new node has the parent that it is pushed with. -/
theorem parent?_push (code : TypeCode) (i : Nat) :
    parent? (push ns code parent) i = if i = ns.length then parent else parent? ns i := by
  rw [parent?, getElem?_push hp]
  split
  · rfl
  · rw [parent?]
    cases ns[i]? with
    | none => rfl
    | some n =>
      simp only [Option.map_some, Option.bind_some]
      split <;> rfl

/-- The new node has the code that it is pushed with. -/
theorem code?_push (code : TypeCode) (i : Nat) :
    code? (push ns code parent) i = if i = ns.length then some code else code? ns i := by
  rw [code?, getElem?_push hp]
  split
  · rfl
  · rw [code?]
    cases ns[i]? with
    | none => rfl
    | some n =>
      simp only [Option.map_some]
      split <;> rfl

/-- The new node is the last child of its parent. -/
theorem childrenOf_push (code : TypeCode) (i : Nat) : childrenOf (push ns code parent) i =
    childrenOf ns i ++ if parent = some i then [ns.length] else [] := by
  rw [childrenOf, getElem?_push hp]
  split
  · next heq =>
    subst heq
    have hself : parent ≠ some ns.length := fun h => Nat.lt_irrefl _ (hp _ h)
    simp [childrenOf, hself]
  · rw [childrenOf]
    cases hi : ns[i]? with
    | none =>
      have hne : parent ≠ some i := fun h =>
        Nat.not_lt_of_le (List.getElem?_eq_none_iff.mp hi) (hp _ h)
      simp [hne]
    | some n =>
      simp only [Option.map_some, Option.getD_some]
      split <;> simp

end

/-! ## Pushing a node -/

namespace Growing

/-- What is inside of a node stays there. -/
theorem inside_push (h : Growing ns parent) (code : TypeCode) (hin : Inside ns i j) :
    Inside (push ns code parent) i j := by
  induction hin with
  | self => exact .self
  | child _ hparent ih =>
    have hlt := lt_of_parent?_eq_some hparent
    exact .child ih (by rwa [parent?_push h.parent_lt, if_neg (Nat.ne_of_lt hlt)])

/-- Only the new node comes to be inside of others, of the open ones. -/
theorem inside_push_iff (h : Growing ns parent) (code : TypeCode) (hi : i ≤ ns.length) :
    Inside (push ns code parent) i j ↔ (j < ns.length ∧ Inside ns i j) ∨
      (j = ns.length ∧ (i = ns.length ∨ Open ns parent i)) := by
  constructor
  · intro hin
    induction hin with
    | self =>
      rcases Nat.lt_or_eq_of_le hi with hlt | heq
      · exact .inl ⟨hlt, .self⟩
      · exact .inr ⟨heq, .inl heq⟩
    | @child p c _ hparent ih =>
      rw [parent?_push h.parent_lt] at hparent
      by_cases hc : c = ns.length
      · rw [if_pos hc] at hparent
        have hp := h.parent_lt p hparent
        rcases ih with ⟨-, hin⟩ | ⟨rfl, -⟩
        · exact .inr ⟨hc, .inr ⟨p, hparent, hin⟩⟩
        · exact absurd hp (Nat.lt_irrefl _)
      · rw [if_neg hc] at hparent
        have hlt := lt_of_parent?_eq_some hparent
        have hp := (h.listed c p hparent).1
        rcases ih with ⟨-, hin⟩ | ⟨rfl, -⟩
        · exact .inl ⟨hlt, .child hin hparent⟩
        · omega
  · rintro (⟨-, hin⟩ | ⟨rfl, rfl | ⟨p, hparent, hin⟩⟩)
    · exact h.inside_push code hin
    · exact .self
    · exact .child (h.inside_push code hin) (by rw [parent?_push h.parent_lt, if_pos rfl, hparent])

/-- The new node is open, and so are those that were. -/
theorem open_push_iff (h : Growing ns parent) (code : TypeCode) (hi : i ≤ ns.length) :
    Open (push ns code parent) (some ns.length) i ↔ i = ns.length ∨ Open ns parent i := by
  have hlength := h.inside_push_iff code (j := ns.length) hi
  simpa [Open] using hlength

/-- The links go both ways also with the new node. -/
theorem links_push (h : Growing ns parent) (hstart : parent = none → ns = []) (code : TypeCode) :
    Links (push ns code parent) where
  root i hi := by
    rw [length_push] at hi
    rw [parent?_push h.parent_lt]
    by_cases heq : i = ns.length
    · subst heq
      rw [if_pos rfl]
      cases parent with
      | none => simp [hstart rfl]
      | some p =>
        have hp := h.parent_lt p rfl
        exact iff_of_false (Option.some_ne_none p) (by omega)
    · rw [if_neg heq]
      exact h.root i (by omega)
  listed i p hparent := by
    rw [parent?_push h.parent_lt] at hparent
    rw [childrenOf_push h.parent_lt, List.count_append]
    by_cases heq : i = ns.length
    · subst heq
      rw [if_pos rfl] at hparent
      have hnot : ns.length ∉ childrenOf ns p := fun hmem =>
        Nat.lt_irrefl _ (h.lt_of_mem_childrenOf hmem)
      rw [if_pos hparent, List.count_eq_zero_of_not_mem hnot]
      exact ⟨h.parent_lt p hparent, by simp⟩
    · rw [if_neg heq] at hparent
      obtain ⟨hlt, hcount⟩ := h.listed i p hparent
      refine ⟨hlt, ?_⟩
      rw [hcount]
      split
      · rw [List.count_singleton, beq_false_of_ne (Ne.symm heq)]
        rfl
      · rfl
  children i c hc := by
    rw [childrenOf_push h.parent_lt, List.mem_append] at hc
    rw [parent?_push h.parent_lt]
    rcases hc with hc | hc
    · rw [if_neg (Nat.ne_of_lt (h.lt_of_mem_childrenOf hc))]
      exact h.children i c hc
    · split at hc
      · next hparent =>
        obtain rfl := List.mem_singleton.mp hc
        rw [if_pos rfl, hparent]
      · cases hc
  increasing i := by
    rw [childrenOf_push h.parent_lt, List.pairwise_append]
    refine ⟨h.increasing i, by split <;> simp, fun c hc d hd => ?_⟩
    split at hd
    · obtain rfl := List.mem_singleton.mp hd
      exact h.lt_of_mem_childrenOf hc
    · cases hd

/-- The children of a node that is not open are not changed. -/
theorem hasChildren_push (h : Growing ns parent) (code : TypeCode) (hi : i < ns.length)
    (hopen : ¬ Open ns parent i) : HasChildren (push ns code parent) i := by
  have hsame : ∀ j < ns.length, code? (push ns code parent) j = code? ns j := fun j hj => by
    rw [code?_push h.parent_lt, if_neg (Nat.ne_of_lt hj)]
  have hparent : parent? (push ns code parent) i = parent? ns i := by
    rw [parent?_push h.parent_lt, if_neg (Nat.ne_of_lt hi)]
  have hchildren : childrenOf (push ns code parent) i = childrenOf ns i := by
    rw [childrenOf_push h.parent_lt, if_neg fun heq => hopen ⟨i, heq, .self⟩, List.append_nil]
  have hclosed := h.closed i hi hopen
  unfold HasChildren at hclosed ⊢
  rw [hsame i hi, hchildren, hparent]
  split at hclosed
  · exact hclosed
  · exact hclosed
  · obtain ⟨⟨key, value, k, hkv, hkey⟩, p, hp, harray⟩ := hclosed
    have hlt := h.lt_of_mem_childrenOf (i := i) (c := key) (by rw [hkv]; exact .head _)
    have hplt := Nat.lt_trans (h.listed i p hp).1 hi
    exact ⟨⟨key, value, k, hkv, by rwa [hsame key hlt]⟩, p, hp, by rwa [hsame p hplt]⟩
  · exact hclosed

/-- A node that is pushed is open, and those around it remain so. -/
theorem push (h : Growing ns parent) (hstart : parent = none → ns = []) (code : TypeCode) :
    Growing (push ns code parent) (some ns.length) where
  toLinks := h.links_push hstart code
  parent_lt := by
    rintro p ⟨⟩
    rw [length_push]
    exact Nat.lt_succ_self _
  contiguous i hi := by
    rw [length_push] at hi ⊢
    have hile := Nat.le_of_lt_succ hi
    rw [h.open_push_iff code hile]
    simp only [h.inside_push_iff code hile]
    by_cases heq : i = ns.length
    · refine ⟨ns.length + 1, hi, Nat.le_refl _, fun _ => rfl, fun j => ?_⟩
      constructor
      · rintro (⟨hj, hin⟩ | ⟨rfl, -⟩)
        · have hle := h.le_of_inside hin
          omega
        · omega
      · intro hj
        exact .inr ⟨by omega, .inl heq⟩
    · obtain ⟨stop, hlt, hle, hend, hin⟩ := h.contiguous i (by omega)
      by_cases hin_open : Open ns parent i
      · -- the new node is at the end of what is inside of an open one
        obtain rfl := hend hin_open
        refine ⟨ns.length + 1, hi, Nat.le_refl _, fun _ => rfl, fun j => ?_⟩
        rw [hin]
        simp only [hin_open, or_true, and_true]
        omega
      · refine ⟨stop, hlt, Nat.le_succ_of_le hle, fun hor => absurd hor (by simp [heq, hin_open]),
          fun j => ?_⟩
        rw [hin]
        simp only [heq, hin_open, or_self, and_false, or_false]
        omega
  closed i hi hopen := by
    rw [length_push] at hi
    rw [h.open_push_iff code (Nat.le_of_lt_succ hi), not_or] at hopen
    exact h.hasChildren_push code (by omega) hopen.2

/-- A node that has its children is closed, and the node around it is the next to get some. -/
theorem close (h : Growing ns (some i)) (hchildren : HasChildren ns i) :
    Growing ns (parent? ns i) where
  toLinks := h.toLinks
  parent_lt p hp := Nat.lt_trans (h.listed i p hp).1 (h.parent_lt i rfl)
  contiguous j hj := by
    obtain ⟨stop, hlt, hle, hend, hin⟩ := h.contiguous j hj
    refine ⟨stop, hlt, hle, ?_, hin⟩
    rintro ⟨p, hp, hinside⟩
    exact hend ⟨i, rfl, .child hinside hp⟩
  closed j hj hopen := by
    by_cases hopen' : Open ns (some i) j
    · obtain ⟨_, ⟨⟩, hinside⟩ := hopen'
      cases hinside with
      | self => exact hchildren
      | child hinside hp => exact absurd ⟨_, hp, hinside⟩ hopen
    · exact h.closed j hj hopen'

end Growing

/-! ## Reading a type -/

section

variable {t : Ty} {ts : List Ty}

theorem getElem?_opened (ns : Arena) (parent : Option Nat) (code : TypeCode) (ts : List Ty) :
    (opened ns parent code ts)[ns.length]? =
      some { code, parent, children := Ty.siblingIds (ns.length + 1) ts } := by
  rw [opened, List.getElem?_append_right (Nat.le_of_eq (length_addChild ..)), length_addChild,
    Nat.sub_self]
  rfl

theorem code?_opened (ns : Arena) (parent : Option Nat) (code : TypeCode) (ts : List Ty) :
    code? (opened ns parent code ts) ns.length = some code := by
  rw [code?, getElem?_opened]
  rfl

theorem parent?_opened (ns : Arena) (parent : Option Nat) (code : TypeCode) (ts : List Ty) :
    parent? (opened ns parent code ts) ns.length = parent := by
  rw [parent?, getElem?_opened]
  rfl

theorem code?_opened_of_lt (parent : Option Nat) (code : TypeCode) (ts : List Ty)
    (hi : i < ns.length) : code? (opened ns parent code ts) i = code? ns i := by
  rw [← code?_addChild ns ns.length parent i, code?, code?, opened,
    List.getElem?_append_left (by rwa [length_addChild])]

/-- A container with all of its children has those that its code asks for. -/
theorem hasChildren_opened (ht : t.Regular) (hp : ∀ p, parent = some p → p < ns.length)
    (hentry : t.code = .dictEntry → ∃ p, parent = some p ∧ code? ns p = some .array) :
    HasChildren (opened ns parent t.code t.children) ns.length := by
  unfold HasChildren
  rw [code?_opened, childrenOf_opened, parent?_opened]
  cases t with
  | basic c => rfl
  | variant => rfl
  | array e => rfl
  | struct ts =>
    intro hnil
    have hlen := Ty.length_siblingIds ts (ns.length + 1)
    rw [show Ty.siblingIds (ns.length + 1) ts = [] from hnil] at hlen
    exact ht.fields.1 (List.eq_nil_of_length_eq_zero hlen.symm)
  | dictEntry k v =>
    obtain ⟨p, hparent, harray⟩ := hentry rfl
    refine ⟨⟨ns.length + 1, ns.length + 2, k, rfl, ?_⟩, p, hparent, ?_⟩
    · rw [code?, opened, List.getElem?_append_right (by rw [length_addChild]; omega),
        length_addChild, Nat.add_sub_cancel_left]
      rfl
    · rw [code?_opened_of_lt _ _ _ (hp p hparent), harray]

/-- Reading the type keeps the invariant, wherever the type may stand. -/
def Keeps (t : Ty) : Prop :=
  ∀ (ns : Arena) (parent : Option Nat), Growing ns parent → (parent = none → ns = []) →
    (t.code = .dictEntry → ∃ p, parent = some p ∧ code? ns p = some .array) →
    Growing (attach ns parent t) parent

/-- While a container is read, it is open, and only an array gets dict entries. -/
theorem Growing.opened (h : Growing ns parent) (hstart : parent = none → ns = [])
    (hts : ∀ u ∈ ts, Keeps u) (hentry : ∀ u ∈ ts, u.code = .dictEntry → code = .array) :
    Growing (opened ns parent code ts) (some ns.length) := by
  induction ts using List.reverseRecOn with
  | nil =>
    rw [← push_eq_opened h.parent_lt]
    exact h.push hstart code
  | append_singleton ts u ih =>
    have hopened := ih (fun v hv => hts v (by simp [hv])) fun v hv => hentry v (by simp [hv])
    rw [← attach_opened]
    exact hts u (by simp) _ _ hopened (by simp) fun hcode =>
      ⟨_, rfl, (code?_opened ..).trans (congrArg some (hentry u (by simp) hcode))⟩

/-- With its last child a container is closed. -/
theorem keeps (t : Ty) : t.Regular → Keeps t := by
  induction t using Ty.induction_children with
  | h t ih =>
    intro ht ns parent h hstart hentry
    have hopened := h.opened hstart (fun u hu => ih u hu (ht.of_mem_children hu))
      fun u hu hcode => ht.code_of_mem_children hu hcode
    have hclosed := hopened.close (hasChildren_opened ht h.parent_lt hentry)
    rwa [parent?_opened, opened_children] at hclosed

end

/-! ## The parser -/

section

open Scan

variable {d : Depth} {fs : List Frame} {s : Bytes} {r : Rest s}

/-- Whenever the parser has read a type, the invariant is restored. -/
theorem Growing.of_completeType (h : Growing ns parent) (hstart : parent = none → ns = [])
    (harray : inArray fs = true → ∃ p, parent = some p ∧ code? ns p = some .array)
    (hd : d.Counts fs) (hasks : AsksType fs s)
    (hr : completeType parent (inArray fs) d ns s = .ok r) : Growing r.1.2 parent := by
  have htracks := tracksType (agreesOn_step []) s ns parent d fs h.parent_lt hd hasks
  rw [hr] at htracks
  obtain ⟨t, ht, hattach, -⟩ := htracks
  rw [hattach]
  exact keeps t ⟨_, _, _, ht⟩ ns parent h hstart fun hcode => harray (ht.inArray_of_code hcode)

/-- Whenever the parser has read the fields of a struct, the struct is still open. -/
theorem Growing.of_structFields (h : Growing ns parent) (hstart : parent = none → ns = [])
    (hd : d.Counts (.struct [] :: fs))
    (hr : structFields ns.length d (Arena.push ns .struct parent) s = .ok r) :
    Growing r.1.2 (some ns.length) := by
  have htracks := tracks_structFields (agreesOn_step [])
    (fun s _ => tracksType (agreesOn_step []) s) ns parent s (Nat.le_refl _) []
    (List.forall_mem_nil _) hd
  rw [← push_eq_opened h.parent_lt, hr] at htracks
  obtain ⟨ts, hts, hopened, -⟩ := htracks
  rw [hopened]
  exact h.opened hstart (fun u hu => keeps u ⟨_, _, _, hts u hu⟩)
    fun u hu hcode => absurd ((hts u hu).inArray_of_code hcode) Bool.false_ne_true

/-- Whenever the parser has read a dict entry, up to its end, the entry is still open, with a key
and a value. -/
theorem Growing.of_dictEntryFields (h : Growing ns parent) (hstart : parent = none → ns = [])
    (hd : ∀ k, d.Counts (.entry k :: fs))
    (hr : dictEntryFields ns.length d (Arena.push ns .dictEntry parent) s = .ok r) :
    Growing r.1.2 (some ns.length) ∧ (childrenOf r.1.2 ns.length).length = 2 := by
  have htracks := tracks_dictEntryFields (agreesOn_step [])
    (fun s _ => tracksType (agreesOn_step []) s) ns parent (Nat.le_refl s.length) hd
  rw [← push_eq_opened h.parent_lt, hr] at htracks
  obtain ⟨k, v, hv, hopened, -⟩ := htracks
  rw [hopened, childrenOf_opened]
  have hregular : ∀ u ∈ [Ty.basic k, v], u.Regular := by
    simpa using ⟨Ty.regular_basic k, ⟨_, _, _, hv⟩⟩
  have hno : ∀ u ∈ [Ty.basic k, v], u.code ≠ .dictEntry := by
    simpa [Ty.code] using fun hcode => absurd (hv.inArray_of_code hcode) Bool.false_ne_true
  exact ⟨h.opened hstart (fun u hu => keeps u (hregular u hu)) fun u hu hcode =>
    absurd hcode (hno u hu), rfl⟩

end

/-! ## Complete arenas -/

/-- The nodes are those of one type, linked in both directions. -/
structure Linked (ns : Arena) : Prop extends Links ns where
  ne_nil : ns ≠ []
  length_le : ns.length ≤ 255
  /-- What is inside of a node follows it without a gap. -/
  contiguous : ∀ i < ns.length, ∃ stop, i < stop ∧ stop ≤ ns.length ∧
    ∀ j, Inside ns i j ↔ i ≤ j ∧ j < stop
  complete : ∀ i < ns.length, HasChildren ns i

/-- Where no node is open, the arena is complete. -/
theorem Growing.linked_of_none (h : Growing ns none) (hne : ns ≠ []) (hlen : ns.length ≤ 255) :
    Linked ns where
  toLinks := h.toLinks
  ne_nil := hne
  length_le := hlen
  contiguous i hi := by
    obtain ⟨stop, hlt, hle, -, hin⟩ := h.contiguous i hi
    exact ⟨stop, hlt, hle, hin⟩
  complete i hi := h.closed i hi (by simp [Open])

/-- Before anything is read nothing is open. -/
theorem growing_nil : Growing [] none where
  root _ hi := absurd hi (Nat.not_lt_zero _)
  listed _ _ h := absurd (lt_of_parent?_eq_some h) (Nat.not_lt_zero _)
  children _ _ hc := absurd hc List.not_mem_nil
  increasing _ := .nil
  parent_lt p h := absurd h.symm (Option.some_ne_none p)
  contiguous _ hi := absurd hi (Nat.not_lt_zero _)
  closed _ hi := absurd hi (Nat.not_lt_zero _)

/-- The nodes of a type that a signature makes are linked in both directions. -/
theorem linked_arena {t : Ty} (ht : t.Valid) : Linked t.arena := by
  have hgrowing : Growing t.arena none := by
    rw [← attach_nil]
    exact keeps t ht.regular [] none growing_nil (fun _ => rfl) fun hcode =>
      absurd hcode ht.code_ne_dictEntry
  have hlen : t.arena.length = t.nodes.length := List.length_map _
  refine hgrowing.linked_of_none ?_ (hlen ▸ Nat.le_trans t.length_nodes_le (Ty.valid_iff.mp ht).1)
  rw [Ty.arena, Ty.nodes, Ty.nodesFrom_eq]
  exact List.cons_ne_nil _ _

/-- The arena is had from a signature or from a native type. -/
inductive Made : Arena → Prop
  | listed {s : Bytes} {as : List Arena} {ns : Arena} : listOfSignature s = .ok as → ns ∈ as →
    Made ns
  | single {s : Bytes} {ns : Arena} : ofSignature s = .ok ns → Made ns
  | native {n : NativeType} {ns : Arena} : ofNative n = .ok ns → Made ns

/-- Every arena that is made is that of a valid type. -/
theorem Made.exists_type (h : Made ns) : ∃ t : Ty, t.Valid ∧ ns = t.arena := by
  cases h with
  | listed hs hmem =>
    rw [listOfSignature_eq, map_eq_ok] at hs
    obtain ⟨as, has, rfl⟩ := hs
    obtain ⟨a, ha, rfl⟩ := List.mem_map.mp hmem
    exact ⟨a.ty, (Argument.listOfSignature_eq_ok has).2.1 a ha, rfl⟩
  | single hs =>
    rw [ofSignature_eq, map_eq_ok] at hs
    obtain ⟨a, ha, rfl⟩ := hs
    obtain ⟨t, ht, rfl⟩ := Argument.ofSignature_eq_ok_iff.mp ha
    exact ⟨t, ⟨_, ht⟩, rfl⟩
  | native hn =>
    rw [ofNative_eq, map_eq_ok] at hn
    obtain ⟨a, ha, rfl⟩ := hn
    exact ⟨a.ty, (Argument.ofNative_eq_ok_iff.mp ha).2.1, rfl⟩

end Arena

end DBus
