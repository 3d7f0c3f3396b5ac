import DBus.Arena
import DBus.Proofs.Numbering

/-!
# Arenas and trees

Reading a type adds a row of nodes to an arena: those of the type, in their order, the first of
them listed by the node around it (`Arena.attach`). For as long as a container is read, the arena
ends with its node, which lists the children read so far, and with what is inside of these
(`Arena.opened`). A child more is attached to such an arena (`Arena.attach_opened`), and with all of
its children the container is attached itself (`Arena.opened_children`).

The parser that builds arenas and the scan that builds trees go through the same bytes. At the
start of each type they agree on what follows : either both come to the same fault, or the parser
attaches the tree that the scan completes, and they stand at the same byte
(`Arena.tracksType`). So the arenas of a signature are those of its types
(`Arena.parseTypes_eq`, `Arena.parseType_eq`).
-/

namespace DBus

/-! ## Types side by side -/

namespace Ty

theorem size_pos (t : Ty) : 0 < t.size := by
  rw [size_eq]
  omega

theorem sizeAll_append (front back : List Ty) :
    sizeAll (front ++ back) = sizeAll front + sizeAll back := by
  induction front with
  | nil => simp [sizeAll]
  | cons t front ih => rw [List.cons_append, sizeAll, sizeAll, ih, Nat.add_assoc]

/-- The numbers of several types start behind those of the types in front. -/
theorem siblingIds_append (front back : List Ty) (id : Nat) :
    siblingIds id (front ++ back) =
      siblingIds id front ++ siblingIds (id + sizeAll front) back := by
  induction front generalizing id with
  | nil => rfl
  | cons t front ih => simp [siblingIds, sizeAll, ih, Nat.add_assoc]

/-- The nodes of several types start behind those of the types in front. -/
theorem nodesFromAll_append (parent : Option Nat) (front back : List Ty) (id : Nat) :
    nodesFromAll parent id (front ++ back) =
      nodesFromAll parent id front ++ nodesFromAll parent (id + sizeAll front) back := by
  induction front generalizing id with
  | nil => rfl
  | cons t front ih => simp [nodesFromAll, sizeAll, ih, Nat.add_assoc]

theorem length_nodesFromAll_eq (parent : Option Nat) (id : Nat) (ts : List Ty) :
    (nodesFromAll parent id ts).length = sizeAll ts :=
  length_nodesFromAll (fun t _ => t.length_nodesFrom) parent id

end Ty

/-! ## Arenas of trees -/

namespace Arena

/-- The arena with one more type, inside of `parent`. -/
def attach (ns : Arena) (parent : Option Nat) (t : Ty) : Arena :=
  addChild ns ns.length parent ++ (t.nodesFrom parent ns.length).map Node.bare

/-- The arena while a container inside of `parent` is read, of which the types `ts` have been. -/
def opened (ns : Arena) (parent : Option Nat) (code : TypeCode) (ts : List Ty) : Arena :=
  addChild ns ns.length parent ++
    { code, parent, children := Ty.siblingIds (ns.length + 1) ts } ::
      (Ty.nodesFromAll (some ns.length) (ns.length + 1) ts).map Node.bare

section

variable {ns : Arena} {parent : Option Nat}

/-- What is attached to nothing is the arena of a type. -/
theorem attach_nil (t : Ty) : attach [] none t = t.arena := rfl

theorem length_addChild (ns : Arena) (id : Nat) (parent : Option Nat) :
    (addChild ns id parent).length = ns.length := by
  cases parent <;> simp [addChild]

/-- A node in front is changed alone. -/
theorem modify_append {α : Type} (f : α → α) {xs : List α} {i : Nat} (hi : i < xs.length)
    (ys : List α) : (xs ++ ys).modify i f = xs.modify i f ++ ys := by
  induction xs generalizing i with
  | nil => cases hi
  | cons x xs ih =>
    cases i with
    | zero => rfl
    | succ i =>
      rw [List.cons_append, List.modify_succ_cons, List.modify_succ_cons,
        ih (Nat.lt_of_succ_lt_succ hi), List.cons_append]

/-- The first node behind is changed alone. -/
theorem modify_append_cons {α : Type} (f : α → α) {xs : List α} {i : Nat} (hi : xs.length = i)
    (y : α) (ys : List α) : (xs ++ y :: ys).modify i f = xs ++ f y :: ys := by
  subst hi
  induction xs with
  | nil => rfl
  | cons x xs ih =>
    rw [List.cons_append, List.length_cons, List.modify_succ_cons, ih, List.cons_append]

/-- The node that is told of a child is not among those added since. -/
theorem addChild_append (hp : ∀ p, parent = some p → p < ns.length) (ms : Arena) (id : Nat) :
    addChild (ns ++ ms) id parent = addChild ns id parent ++ ms := by
  cases parent with
  | none => rfl
  | some p => exact modify_append _ (hp p rfl) ms

/-- A container just pushed has no children. -/
theorem push_eq_opened (hp : ∀ p, parent = some p → p < ns.length) (code : TypeCode) :
    push ns code parent = opened ns parent code [] :=
  addChild_append hp _ _

/-- An open container counts as one node beside what is inside of it. -/
theorem length_opened (ns : Arena) (parent : Option Nat) (code : TypeCode) (ts : List Ty) :
    (opened ns parent code ts).length = ns.length + 1 + Ty.sizeAll ts := by
  simp only [opened, List.length_append, length_addChild, List.length_cons, List.length_map,
    Ty.length_nodesFromAll_eq]
  omega

theorem lt_length_opened (ns : Arena) (parent : Option Nat) (code : TypeCode) (ts : List Ty) :
    ∀ p, some ns.length = some p → p < (opened ns parent code ts).length := by
  rintro p ⟨⟩
  rw [length_opened]
  omega

/-- One more type inside of an open container. -/
theorem attach_opened (ns : Arena) (parent : Option Nat) (code : TypeCode) (ts : List Ty)
    (t : Ty) : attach (opened ns parent code ts) (some ns.length) t =
      opened ns parent code (ts ++ [t]) := by
  rw [attach, length_opened, opened, addChild, modify_append_cons _ (length_addChild ..), opened,
    Ty.siblingIds_append, Ty.nodesFromAll_append]
  simp [Ty.siblingIds, Ty.nodesFromAll]

/-- A container with all of its children is read. -/
theorem opened_children (ns : Arena) (parent : Option Nat) (t : Ty) :
    opened ns parent t.code t.children = attach ns parent t := by
  rw [attach, Ty.nodesFrom_eq]
  rfl

/-- A basic type is attached by one push, for it has no children. -/
theorem push_basic (hp : ∀ p, parent = some p → p < ns.length) (c : BasicCode) :
    push ns (.basic c) parent = attach ns parent (.basic c) :=
  (push_eq_opened hp _).trans (opened_children ns parent (.basic c))

/-- An open container lists the children read so far. -/
theorem childrenOf_opened (ns : Arena) (parent : Option Nat) (code : TypeCode) (ts : List Ty) :
    childrenOf (opened ns parent code ts) ns.length = Ty.siblingIds (ns.length + 1) ts := by
  rw [childrenOf, opened, List.getElem?_append_right (Nat.le_of_eq (length_addChild ..)),
    length_addChild, Nat.sub_self]
  rfl

end

end Arena

/-! ## The rest of a scan -/

namespace Scan

/-- The types that the scan comes to from some point on. -/
def run (f : Scan → UInt8 → Except SignatureFault Scan) (scan : Scan) (s : Bytes) :
    Except SignatureFault (List Ty) := do
  (← s.foldlM f scan).finish

theorem agreesOn_step (done : List Ty) : AgreesOn done step := fun _ _ => rfl

/-- One byte of a scan, and the rest. -/
theorem run_cons {done : List Ty} {f : Scan → UInt8 → Except SignatureFault Scan}
    (hf : AgreesOn done f) (e : Expected) (b : UInt8) (s : Bytes) :
    run f ⟨done, e⟩ (b :: s) = step ⟨done, e⟩ b >>= fun scan => run f scan s := by
  rw [run, List.foldlM_cons, hf, bind_assoc]
  rfl

end Scan

/-- An operation fails with the fault that the scan comes to, or its result is as said. -/
def Tracks {α : Type} (scan : Except SignatureFault (List Ty)) (Q : α → Prop) :
    Except SignatureFault α → Prop
  | .error fault => scan = .error fault
  | .ok a => Q a

/-- What tracks a scan goes on as the scan does. -/
theorem Tracks.bind {α β : Type} {scan : Except SignatureFault (List Ty)} {Q : α → Prop}
    {R : β → Prop} {x : Except SignatureFault α} {f : α → Except SignatureFault β}
    (hx : Tracks scan Q x) (hf : ∀ a, Q a → Tracks scan R (f a)) : Tracks scan R (x >>= f) := by
  cases x with
  | error fault => exact hx
  | ok a => exact hf a hx

/-! ## Limits -/

namespace Depth

/-- The depth is that of the open containers of a scan, which kept to the limits. -/
structure Counts (d : Depth) (fs : List Frame) : Prop where
  arrays : d.arrays = Scan.arrays fs
  structs : d.structs = Scan.structs fs
  arrays_le : d.arrays ≤ maxTypeDepth
  structs_le : d.structs ≤ maxTypeDepth

variable {d : Depth} {fs : List Frame}

theorem Counts.enterArray_eq (hd : d.Counts fs) : d.enterArray =
    if Scan.arrays fs < maxTypeDepth then .ok { d with arrays := d.arrays + 1 }
    else .error .exceededMaximumArrayRecursion := by
  have hle := hd.arrays_le
  rw [Depth.enterArray, ← hd.arrays]
  split <;> split <;> first | rfl | omega

theorem Counts.enterStruct_eq (hd : d.Counts fs) : d.enterStruct =
    if Scan.structs fs < maxTypeDepth then .ok { d with structs := d.structs + 1 }
    else .error .exceededMaximumStructRecursion := by
  have hle := hd.structs_le
  rw [Depth.enterStruct, ← hd.structs]
  split <;> split <;> first | rfl | omega

/-- Going into an array counts one. -/
theorem Counts.array (hd : d.Counts fs) (h : Scan.arrays fs < maxTypeDepth) :
    ({ d with arrays := d.arrays + 1 } : Depth).Counts (.array :: fs) where
  arrays := congrArg (· + 1) hd.arrays
  structs := hd.structs
  arrays_le := hd.arrays ▸ h
  structs_le := hd.structs_le

/-- Going into a struct counts one. -/
theorem Counts.struct (hd : d.Counts fs) (h : Scan.structs fs < maxTypeDepth) (ts : List Ty) :
    ({ d with structs := d.structs + 1 } : Depth).Counts (.struct ts :: fs) where
  arrays := hd.arrays
  structs := congrArg (· + 1) hd.structs
  arrays_le := hd.arrays_le
  structs_le := hd.structs ▸ h

/-- A dict entry counts as a struct. -/
theorem Counts.entry (hd : d.Counts fs) (h : Scan.structs fs < maxTypeDepth) (k : BasicCode) :
    ({ d with structs := d.structs + 1 } : Depth).Counts (.entry k :: fs) :=
  ⟨(hd.struct h []).arrays, (hd.struct h []).structs, hd.arrays_le, (hd.struct h []).structs_le⟩

end Depth

/-! ## Parsing beside the scan -/

namespace Arena

open Scan

variable {done : List Ty} {f : Scan → UInt8 → Except SignatureFault Scan}

/-- Where the parser asks for a type inside of open containers: an array needs one in any case, and
elsewhere it looks first whether the text or the container ends here. -/
def AsksType : List Frame → Bytes → Prop
  | .array :: _, _ => True
  | _, [] => False
  | .struct _ :: _, b :: _ => b ≠ Ty.structEnd
  | .entry _ :: _, b :: _ => b ≠ Ty.entryEnd
  | [], _ :: _ => True

/-- Where a type is asked for, inside of any open containers, parsing one type attaches the tree
that the scan completes next, or fails with the fault that the scan comes to. -/
def TracksType (f : Scan → UInt8 → Except SignatureFault Scan) (done : List Ty) (s : Bytes) :
    Prop :=
  ∀ (ns : Arena) (parent : Option Nat) (d : Depth) (fs : List Frame),
    (∀ p, parent = some p → p < ns.length) → d.Counts fs → AsksType fs s →
    Tracks (run f ⟨done, .type fs⟩ s)
      (fun p => ∃ t, Fits fs t ∧ p.1.2 = attach ns parent t ∧
        run f ⟨done, .type fs⟩ s = run f (complete done t fs) p.1.1)
      (completeType parent (inArray fs) d ns s)

/-- The fields of a struct, up to its end. The scan has yet to see that there are any. -/
theorem tracks_structFields (hf : AgreesOn done f) {bound : Nat}
    (h : ∀ s : Bytes, s.length ≤ bound → TracksType f done s) (ns : Arena) (parent : Option Nat)
    {d : Depth} {fs : List Frame} (s : Bytes) (hs : s.length ≤ bound) (ts : List Ty)
    (hts : ∀ t ∈ ts, Fits (.struct [] :: fs) t) (hd : d.Counts (.struct ts.reverse :: fs)) :
    Tracks (run f ⟨done, .type (.struct ts.reverse :: fs)⟩ s)
      (fun p => ∃ us, (∀ u ∈ us, Fits (.struct [] :: fs) u) ∧ p.1.2 = opened ns parent .struct us ∧
        run f ⟨done, .type (.struct ts.reverse :: fs)⟩ s =
          close done Ty.structEnd (.struct us.reverse :: fs) >>= fun scan => run f scan p.1.1)
      (structFields ns.length d (opened ns parent .struct ts) s) := by
  match s with
  | [] =>
    rw [structFields]
    rfl
  | b :: s =>
    rw [structFields]
    by_cases hb : b = Ty.structEnd
    · subst hb
      exact ⟨ts, hts, rfl, run_cons hf ..⟩
    · rw [if_neg hb]
      refine (h (b :: s) hs _ (some ns.length) d (.struct ts.reverse :: fs)
        (lt_length_opened ns parent .struct ts) hd hb).bind ?_
      rintro ⟨⟨rest, ns'⟩, hrest⟩ ⟨t, ht, rfl, hrun⟩
      have hnext : complete done t (.struct ts.reverse :: fs) =
          ⟨done, .type (.struct (ts ++ [t]).reverse :: fs)⟩ := by simp [complete]
      have hlt : rest.length < (b :: s).length := hrest
      have hd' : d.Counts (.struct (ts ++ [t]).reverse :: fs) :=
        ⟨hd.arrays, hd.structs, hd.arrays_le, hd.structs_le⟩
      have hfields := tracks_structFields hf h ns parent rest (by omega) (ts ++ [t])
        (by simpa [or_imp, forall_and] using ⟨hts, ht⟩) hd'
      rw [hrun, hnext]
      simp only [attach_opened]
      exact hfields.bind fun p hp => hp
termination_by s.length
decreasing_by exact hlt

/-- The byte of a basic type is all that is read of it. -/
theorem completeType_basic {b : UInt8} {k : BasicCode}
    (hb : TypeCode.ofByte? b = some (.basic k)) (parent : Option Nat) (inArray : Bool) (d : Depth)
    (ns : Arena) (s : Bytes) : completeType parent inArray d ns (b :: s) =
      .ok ⟨(s, push ns (.basic k) parent), Nat.lt_succ_self _⟩ := by
  rw [completeType]
  simp only [hb]
  rfl

/-- A byte that is no code is a fault. -/
theorem completeType_stray {b : UInt8} (hb : TypeCode.ofByte? b = none) (parent : Option Nat)
    (d : Depth) (ns : Arena) (s : Bytes) :
    completeType parent false d ns (b :: s) = .error (strayByte b) := by
  rw [completeType]
  simp only [hb]
  rfl

/-- The value of a dict entry that has its key. -/
theorem tracks_entryValue (hf : AgreesOn done f) {s : Bytes} (h : TracksType f done s) (ns : Arena)
    (parent : Option Nat) {d : Depth} {fs : List Frame} {k : BasicCode}
    (hd : d.Counts (.entry k :: fs)) :
    Tracks (run f ⟨done, .type (.entry k :: fs)⟩ s)
      (fun p => ∃ v, Fits (.entry k :: fs) v ∧
        p.1.2 = opened ns parent .dictEntry [.basic k, v] ∧
        run f ⟨done, .type (.entry k :: fs)⟩ s = run f ⟨done, .entryEnd k v fs⟩ p.1.1)
      (checkValue s >>= fun _ =>
        completeType (some ns.length) false d (opened ns parent .dictEntry [.basic k]) s) := by
  match s with
  | [] => rfl
  | b :: s =>
    by_cases hb : b = Ty.entryEnd
    · subst hb
      exact run_cons hf ..
    · rw [checkValue, if_neg hb, ok_bind]
      have hvalue := h _ (some ns.length) d (.entry k :: fs)
        (lt_length_opened ns parent .dictEntry [.basic k]) hd hb
      simp only [attach_opened] at hvalue
      exact hvalue

/-- The end of a dict entry. -/
theorem tracks_entryEnd (hf : AgreesOn done f) (k : BasicCode) (v : Ty) (fs : List Frame)
    (s : Bytes) : Tracks (run f ⟨done, .entryEnd k v fs⟩ s)
      (fun _ => run f ⟨done, .entryEnd k v fs⟩ s = run f (complete done (.dictEntry k v) fs) s.tail)
      (checkEntryEnd s) := by
  match s with
  | [] => rfl
  | b :: s =>
    simp only [run_cons hf, step, checkEntryEnd]
    by_cases hb : b = Ty.entryEnd
    · simp only [if_pos hb]
      rfl
    · simp only [if_neg hb]
      rfl

/-- The key and the value of a dict entry, and its end. -/
theorem tracks_dictEntryFields (hf : AgreesOn done f) {bound : Nat}
    (h : ∀ s : Bytes, s.length ≤ bound → TracksType f done s) (ns : Arena) (parent : Option Nat)
    {d : Depth} {fs : List Frame} {s : Bytes} (hs : s.length ≤ bound)
    (hd : ∀ k, d.Counts (.entry k :: fs)) :
    Tracks (run f ⟨done, .key fs⟩ s)
      (fun p => ∃ k v, Fits (.entry k :: fs) v ∧
        p.1.2 = opened ns parent .dictEntry [.basic k, v] ∧
        run f ⟨done, .key fs⟩ s = run f (complete done (.dictEntry k v) fs) p.1.1)
      (dictEntryFields ns.length d (opened ns parent .dictEntry []) s) := by
  rw [dictEntryFields]
  match s with
  | [] => rfl
  | b :: s =>
    have hlt := lt_length_opened ns parent .dictEntry []
    by_cases hb : b = Ty.entryEnd
    · subst hb
      exact run_cons hf ..
    rw [checkKey, if_neg hb]
    cases hcode : TypeCode.ofByte? b with
    | none =>
      rw [run_cons hf, completeType_stray hcode]
      simp only [step, hcode, if_neg hb]
      rfl
    | some code =>
      cases code with
      | basic k =>
        have hrun : run f ⟨done, .key fs⟩ (b :: s) = run f ⟨done, .type (.entry k :: fs)⟩ s := by
          rw [run_cons hf]
          simp only [step, hcode]
          rfl
        have hpush : push (opened ns parent .dictEntry []) (.basic k) (some ns.length) =
            opened ns parent .dictEntry [.basic k] :=
          (push_basic hlt k).trans (attach_opened ns parent .dictEntry [] (.basic k))
        have hvalue := tracks_entryValue hf (h s (by simp only [List.length_cons] at hs; omega))
          ns parent (hd k)
        rw [hrun, completeType_basic hcode, hpush]
        change Tracks _ _ (checkValue s >>= fun _ =>
          completeType (some ns.length) false d (opened ns parent .dictEntry [.basic k]) s >>= _)
        rw [← bind_assoc]
        refine hvalue.bind ?_
        rintro ⟨⟨rest, ns'⟩, hrest⟩ ⟨v, hv, rfl, hvalue⟩
        rw [hvalue]
        exact (tracks_entryEnd hf k v fs rest).bind fun _ hend => ⟨k, v, hv, rfl, hend⟩
      | _ =>
        rw [run_cons hf]
        simp only [step, hcode]
        rfl

/-- A byte that starts no type is the same fault for both. -/
theorem close_eq_error {b : UInt8} {s : Bytes} {fs : List Frame} (h : AsksType fs (b :: s)) :
    close done b fs = .error
      (if inArray fs && (b = Ty.structEnd || b = Ty.entryEnd) then .missingArrayElementType
        else strayByte b) := by
  rcases fs with _ | ⟨_ | ts | k, fs⟩
  · rfl
  · simp only [close, inArray, Bool.true_and]
    split <;> rfl
  · exact if_neg h
  · exact if_neg h

/-- Parsing a type goes along with the scan. -/
theorem tracksType (hf : AgreesOn done f) (s : Bytes) : TracksType f done s := by
  induction hn : s.length using Nat.strongRecOn generalizing s with
  | ind n ih =>
    intro ns parent d fs hp hd hasks
    match s with
    | [] =>
      rcases fs with _ | ⟨_ | _ | _, fs⟩
      case cons.array =>
        rw [completeType]
        rfl
      all_goals exact hasks.elim
    | b :: s =>
      have hrest : ∀ s' : Bytes, s'.length ≤ s.length → TracksType f done s' := fun s' hs' =>
        ih s'.length (by simp only [List.length_cons] at hn; omega) s' rfl
      rw [run_cons hf, completeType, step]
      simp only [push_eq_opened hp]
      cases hcode : TypeCode.ofByte? b with
      | none =>
        simp only [close_eq_error hasks]
        rfl
      | some code =>
        cases code with
        | basic c => exact ⟨.basic c, .basic c, opened_children ns parent (.basic c), rfl⟩
        | variant => exact ⟨.variant, .variant, opened_children ns parent .variant, rfl⟩
        | array =>
          simp only [openType, hd.enterArray_eq]
          by_cases hlt : arrays fs < maxTypeDepth
          · simp only [if_pos hlt]
            refine (hrest s (Nat.le_refl _) _ (some ns.length) _ (.array :: fs)
              (lt_length_opened ns parent .array []) (hd.array hlt) trivial).bind ?_
            rintro p ⟨e, he, hattach, hrun⟩
            rw [attach_opened] at hattach
            exact ⟨.array e, fits_array hlt he,
              hattach.trans (opened_children ns parent (.array e)), hrun⟩
          · simp only [if_neg hlt]
            rfl
        | struct =>
          simp only [openType, hd.enterStruct_eq]
          by_cases hlt : structs fs < maxTypeDepth
          · simp only [if_pos hlt]
            refine (tracks_structFields hf hrest ns parent s (Nat.le_refl _) []
              (List.forall_mem_nil _) (hd.struct hlt [])).bind ?_
            rintro ⟨⟨rest, ns'⟩, hrest⟩ ⟨ts, hts, rfl, hrun⟩
            rw [List.reverse_nil] at hrun
            simp only [childrenOf_opened, ok_bind, hrun]
            cases ts with
            | nil => exact hrun
            | cons t ts =>
              have hclose : close done Ty.structEnd (.struct (t :: ts).reverse :: fs) =
                  .ok (complete done (.struct (t :: ts)) fs) := by simp [close]
              simp only [hclose, ok_bind]
              exact ⟨.struct (t :: ts), fits_struct hlt (List.cons_ne_nil t ts) hts,
                opened_children ns parent (.struct (t :: ts)), rfl⟩
          · simp only [if_neg hlt]
            rfl
        | dictEntry =>
          rcases fs with _ | ⟨_ | _ | _, fs⟩
          case cons.array =>
            simp only [openType, hd.enterStruct_eq]
            by_cases hlt : structs (.array :: fs) < maxTypeDepth
            · simp only [if_pos hlt]
              refine (tracks_dictEntryFields hf hrest ns parent (Nat.le_refl _)
                (hd.entry hlt)).bind ?_
              rintro p ⟨k, v, hv, hopened, hrun⟩
              exact ⟨.dictEntry k v, fits_dictEntry hlt rfl hv,
                hopened.trans (opened_children ns parent (.dictEntry k v)), hrun⟩
            · simp only [if_neg hlt]
              rfl
          all_goals rfl

/-! ## Signatures -/

theorem counts_nil : ({} : Depth).Counts [] := ⟨rfl, rfl, Nat.zero_le _, Nat.zero_le _⟩

/-- The arenas of a text are those of the types that a scan of it completes. -/
theorem tracks_completeTypes (done : List Ty) (s : Bytes) :
    Tracks (run step ⟨done, .type []⟩ s)
      (fun as => ∃ ts, as = ts.map Ty.arena ∧
        run step ⟨done, .type []⟩ s = .ok (done.reverse ++ ts)) (completeTypes s) := by
  match s with
  | [] =>
    rw [completeTypes]
    exact ⟨[], rfl, by simp [run, Scan.finish]⟩
  | b :: s =>
    rw [completeTypes]
    refine (tracksType (agreesOn_step done) (b :: s) [] none {} [] (by simp) counts_nil
      trivial).bind ?_
    rintro ⟨⟨rest, ns⟩, hrest⟩ ⟨t, -, rfl, hrun⟩
    have hlt : rest.length < (b :: s).length := hrest
    rw [hrun]
    refine (tracks_completeTypes (t :: done) rest).bind ?_
    rintro as ⟨ts, rfl, hts⟩
    exact ⟨t :: ts, rfl, by simpa [complete] using hts⟩
termination_by s.length
decreasing_by exact hlt

/-- Parsed straight into arenas, a signature has the arenas of its types, or the same fault. -/
theorem parseTypes_eq (s : Bytes) :
    parseTypes s = List.map Ty.arena <$> DBus.parseTypes s := by
  have hrun := tracks_completeTypes [] s
  rw [parseTypes, DBus.parseTypes]
  cases hlen : checkLength s with
  | error fault => rfl
  | ok u =>
    change completeTypes s = List.map Ty.arena <$> run step start s
    cases htypes : completeTypes s with
    | error fault =>
      rw [htypes] at hrun
      exact (congrArg (List.map Ty.arena <$> ·) hrun).symm
    | ok as =>
      rw [htypes] at hrun
      obtain ⟨ts, rfl, hts⟩ := hrun
      exact (congrArg (List.map Ty.arena <$> ·) hts).symm

/-- The one type that a scan comes to. -/
theorem parseType_eq_run (s : Bytes) : DBus.parseType s = (do
    checkLength s
    match ← run stepSingle start s with
    | [t] => .ok t
    | [] => .error .empty
    | _ => .error .multipleCompleteTypes) :=
  bind_congr fun _ => (bind_assoc ..).symm

/-- Parsed straight into an arena, a signature of one type has the arena of that type, or the same
fault. -/
theorem parseType_eq (s : Bytes) : parseType s = Ty.arena <$> DBus.parseType s := by
  rw [parseType, parseType_eq_run]
  cases hlen : checkLength s with
  | error fault => rfl
  | ok u =>
    simp only [ok_bind]
    match s with
    | [] =>
      simp only [completeType]
      rfl
    | b :: s =>
      have hagrees : AgreesOn [] stepSingle := fun _ _ => rfl
      have htype : Tracks (run stepSingle start (b :: s))
          (fun p => ∃ t, Fits [] t ∧ p.1.2 = t.arena ∧
            run stepSingle start (b :: s) = run stepSingle ⟨[t], .type []⟩ p.1.1)
          (completeType none false {} [] (b :: s)) :=
        tracksType hagrees (b :: s) [] none {} [] (by simp) counts_nil trivial
      cases hp : completeType none false {} [] (b :: s) with
      | error fault =>
        rw [hp] at htype
        have hfault : run stepSingle start (b :: s) = .error fault := htype
        rw [hfault]
        rfl
      | ok p =>
        rw [hp] at htype
        obtain ⟨⟨rest, ns⟩, hrest⟩ := p
        obtain ⟨t, -, rfl, hrun⟩ := htype
        rw [hrun]
        cases rest <;> rfl

/-- The arenas of a signature are those of its arguments. -/
theorem listOfSignature_eq (s : Bytes) : listOfSignature s =
    List.map (fun a => a.ty.arena) <$> Argument.listOfSignature s := by
  rw [listOfSignature, Argument.listOfSignature, parseTypes_eq]
  cases DBus.parseTypes s with
  | error fault => rfl
  | ok ts =>
    refine congrArg Except.ok ?_
    rw [List.map_map]
    rfl

/-- The arena of a signature of one type is that of the argument. -/
theorem ofSignature_eq (s : Bytes) :
    ofSignature s = (fun a => a.ty.arena) <$> Argument.ofSignature s := by
  rw [ofSignature, Argument.ofSignature, parseType_eq]
  cases DBus.parseType s <;> rfl

/-- The arena of a native type is that of the argument that it makes. -/
theorem ofNative_eq (t : NativeType) :
    ofNative t = (fun a => a.ty.arena) <$> Argument.ofNative t := by
  rw [ofNative, Argument.ofNative]
  cases t.wireSignature with
  | error e => rfl
  | ok s => exact ofSignature_eq s

end Arena

end DBus
