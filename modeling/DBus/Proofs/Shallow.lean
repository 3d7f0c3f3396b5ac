import DBus.Proofs.Delimited
import DBus.Proofs.Depth
import DBus.Proofs.Failures
import DBus.Proofs.Numbering
import DBus.Proofs.Recording
import DBus.Proofs.Skipping

/-!
# Types that nest no deeper than they say

Only a variant can hold more containers than its type tells. The grammar of signatures allows 32
arrays and 32 structs or dict entries inside each other, so that values of a type without a variant
nest 64 containers at most (`Ty.Formed.flat`). That is just as many as a cursor or a writer has
levels and as the default limit allows, so that none of the limits can stop the writing of such a
value, or the reading of one (`Marshaller.nesting_limit`).

What is read is what stands at the cursor, whatever type it is read as. A struct at the cursor may
have more fields than are asked for, and they are skipped where another value follows. So it is the
type at the cursor that may not have a variant (`Marshaller.exists_readValue_depthExceeded`).
-/

namespace DBus

/-! ## Types without variants -/

namespace Ty

mutual

/-- Whether there is a variant in the type. -/
def hasVariant : Ty → Bool
  | basic _ => false
  | array e => e.hasVariant
  | struct ts => hasVariantAny ts
  | dictEntry _ v => v.hasVariant
  | variant => true

/-- Whether there is a variant in any of the types. -/
def hasVariantAny : List Ty → Bool
  | [] => false
  | t :: ts => t.hasVariant || hasVariantAny ts

end

theorem hasVariantAny_eq_false_iff {ts : List Ty} :
    hasVariantAny ts = false ↔ ∀ t ∈ ts, t.hasVariant = false := by
  induction ts with
  | nil => simp [hasVariantAny]
  | cons t ts ih => rw [hasVariantAny, Bool.or_eq_false_iff, ih, List.forall_mem_cons]

/-- There is no variant in the type, and at most `depth` containers are nested in its values. -/
inductive Flat : (depth : Nat) → Ty → Prop
  | basic {d : Nat} (b : BasicCode) : Flat d (.basic b)
  | array {d : Nat} {e : Ty} : Flat d e → Flat (d + 1) (.array e)
  | struct {d : Nat} {ts : List Ty} : (∀ t ∈ ts, Flat d t) → Flat (d + 1) (.struct ts)
  | dictEntry {d : Nat} {v : Ty} (k : BasicCode) : Flat d v → Flat (d + 1) (.dictEntry k v)

/-- The arrays and the structs that may be nested add up. -/
theorem Formed.flat {b : Bool} {m n : Nat} {t : Ty} (h : t.Formed b m n)
    (ht : t.hasVariant = false) : t.Flat (m + n) := by
  induction h with
  | basic c => exact .basic c
  | variant => cases ht
  | @array b m n e _ ih =>
    rw [Nat.add_right_comm]
    exact .array (ih ht)
  | struct _ _ ih => exact .struct fun t hmem => ih t hmem (hasVariantAny_eq_false_iff.mp ht t hmem)
  | dictEntry k _ ih => exact .dictEntry k (ih ht)

/-- A type that a signature may have, and that has no variant, is flat in the deepest nesting there
is. -/
theorem Formed.flat_maxNesting {b : Bool} {t : Ty} (h : t.Formed b maxTypeDepth maxTypeDepth)
    (ht : t.hasVariant = false) : t.Flat maxNesting := h.flat ht

end Ty

/-! ## Failing for other reasons -/

/-- Whether the limit on nesting is what went wrong. -/
def Error.isDepthExceeded : Error → Bool
  | depthExceeded _ => true
  | _ => false

/-- The operation does not fail for nesting too deep. -/
def Shallow {α : Type} (x : Except Error α) : Prop := ∀ n, x ≠ .error (.depthExceeded n)

namespace Shallow

variable {α β : Type} {x : Except Error α} {f : α → Except Error β}

theorem ok (a : α) : Shallow (.ok a) := fun _ h => by cases h

/-- Any other error will do. -/
theorem error {e : Error} (h : e.isDepthExceeded = false) :
    Shallow (.error e : Except Error α) := by
  intro n hn
  cases hn
  cases h

/-- Malformed bytes are another reason. -/
theorem of_malformed (hx : FailsOnly Error.isMalformed x) : Shallow x := by
  intro n hn
  cases hx _ hn

/-- Two steps, the second after any result of the first. -/
theorem bind (hx : Shallow x) (hf : ∀ a, x = .ok a → Shallow (f a)) : Shallow (x >>= f) := by
  cases x with
  | ok a => exact hf a rfl
  | error e =>
    intro n hn
    cases hn
    exact hx n rfl

theorem ite {p : Prop} [Decidable p] {x y : Except Error α} (hx : Shallow x) (hy : Shallow y) :
    Shallow (if p then x else y) := by
  split
  · exact hx
  · exact hy

end Shallow

/-- The operation does not fail for nesting too deep. -/
def Write.Shallow {α : Type} (x : Write α) : Prop :=
  ∀ msg n left, x.run msg ≠ .error (.depthExceeded n) left

namespace Write.Shallow

variable {α β : Type}

theorem pure (a : α) : Shallow (Pure.pure a) := fun _ _ _ h => by cases h

theorem throw {e : Error} (h : e.isDepthExceeded = false) :
    Shallow (MonadExcept.throw e : Write α) := by
  intro msg n left hrun
  cases hrun
  cases h

/-- What always succeeds is shallow. -/
theorem of_run {x : Write α} (h : ∀ msg, ∃ a msg', x.run msg = .ok a msg') : Shallow x := by
  intro msg n left hrun
  obtain ⟨a, msg', ha⟩ := h msg
  cases ha.symm.trans hrun

/-- Two steps of writing, the second after any result of the first. -/
theorem bind {x : Write α} {f : α → Write β} (hx : Shallow x)
    (hf : ∀ msg a mid, x.run msg = .ok a mid → Shallow (f a)) : Shallow (x >>= f) := by
  intro msg n left hrun
  rcases run_bind_eq_error.mp hrun with h | ⟨a, mid, ha, h⟩
  · exact hx msg n left h
  · exact hf msg a mid ha mid n left h

/-- Two steps of writing, where the second is shallow whatever it is done after. -/
theorem after {x : Write α} {f : α → Write β} (hx : Shallow x) (hf : ∀ a, Shallow (f a)) :
    Shallow (x >>= f) := bind hx fun _ a _ _ => hf a

/-- What does not write. -/
theorem lift {x : Except Error α} (hx : DBus.Shallow x) : Shallow (liftM x) := by
  cases x with
  | ok a => exact .pure a
  | error e =>
    intro msg n left hrun
    cases hrun
    exact hx n rfl

end Write.Shallow

/-! ## Writing -/

namespace Writer

open Write

variable {w : Writer} {levels : Nat}

theorem shallow_appendWord (w : Writer) (c : TypeCode) (word : Word) :
    (w.appendWord c word).Shallow := by
  unfold appendWord
  split
  · exact .of_run fun msg => ⟨_, _, run_putWord ..⟩
  · exact .throw rfl

theorem shallow_putLength (w : Writer) (c : TextCode) (s : String) :
    (w.putLength c s).Shallow := by
  unfold putLength
  cases c with
  | signature =>
    dsimp only
    split
    · exact .of_run fun msg => ⟨_, _, run_emit _⟩
    · exact .throw rfl
  | string | objectPath =>
    exact .after (.of_run fun msg => ⟨_, _, run_align 4⟩) fun _ =>
      .of_run fun msg => ⟨_, _, run_emit _⟩

/-- Appending a text may fail, but not for the depth. -/
theorem shallow_appendText (w : Writer) (c : TypeCode) (s : String) :
    (w.appendText c s).Shallow := by
  unfold appendText
  split
  · unfold putText
    split
    · exact .throw rfl
    · exact .after (w.shallow_putLength _ s) fun _ => .after (.of_run fun msg => ⟨_, _, run_emit _⟩)
        fun _ => .of_run fun msg => ⟨_, _, run_record _⟩
  · split <;> exact .throw rfl

/-- Closing may fail for the length, but not for the depth. -/
theorem shallow_close (w : Writer) : w.close.Shallow := by
  cases hw : w.array with
  | none =>
    unfold close
    rw [hw]
    exact .pure ()
  | some frame =>
    intro msg n left hrun
    rw [run_close_array hw] at hrun
    split at hrun <;> cases hrun

end Writer

namespace Marshaller

open Write

section

variable {m : Marshaller} (hm : m.policy = .standard)

include hm

/-- The standard policy fails for nothing here. -/
theorem shallow_entry (c : TypeCode) : DBus.Shallow (m.policy.entry c) := by
  rw [hm]
  exact .ok _

/-- Unboxing fails for kinds, not for depths. -/
theorem shallow_unbox (t : Ty) (v : Value) : DBus.Shallow (m.unbox t v) := by
  rw [unbox, BoxingPolicy.unboxer]
  split
  · exact .error rfl
  · refine .bind (.bind (shallow_entry hm t.code) fun e _ => ?_) fun u _ => ?_
    · split
      · exact .ok _
      · exact .error rfl
    · split
      · exact .ok _
      · exact .error rfl

/-- Basic values are written without room. -/
theorem shallow_writeWithin_basic (levels room : Nat) (b : BasicCode) (v : Value) (w : Writer) :
    (m.writeWithin levels room (.basic b) v w).Shallow := by
  rw [writeWithin_basic (entry_standard hm _)]
  refine .after (.lift (shallow_unbox hm _ v)) fun u => ?_
  cases u with
  | word word => exact w.shallow_appendWord _ word
  | str s => exact w.shallow_appendText _ s

omit hm in
/-- Items are shallow if each of them is. -/
theorem shallow_forM {write : Value → Write Unit} (h : ∀ v, (write v).Shallow)
    (vs : List Value) : (vs.forM write).Shallow := by
  induction vs with
  | nil => exact .pure _
  | cons v vs ih => exact .after (h v) fun _ => ih

omit hm in
/-- Fields are shallow if each of them is. -/
theorem shallow_writeFields {write : Ty → Value → Write Unit} :
    ∀ {ts : List Ty} {vs : List Value}, (∀ t ∈ ts, ∀ v, (write t v).Shallow) →
      (writeFields write ts vs).Shallow
  | [], _, _ => .pure _
  | _ :: _, [], _ => .pure _
  | _ :: _, v :: _, h => by
    rw [List.forall_mem_cons] at h
    exact .after (h.1 v) fun _ => shallow_writeFields h.2

omit hm in
/-- Going into a container does not fail for nesting too deep, where there are room and a level
for it. -/
theorem shallow_container {opening : Write Writer} {levels : Nat}
    (hopen : ∀ msg, ∃ items mid, opening.run msg = .ok items mid ∧ items.levels = levels)
    {fill : (room : Nat) → Writer → Write Unit} {room : Nat}
    (hfill : ∀ items, items.levels = levels → (fill room items).Shallow) :
    Write.Shallow (do
      let room ← liftM (m.deeper (room + 1))
      let items ← opening
      fill room items
      items.close) := by
  have hopened : Write.Shallow (do
      let items ← opening
      fill room items
      items.close) := by
    refine .bind (.of_run fun msg => ?_) fun msg items mid hrun => ?_
    · obtain ⟨items, mid, hrun, -⟩ := hopen msg
      exact ⟨items, mid, hrun⟩
    · obtain ⟨_, _, hrun', hlevels⟩ := hopen msg
      cases hrun'.symm.trans hrun
      exact .after (hfill items hlevels) fun _ => items.shallow_close
  exact hopened

/-- Where there are levels and room for as many containers as a type without variants nests, no
value fails to be written as it for want of them. -/
theorem shallow_writeWithin {d : Nat} {t : Ty} (ht : t.Flat d) {levels room : Nat}
    (hd : d ≤ min room levels) (v : Value) {w : Writer} (hw : w.levels = levels) :
    (m.writeWithin levels room t v w).Shallow := by
  induction ht generalizing levels room v w with
  | basic b => exact shallow_writeWithin_basic hm levels room b v w
  | @array d e _ ih =>
    obtain ⟨room, n, rfl, rfl, hle⟩ := exists_succ_of_le_min hd
    cases v with
    | array vs =>
      rw [writeWithin, writeBy_array hm]
      exact shallow_container
        (fun msg => ⟨_, _, Writer.openArray_eq_ok_iff.mpr ⟨n, hw, rfl, rfl⟩, rfl⟩)
        fun items hitems => shallow_forM (fun v => ih hle v hitems) vs
    | _ =>
      rw [writeWithin, writeBy_of_code_ne hm]
      · exact .throw rfl
      all_goals simp [Value.code, Ty.code]
  | @struct d ts _ ih =>
    obtain ⟨room, n, rfl, rfl, hle⟩ := exists_succ_of_le_min hd
    cases v with
    | struct vs =>
      rw [writeWithin]
      by_cases hlen : ts.length = vs.length
      · rw [writeBy_struct hm _ _ _ hlen]
        exact shallow_container
          (fun msg => ⟨_, _, Writer.openStruct_eq_ok_iff.mpr ⟨n, hw, rfl, rfl⟩, rfl⟩)
          fun items hitems => shallow_writeFields fun t ht v => ih t ht hle v hitems
      · rw [writeBy_struct_of_ne hm _ _ _ hlen]
        exact .throw rfl
    | _ =>
      rw [writeWithin, writeBy_of_code_ne hm]
      · exact .throw rfl
      all_goals simp [Value.code, Ty.code]
  | @dictEntry d u k _ ih =>
    obtain ⟨room, n, rfl, rfl, hle⟩ := exists_succ_of_le_min hd
    cases v with
    | dictEntry key value =>
      rw [writeWithin, writeBy_dictEntry hm]
      exact shallow_container
        (fun msg => ⟨_, _, Writer.openDictEntry_eq_ok_iff.mpr ⟨n, hw, rfl, rfl⟩, rfl⟩)
        fun items hitems => .after (shallow_writeWithin_basic hm n room k key items) fun _ =>
          ih hle value hitems
    | _ =>
      rw [writeWithin, writeBy_of_code_ne hm]
      · exact .throw rfl
      all_goals simp [Value.code, Ty.code]

end

end Marshaller

/-! ## Cursors -/

namespace Reader

variable {r s : Reader} {t u : Ty} {ts us : List Ty} {d levels : Nat}

/-- A level is left to enter a container. -/
theorem shallow_nested (hr : r.levels = levels + 1) (pos stop : Nat) (signature : Bytes)
    (repeats : Bool) : Shallow (r.nested pos stop signature repeats) := by
  rw [nested, hr]
  exact .ok _

/-- Entering may fail, but not for the depth if a level is left. -/
theorem shallow_enter (hr : r.levels = levels + 1) : Shallow r.enter := by
  refine .bind (.of_malformed r.failsOnly_require) fun c _ => ?_
  split
  · refine .bind (.of_malformed (r.failsOnly_number _ _)) fun length _ =>
      .ite (.bind (.error rfl) fun _ h => by cases h) ?_
    exact .bind (.of_malformed (failsOnly_typeEnd _ _)) fun _ _ =>
      .bind (.of_malformed (r.failsOnly_slice _ _).discard) fun _ _ => shallow_nested hr _ _ _ _
  iterate 2
    refine .bind (.of_malformed (failsOnly_typeEnd _ _)) fun _ _ =>
      .ite (.bind (.error rfl) fun _ h => by cases h) ?_
    exact shallow_nested hr _ _ _ _
  · exact .bind (.of_malformed (r.failsOnly_number _ _)) fun length _ =>
      .bind (.of_malformed (r.failsOnly_nulTerminated _ _)) fun signature _ =>
        .bind (.of_malformed (failsOnly_variantType signature).discard) fun _ _ =>
          shallow_nested hr _ _ _ _
  · exact .error rfl

/-! ## Moving on -/

/-- The values of a cursor are skipped if those of their types are. -/
theorem shallow_lastEnd {endOf : Reader → Except Error Nat}
    (hend : ∀ {s : Reader} {t : Ty} {ts : List Ty}, s.levels = levels → s.StandsAt t ts →
      t.Flat d → Shallow (endOf s)) {n : Nat} (hl : r.levels = levels) (hr : r.Follows ts)
    (hts : ∀ t ∈ ts, t.Flat d) : Shallow (lastEnd endOf n r) := by
  induction n generalizing r ts with
  | zero => exact .ok _
  | succ n ih =>
    unfold lastEnd
    split
    · exact .ok _
    · next c hc =>
      cases ts with
      | nil =>
        rw [hr.current_nil] at hc
        cases hc
      | cons t ts =>
        rw [List.forall_mem_cons] at hts
        refine .bind (hend hl hr.standsAt hts.1) fun p _ => ?_
        rw [hr.standsAt.moveTo_goTo, ok_bind, (hr.goTo p).rewind_eq, ok_bind]
        exact ih (r := r.goTo t p) hl (hr.goTo p) hts.2

/-- Moving past a basic value enters nothing. -/
theorem shallow_endBy_basic {endOf : Reader → Except Error Nat} {b : BasicCode}
    (hr : r.StandsAt (.basic b) ts) : Shallow (endBy endOf r) := by
  rw [endBy, hr.require_eq, ok_bind]
  cases b with
  | fixed c => exact .bind (.of_malformed (r.failsOnly_slice _ _).discard) fun _ _ => .ok _
  | text c =>
    exact .bind (.of_malformed (r.failsOnly_textExtent c)) fun _ _ =>
      .bind (.of_malformed (r.failsOnly_slice _ _).discard) fun _ _ => .ok _

/-- A value of a type without variants is skipped where there are levels for it. -/
theorem shallow_endWithin (hu : u.Flat d) (hd : d ≤ levels) (hl : r.levels = levels)
    (hr : r.StandsAt u ts) : Shallow (endWithin levels r) := by
  induction levels generalizing r u ts d with
  | zero =>
    obtain rfl := Nat.le_zero.mp hd
    cases hu with
    | basic b => exact shallow_endBy_basic hr
  | succ levels ih =>
    have henter := shallow_enter hl
    rw [endWithin]
    cases hu with
    | basic b => exact shallow_endBy_basic hr
    | array _ =>
      -- an array is skipped by its length, whatever is in it
      rw [endBy, hr.require_eq, ok_bind]
      exact .bind henter fun _ _ => .ok _
    | struct hts =>
      rw [endBy, hr.require_eq, ok_bind]
      refine .bind henter fun fields hfields => ?_
      obtain ⟨n, hn, -, rfl⟩ := (enter_struct_eq_ok_iff hr).mp hfields
      obtain rfl := Nat.succ.inj (hl.symm.trans hn)
      exact shallow_lastEnd (fun hl hr hu => ih hu (Nat.le_of_succ_le_succ hd) hl hr) rfl
        ⟨rfl, rfl⟩ hts
    | dictEntry k hv =>
      rw [endBy, hr.require_eq, ok_bind]
      refine .bind henter fun entry hentry => ?_
      obtain ⟨n, hn, -, rfl⟩ := (enter_dictEntry_eq_ok_iff hr).mp hentry
      obtain rfl := Nat.succ.inj (hl.symm.trans hn)
      exact shallow_lastEnd (fun hl hr hu => ih hu (Nat.le_of_succ_le_succ hd) hl hr) rfl
        ⟨rfl, rfl⟩ (List.forall_mem_cons.mpr ⟨.basic k, List.forall_mem_singleton.mpr hv⟩)

/-- What stands at the cursor, if anything does, is of a type without variants. -/
def AtFlat (r : Reader) (d : Nat) : Prop :=
  ∀ c, r.require = .ok c → ∃ u ts, r.StandsAt u ts ∧ u.Flat d

/-- A cursor before flat types is at one of them or at the end. -/
theorem Follows.atFlat (hr : r.Follows ts) (hts : ∀ t ∈ ts, t.Flat d) : r.AtFlat d := by
  intro c hc
  cases ts with
  | nil =>
    rw [require, hr.current_nil] at hc
    cases hc
  | cons t ts => exact ⟨t, ts, hr.standsAt, hts t List.mem_cons_self⟩

/-- A cursor over flat items is at one of them or at the end. -/
theorem Repeats.atFlat (hr : r.Repeats t) (ht : t.Flat d) : r.AtFlat d := by
  intro c hc
  refine ⟨t, [], hr.standsAt (Nat.lt_of_not_le fun hle => ?_), ht⟩
  rw [require, hr.current_end hle] at hc
  cases hc

/-- Moving past a flat type needs no more levels than it is deep. -/
theorem shallow_advance (hr : r.AtFlat d) (hd : d ≤ r.levels) : Shallow r.advance := by
  have hend : Shallow r.valueEnd := by
    cases hc : r.require with
    | ok c =>
      obtain ⟨u, ts, hst, hu⟩ := hr c hc
      exact shallow_endWithin hu hd rfl hst
    | error e =>
      obtain ⟨endOf, hendOf⟩ := exists_endBy r.levels
      have hrequire := r.failsOnly_require
      rw [hc] at hrequire
      rw [valueEnd, hendOf, endBy, hc]
      exact .bind (.of_malformed hrequire) fun c h => by cases h
  exact .bind hend fun p _ => .bind (.of_malformed (r.failsOnly_moveTo p)) fun s _ =>
    .of_malformed s.failsOnly_rewind

end Reader

/-! ## Reading -/

namespace Marshaller

section

variable {d levels : Nat} {t : Ty} {ts us : List Ty} {r : Reader}

/-- Reading flat items needs no more levels than they are deep. -/
theorem shallow_readItems {read : Reader → Except Error Value}
    (hread : ∀ s : Reader, s.levels = levels → s.AtFlat d → Shallow (read s)) (ht : t.Flat d)
    (hd : d ≤ levels) {n : Nat} (hl : r.levels = levels) (hr : r.Repeats t) :
    Shallow (readItems read n r) := by
  induction n generalizing r with
  | zero => exact .ok _
  | succ n ih =>
    have hat := hr.atFlat ht
    rw [readItems]
    split
    · exact .ok _
    · refine .bind (hread r hl hat) fun v _ => .bind (Reader.shallow_advance hat (hl ▸ hd))
        fun s hs => .bind ?_ fun vs _ => .ok _
      exact ih ((Reader.levels_of_advance hs).trans hl) (hr.advance hs)

/-- Reading fields needs no more levels than the types at the cursor are deep, whatever types are
asked for. -/
theorem shallow_readFields {read : Ty → Reader → Except Error Value}
    (hread : ∀ (t : Ty) (s : Reader), s.levels = levels → s.AtFlat d → Shallow (read t s))
    (hd : d ≤ levels) (hl : r.levels = levels) (hr : r.Follows us) (hus : ∀ u ∈ us, u.Flat d) :
    Shallow (readFields read ts r) := by
  induction ts generalizing r us with
  | nil => exact .ok _
  | cons t ts ih =>
    have hat := hr.atFlat hus
    refine .bind (hread t r hl hat) fun v _ => .bind (Reader.shallow_advance hat (hl ▸ hd))
      fun s hs => .bind ?_ fun vs _ => .ok _
    obtain ⟨u, us, rfl, -, hs'⟩ := hr.advance hs
    exact ih ((Reader.levels_of_advance hs).trans hl) hs' (List.forall_mem_cons.mp hus).2

end

variable {m : Marshaller} (hm : m.policy = .standard)

include hm

/-- One level of reading goes wrong for other reasons only, if the level below does. -/
theorem shallow_readBy {inner : (room : Nat) → Ty → Reader → Except Error Value} {levels : Nat}
    (hinner : ∀ {n}, levels = n + 1 → ∀ (d room : Nat) (t : Ty) (r : Reader), r.levels = n →
      r.AtFlat d → d ≤ min room n → Shallow (inner room t r))
    {d room : Nat} (t : Ty) {r : Reader} (hl : r.levels = levels) (hat : r.AtFlat d)
    (hd : d ≤ min room levels) : Shallow (m.readBy inner room t r) := by
  simp only [readBy, discard_entry hm, ok_bind]
  refine .bind (.of_malformed (failsOnly_expectCode t.code r)) fun _ hcode => ?_
  -- the type that is read and the one at the cursor need only be of one kind
  have hrequire := expectCode_eq_ok_iff.mp hcode
  obtain ⟨u, ts, hst, hu⟩ := hat _ hrequire
  have hcode : u.code = t.code := Except.ok.inj (hst.require_eq.symm.trans hrequire)
  cases t with
  | basic b =>
    cases b with
    | fixed c => exact .bind (.of_malformed r.failsOnly_word) fun _ _ => .ok _
    | text c =>
      exact .bind (.of_malformed r.failsOnly_text) fun s _ =>
        .bind (.of_malformed (c.failsOnly_check s)) fun _ _ => .ok _
  | array e =>
    cases hu with
    | @array d e' he =>
      obtain ⟨room, n, rfl, rfl, hle⟩ := exists_succ_of_le_min hd
      simp only [deeper, ok_bind]
      refine .bind (Reader.shallow_enter hl) fun items hitems => .bind ?_ fun _ _ => .ok _
      obtain ⟨_, k, hk, -, -, -, rfl⟩ := (Reader.enter_array_eq_ok_iff hst).mp hitems
      obtain rfl := Nat.succ.inj (hl.symm.trans hk)
      exact shallow_readItems (fun s hs hat => hinner rfl d room e s hs hat hle) he
        (Nat.le_trans hle (Nat.min_le_right _ _)) rfl ⟨rfl, rfl, rfl⟩
    | _ => cases hcode
  | struct ts =>
    cases hu with
    | @struct d us hus =>
      obtain ⟨room, n, rfl, rfl, hle⟩ := exists_succ_of_le_min hd
      simp only [deeper, ok_bind]
      refine .bind (Reader.shallow_enter hl) fun fields hfields => .bind ?_ fun _ _ => .ok _
      obtain ⟨k, hk, -, rfl⟩ := (Reader.enter_struct_eq_ok_iff hst).mp hfields
      obtain rfl := Nat.succ.inj (hl.symm.trans hk)
      exact shallow_readFields (fun t s hs hat => hinner rfl d room t s hs hat hle)
        (Nat.le_trans hle (Nat.min_le_right _ _)) rfl ⟨rfl, rfl⟩ hus
    | _ => cases hcode
  | dictEntry k v =>
    cases hu with
    | @dictEntry d v' l hv =>
      obtain ⟨room, n, rfl, rfl, hle⟩ := exists_succ_of_le_min hd
      simp only [deeper, ok_bind]
      refine .bind (Reader.shallow_enter hl) fun entry hentry => ?_
      obtain ⟨p, hp, -, hentry⟩ := (Reader.enter_dictEntry_eq_ok_iff hst).mp hentry
      have hlevels : entry.levels = n := by
        rw [hentry]
        exact Nat.succ.inj (hp.symm.trans hl)
      have hfollows : entry.Follows [.basic l, v'] := by
        rw [hentry]
        exact ⟨rfl, rfl⟩
      have hv' : ∀ u ∈ [v'], u.Flat d := List.forall_mem_singleton.mpr hv
      have hkey := hfollows.atFlat (List.forall_mem_cons.mpr ⟨.basic l, hv'⟩)
      have hn : d ≤ entry.levels := hlevels ▸ Nat.le_trans hle (Nat.min_le_right _ _)
      refine .bind (hinner rfl d room (.basic k) entry hlevels hkey hle) fun _ _ =>
        .bind (Reader.shallow_advance hkey hn) fun s hs => .bind ?_ fun _ _ => .ok _
      obtain ⟨_, _, ⟨rfl, rfl⟩, -, hvalue⟩ := hfollows.advance hs
      exact hinner rfl d room v s ((Reader.levels_of_advance hs).trans hlevels)
        (hvalue.atFlat hv') hle
    | _ => cases hcode
  | variant => cases hu <;> cases hcode

/-- Where there are levels and room for as many containers as the type at the cursor nests, and no
variant is in it, reading does not fail for want of them. -/
theorem shallow_readWithin {d levels room : Nat} (t : Ty) {r : Reader} (hl : r.levels = levels)
    (hat : r.AtFlat d) (hd : d ≤ min room levels) : Shallow (m.readWithin levels room t r) := by
  induction levels generalizing d room t r with
  | zero => exact shallow_readBy hm (fun h => by cases h) t hl hat hd
  | succ levels ih =>
    refine shallow_readBy hm ?_ t hl hat hd
    rintro n ⟨⟩ d room t r hl hat hd
    exact ih t hl hat hd

end Marshaller

/-! ## Limits -/

namespace Reader.TopLevel

variable {msg : Message} {e : Endian} {r : Reader}

/-- At the top all levels are left. -/
theorem levels_eq (h : r.TopLevel msg e) : r.levels = maxNesting := by
  induction h with
  | start h => exact levels_of_reader h
  | @next r _ ih => rwa [levels_next]

/-- A signature has at most as many arrays and structs in each other as a cursor has levels. -/
theorem atFlat (h : r.TopLevel msg e)
    (hr : ∀ u : Ty, r.currentSignature = .ok u.render → u.hasVariant = false) :
    r.AtFlat maxNesting := by
  intro c hc
  obtain ⟨u, ts, hst, -, hformed⟩ := h.reachable.inPlace.exists_standsAt hc
  exact ⟨u, ts, hst, hformed.flat_maxNesting (hr u hst.currentSignature_eq)⟩

end Reader.TopLevel

namespace Marshaller

/-- The limit on nesting is exact. What is read with one limit through a cursor over the whole body
is read with another one just if no more containers are nested in it than that allows, and else
the limit is the error. What is written with one limit at the top is written as the same bytes
with another one just if no more containers are nested in what is written, with a variant around
each plain value in the place of one, and else the limit is the error. There are never more than
64. Under the default limit no value fails for nesting too deep when it is written as a type
inside an argument that has no variant in it, and no reading fails so where the type at the cursor
has none. -/
theorem nesting_limit {msg : Message} {e : Endian} {r : Reader} (hr : r.TopLevel msg e) (t : Ty)
    (v : Value) (limit : Nat) (order : Endian) (out : Message) :
    ((⟨.standard, limit⟩ : Marshaller).readValue t r = .ok v →
      v.nesting ≤ 64 ∧ ∀ d, (⟨.standard, d⟩ : Marshaller).readValue t r =
        if v.nesting ≤ d then .ok v else .error (.depthExceeded d)) ∧
    (∀ out', ((⟨.standard, limit⟩ : Marshaller).writeValue t v (.top order)).run out = .ok () out' →
      (v.normalise t).nesting ≤ 64 ∧
        ∀ d, ((v.normalise t).nesting ≤ d →
            ((⟨.standard, d⟩ : Marshaller).writeValue t v (.top order)).run out = .ok () out') ∧
          (d < (v.normalise t).nesting → ∃ left,
            ((⟨.standard, d⟩ : Marshaller).writeValue t v (.top order)).run out =
              .error (.depthExceeded d) left)) ∧
    (∀ a : Argument, a.ty.Valid → t ∈ a.ty.nodes.map Node.ty → t.hasVariant = false →
      ∀ d left, (({} : Marshaller).writeValue t v (.top order)).run out ≠
        .error (.depthExceeded d) left) ∧
    ((∀ u : Ty, r.currentSignature = .ok u.render → u.hasVariant = false) →
      ∀ d, ({} : Marshaller).readValue t r ≠ .error (.depthExceeded d)) := by
  refine ⟨fun hv => ⟨?_, fun d => ?_⟩, ?_, ?_, fun hu => ?_⟩
  · have hn := (wellFormed_of_readValue hv).nesting_le
    rw [hr.levels_eq] at hn
    exact Nat.le_trans hn (Nat.min_le_right _ _)
  · have hpolicy : (⟨.standard, d⟩ : Marshaller).policy =
        (⟨.standard, limit⟩ : Marshaller).policy := rfl
    exact readWithin_eq_limited hpolicy hv
  · intro out' h
    have hpolicy : ∀ d, (⟨.standard, d⟩ : Marshaller).policy = .standard := fun _ => rfl
    have hlimited := fun d => limited_writeWithin (hpolicy d) (hpolicy limit) maxNesting d limit t v
      (w := .top order) rfl out () out' h
    exact ⟨(hlimited 0).1, fun d => (hlimited d).2⟩
  · intro a ha ht hvariant d
    obtain ⟨n, hn, rfl⟩ := List.mem_map.mp ht
    have hformed := Ty.forall_mem_nodesFrom
      (P := fun u => u.Formed true maxTypeDepth maxTypeDepth)
      (fun t ht u hu => ht.of_mem_children hu) a.ty (Ty.valid_iff.mp ha).2.element none 0 n hn
    exact shallow_writeWithin (m := {}) rfl (hformed.flat_maxNesting hvariant) (Nat.le_refl _) v
      rfl out d
  · refine shallow_readWithin (m := {}) rfl t rfl (hr.atFlat hu) ?_
    rw [hr.levels_eq]
    exact Nat.le_refl _

/-- An array in an array, and a plain value in the place of a variant. -/
theorem nesting_limit_plain :
    Reader.TopLevel ⟨[4, 0, 0, 0, 0, 0, 0, 0], [97, 97, 121]⟩ .little
        ⟨.little, [4, 0, 0, 0, 0, 0, 0, 0], 0, 8, [97, 97, 121], 0, false, 64⟩ ∧
      (⟨.standard, 2⟩ : Marshaller).readValue (.array (.array (.int .byte)))
          ⟨.little, [4, 0, 0, 0, 0, 0, 0, 0], 0, 8, [97, 97, 121], 0, false, 64⟩ =
        .ok (.array [.array []]) ∧
      (⟨.standard, 1⟩ : Marshaller).readValue (.array (.array (.int .byte)))
          ⟨.little, [4, 0, 0, 0, 0, 0, 0, 0], 0, 8, [97, 97, 121], 0, false, 64⟩ =
        .error (.depthExceeded 1) ∧
      (∀ d, ({} : Marshaller).readValue (.array (.array (.int .byte)))
          ⟨.little, [4, 0, 0, 0, 0, 0, 0, 0], 0, 8, [97, 97, 121], 0, false, 64⟩ ≠
        .error (.depthExceeded d)) ∧
      (∀ d left, (({} : Marshaller).writeValue (.array (.array (.int .byte))) (.array [.array []])
        (.top .little)).run {} ≠ .error (.depthExceeded d) left) ∧
      ((⟨.standard, 1⟩ : Marshaller).writeValue .variant (.scalar (.boolean true))
        (.top .little)).run {} = .ok () ⟨[1, 98, 0, 0, 1, 0, 0, 0], [118]⟩ ∧
      ∃ left, ((⟨.standard, 0⟩ : Marshaller).writeValue .variant (.scalar (.boolean true))
        (.top .little)).run {} = .error (.depthExceeded 0) left := by
  have hr : Reader.TopLevel ⟨[4, 0, 0, 0, 0, 0, 0, 0], [97, 97, 121]⟩ .little
      ⟨.little, [4, 0, 0, 0, 0, 0, 0, 0], 0, 8, [97, 97, 121], 0, false, 64⟩ := .start (by rfl)
  have hv : (⟨.standard, 2⟩ : Marshaller).readValue (.array (.array (.int .byte)))
      ⟨.little, [4, 0, 0, 0, 0, 0, 0, 0], 0, 8, [97, 97, 121], 0, false, 64⟩ =
        .ok (.array [.array []]) := by rfl
  have hout : ((⟨.standard, 1⟩ : Marshaller).writeValue .variant (.scalar (.boolean true))
      (.top .little)).run {} = .ok () ⟨[1, 98, 0, 0, 1, 0, 0, 0], [118]⟩ := by rfl
  have ha : (Ty.array (.array (.int .byte))).Valid := ⟨[97, 97, 121], by rfl⟩
  have hsignature : Reader.currentSignature
      ⟨.little, [4, 0, 0, 0, 0, 0, 0, 0], 0, 8, [97, 97, 121], 0, false, 64⟩ =
        .ok (Ty.array (.array (.int .byte))).render := by rfl
  obtain ⟨hread, -, hwritten, hflat⟩ :=
    nesting_limit hr (.array (.array (.int .byte))) (.array [.array []]) 2 .little {}
  obtain ⟨-, hwrite, -, -⟩ := nesting_limit hr .variant (.scalar (.boolean true)) 1 .little {}
  refine ⟨hr, hv, (hread hv).2 1, hflat fun u hu => ?_,
    hwritten ⟨_, none⟩ ha List.mem_cons_self rfl, hout, ((hwrite _ hout).2 0).2 (by decide)⟩
  rw [hsignature, Except.ok.injEq] at hu
  rw [← Ty.render_inj hu]
  rfl

/-- A struct of a byte is read where the struct has a second field, a variant in 62 others. The
field is skipped, and that goes deeper than there are levels. -/
theorem exists_readValue_depthExceeded :
    ¬∀ (msg : Message) (e : Endian) (r : Reader) (a : Argument) (n : Node) (d : Nat),
      r.TopLevel msg e → a.ty.Valid → n ∈ a.ty.nodes → n.ty.hasVariant = false →
        ({} : Marshaller).readValue n.ty r ≠ .error (.depthExceeded d) := by
  intro h
  have hr : Reader.TopLevel
      ⟨0 :: ((List.replicate 62 [1, 118, 0]).flatten ++ [1, 121, 0, 0]), [40, 40, 121, 118, 41, 41]⟩
      .little
      ⟨.little, 0 :: ((List.replicate 62 [1, 118, 0]).flatten ++ [1, 121, 0, 0]), 0, 191,
        [40, 40, 121, 118, 41, 41], 0, false, 64⟩ := .start (by rfl)
  have hdeep : (match ({} : Marshaller).readValue (.struct [.struct [.int .byte]])
      ⟨.little, 0 :: ((List.replicate 62 [1, 118, 0]).flatten ++ [1, 121, 0, 0]), 0, 191,
        [40, 40, 121, 118, 41, 41], 0, false, 64⟩ with
      | .error (.depthExceeded _) => true
      | _ => false) = true := by decide +kernel
  have ha : (Ty.struct [.struct [.int .byte]]).Valid := ⟨[40, 40, 121, 41, 41], by rfl⟩
  have hnode : (⟨.struct [.struct [.int .byte]], none, [1]⟩ : Node) ∈
      (Ty.struct [.struct [.int .byte]]).nodes := by decide
  split at hdeep
  · next d hd => exact h _ _ _ ⟨_, none⟩ _ d hr ha hnode rfl hd
  · cases hdeep

end Marshaller

end DBus
