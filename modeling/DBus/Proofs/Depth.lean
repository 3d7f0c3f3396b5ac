import DBus.Proofs.Soundness
import DBus.Proofs.Writing

/-!
# The limit on nesting

The limit of a marshaller decides whether a value is read or written and nothing else about it.
Where one limit has let a value through, another one does so too if no more containers are nested
in the value than it allows, with the same result, and else it is what stops the operation
(`Marshaller.readWithin_eq_limited`, `Marshaller.limited_writeWithin`).

Two runs of the same operation are compared, of which the first is known to succeed. They take the
same way up to where the second one runs out of room, and it is the number of containers nested in
the value that tells whether it does.
-/

namespace DBus

/-! ## Results with a limit -/

/-- A result with `n` containers nested in it, where the limit has left room for `room`. -/
def limited {α : Type} (limit room n : Nat) (a : α) : Except Error α :=
  if n ≤ room then .ok a else .error (.depthExceeded limit)

section

variable {α β : Type} {limit room n k : Nat} {a : α} {b : β}

/-- What nests nothing is let through. -/
theorem limited_zero : limited limit room 0 a = .ok a := if_pos (Nat.zero_le room)

/-- What goes on with the result needs the room for both. -/
theorem limited_bind {f : α → Except Error β} (h : f a = limited limit room k b) :
    (limited limit room n a >>= f) = limited limit room (max n k) b := by
  unfold limited at *
  by_cases hn : n ≤ room
  · rw [if_pos hn, ok_bind, h]
    simp only [Nat.max_le, hn, true_and]
  · rw [if_neg hn, if_neg fun hle => hn (Nat.max_le.mp hle).1]
    rfl

/-- Something is made of what is let through. -/
theorem limited_map (f : α → β) :
    (limited limit room n a >>= fun a => pure (f a)) = limited limit room n (f a) := by
  have hpure : (pure (f a) : Except Error β) = limited limit room 0 (f a) := limited_zero.symm
  rw [limited_bind (f := fun a => pure (f a)) hpure, Nat.max_zero]

/-- Going into a container takes room for one more. -/
theorem Marshaller.deeper_bind_limited {m : Marshaller} {f : Nat → Except Error β}
    (h : ∀ room, f room = limited m.maxDepth room n b) :
    (m.deeper room >>= f) = limited m.maxDepth room (n + 1) b := by
  unfold limited at *
  cases room with
  | zero =>
    rw [if_neg (Nat.not_succ_le_zero n)]
    rfl
  | succ room =>
    simp only [Nat.succ_le_succ_iff]
    exact h room

end

namespace Marshaller

/-! ## Reading -/

section

variable {limit room : Nat} {r : Reader}

/-- Items are limited by the deepest of them. -/
theorem readItems_eq_limited {read read' : Reader → Except Error Value}
    (h : ∀ r v, read' r = .ok v → read r = limited limit room v.nesting v) {n : Nat}
    {vs : List Value} (hvs : readItems read' n r = .ok vs) :
    readItems read n r = limited limit room (Value.nestingAll vs) vs := by
  induction n generalizing r vs with
  | zero =>
    cases hvs
    exact limited_zero.symm
  | succ n ih =>
    rw [readItems] at hvs ⊢
    split at hvs
    · cases hvs
      exact limited_zero.symm
    · simp only [bind_eq_ok, pure_eq_ok] at hvs
      obtain ⟨v, hv, s, hs, ws, hws, rfl⟩ := hvs
      rw [h r v hv, Value.nestingAll]
      refine limited_bind ?_
      rw [hs, ok_bind, ih hws, limited_map]

/-- Fields are limited by the deepest of them. -/
theorem readFields_eq_limited {read read' : Ty → Reader → Except Error Value}
    (h : ∀ t r v, read' t r = .ok v → read t r = limited limit room v.nesting v) {ts : List Ty}
    {vs : List Value} (hvs : readFields read' ts r = .ok vs) :
    readFields read ts r = limited limit room (Value.nestingAll vs) vs := by
  induction ts generalizing r vs with
  | nil =>
    cases hvs
    exact limited_zero.symm
  | cons t ts ih =>
    simp only [readFields, bind_eq_ok, pure_eq_ok] at hvs
    obtain ⟨v, hv, s, hs, ws, hws, rfl⟩ := hvs
    rw [readFields, h t r v hv, Value.nestingAll]
    refine limited_bind ?_
    rw [hs, ok_bind, ih hws, limited_map]

end

variable {m m' : Marshaller} {levels room room' : Nat} {t : Ty} {v : Value}

/-- One level of reading is limited by one more than the level below. -/
theorem readBy_eq_limited (hm : m.policy = m'.policy)
    {inner inner' : (room : Nat) → Ty → Reader → Except Error Value}
    (h : ∀ room room' t r v, inner' room' t r = .ok v →
      inner room t r = limited m.maxDepth room v.nesting v) {r : Reader}
    (hv : m'.readBy inner' room' t r = .ok v) :
    m.readBy inner room t r = limited m.maxDepth room v.nesting v := by
  obtain ⟨hentry, hrequire, hv⟩ := readBy_eq_ok_iff.mp hv
  have hentry : discard (m'.policy.entry t.code) = .ok () := discard_eq_ok.mpr hentry
  have hcode : expectCode t.code r = .ok () := expectCode_eq_ok_iff.mpr hrequire
  simp only [readBy, hm, hentry, ok_bind, hcode]
  cases hv with
  | fixed hw =>
    simp only [hw, ok_bind]
    exact limited_zero.symm
  | text hs hcheck =>
    simp only [hs, ok_bind, hcheck]
    exact limited_zero.symm
  | @array k e _ _ _ hitems hvs =>
    refine deeper_bind_limited fun room => ?_
    rw [hitems, ok_bind, readItems_eq_limited (h room k e) hvs, limited_map]
  | @struct k ts _ _ _ hfields hvs =>
    refine deeper_bind_limited fun room => ?_
    rw [hfields, ok_bind, readFields_eq_limited (h room k) hvs, limited_map]
  | @dictEntry k c u _ entry next key value hentry hkey hnext hvalue =>
    refine deeper_bind_limited fun room => ?_
    rw [hentry, ok_bind, h room k _ entry key hkey]
    refine limited_bind ?_
    rw [hnext, ok_bind, h room k u next value hvalue, limited_map]
  | @variant k u _ contents x hcontents hu hx =>
    refine deeper_bind_limited fun room => ?_
    simp only [hcontents, ok_bind, hu, h room k u contents x hx]
    exact limited_map _

/-- What one limit lets through, another one does as far as the value is nested. -/
theorem readWithin_eq_limited (hm : m.policy = m'.policy) {r : Reader}
    (hv : m'.readWithin levels room' t r = .ok v) :
    m.readWithin levels room t r = limited m.maxDepth room v.nesting v := by
  induction levels generalizing room room' t r v with
  | zero => exact readBy_eq_limited hm (fun _ _ _ _ _ h => by cases h) hv
  | succ levels ih =>
    have hbelow : ∀ room room' t r v, m'.readWithin levels room' t r = .ok v →
        m.readWithin levels room t r = limited m.maxDepth room v.nesting v :=
      fun _ _ _ _ _ h => ih h
    exact readBy_eq_limited hm hbelow hv

end Marshaller

/-! ## Writing -/

/-- A second operation follows a first one that succeeds, where the limit has left room for `room`.
It does the same if that is no less than `n`, and is stopped by the limit if it is. The first
operation has levels for `n`. -/
def Write.Limited {α : Type} (limit room levels n : Nat) (x y : Write α) : Prop :=
  ∀ msg a msg', x.run msg = .ok a msg' → n ≤ levels ∧
    (n ≤ room → y.run msg = .ok a msg') ∧
    (room < n → ∃ left, y.run msg = .error (.depthExceeded limit) left)

namespace Write.Limited

variable {α β : Type} {limit room levels n k : Nat}

/-- What needs no room is the same in any. -/
theorem same (x : Write α) : Limited limit room levels 0 x x :=
  fun _ _ _ h => ⟨Nat.zero_le _, fun _ => h, fun h => absurd h (Nat.not_lt_zero _)⟩

theorem throw (e : Error) (y : Write α) :
    Limited limit room levels n (MonadExcept.throw e) y := by
  intro msg a msg' h
  cases h

theorem throw_bind (e : Error) (f : α → Write β) (y : Write β) :
    Limited limit room levels n (MonadExcept.throw e >>= f) y := by
  intro msg a msg' h
  cases h

/-- Two steps are limited by the deeper of them. -/
theorem bind {x y : Write α} {f g : α → Write β} (hx : Limited limit room levels n x y)
    (hf : ∀ a, Limited limit room levels k (f a) (g a)) :
    Limited limit room levels (max n k) (x >>= f) (y >>= g) := by
  intro msg b msg' h
  obtain ⟨a, mid, ha, hb⟩ := run_bind_eq_ok.mp h
  obtain ⟨hn, hsame, hstop⟩ := hx msg a mid ha
  obtain ⟨hk, hsame', hstop'⟩ := hf a mid b msg' hb
  refine ⟨Nat.max_le.mpr ⟨hn, hk⟩, fun hle => ?_, fun hlt => ?_⟩
  · rw [Nat.max_le] at hle
    exact run_bind_eq_ok.mpr ⟨a, mid, hsame hle.1, hsame' hle.2⟩
  · -- the first part may have room enough, and the second one stop
    by_cases hle : n ≤ room
    · obtain ⟨left, hleft⟩ := hstop' (by omega)
      exact ⟨left, run_bind_eq_error.mpr (.inr ⟨a, mid, hsame hle, hleft⟩)⟩
    · obtain ⟨left, hleft⟩ := hstop (Nat.lt_of_not_le hle)
      exact ⟨left, run_bind_eq_error.mpr (.inl hleft)⟩

/-- Both operations begin with the same result. -/
theorem lift (x : Except Error α) {f g : α → Write β}
    (hf : ∀ a, x = .ok a → Limited limit room levels n (f a) (g a)) :
    Limited limit room levels n (liftM x >>= f) (liftM x >>= g) := by
  cases x with
  | ok a => exact hf a rfl
  | error e => exact throw_bind e f _

/-- A container takes room and a level for one more than what is written inside. -/
theorem container {m m' : Marshaller} {w : Writer} {opening : Write Writer}
    (hopen : ∀ msg items mid, opening.run msg = .ok items mid → w.levels = items.levels + 1)
    {fill fill' : (room : Nat) → Writer → Write Unit}
    (hfill : ∀ room room' items, w.levels = items.levels + 1 →
      Limited m.maxDepth room items.levels n (fill' room' items) (fill room items))
    (room room' : Nat) :
    Limited m.maxDepth room w.levels (n + 1)
      (do
        let room ← liftM (m'.deeper room')
        let items ← opening
        fill' room items
        items.close)
      (do
        let room ← liftM (m.deeper room)
        let items ← opening
        fill room items
        items.close) := by
  intro msg u msg' h
  simp only [run_bind_eq_ok, lift_eq_ok] at h
  obtain ⟨k', _, ⟨-, rfl⟩, items, mid, hopened, _, last, hfilled, hclosed⟩ := h
  have hlevels := hopen msg items mid hopened
  have hinside := fun room => hfill room k' items hlevels mid () last hfilled
  cases room with
  | zero =>
    obtain ⟨hle, -⟩ := hinside 0
    exact ⟨by omega, fun h => absurd h (Nat.not_succ_le_zero n), fun _ => ⟨msg, rfl⟩⟩
  | succ room =>
    have hrun : ∀ f : Nat → Write Unit,
        (liftM (m.deeper (room + 1)) >>= f : Write Unit).run msg = (f room).run msg :=
      fun _ => rfl
    obtain ⟨hle, hsame, hstop⟩ := hinside room
    refine ⟨by omega, fun hle => ?_, fun hlt => ?_⟩
    · rw [hrun]
      exact run_bind_eq_ok.mpr ⟨items, mid, hopened, run_bind_eq_ok.mpr
        ⟨(), last, hsame (Nat.le_of_succ_le_succ hle), hclosed⟩⟩
    · obtain ⟨left, hleft⟩ := hstop (Nat.lt_of_succ_lt_succ hlt)
      refine ⟨left, ?_⟩
      rw [hrun]
      exact run_bind_eq_error.mpr (.inr ⟨items, mid, hopened, run_bind_eq_error.mpr (.inl hleft)⟩)

end Write.Limited

namespace Marshaller

open Write

variable {limit room levels : Nat} {w : Writer}

/-- Items are limited by the deepest of them. -/
theorem limited_forM {write write' : Value → Write Unit} {t : Ty}
    (h : ∀ v, Limited limit room levels (v.normalise t).nesting (write' v) (write v))
    (vs : List Value) :
    Limited limit room levels (Value.nestingAll (Value.normaliseItems vs t)) (vs.forM write')
      (vs.forM write) := by
  induction vs with
  | nil => exact .same _
  | cons v vs ih => exact .bind (h v) fun _ => ih

/-- Fields are limited by the deepest of them. -/
theorem limited_writeFields {write write' : Ty → Value → Write Unit}
    (h : ∀ t v, Limited limit room levels (v.normalise t).nesting (write' t v) (write t v)) :
    ∀ {vs : List Value} {ts : List Ty}, ts.length = vs.length →
      Limited limit room levels (Value.nestingAll (Value.normaliseFields vs ts))
        (writeFields write' ts vs) (writeFields write ts vs)
  | [], [], _ => .same _
  | v :: _, t :: _, hlen => .bind (h t v) fun _ => limited_writeFields h (Nat.succ.inj hlen)

variable {m : Marshaller} (hm : m.policy = .standard)

include hm

/-- A basic value is written with no container nested in it. -/
theorem nesting_normalise_basic {b : BasicCode} {v : Value} {u : Unboxed}
    (h : m.unbox (.basic b) v = .ok u) : (v.normalise (.basic b)).nesting = 0 := by
  cases b with
  | fixed c =>
    obtain ⟨s, t, rfl, ht, -⟩ := (unbox_fixed_eq_ok_iff hm).mp h
    rw [(Value.normalise_fixed_iff.mpr ⟨s, rfl, ht⟩).2]
    rfl
  | text c =>
    obtain ⟨d, s, rfl, hd, -⟩ := (unbox_text_eq_ok_iff hm).mp h
    rw [Value.normalise_text_iff.mpr ⟨d, rfl, hd⟩]
    rfl

variable {m' : Marshaller} (hm' : m'.policy = .standard)

include hm'

theorem unbox_eq (b : BasicCode) (v : Value) : m'.unbox (.basic b) v = m.unbox (.basic b) v := by
  rw [unbox, unbox, hm, hm']

/-- One level of writing is limited by what is nested in the value that is meant, if the level
below is. -/
theorem limited_writeBy {inner inner' : (room : Nat) → Ty → Value → Writer → Write Unit}
    (h : ∀ room room' t v items, w.levels = items.levels + 1 →
      Limited m.maxDepth room items.levels (v.normalise t).nesting (inner' room' t v items)
        (inner room t v items)) (room room' : Nat) (t : Ty) (v : Value) :
    Limited m.maxDepth room w.levels (v.normalise t).nesting (m'.writeBy inner' room' t v w)
      (m.writeBy inner room t v w) := by
  cases t with
  | basic b =>
    rw [writeBy_basic hm', writeBy_basic hm, unbox_eq hm hm']
    refine .lift _ fun u hu => ?_
    rw [nesting_normalise_basic hm hu]
    exact .same _
  | array e =>
    cases v with
    | array vs =>
      rw [writeBy_array hm', writeBy_array hm, Value.normalise_array_iff.mpr ⟨vs, rfl, rfl⟩]
      refine .container (fun msg items mid hitems => ?_) (fun room room' items hitems =>
        limited_forM (fun v => h room room' e v items hitems) vs) room room'
      obtain ⟨levels, hlevels, rfl, -⟩ := Writer.openArray_eq_ok_iff.mp hitems
      exact hlevels
    | _ =>
      rw [writeBy_of_code_ne hm']
      · exact .throw _ _
      all_goals simp [Value.code, Ty.code]
  | struct ts =>
    cases v with
    | struct vs =>
      by_cases hlen : ts.length = vs.length
      · rw [writeBy_struct hm' _ _ _ hlen, writeBy_struct hm _ _ _ hlen,
          Value.normalise_struct_iff.mpr ⟨vs, rfl, rfl⟩]
        refine .container (fun msg items mid hitems => ?_) (fun room room' fields hfields =>
          limited_writeFields (fun t v => h room room' t v fields hfields) hlen) room room'
        obtain ⟨levels, hlevels, rfl, -⟩ := Writer.openStruct_eq_ok_iff.mp hitems
        exact hlevels
      · rw [writeBy_struct_of_ne hm' _ _ _ hlen]
        exact .throw _ _
    | _ =>
      rw [writeBy_of_code_ne hm']
      · exact .throw _ _
      all_goals simp [Value.code, Ty.code]
  | dictEntry k u =>
    cases v with
    | dictEntry key value =>
      rw [writeBy_dictEntry hm', writeBy_dictEntry hm,
        Value.normalise_dictEntry_iff.mpr ⟨key, value, rfl, rfl, rfl⟩]
      refine .container (fun msg items mid hitems => ?_) (fun room room' entry hentry =>
        .bind (h room room' (.basic k) key entry hentry) fun _ =>
          h room room' u value entry hentry) room room'
      obtain ⟨levels, hlevels, rfl, -⟩ := Writer.openDictEntry_eq_ok_iff.mp hitems
      exact hlevels
    | _ =>
      rw [writeBy_of_code_ne hm']
      · exact .throw _ _
      all_goals simp [Value.code, Ty.code]
  | variant =>
    rw [writeBy_variant hm', writeBy_variant hm]
    refine .lift _ fun p hx => ?_
    obtain ⟨a, x⟩ := p
    rw [Value.normalise_variant_iff.mpr ⟨a, x, hx, rfl, rfl⟩]
    refine .container (fun msg items mid hitems => ?_) (fun room room' inside hinside =>
      h room room' a.ty x inside hinside) room room'
    obtain ⟨levels, -, hlevels, rfl, -⟩ := Writer.openVariant_eq_ok_iff.mp hitems
    exact hlevels

/-- What one limit lets through, another one does as far as what is written is nested. -/
theorem limited_writeWithin (levels room room' : Nat) (t : Ty) (v : Value) {w : Writer}
    (hw : w.levels = levels) :
    Limited m.maxDepth room w.levels (v.normalise t).nesting (m'.writeWithin levels room' t v w)
      (m.writeWithin levels room t v w) := by
  induction levels generalizing room room' t v w with
  | zero =>
    refine limited_writeBy hm hm' (fun _ _ _ _ _ h => ?_) room room' t v
    cases hw.symm.trans h
  | succ levels ih =>
    exact limited_writeBy hm hm' (fun room room' t v items h =>
      ih room room' t v (Nat.succ.inj (hw.symm.trans h)).symm) room room' t v

end Marshaller

end DBus
