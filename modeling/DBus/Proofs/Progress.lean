import DBus.Proofs.Failures
import DBus.Proofs.Skipping

/-!
# Progress

No value takes zero bytes. An array and a text have at least their length, a variant has its
signature, and a struct has fields. So every move takes a cursor further into the body
(`Reader.Reachable.lt_of_next`), whatever bytes the body has.

Skipping and reading go only so far by definition. The bounds are not needed : `Reader.Ends` is
skipping a value, and `Reader.ItemLoop` is reading the items of an array, by the recursion and the
loop alone. Both come to an end on every input, and with the same outcome as the functions that
have bounds (`Reader.Reachable.ends_iff`, `Reader.Repeats.exists_itemLoop`,
`Reader.ItemLoop.out_eq`).
-/

namespace DBus

/-- A value of the type is skipped by skipping the values inside of it. An array is skipped by its
length. -/
def TypeCode.isSkippedThrough : TypeCode → Bool
  | .struct | .dictEntry | .variant => true
  | _ => false

namespace Reader

variable {r s : Reader} {t : Ty} {ts : List Ty} {endOf : Reader → Except Error Nat} {p : Nat}

/-! ## Values take bytes -/

/-- Values end behind the place of the cursor. -/
def EndsBehind (endOf : Reader → Except Error Nat) : Prop :=
  ∀ {r : Reader} {t : Ty} {ts : List Ty} {p : Nat}, r.StandsAt t ts → t.Regular →
    endOf r = .ok p → r.pos < p

/-- The first of some values takes bytes, and the others do not go back. -/
theorem lastEnd_behind (hbehind : EndsBehind endOf) (hend : EndsWithin endOf)
    (h : r.Follows (t :: ts)) (ht : t.Regular)
    (hp : lastEnd endOf r.signature.length r = .ok p) : r.pos < p := by
  -- a signature with types in it lets at least one value be taken
  obtain ⟨n, hn⟩ := Nat.exists_eq_add_of_le' (Nat.le_trans (Nat.le_add_left 1 _) h.length_le)
  rw [hn] at hp
  obtain ⟨q, hq, hp⟩ := h.lastEnd_cons_iff.mp hp
  obtain ⟨-, hlen⟩ := hend h.standsAt hq
  obtain ⟨hle, -⟩ := lastEnd_within hend (h.goTo q) hlen hp
  exact Nat.lt_of_lt_of_le (hbehind h.standsAt ht hq) hle

theorem endBy_behind (hbehind : EndsBehind endOf) (hend : EndsWithin endOf) :
    EndsBehind (endBy endOf) := by
  intro r t ts p h ht hp
  cases t with
  | basic b =>
    cases b with
    | fixed c =>
      obtain ⟨rfl, -⟩ := (endBy_fixed_iff h).mp hp
      exact Nat.lt_of_le_of_lt (le_alignUp r.pos c.size) (Nat.lt_add_of_pos_right c.size_pos)
    | text c =>
      obtain ⟨n, -, -, rfl, -⟩ := (endBy_text_iff h).mp hp
      have hstart := lengthWidth_le_textStart r.pos c
      omega
  | array e =>
    obtain ⟨s, hs, rfl⟩ := (endBy_array_iff h).mp hp
    obtain ⟨n, levels, -, -, -, -, rfl⟩ := (enter_array_eq_ok_iff h).mp hs
    have hlength := le_alignUp r.pos 4
    have hstart := le_alignUp (alignUp r.pos 4 + 4) e.code.alignment
    simp only [itemsStart]
    omega
  | struct us =>
    obtain ⟨s, hs, hp⟩ := (endBy_contents_iff h (.inl rfl)).mp hp
    obtain ⟨levels, -, -, rfl⟩ := (enter_struct_eq_ok_iff h).mp hs
    obtain ⟨hne, hus⟩ := ht.fields
    cases us with
    | nil => exact absurd rfl hne
    | cons u us =>
      -- the padding may be empty, and then it is the first field that takes bytes
      have hfirst := lastEnd_behind hbehind hend ⟨rfl, rfl⟩ (hus u (.head us)) hp
      exact Nat.lt_of_le_of_lt (le_alignUp r.pos 8) hfirst
  | dictEntry k e =>
    obtain ⟨s, hs, hp⟩ := (endBy_contents_iff h (.inr (.inl rfl))).mp hp
    obtain ⟨levels, -, -, rfl⟩ := (enter_dictEntry_eq_ok_iff h).mp hs
    have hkey := lastEnd_behind hbehind hend ⟨rfl, rfl⟩ (Ty.regular_basic k) hp
    exact Nat.lt_of_le_of_lt (le_alignUp r.pos 8) hkey
  | variant =>
    obtain ⟨s, hs, hp⟩ := (endBy_contents_iff h (.inr (.inr rfl))).mp hp
    obtain ⟨u, levels, hu, -, -, rfl⟩ := (enter_variant_eq_ok_iff h).mp hs
    have hcontents := lastEnd_behind hbehind hend (follows_contents ..) hu.regular hp
    exact Nat.lt_trans (by dsimp only; omega) hcontents

theorem endWithin_behind (levels : Nat) : EndsBehind (endWithin levels) := by
  induction levels with
  | zero => exact endBy_behind (fun _ _ h => by cases h) fun _ h => by cases h
  | succ levels ih => exact endBy_behind ih (endWithin_within levels)

theorem StandsAt.lt_of_valueEnd (h : r.StandsAt t ts) (ht : t.Regular)
    (hp : r.valueEnd = .ok p) : r.pos < p :=
  endWithin_behind r.levels h ht hp

/-! ## Cursors of a message -/

namespace Reachable

variable {msg : Message} {e : Endian}

theorem lt_of_next (h : r.Reachable msg e) {more : Bool} (hs : r.next = (.ok more, s)) :
    r.pos < s.pos ∧ s.pos ≤ msg.data.length := by
  obtain ⟨done, ts, hplaced, htypes⟩ := h.inPlace.placed
  obtain ⟨t, us, p, rfl, hst, hp, -, rfl⟩ := hplaced.of_next_eq_ok hs
  have ht : t.Regular := ⟨_, _, _, htypes.formed t (by simp)⟩
  rw [← h.data_eq]
  exact ⟨hst.lt_of_valueEnd ht hp, (hst.valueEnd_within hp).2⟩

end Reachable

/-! ## Skipping without a bound -/

mutual

/-- Where the value at the cursor ends, or the error on the way there. The recursion may be as
deep as the bytes have it. -/
inductive Ends : Reader → Except Error Nat → Prop
  | flat {r : Reader} (endOf : Reader → Except Error Nat) :
      (∀ c, r.require = .ok c → c.isSkippedThrough = false) → Ends r (r.endBy endOf)
  | closed {r : Reader} {c : TypeCode} {e : Error} : r.require = .ok c →
      c.isSkippedThrough = true → r.enter = .error e → Ends r (.error e)
  | inside {r s : Reader} {c : TypeCode} {out : Except Error Nat} : r.require = .ok c →
      c.isSkippedThrough = true → r.enter = .ok s → Drains s out → Ends r out

/-- Where the last of the values of the cursor ends, one after the other, or the error on the
way there. -/
inductive Drains : Reader → Except Error Nat → Prop
  | done {r : Reader} : r.current = none → Drains r (.ok r.pos)
  | fails {r : Reader} {c : TypeCode} {e : Error} : r.current = some c → Ends r (.error e) →
      Drains r (.error e)
  | stuck {r : Reader} {c : TypeCode} {p : Nat} {e : Error} : r.current = some c →
      Ends r (.ok p) → r.moveTo p >>= rewind = .error e → Drains r (.error e)
  | moves {r s : Reader} {c : TypeCode} {p : Nat} {out : Except Error Nat} :
      r.current = some c → Ends r (.ok p) → r.moveTo p >>= rewind = .ok s → Drains s out →
      Drains r out

end

/-! ### One outcome -/

/-- Nothing inside of the value is looked at. -/
theorem endBy_of_flat (h : ∀ c, r.require = .ok c → c.isSkippedThrough = false)
    (endOf endOf' : Reader → Except Error Nat) : r.endBy endOf = r.endBy endOf' := by
  unfold endBy
  cases hc : r.require with
  | error e => rfl
  | ok c =>
    have hflat := h c hc
    cases c with
    | basic b => cases b <;> rfl
    | array => rfl
    | struct | dictEntry | variant => cases hflat

mutual

/-- The recursion leaves no choice : a second run follows the first one. -/
theorem Ends.unique {r : Reader} {a b : Except Error Nat} : r.Ends a → r.Ends b → a = b
  | .flat endOf h, hb => by
    cases hb with
    | flat endOf' _ => exact endBy_of_flat h endOf endOf'
    | closed hc hthrough _ | inside hc hthrough _ _ => rw [h _ hc] at hthrough; cases hthrough
  | .closed hc hthrough he, hb => by
    cases hb with
    | flat _ h => rw [h _ hc] at hthrough; cases hthrough
    | closed _ _ he' =>
      rw [he] at he'
      cases he'
      rfl
    | inside _ _ hs _ => rw [he] at hs; cases hs
  | .inside hc hthrough hs hd, hb => by
    cases hb with
    | flat _ h => rw [h _ hc] at hthrough; cases hthrough
    | closed _ _ he => rw [hs] at he; cases he
    | inside _ _ hs' hd' =>
      rw [hs] at hs'
      cases hs'
      exact hd.unique hd'

theorem Drains.unique {r : Reader} {a b : Except Error Nat} : r.Drains a → r.Drains b → a = b
  | .done hc, hb => by
    cases hb with
    | done _ => rfl
    | fails hc' _ | stuck hc' _ _ | moves hc' _ _ _ => rw [hc] at hc'; cases hc'
  | .fails hc he, hb => by
    cases hb with
    | done hc' => rw [hc] at hc'; cases hc'
    | fails _ he' => exact he.unique he'
    | stuck _ hp _ | moves _ hp _ _ => cases he.unique hp
  | .stuck hc hp he, hb => by
    cases hb with
    | done hc' => rw [hc] at hc'; cases hc'
    | fails _ he' => cases hp.unique he'
    | stuck _ hp' he' =>
      cases hp.unique hp'
      rw [he] at he'
      cases he'
      rfl
    | moves _ hp' hs _ =>
      cases hp.unique hp'
      rw [he] at hs
      cases hs
  | .moves hc hp hs hd, hb => by
    cases hb with
    | done hc' => rw [hc] at hc'; cases hc'
    | fails _ he' => cases hp.unique he'
    | stuck _ hp' he =>
      cases hp.unique hp'
      rw [hs] at he
      cases he
    | moves _ hp' hs' hd' =>
      cases hp.unique hp'
      rw [hs] at hs'
      cases hs'
      exact hd.unique hd'

end

/-! ### Some outcome -/

/-- The values of a cursor come to an end if each of them does. -/
theorem Follows.drains {levels : Nat}
    (hends : ∀ {r : Reader} {t : Ty} {ts : List Ty}, r.StandsAt t ts → r.levels = levels →
      r.Ends (endOf r)) {n : Nat} (h : r.Follows ts) (hlevels : r.levels = levels)
    (hn : ts.length ≤ n) : r.Drains (lastEnd endOf n r) := by
  induction ts generalizing r n with
  | nil =>
    rw [h.lastEnd_nil]
    exact .done h.current_nil
  | cons t ts ih =>
    obtain ⟨n, rfl⟩ := Nat.exists_eq_add_of_le' (Nat.le_trans (Nat.le_add_left 1 _) hn)
    have hcurrent := h.standsAt.current_eq
    have hvalue := hends h.standsAt hlevels
    cases hp : endOf r with
    | error e =>
      rw [hp] at hvalue
      simp only [lastEnd, hcurrent, hp]
      exact .fails hcurrent hvalue
    | ok p =>
      rw [hp] at hvalue
      have hmove : r.moveTo p >>= rewind = .ok (r.goTo t p) := by
        rw [h.standsAt.moveTo_goTo, ok_bind, (h.goTo p).rewind_eq]
      have hlast : lastEnd endOf (n + 1) r = lastEnd endOf n (r.goTo t p) := by
        simp only [lastEnd, hcurrent, hp, ok_bind, h.standsAt.moveTo_goTo, (h.goTo p).rewind_eq]
      rw [hlast]
      exact .moves hcurrent hvalue hmove (ih (h.goTo p) hlevels (Nat.le_of_succ_le_succ hn))

/-- A value comes to an end if the values inside of it do. -/
theorem StandsAt.ends_endBy (h : r.StandsAt t ts)
    (hinside : ∀ {s : Reader} {us : List Ty}, r.enter = .ok s → s.Follows us →
      s.Drains (lastEnd endOf s.signature.length s)) : r.Ends (r.endBy endOf) := by
  cases hthrough : t.code.isSkippedThrough with
  | false =>
    refine .flat endOf fun c hc => ?_
    rw [h.require_eq, Except.ok.injEq] at hc
    rwa [← hc]
  | true =>
    have hend : r.endBy endOf = r.enter >>= fun s => lastEnd endOf s.signature.length s := by
      cases t with
      | basic b => cases hthrough
      | array e => cases hthrough
      | struct _ | dictEntry _ _ | variant => simp only [endBy, h.require_eq, Ty.code, ok_bind]
    rw [hend]
    cases hs : r.enter with
    | error e => exact .closed h.require_eq hthrough hs
    | ok s =>
      obtain ⟨us, hus⟩ := h.enter_follows hs fun hcode => by rw [hcode] at hthrough; cases hthrough
      exact .inside h.require_eq hthrough hs (hinside hs hus)

theorem StandsAt.ends {levels : Nat} (h : r.StandsAt t ts) (hlevels : r.levels = levels) :
    r.Ends (endWithin levels r) := by
  induction levels generalizing r t ts with
  | zero =>
    -- without levels nothing is entered, so that the bound is never come to
    refine h.ends_endBy fun hs _ => ?_
    have := levels_of_enter hs
    omega
  | succ levels ih =>
    refine h.ends_endBy fun hs hus => ?_
    have hinner := levels_of_enter hs
    exact hus.drains (fun hst hl => ih hst hl) (by omega) hus.length_le

/-- Skipping a value comes to an end whatever the bytes are, and the bound on levels does not
change the outcome. -/
theorem Reachable.ends_iff {msg : Message} {e : Endian} (h : r.Reachable msg e)
    {out : Except Error Nat} : r.Ends out ↔ r.valueEnd = out := by
  have hends : r.Ends r.valueEnd := by
    cases hc : r.require with
    | error e' =>
      obtain ⟨endOf, hendOf⟩ := exists_endBy r.levels
      rw [valueEnd, hendOf]
      exact .flat endOf fun c hc' => by rw [hc] at hc'; cases hc'
    | ok c =>
      obtain ⟨t, ts, hst, -, -⟩ := h.inPlace.exists_standsAt hc
      exact hst.ends rfl
  constructor
  · exact hends.unique
  · rintro rfl
    exact hends

/-! ## Items without a bound -/

variable {rounds : Nat} {out : Except Error (List Value)}

/-- The loop that reads the items of an array: it goes on as long as there is a current item. The
rounds that it begins are counted. It leaves the cursor at the second place. -/
inductive ItemLoop (read : Reader → Except Error Value) :
    Reader → (rounds : Nat) → Except Error (List Value) → Reader → Prop
  | ended {r : Reader} : r.current = none → ItemLoop read r 0 (.ok []) r
  | unread {r : Reader} {c : TypeCode} {e : Error} : r.current = some c → read r = .error e →
      ItemLoop read r 1 (.error e) r
  | stuck {r s : Reader} {c : TypeCode} {v : Value} {e : Error} : r.current = some c →
      read r = .ok v → r.next = (.error e, s) → ItemLoop read r 1 (.error e) s
  | round {r s s' : Reader} {c : TypeCode} {v : Value} {more : Bool} {rounds : Nat}
      {out : Except Error (List Value)} : r.current = some c → read r = .ok v →
      r.next = (.ok more, s) → ItemLoop read s rounds out s' →
      ItemLoop read r (rounds + 1) (out.map (v :: ·)) s'

/-- One round goes on to a place further in the array. -/
theorem Repeats.of_next_eq_ok (h : r.Repeats t) (ht : t.Regular) {c : TypeCode} {more : Bool}
    (hc : r.current = some c) (hs : r.next = (.ok more, s)) :
    r.advance = .ok s ∧ s.Repeats t ∧ r.pos < s.pos ∧ s.pos ≤ r.stop ∧ s.stop = r.stop := by
  have hst := h.standsAt (h.lt_stop hc)
  obtain ⟨hadvance, -⟩ := next_eq_ok_iff.mp hs
  obtain ⟨p, hp, hle, rfl⟩ := hst.advance_eq_ok_iff.mp hadvance
  exact ⟨hadvance, h.advance hadvance, hst.lt_of_valueEnd ht hp, hle h.repeats, rfl⟩

/-- The loop ends. -/
theorem Repeats.exists_itemLoop (read : Reader → Except Error Value) {n : Nat} (h : r.Repeats t)
    (ht : t.Regular) (hn : r.stop - r.pos ≤ n) :
    ∃ rounds out s, ItemLoop read r rounds out s := by
  induction n generalizing r with
  | zero => exact ⟨0, .ok [], r, .ended (h.current_end (by omega))⟩
  | succ n ih =>
    cases hc : r.current with
    | none => exact ⟨0, .ok [], r, .ended hc⟩
    | some c =>
      cases hv : read r with
      | error e => exact ⟨1, .error e, r, .unread hc hv⟩
      | ok v =>
        rcases hs : r.next with ⟨e | more, s⟩
        · exact ⟨1, .error e, s, .stuck hc hv hs⟩
        · have hmore := h.lt_stop hc
          obtain ⟨-, hrep, hlt, -, hstop⟩ := h.of_next_eq_ok ht hc hs
          obtain ⟨rounds, out, s', hloop⟩ := ih hrep (by omega)
          exact ⟨_, _, s', .round hc hv hs hloop⟩

namespace ItemLoop

variable {read : Reader → Except Error Value} (h : ItemLoop read r rounds out s)
  (hr : r.Repeats t) (ht : t.Regular)

include h hr ht

/-- Each round takes at least a byte. -/
theorem rounds_le : rounds ≤ r.stop - r.pos := by
  induction h with
  | ended _ => exact Nat.zero_le _
  | unread hc _ | stuck hc _ _ =>
    have := hr.lt_stop hc
    omega
  | round hc _ hs _ ih =>
    obtain ⟨-, hrep, hlt, hle, hstop⟩ := hr.of_next_eq_ok ht hc hs
    have := ih hrep
    omega

/-- Without an error, the loop leaves the cursor at the end of the array. -/
theorem pos_eq (hle : r.pos ≤ r.stop) {vs : List Value} (hout : out = .ok vs) :
    s.pos = r.stop := by
  induction h generalizing vs with
  | @ended r hc =>
    refine Nat.le_antisymm hle (Nat.le_of_not_lt fun hlt => ?_)
    rw [(hr.standsAt hlt).current_eq] at hc
    cases hc
  | unread _ _ | stuck _ _ _ => cases hout
  | @round r s s' c v more rounds out hc _ hs _ ih =>
    obtain ⟨-, hrep, -, hle, hstop⟩ := hr.of_next_eq_ok ht hc hs
    cases out with
    | error e => cases hout
    | ok ws => exact (ih hrep (by omega) rfl).trans hstop

/-- The loop reads what is read with a bound on the rounds. -/
theorem out_eq {n : Nat} (hn : r.stop - r.pos ≤ n) : out = Marshaller.readItems read n r := by
  induction h generalizing n with
  | ended hc => cases n <;> simp only [Marshaller.readItems, hc]
  | @unread r c e hc hv =>
    have := hr.lt_stop hc
    obtain ⟨n, rfl⟩ := Nat.exists_eq_add_of_le' (show 1 ≤ n by omega)
    simp only [Marshaller.readItems, hc, hv]
    rfl
  | @stuck r s c v e hc hv hs =>
    have := hr.lt_stop hc
    obtain ⟨n, rfl⟩ := Nat.exists_eq_add_of_le' (show 1 ≤ n by omega)
    simp only [Marshaller.readItems, hc, hv, ok_bind, advance_of_next_eq_error hs]
    rfl
  | @round r s s' c v more rounds out hc hv hs _ ih =>
    have := hr.lt_stop hc
    obtain ⟨n, rfl⟩ := Nat.exists_eq_add_of_le' (show 1 ≤ n by omega)
    obtain ⟨hadvance, hrep, hlt, -, hstop⟩ := hr.of_next_eq_ok ht hc hs
    rw [ih hrep (n := n) (by omega)]
    simp only [Marshaller.readItems, hc, hv, ok_bind, hadvance]
    cases Marshaller.readItems read n s <;> rfl

end ItemLoop

namespace Reachable

variable {msg : Message} {e : Endian}

/-- The cursor over the items of an array has the length of the array from the body. -/
theorem items (h : r.Reachable msg e) (hc : r.require = .ok .array) (hs : r.enter = .ok s) :
    ∃ t n, s.Repeats t ∧ t.Regular ∧ r.number (alignUp r.pos 4) 4 = .ok n ∧
      s.stop = s.pos + n := by
  obtain ⟨t, ts, hst, hcode, hformed⟩ := h.inPlace.exists_standsAt hc
  cases t with
  | array t =>
    obtain ⟨n, levels, -, hn, hhead, -, rfl⟩ := (enter_array_eq_ok_iff hst).mp hs
    rw [arrayHead, List.append_assoc, at_gap_append, at_append] at hhead
    have hnumber := number_eq_ok_iff.mpr ⟨Nat.lt_of_le_of_lt hn (by decide), hhead.1⟩
    exact ⟨t, n, ⟨rfl, rfl, rfl⟩, Ty.Regular.element ⟨_, _, _, hformed⟩, hnumber, rfl⟩
  | _ => cases hcode

/-- Reading makes progress whatever the bytes of the body are. A cursor that moves on gets further,
and stays within the body. Reading the items of an array ends however the single items are read :
after at most as many rounds as the array has bytes, either with an error or at the end of the
array, and with the values that are read with a bound on the rounds. Skipping a value ends as well.
The structs, dict entries and variants on the way may be nested as the bytes have it, and there is
exactly one outcome, which is the one with a bound on the levels. -/
theorem progress (h : r.Reachable msg e) :
    (∀ more s, r.next = (.ok more, s) → r.pos < s.pos ∧ s.pos ≤ msg.data.length) ∧
      (∀ items, r.require = .ok .array → r.enter = .ok items → ∃ n,
        r.number (alignUp r.pos 4) 4 = .ok n ∧ items.stop = items.pos + n ∧ ∀ read,
          (∃ rounds out s, ItemLoop read items rounds out s) ∧
            ∀ rounds out s, ItemLoop read items rounds out s →
              rounds ≤ n ∧ (∀ vs, out = .ok vs → s.pos = items.stop) ∧
                out = Marshaller.readItems read (items.stop - items.pos) items) ∧
      ∀ out, r.Ends out ↔ r.valueEnd = out := by
  refine ⟨fun more s hs => h.lt_of_next hs, fun items hc hs => ?_, fun out => h.ends_iff⟩
  obtain ⟨t, n, hrep, ht, hn, hstop⟩ := h.items hc hs
  refine ⟨n, hn, hstop, fun read => ⟨hrep.exists_itemLoop read ht (Nat.le_refl _),
    fun rounds out s hloop => ⟨?_, fun vs hout => ?_, hloop.out_eq hrep ht (Nat.le_refl _)⟩⟩⟩
  · have hle := hloop.rounds_le hrep ht
    omega
  · exact hloop.pos_eq hrep ht (by omega) hout

/-- An array of two variants, the second with another one in it. -/
theorem progress_variants :
    ∃ r items item, Reachable ⟨[11, 0, 0, 0, 1, 121, 0, 5, 1, 118, 0, 1, 121, 0, 7], [97, 118]⟩
        .little r ∧ r.enter = .ok items ∧ items.next = (.ok true, item) ∧
      (∃ s, r.next = (.ok false, s) ∧ r.pos < s.pos ∧ s.pos ≤ 15) ∧
      (∀ read rounds out s, ItemLoop read items rounds out s → rounds ≤ 11) ∧
      ∀ out, item.Ends out ↔ out = .ok 15 := by
  have hr : Reachable ⟨[11, 0, 0, 0, 1, 121, 0, 5, 1, 118, 0, 1, 121, 0, 7], [97, 118]⟩ .little
      ⟨.little, [11, 0, 0, 0, 1, 121, 0, 5, 1, 118, 0, 1, 121, 0, 7], 0, 15, [97, 118], 0, false,
        64⟩ := .start (by rfl)
  have hitems : Reader.enter ⟨.little, [11, 0, 0, 0, 1, 121, 0, 5, 1, 118, 0, 1, 121, 0, 7], 0, 15,
      [97, 118], 0, false, 64⟩ = .ok ⟨.little, [11, 0, 0, 0, 1, 121, 0, 5, 1, 118, 0, 1, 121, 0, 7],
        4, 15, [118], 0, true, 63⟩ := by rfl
  have hitem : Reader.next ⟨.little, [11, 0, 0, 0, 1, 121, 0, 5, 1, 118, 0, 1, 121, 0, 7], 4, 15,
      [118], 0, true, 63⟩ = (.ok true, ⟨.little, [11, 0, 0, 0, 1, 121, 0, 5, 1, 118, 0, 1, 121,
        0, 7], 8, 15, [118], 0, true, 63⟩) := by rfl
  obtain ⟨hmoves, hloop, -⟩ := progress hr
  obtain ⟨n, hn, -, hloop⟩ := hloop _ (by rfl) hitems
  obtain ⟨-, -, hends⟩ := progress (.next (.enter hr hitems))
  cases hn
  refine ⟨_, _, _, hr, hitems, hitem, ⟨_, by rfl, hmoves false _ (by rfl)⟩,
    fun read rounds out s h => ((hloop read).2 rounds out s h).1, fun out => ?_⟩
  rw [hitem] at hends
  exact (hends out).trans eq_comm

end Reachable

end Reader

end DBus
