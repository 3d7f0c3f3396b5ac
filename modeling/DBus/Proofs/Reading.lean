import DBus.Proofs.Traversal

/-!
# What is read

Reading a value through a cursor that stands at its type finds what is laid out there, and only
that (`Marshaller.readValue_eq_ok_iff`). The value may nest as many containers as the marshaller
has room for and the cursor has levels, whichever is less.

The relation between a reading operation and the layout is `Reads`. The loops over items and
fields keep it (`readItems_eq_ok_iff`, `readFields_eq_ok_iff`), and one level of reading has it if
the level below has it (`reads_readBy`).
-/

namespace DBus

namespace Marshaller

variable {r : Reader}

/-- An operation reads the values of a type that are laid out where cursors of some level stand,
with at most `d` containers nested in them. -/
def Reads (read : Reader → Except Error Value) (t : Ty) (d levels : Nat) : Prop :=
  ∀ (r : Reader) (ts : List Ty) (v : Value), r.levels = levels → r.StandsAt t ts →
    (read r = .ok v ↔ ∃ cs, LaidOut r.endian d t v r.pos cs ∧ At r.data r.pos cs)

/-! ## Loops -/

/-- Fields are read if they are laid out at the cursor, one behind the other. -/
theorem readFields_eq_ok_iff {read : Ty → Reader → Except Error Value} {d levels : Nat}
    (hd : d ≤ levels) {ts : List Ty} (hread : ∀ t ∈ ts, Reads (read t) t d levels)
    {vs : List Value} (hl : r.levels = levels) (hr : r.Follows ts) (hpos : r.pos ≤ r.data.length) :
    readFields read ts r = .ok vs ↔
      ∃ cs, LaidOutAll r.endian d ts vs r.pos cs ∧ At r.data r.pos cs := by
  induction ts generalizing r vs with
  | nil =>
    rw [readFields, Except.ok.injEq]
    constructor
    · rintro rfl
      exact ⟨[], .nil, at_nil.mpr hpos⟩
    · rintro ⟨_, ⟨⟩, _⟩
      rfl
  | cons t ts ih =>
    have ht := fun v => hread t (by simp) r ts v hl hr.standsAt
    have hts := fun n ws =>
      @ih (r.past t n) (fun u hu => hread u (by simp [hu])) ws hl (hr.past n)
    simp only [readFields, bind_eq_ok, pure_eq_ok, ht]
    constructor
    · rintro ⟨v, ⟨c, hc, hat⟩, s, hs, ws, hws, rfl⟩
      rw [Reader.advance_eq (hl ▸ hd) hc hat hr, Except.ok.injEq] at hs
      subst hs
      obtain ⟨cs, hcs, hrest⟩ := (hts _ _ hat.1).mp hws
      exact ⟨c ++ cs, .cons hc hcs, at_append.mpr ⟨hat, hrest⟩⟩
    · rintro ⟨_, h, hat⟩
      cases h with
      | @cons _ _ _ _ v vs c cs hc hcs =>
        obtain ⟨hat, hrest⟩ := at_append.mp hat
        exact ⟨v, ⟨c, hc, hat⟩, _, Reader.advance_eq (hl ▸ hd) hc hat hr, vs,
          (hts _ _ hat.1).mpr ⟨cs, hcs, hrest⟩, rfl⟩

/-- A key and its value are read as two fields. -/
theorem read_pair_iff {read : Ty → Reader → Except Error Value} {d levels : Nat}
    (hd : d ≤ levels) {t u : Ty} (ht : Reads (read t) t d levels) (hu : Reads (read u) u d levels)
    {key value : Value} (hl : r.levels = levels) (hr : r.Follows [t, u]) :
    (read t r = .ok key ∧ ∃ s, r.advance = .ok s ∧ read u s = .ok value) ↔
      ∃ cs, LaidOutAll r.endian d [t, u] [key, value] r.pos cs ∧ At r.data r.pos cs := by
  have hvalue := fun n => hu (r.past t n) [] value hl (hr.past n).standsAt
  rw [ht r [u] key hl hr.standsAt]
  constructor
  · rintro ⟨⟨c, hc, hat⟩, s, hs, h⟩
    rw [Reader.advance_eq (hl ▸ hd) hc hat hr, Except.ok.injEq] at hs
    subst hs
    obtain ⟨c', hc', hat'⟩ := (hvalue _).mp h
    refine ⟨c ++ (c' ++ []), .cons hc (.cons hc' .nil), at_append.mpr ⟨hat, ?_⟩⟩
    rwa [List.append_nil]
  · rintro ⟨cs, h, hat⟩
    obtain ⟨c, ds, hc, hds, rfl⟩ := laidOutAll_cons.mp h
    obtain ⟨c', ds, hc', -, rfl⟩ := laidOutAll_cons.mp hds
    obtain ⟨hat, hrest⟩ := at_append.mp hat
    exact ⟨⟨c, hc, hat⟩, _, Reader.advance_eq (hl ▸ hd) hc hat hr,
      (hvalue _).mpr ⟨c', hc', (at_append.mp hrest).1⟩⟩

/-- At the end of an array there are no more items. -/
theorem readItems_end_iff {read : Reader → Except Error Value} {t : Ty} {d n : Nat}
    (ht : t.Regular) {vs : List Value} (hr : r.Repeats t) (hend : r.pos = r.stop)
    (hstop : r.stop ≤ r.data.length) :
    readItems read n r = .ok vs ↔
      ∃ cs, LaidOutAll r.endian d (List.replicate vs.length t) vs r.pos cs ∧
        At r.data r.pos cs ∧ r.pos + cs.length = r.stop := by
  have hnil : readItems read n r = .ok [] := by
    cases n with
    | zero => rfl
    | succ n => rw [readItems, hr.current_end (Nat.le_of_eq hend.symm)]
  rw [hnil, Except.ok.injEq]
  constructor
  · rintro rfl
    exact ⟨[], .nil, at_nil.mpr (by omega), hend⟩
  · rintro ⟨cs, h, -, hlen⟩
    cases vs with
    | nil => rfl
    | cons v vs =>
      obtain ⟨c, ds, hc, -, rfl⟩ := laidOutAll_cons.mp h
      have := hc.length_pos ht
      rw [List.length_append] at hlen
      omega

/-- The items that are read fill the array. -/
theorem readItems_eq_ok_iff {read : Reader → Except Error Value} {t : Ty} {d levels : Nat}
    (hd : d ≤ levels) (ht : t.Regular) (hread : Reads read t d levels) {n : Nat}
    {vs : List Value} (hl : r.levels = levels) (hr : r.Repeats t) (hpos : r.pos ≤ r.stop)
    (hstop : r.stop ≤ r.data.length) (hn : r.stop - r.pos ≤ n) :
    readItems read n r = .ok vs ↔
      ∃ cs, LaidOutAll r.endian d (List.replicate vs.length t) vs r.pos cs ∧
        At r.data r.pos cs ∧ r.pos + cs.length = r.stop := by
  induction n generalizing r vs with
  | zero => exact readItems_end_iff ht hr (by omega) hstop
  | succ n ih =>
    by_cases hend : r.pos = r.stop
    · exact readItems_end_iff ht hr hend hstop
    have hmore : r.pos < r.stop := by omega
    have hst := hr.standsAt hmore
    have hv := fun v => hread r [] v hl hst
    have hvs := fun k ws hle hk => @ih (r.skip k) ws hl (hr.skip k) hle hstop hk
    simp only [readItems, hst.current_eq, bind_eq_ok, pure_eq_ok, hv]
    constructor
    · rintro ⟨v, ⟨c, hc, hat⟩, s, hs, ws, hws, rfl⟩
      obtain ⟨hle, rfl⟩ := (hr.advance_eq_ok_iff hmore (hl ▸ hd) hc hat).mp hs
      have := hc.length_pos ht
      have hk : r.stop - (r.pos + c.length) ≤ n := by omega
      obtain ⟨cs, hcs, hrest, hlen⟩ := (hvs _ _ hle hk).mp hws
      refine ⟨c ++ cs, .cons hc hcs, at_append.mpr ⟨hat, hrest⟩, ?_⟩
      rw [List.length_append, ← Nat.add_assoc]
      exact hlen
    · rintro ⟨cs, h, hat, hlen⟩
      cases vs with
      | nil =>
        obtain ⟨-, rfl⟩ := laidOutAll_nil.mp h
        exact absurd hlen hend
      | cons v vs =>
        obtain ⟨c, ds, hc, hds, rfl⟩ := laidOutAll_cons.mp h
        obtain ⟨hat, hrest⟩ := at_append.mp hat
        rw [List.length_append, ← Nat.add_assoc] at hlen
        have := hc.length_pos ht
        have hle : r.pos + c.length ≤ r.stop := by omega
        have hk : r.stop - (r.pos + c.length) ≤ n := by omega
        exact ⟨v, ⟨c, hc, hat⟩, _, (hr.advance_eq_ok_iff hmore (hl ▸ hd) hc hat).mpr ⟨hle, rfl⟩,
          vs, (hvs _ _ hle hk).mpr ⟨ds, hds, hrest, hlen⟩, rfl⟩

/-! ## One level -/

theorem expectCode_eq {t : Ty} {ts : List Ty} (h : r.StandsAt t ts) :
    expectCode t.code r = .ok () :=
  expectCode_eq_ok_iff.mpr h.require_eq

section

variable {m : Marshaller} (hm : m.policy = .standard)
  {inner : (room : Nat) → Ty → Reader → Except Error Value} {levels : Nat}
  (hinner : ∀ {n}, levels = n + 1 → ∀ room (t : Ty), t.Regular →
    Reads (inner room t) t (min room n) n)

include hm

/-- Where the type stands, a value is read just by its parts. -/
theorem readBy_eq_ok_iff_readLevel {t : Ty} {ts : List Ty} {room : Nat} {v : Value}
    (hr : r.StandsAt t ts) : m.readBy inner room t r = .ok v ↔ ReadLevel inner room t r v := by
  have hentry : ∃ e, m.policy.entry t.code = .ok e := discard_eq_ok.mp (discard_entry hm t.code)
  rw [readBy_eq_ok_iff, and_iff_right hentry, and_iff_right hr.require_eq]

/-- A level that reads a value of a fixed type, with any room. -/
theorem reads_fixed (c : FixedCode) (room d : Nat) :
    Reads (m.readBy inner room (.fixed c)) (.fixed c) d levels := by
  intro r ts v _ hr
  rw [readBy_eq_ok_iff_readLevel hm hr]
  constructor
  · rintro ⟨hw⟩
    obtain ⟨hself, hat⟩ := (Reader.word_eq_ok_iff hr).mp hw
    exact ⟨_, laidOut_fixed.mpr ⟨_, Scalar.code_ofWord c _, rfl, by rw [← hself]⟩, hat⟩
  · rintro ⟨_, h, hat⟩
    obtain ⟨s, rfl, rfl, rfl⟩ := laidOut_fixed.mp h
    have hw : r.word = .ok s.toWord :=
      (Reader.word_eq_ok_iff hr).mpr ⟨by rw [Scalar.ofWord_toWord], hat⟩
    have hread : ReadLevel inner room (.fixed s.code) r (.scalar (.ofWord s.code s.toWord)) :=
      .fixed hw
    rwa [Scalar.ofWord_toWord] at hread

/-- A level that reads a text, with any room. -/
theorem reads_text (c : TextCode) (room d : Nat) :
    Reads (m.readBy inner room (.text c)) (.text c) d levels := by
  intro r ts v _ hr
  rw [readBy_eq_ok_iff_readLevel hm hr]
  constructor
  · intro h
    cases h with
    | @text _ _ _ s hs hcheck =>
      obtain ⟨h0, hlen, hat⟩ := (Reader.text_eq_ok_iff hr).mp hs
      exact ⟨_, laidOut_text.mpr ⟨s, ⟨h0, hcheck⟩, TextCode.lt_of_lengthWidth hlen, rfl, rfl⟩, hat⟩
  · rintro ⟨_, h, hat⟩
    obtain ⟨s, hs, hlen, rfl, rfl⟩ := laidOut_text.mp h
    exact .text ((Reader.text_eq_ok_iff hr).mpr ⟨hs.1, hs.length_lt hlen, hat⟩) hs.2

include hinner

/-- A level that reads an array. It takes one from the room of the marshaller and one from the
levels of the cursor, so the lesser of both counts. -/
theorem reads_array {t : Ty} (ht : t.Regular) (room : Nat) :
    Reads (m.readBy inner room (.array t)) (.array t) (min room levels) levels := by
  intro r ts v hl hr
  rw [readBy_eq_ok_iff_readLevel hm hr]
  constructor
  · intro h
    cases h with
    | @array room _ _ s vs hs hvs =>
      obtain ⟨n, k, hk, hlen, hhead, hstop, rfl⟩ := (Reader.enter_array_eq_ok_iff hr).mp hs
      obtain rfl : levels = k + 1 := hl.symm.trans hk
      have hle : itemsStart r.pos t ≤ itemsStart r.pos t + n := Nat.le_add_right _ _
      rw [readItems_eq_ok_iff (Nat.min_le_right _ _) ht (hinner rfl room t ht) rfl ⟨rfl, rfl, rfl⟩
        hle hstop (Nat.le_refl _)] at hvs
      obtain ⟨items, h, hat, hitems⟩ := hvs
      obtain rfl : items.length = n := Nat.add_left_cancel hitems
      rw [← add_length_arrayHead r.endian] at hat
      exact ⟨_, laidOut_array.mpr ⟨_, vs, items, Nat.succ_min_succ room k, rfl, h, hlen, rfl⟩,
        at_append.mpr ⟨hhead, hat⟩⟩
  · rintro ⟨_, h, hat⟩
    obtain ⟨d, vs, items, hd, rfl, h, hlen, rfl⟩ := laidOut_array.mp h
    obtain ⟨room, k, rfl, rfl, rfl⟩ := min_eq_succ_iff.mp hd
    obtain ⟨hhead, hat⟩ := at_append.mp hat
    rw [add_length_arrayHead] at hat
    have hle : itemsStart r.pos t ≤ itemsStart r.pos t + items.length := Nat.le_add_right _ _
    refine .array ((Reader.enter_array_eq_ok_iff hr).mpr
      ⟨items.length, k, hl, hlen, hhead, hat.1, rfl⟩) ?_
    rw [readItems_eq_ok_iff (Nat.min_le_right _ _) ht (hinner rfl room t ht) rfl ⟨rfl, rfl, rfl⟩
      hle hat.1 (Nat.le_refl _)]
    exact ⟨items, h, hat, rfl⟩

/-- A level that reads a struct. -/
theorem reads_struct {us : List Ty} (hus : ∀ u ∈ us, u.Regular) (room : Nat) :
    Reads (m.readBy inner room (.struct us)) (.struct us) (min room levels) levels := by
  intro r ts v hl hr
  rw [readBy_eq_ok_iff_readLevel hm hr]
  constructor
  · intro h
    cases h with
    | @struct room _ _ s vs hs hvs =>
      obtain ⟨k, hk, hhead, rfl⟩ := (Reader.enter_struct_eq_ok_iff hr).mp hs
      obtain rfl : levels = k + 1 := hl.symm.trans hk
      rw [readFields_eq_ok_iff (Nat.min_le_right _ _) (fun u hu => hinner rfl room u (hus u hu)) rfl
        ⟨rfl, rfl⟩ (at_gap.mp hhead)] at hvs
      obtain ⟨fields, h, hat⟩ := hvs
      exact ⟨_, laidOut_struct.mpr ⟨_, vs, fields, Nat.succ_min_succ room k, rfl, h, rfl⟩,
        at_gap_append.mpr hat⟩
  · rintro ⟨_, h, hat⟩
    obtain ⟨d, vs, fields, hd, rfl, h, rfl⟩ := laidOut_struct.mp h
    obtain ⟨room, k, rfl, rfl, rfl⟩ := min_eq_succ_iff.mp hd
    obtain ⟨hhead, -⟩ := at_append.mp hat
    refine .struct ((Reader.enter_struct_eq_ok_iff hr).mpr ⟨k, hl, hhead, rfl⟩) ?_
    rw [readFields_eq_ok_iff (Nat.min_le_right _ _) (fun u hu => hinner rfl room u (hus u hu)) rfl
      ⟨rfl, rfl⟩ (at_gap.mp hhead)]
    exact ⟨fields, h, at_gap_append.mp hat⟩

/-- A level that reads a dict entry. -/
theorem reads_dictEntry (k : BasicCode) {u : Ty} (hu : u.Regular) (room : Nat) :
    Reads (m.readBy inner room (.dictEntry k u)) (.dictEntry k u) (min room levels) levels := by
  intro r ts v hl hr
  rw [readBy_eq_ok_iff_readLevel hm hr]
  constructor
  · intro h
    cases h with
    | @dictEntry room _ _ _ s s' key value hs hkey hs' hvalue =>
      obtain ⟨n, hn, hhead, rfl⟩ := (Reader.enter_dictEntry_eq_ok_iff hr).mp hs
      obtain rfl : levels = n + 1 := hl.symm.trans hn
      obtain ⟨fields, h, hat⟩ := (read_pair_iff (Nat.min_le_right _ _)
        (hinner rfl room _ (Ty.regular_basic k)) (hinner rfl room u hu) rfl ⟨rfl, rfl⟩).mp
          ⟨hkey, s', hs', hvalue⟩
      exact ⟨_, laidOut_dictEntry.mpr
        ⟨_, key, value, fields, Nat.succ_min_succ room n, rfl, h, rfl⟩, at_gap_append.mpr hat⟩
  · rintro ⟨_, h, hat⟩
    obtain ⟨d, key, value, fields, hd, rfl, h, rfl⟩ := laidOut_dictEntry.mp h
    obtain ⟨room, n, rfl, rfl, rfl⟩ := min_eq_succ_iff.mp hd
    obtain ⟨hhead, -⟩ := at_append.mp hat
    obtain ⟨hkey, s', hs', hvalue⟩ := (read_pair_iff (r := ⟨r.endian, r.data, alignUp r.pos 8,
      r.data.length, Ty.renderAll [.basic k, u], 0, false, n⟩) (Nat.min_le_right _ _)
      (hinner rfl room _ (Ty.regular_basic k)) (hinner rfl room u hu) rfl ⟨rfl, rfl⟩).mpr
        ⟨fields, h, at_gap_append.mp hat⟩
    exact .dictEntry ((Reader.enter_dictEntry_eq_ok_iff hr).mpr ⟨n, hl, hhead, rfl⟩) hkey hs' hvalue

/-- A level that reads a variant, by the type that stands in the body. -/
theorem reads_variant (room : Nat) :
    Reads (m.readBy inner room .variant) .variant (min room levels) levels := by
  intro r ts v hl hr
  rw [readBy_eq_ok_iff_readLevel hm hr]
  constructor
  · intro h
    cases h with
    | @variant room u' _ s w hs hu' hw =>
      obtain ⟨u, k, hu, hk, hhead, rfl⟩ := (Reader.enter_variant_eq_ok_iff hr).mp hs
      obtain rfl : levels = k + 1 := hl.symm.trans hk
      obtain rfl : u = u' := Ty.render_inj (variantType_eq_ok_iff.mp hu').2
      rw [hinner rfl room u hu.regular _ [] w rfl (Reader.follows_contents ..).standsAt] at hw
      obtain ⟨contents, h, hat⟩ := hw
      refine ⟨_, laidOut_variant.mpr ⟨_, u, w, contents, Nat.succ_min_succ room k, rfl, hu, h, rfl⟩,
        at_append.mpr ⟨hhead, ?_⟩⟩
      rwa [add_length_variantHead]
  · rintro ⟨_, h, hat⟩
    obtain ⟨d, u, w, contents, hd, rfl, hu, h, rfl⟩ := laidOut_variant.mp h
    obtain ⟨room, k, rfl, rfl, rfl⟩ := min_eq_succ_iff.mp hd
    obtain ⟨hhead, hat⟩ := at_append.mp hat
    rw [add_length_variantHead] at hat
    refine .variant ((Reader.enter_variant_eq_ok_iff hr).mpr ⟨u, k, hu, hl, hhead, rfl⟩)
      (variantType_eq_ok_iff.mpr ⟨hu, rfl⟩) ?_
    rw [hinner rfl room u hu.regular _ [] w rfl (Reader.follows_contents ..).standsAt]
    exact ⟨contents, h, hat⟩

/-- One level reads what is laid out if the level below does. -/
theorem reads_readBy {t : Ty} (ht : t.Regular) (room : Nat) :
    Reads (m.readBy inner room t) t (min room levels) levels := by
  cases t with
  | basic c =>
    cases c with
    | fixed c => exact reads_fixed hm c room _
    | text c => exact reads_text hm c room _
  | array t => exact reads_array hm hinner ht.element room
  | struct us => exact reads_struct hm hinner ht.fields.2 room
  | dictEntry k u => exact reads_dictEntry hm hinner k ht.value room
  | variant => exact reads_variant hm hinner room

end

/-! ## All levels -/

/-- Any number of levels reads what is laid out, as deep as there is room. The induction is on the
levels. -/
theorem reads_readWithin {m : Marshaller} (hm : m.policy = .standard) (levels room : Nat) {t : Ty}
    (ht : t.Regular) : Reads (m.readWithin levels room t) t (min room levels) levels := by
  induction levels generalizing room t with
  | zero => exact reads_readBy hm (fun h => absurd h (Nat.zero_ne_add_one _)) ht room
  | succ levels ih =>
    refine reads_readBy hm ?_ ht room
    rintro n ⟨⟩ room t ht
    exact ih room ht

/-- A value is read where it is laid out, and nothing else is. -/
theorem readValue_eq_ok_iff {m : Marshaller} (hm : m.policy = .standard) {t : Ty} {ts : List Ty}
    (ht : t.Regular) (hr : r.StandsAt t ts) {v : Value} :
    m.readValue t r = .ok v ↔
      ∃ cs, LaidOut r.endian (min m.maxDepth r.levels) t v r.pos cs ∧ At r.data r.pos cs :=
  reads_readWithin hm r.levels m.maxDepth ht r ts v rfl hr

/-! ## Reading in sequence -/

theorem run_look_eq_ok {f : Reader → Except Error Value} {v : Value} {r s : Reader} :
    (Reader.look f).run r = .ok v s ↔ f r = .ok v ∧ r = s := by
  simp only [EStateM.run, Reader.look]
  split <;> simp [*]

/-- A step moves the cursor on, whether there is another type or not. -/
theorem run_step_eq_ok {u : Unit} {r s : Reader} :
    Reader.step.run r = .ok u s ↔ ∃ more, r.next = (.ok more, s) := by
  simp only [EStateM.run, Reader.step]
  split <;> simp [*]

/-- A value is received if it is read and the cursor moves on from it. -/
theorem receive_eq_ok_iff {m : Marshaller} {t : Ty} {v : Value} {r s : Reader} :
    (m.receive t).run r = .ok v s ↔
      m.readValue t r = .ok v ∧ ∃ more, r.next = (.ok more, s) := by
  simp only [receive, run_bind_eq_ok, run_pure_eq_ok, run_look_eq_ok, run_step_eq_ok]
  constructor
  · rintro ⟨v, _, ⟨hv, rfl⟩, _, _, hnext, rfl, rfl⟩
    exact ⟨hv, hnext⟩
  · rintro ⟨hv, hnext⟩
    exact ⟨v, r, ⟨hv, rfl⟩, (), s, hnext, rfl, rfl⟩

/-- The values that are read in sequence stand in a row, and the cursor is behind them. -/
theorem laidOutAll_of_receiveAll {m : Marshaller} (hm : m.policy = .standard)
    {as : List Argument} (has : ∀ a ∈ as, a.ty.Regular) {vs : List Value} {r s : Reader}
    (hr : r.Follows (as.map Argument.ty)) (hpos : r.pos ≤ r.data.length)
    (h : (m.receiveAll as).run r = .ok vs s) :
    ∃ cs, LaidOutAll r.endian (min m.maxDepth r.levels) (as.map Argument.ty) vs r.pos cs ∧
      At r.data r.pos cs ∧ s.data = r.data ∧ s.pos = r.pos + cs.length := by
  induction as generalizing r vs with
  | nil =>
    rw [receiveAll, run_pure_eq_ok] at h
    obtain ⟨rfl, rfl⟩ := h
    exact ⟨[], .nil, at_nil.mpr hpos, rfl, rfl⟩
  | cons a as ih =>
    rw [List.forall_mem_cons] at has
    simp only [receiveAll, run_bind_eq_ok, run_pure_eq_ok, receive_eq_ok_iff,
      readValue_eq_ok_iff hm has.1 hr.standsAt] at h
    obtain ⟨v, _, ⟨⟨c, hc, hat⟩, more, hnext⟩, vs, _, h, rfl, rfl⟩ := h
    rw [Reader.next_eq (Nat.min_le_right _ _) hc hat hr, Prod.mk.injEq] at hnext
    obtain ⟨-, rfl⟩ := hnext
    obtain ⟨cs, hcs, hrest, hdata, hs⟩ := ih has.2 (hr.past _) hat.1 h
    refine ⟨c ++ cs, .cons hc hcs, at_append.mpr ⟨hat, hrest⟩, hdata, ?_⟩
    rw [hs, List.length_append, ← Nat.add_assoc]
    rfl

/-- Values that stand in a row are read in sequence, and the cursor is behind them. -/
theorem receiveAll_of_laidOutAll {m : Marshaller} (hm : m.policy = .standard)
    {as : List Argument} (has : ∀ a ∈ as, a.ty.Regular) {vs : List Value} {r : Reader}
    {cs : List Cell} (hr : r.Follows (as.map Argument.ty))
    (h : LaidOutAll r.endian (min m.maxDepth r.levels) (as.map Argument.ty) vs r.pos cs)
    (hat : At r.data r.pos cs) :
    ∃ s, (m.receiveAll as).run r = .ok vs s ∧ s.data = r.data ∧ s.pos = r.pos + cs.length := by
  induction as generalizing r vs cs with
  | nil =>
    cases h
    exact ⟨r, rfl, rfl, rfl⟩
  | cons a as ih =>
    rw [List.forall_mem_cons] at has
    cases h with
    | @cons _ _ _ _ v vs c cs hc hcs =>
      obtain ⟨hat, hrest⟩ := at_append.mp hat
      have hread := (readValue_eq_ok_iff hm has.1 hr.standsAt).mpr ⟨c, hc, hat⟩
      have hnext := Reader.next_eq (Nat.min_le_right _ _) hc hat hr
      obtain ⟨s, hs, hdata, hpos⟩ := ih has.2 (hr.past _) hcs hrest
      refine ⟨s, ?_, hdata, ?_⟩
      · simp only [receiveAll, run_bind_eq_ok, run_pure_eq_ok, receive_eq_ok_iff]
        exact ⟨v, _, ⟨hread, _, hnext⟩, vs, s, hs, rfl, rfl⟩
      · rw [hpos, List.length_append, ← Nat.add_assoc]
        rfl

end Marshaller

end DBus
