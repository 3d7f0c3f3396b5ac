import DBus.Proofs.Emptiness

/-!
# What is inside of values made from data

Every variant in a value that is made from data is of the type that it states, and every entry of a
dictionary is of a basic key and a variant (`Value.WellMade`). All that makes values from data keeps
this (`Value.WellMade.kept`), and the parts of a well-made value are well made.

A variant has a type, and a type tells of the fields of each struct. So an empty struct may stand in
fields outside of variants, but in no variant (`Value.HasType.isNothing_of_within`).

The data inside of data make parts of the value (`Data.exists_value_of_within`), and the array that
is made of a sequence holds an item for each element (`Value.ItemsOf`).
-/

namespace DBus

namespace Value

/-! ## The parts of a value -/

/-- The values right inside of a value. -/
def children : Value → List Value
  | scalar _ | text _ _ => []
  | array vs | struct vs => vs
  | dictEntry key value => [key, value]
  | variant _ v => [v]

variable {u v w : Value} {vs ws : List Value} {t : Ty}

theorem mem_children_dictEntry {key value : Value} :
    u ∈ (dictEntry key value).children ↔ u = key ∨ u = value := by
  simp [children]

/-- The one value is the other, or is somewhere inside of it. -/
inductive Within : Value → Value → Prop
  | self {v : Value} : Within v v
  | child {u v w : Value} : u ∈ v.children → Within w u → Within w v

/-- Parts of parts are parts. -/
theorem Within.trans (h : w.Within u) (h' : u.Within v) : w.Within v := by
  induction h' with
  | self => exact h
  | child hmem _ ih => exact .child hmem (ih h)

theorem Within.of_mem (h : u ∈ v.children) : u.Within v := .child h .self

/-! ## Parts of a value of a type -/

/-- What stands directly inside of a value of a type has a type, too. -/
theorem HasType.of_mem_children (h : v.HasType t) (ht : t.Regular) (hu : u ∈ v.children) :
    ∃ s : Ty, s.Regular ∧ u.HasType s := by
  cases h with
  | scalar | text => cases hu
  | array hvs => exact ⟨_, ht.element, hvs u hu⟩
  | struct hlen hvs =>
    obtain ⟨s, hs⟩ := exists_mem_zip hlen hu
    exact ⟨s, ht.fields.2 s (List.of_mem_zip hs).2, hvs _ hs⟩
  | @dictEntry key value k s hkey hvalue =>
    rcases mem_children_dictEntry.mp hu with rfl | rfl
    · exact ⟨_, Ty.regular_basic k, hkey⟩
    · exact ⟨_, ht.value, hvalue⟩
  | variant ha hv =>
    obtain rfl := List.mem_singleton.mp hu
    exact ⟨_, ha.regular, hv⟩

/-- A struct of a type has fields. -/
theorem HasType.isNothing_eq_false (h : v.HasType t) (ht : t.Regular) : v.isNothing = false := by
  cases h with
  | @struct vs ts hlen _ =>
    cases vs with
    | nil => exact absurd (List.eq_nil_of_length_eq_zero hlen.symm) ht.fields.1
    | cons v vs => rfl
  | _ => rfl

/-- No part of a value of a type is the empty struct. -/
theorem HasType.isNothing_of_within (h : v.HasType t) (ht : t.Regular) (hu : u.Within v) :
    u.isNothing = false := by
  induction hu generalizing t with
  | self => exact h.isNothing_eq_false ht
  | child hmem _ ih =>
    obtain ⟨s, hs, htype⟩ := h.of_mem_children ht hmem
    exact ih htype hs

/-! ## Well-made values -/

/-- The variants in the value are of the types that they state, and an entry of a dictionary has a
basic key and a variant. -/
inductive WellMade : Value → Prop
  | scalar (s : Scalar) : WellMade (.scalar s)
  | text (c : TextCode) (s : String) : WellMade (.text c s)
  | array {vs : List Value} : (∀ v ∈ vs, WellMade v) → WellMade (.array vs)
  | struct {vs : List Value} : (∀ v ∈ vs, WellMade v) → WellMade (.struct vs)
  | dictEntry {key v : Value} {a : Argument} : key.code.isContainer = false → WellMade key →
      WellMade (.variant a v) → WellMade (.dictEntry key (.variant a v))
  | variant {a : Argument} {v : Value} : a.ty.Valid → v.HasType a.ty → WellMade v →
      WellMade (.variant a v)

namespace WellMade

/-- What stands directly inside of a well-made value is well made. -/
theorem of_mem_children (h : v.WellMade) (hu : u ∈ v.children) : u.WellMade := by
  cases h with
  | scalar | text => cases hu
  | array hvs => exact hvs u hu
  | struct hvs => exact hvs u hu
  | dictEntry _ hkey hvalue =>
    rcases mem_children_dictEntry.mp hu with rfl | rfl
    · exact hkey
    · exact hvalue
  | variant _ _ hv =>
    obtain rfl := List.mem_singleton.mp hu
    exact hv

/-- All parts of a well-made value are well made. -/
theorem within (h : v.WellMade) (hu : u.Within v) : u.WellMade := by
  induction hu with
  | self => exact h
  | child hmem _ ih => exact ih (h.of_mem_children hmem)

/-- The variants in a well-made value are of the types that they state. -/
theorem consistent (h : v.WellMade) : v.Consistent := by
  induction h with
  | scalar s => exact .scalar s
  | text c s => exact .text c s
  | array _ ih => exact .array ih
  | struct _ ih => exact .struct ih
  | dictEntry _ _ _ ihkey ihvalue => exact .dictEntry ihkey ihvalue
  | variant ha hv _ _ => exact .variant ha hv

theorem variant_of_dataArgument (h : v.WellMade) {a : Argument} (ha : v.dataArgument = .ok a) :
    (Value.variant a v).WellMade := by
  obtain ⟨hvalid, -, htype⟩ := h.consistent.dataArgument ha
  exact .variant hvalid htype h

/-- Whatever makes a value from well-made ones makes a well-made one. -/
theorem kept : Kept (fun _ => True) WellMade where
  scalar := .scalar
  ofString _ := .text .string _
  array := .array
  struct := .struct
  wrap h hw := by
    obtain ⟨a, ha, rfl⟩ := wrap_eq_ok_iff.mp hw
    exact h.variant_of_dataArgument ha
  absent := .variant ⟨[97, 121], by rfl⟩ (.array nofun) (.array nofun)
  dictEntry hcode hkey h hw := by
    obtain ⟨a, ha, rfl⟩ := wrap_eq_ok_iff.mp hw
    exact .dictEntry hcode hkey (h.variant_of_dataArgument ha)

end WellMade

/-! ## The items of a sequence -/

/-- What stands for an element in an array of variants : a variant that holds its value, and for the
empty struct the variant of an empty array of bytes. -/
inductive StandsFor : Value → Value → Prop
  | holding (a : Argument) {v : Value} : v.isNothing = false → StandsFor (.variant a v) v
  | absent : StandsFor (.variant ⟨absentType, none⟩ (.array [])) (.struct [])

/-- The items of an array are the values of elements, one for each : the values themselves, if the
same signature is inferred for all of them, or variants that stand for them. -/
inductive ItemsOf (vs : List Value) : List Value → Prop
  | typed {s : Bytes} : (∀ v ∈ vs, v.infer = .ok s) → ItemsOf vs vs
  | variants {ws : List Value} : vs.length = ws.length →
      (∀ q ∈ vs.zip ws, StandsFor q.2 q.1) → ItemsOf vs ws

theorem standsFor_of_wrapElement (h : v.wrapElement = .ok w) : StandsFor w v := by
  rcases wrapElement_eq_ok_iff.mp h with ⟨hv, rfl⟩ | ⟨hv, hw⟩
  · obtain rfl : v = .struct [] := by
      unfold isNothing at hv
      split at hv
      · rw [List.isEmpty_iff.mp hv]
      · cases hv
    exact .absent
  · obtain ⟨a, -, rfl⟩ := wrap_eq_ok_iff.mp hw
    exact .holding a hv

/-- Elements make an array with an item for each of them. -/
theorem itemsOf_of_ofElements (h : ofElements vs = .ok w) :
    ∃ ws, w = .array ws ∧ ItemsOf vs ws := by
  rcases ofElements_eq_ok_iff.mp h with ⟨hcommon, rfl⟩ | ⟨-, ws, hws, rfl⟩
  · refine ⟨vs, rfl, ?_⟩
    rcases haveElementType_iff.mp hcommon with rfl | ⟨s, hs⟩
    · exact .variants rfl nofun
    · exact .typed hs
  · obtain ⟨hlen, hall⟩ := mapM_eq_ok_iff.mp hws
    exact ⟨ws, rfl, .variants hlen fun q hq => standsFor_of_wrapElement (hall q hq)⟩

/-! ## Parts that are found again -/

/-- A container other than the empty struct. -/
def Substantial (v : Value) : Prop := v.code.isContainer = true ∧ v.isNothing = false

/-- What a container is inside of is one itself. -/
theorem Substantial.of_within (hu : u.Substantial) (h : u.Within v) : v.Substantial := by
  cases h with
  | self => exact hu
  | child hmem _ =>
    cases v with
    | scalar | text => cases hmem
    | struct vs =>
      cases vs with
      | nil => cases hmem
      | cons => exact ⟨rfl, rfl⟩
    | array | dictEntry | variant => exact ⟨rfl, rfl⟩

/-- A value is inside of the variant that it is put into. -/
theorem within_of_wrap (h : v.wrap = .ok w) : v.Within w := by
  obtain ⟨a, -, rfl⟩ := wrap_eq_ok_iff.mp h
  exact .of_mem (List.mem_singleton_self v)

theorem within_of_wrapElement (hv : v.isNothing = false) (h : v.wrapElement = .ok w) :
    v.Within w := by
  rcases wrapElement_eq_ok_iff.mp h with ⟨hnothing, -⟩ | ⟨-, hw⟩
  · rw [hv] at hnothing
    cases hnothing
  · exact within_of_wrap hw

/-- Each element is inside of the array, unless it is nothing. -/
theorem within_of_ofElements (hmem : v ∈ vs) (hv : v.isNothing = false)
    (h : ofElements vs = .ok w) : v.Within w := by
  rcases ofElements_eq_ok_iff.mp h with ⟨-, rfl⟩ | ⟨-, ws, hws, rfl⟩
  · exact .of_mem hmem
  · obtain ⟨u, hu, hvu⟩ := exists_result_of_mapM hws hmem
    exact .child hu (within_of_wrapElement hv hvu)

/-- The contents of a variant are inside of what is made of it. -/
theorem within_of_ofVariant {name : String} (h : v.ofVariant name = .ok w) : v.Within w := by
  obtain ⟨u, hu, rfl⟩ := ofVariant_eq_ok_iff.mp h
  exact .child (List.mem_cons_of_mem _ (List.mem_singleton_self u)) (within_of_wrap hu)

theorem exists_within_of_entries {key : Value} (hv : v.isNothing = false)
    (h : v.entries key = .ok vs) : ∃ w ∈ vs, v.Within w := by
  rcases entries_eq_ok_iff.mp h with ⟨hnothing, -⟩ | ⟨-, u, hu, rfl⟩
  · rw [hv] at hnothing
    cases hnothing
  · exact ⟨_, List.mem_singleton_self _,
      .child (List.mem_cons_of_mem key (List.mem_singleton_self u)) (within_of_wrap hu)⟩

theorem exists_within_of_field {name : String} {style : StructStyle} (hv : v.isNothing = false)
    (h : style.field name v = .ok vs) : ∃ w ∈ vs, v.Within w := by
  cases style with
  | positional =>
    cases h
    exact ⟨v, List.mem_singleton_self v, .self⟩
  | dictionary => exact exists_within_of_entries hv h

theorem within_record (h : v ∈ vs) (style : StructStyle) : v.Within (style.record vs) := by
  cases style <;> exact .of_mem h

end Value

namespace Data

open Value

variable {p : StructPolicy} {c d e : Data} {ds : List Data} {v : Value} {vs : List Value}

/-- The data have a value, and if that is a container it is found in one of the others. -/
def FoundIn (p : StructPolicy) (c : Data) (vs : List Value) : Prop :=
  ∃ u, c.toValue p = .ok u ∧ (u.Substantial → ∃ v ∈ vs, u.Within v)

theorem FoundIn.imp (h : c.FoundIn p vs) {ws : List Value}
    (hws : ∀ u : Value, u.Substantial → ∀ v ∈ vs, u.Within v → ∃ w ∈ ws, u.Within w) :
    c.FoundIn p ws := by
  obtain ⟨u, hu, hfound⟩ := h
  refine ⟨u, hu, fun hsub => ?_⟩
  obtain ⟨v, hv, huv⟩ := hfound hsub
  exact hws u hsub v hv huv

/-- What is found in the parts of a value is found in the value. -/
theorem FoundIn.whole (h : c.FoundIn p vs) (hvs : ∀ w ∈ vs, w.Within v) : c.FoundIn p [v] :=
  h.imp fun _ _ w hw hu => ⟨v, List.mem_singleton_self v, hu.trans (hvs w hw)⟩

/-- Each of several data is found in the values that they make. -/
theorem foundIn_of_toValues (h : toValues p ds = .ok vs) : ∀ c ∈ ds, c.FoundIn p vs := by
  intro c hc
  rw [toValues_eq_mapM] at h
  obtain ⟨u, hu, hcu⟩ := exists_result_of_mapM h hc
  exact ⟨u, hcu, fun _ => ⟨u, hu, .self⟩⟩

/-- A key is basic, and a value is left out for being nothing only. -/
theorem foundIn_of_toEntries {parts : List (MapRole × Data)} {key : Option Value}
    (h : toEntries p key parts = .ok vs) : ∀ c ∈ parts.map Prod.snd, c.FoundIn p vs := by
  induction parts generalizing key vs with
  | nil => exact nofun
  | cons part parts ih =>
    obtain ⟨role, d⟩ := part
    rw [List.map_cons, List.forall_mem_cons]
    cases role with
    | key =>
      simp only [toEntries, bind_eq_ok, asKey_eq_ok_iff] at h
      obtain ⟨u, hu, _, ⟨hcode, rfl⟩, hrest⟩ := h
      refine ⟨⟨u, hu, fun hsub => ?_⟩, ih hrest⟩
      rw [hsub.1] at hcode
      cases hcode
    | value =>
      cases key with
      | none => cases h
      | some key =>
        simp only [toEntries, bind_eq_ok, pure_eq_ok] at h
        obtain ⟨u, hu, entry, hentry, rest, hrest, rfl⟩ := h
        refine ⟨⟨u, hu, fun hsub => ?_⟩, fun c hc => (ih hrest c hc).imp fun u _ w hw huw =>
          ⟨w, List.mem_append_right entry hw, huw⟩⟩
        obtain ⟨w, hw, huw⟩ := exists_within_of_entries hsub.2 hentry
        exact ⟨w, List.mem_append_left rest hw, huw⟩

/-- The data of each field is found in the fields that are made. -/
theorem foundIn_of_toFields {fields : List (String × Data)} {style : StructStyle}
    (h : toFields p style fields = .ok vs) : ∀ c ∈ fields.map Prod.snd, c.FoundIn p vs := by
  induction fields generalizing vs with
  | nil => exact nofun
  | cons field fields ih =>
    obtain ⟨name, d⟩ := field
    rw [List.map_cons, List.forall_mem_cons]
    simp only [toFields, bind_eq_ok, pure_eq_ok] at h
    obtain ⟨u, hu, field, hfield, rest, hrest, rfl⟩ := h
    refine ⟨⟨u, hu, fun hsub => ?_⟩, fun c hc => (ih hrest c hc).imp fun u _ w hw huw =>
      ⟨w, List.mem_append_right field hw, huw⟩⟩
    obtain ⟨w, hw, huw⟩ := exists_within_of_field hsub.2 hfield
    exact ⟨w, List.mem_append_left rest hw, huw⟩

/-- The data right inside of data make a value that is found in the value of all. -/
theorem foundIn_of_mem_children (hc : c ∈ d.children) (h : d.toValue p = .ok v) :
    c.FoundIn p [v] := by
  cases d with
  | some d | newtypeStruct _ d =>
    obtain rfl := List.mem_singleton.mp hc
    exact ⟨v, h, fun _ => ⟨v, List.mem_singleton_self v, .self⟩⟩
  | newtypeVariant _ name d =>
    obtain rfl := List.mem_singleton.mp hc
    simp only [toValue, bind_eq_ok] at h
    obtain ⟨u, hu, h⟩ := h
    exact ⟨u, hu, fun _ => ⟨v, List.mem_singleton_self v, within_of_ofVariant h⟩⟩
  | seq ds =>
    simp only [toValue, bind_eq_ok] at h
    obtain ⟨vs, hvs, h⟩ := h
    rw [toValues_eq_mapM] at hvs
    obtain ⟨u, hu, hcu⟩ := exists_result_of_mapM hvs hc
    exact ⟨u, hcu, fun hsub => ⟨v, List.mem_singleton_self v, within_of_ofElements hu hsub.2 h⟩⟩
  | tuple ds | tupleStruct _ ds =>
    simp only [toValue, bind_eq_ok, pure_eq_ok] at h
    obtain ⟨vs, hvs, rfl⟩ := h
    exact (foundIn_of_toValues hvs c hc).whole fun w hw => .of_mem hw
  | map parts =>
    simp only [toValue, bind_eq_ok, pure_eq_ok] at h
    obtain ⟨vs, hvs, rfl⟩ := h
    exact (foundIn_of_toEntries hvs c hc).whole fun w hw => .of_mem hw
  | struct name fields =>
    simp only [toValue, bind_eq_ok, pure_eq_ok] at h
    obtain ⟨vs, hvs, rfl⟩ := h
    exact (foundIn_of_toFields hvs c hc).whole fun w hw => within_record hw _
  | tupleVariant _ name ds =>
    simp only [toValue, bind_eq_ok] at h
    obtain ⟨vs, hvs, h⟩ := h
    exact (foundIn_of_toValues hvs c hc).whole fun w hw =>
      .trans (.child (v := .struct vs) hw .self) (within_of_ofVariant h)
  | structVariant _ name fields =>
    simp only [toValue, bind_eq_ok] at h
    obtain ⟨vs, hvs, h⟩ := h
    exact (foundIn_of_toFields hvs c hc).whole fun w hw =>
      (within_record hw _).trans (within_of_ofVariant h)
  | _ => cases hc

/-- The data anywhere inside of data make a value that is found in the value of all. -/
theorem foundIn_of_within (he : e.Within d) (h : d.toValue p = .ok v) : e.FoundIn p [v] := by
  induction he generalizing v with
  | self => exact ⟨v, h, fun _ => ⟨v, List.mem_singleton_self v, .self⟩⟩
  | child hc _ ih =>
    obtain ⟨w, hw, hfound⟩ := foundIn_of_mem_children hc h
    refine (ih hw).imp fun u hsub x hx hux => ?_
    obtain rfl := List.mem_singleton.mp hx
    obtain ⟨y, hy, hwy⟩ := hfound (hsub.of_within hux)
    exact ⟨y, hy, hux.trans hwy⟩

/-! ## Values made from data -/

/-- In a value that is made from data every variant is of the type that it states, and no empty
struct is in it. Every entry of a dictionary is of a basic key and a variant. And each sequence in
the data makes an array in the value, of one item for each element in order. The items are the
values of the elements if the same signature is inferred for all of them, and otherwise variants
of these, where an empty array of bytes stands for the empty struct. -/
theorem contents_of_toValue (h : d.toValue p = .ok v) :
    (∀ a w, (Value.variant a w).Within v → a.ty.Valid ∧ w.HasType a.ty ∧
      ∀ u : Value, u.Within w → u ≠ .struct []) ∧
    (∀ key w, (Value.dictEntry key w).Within v → key.code.isContainer = false ∧
      ∃ a u, w = .variant a u) ∧
    ∀ ds, (seq ds).Within d → ∃ vs items, ds.mapM (toValue p) = .ok vs ∧
      (seq ds).toValue p = .ok (.array items) ∧ (Value.array items).Within v ∧
        ItemsOf vs items := by
  have hmade : v.WellMade := kept_of_toValue WellMade.kept d (fun _ _ => trivial) h
  refine ⟨fun a w hw => ?_, fun key w hw => ?_, fun ds hds => ?_⟩
  · cases hmade.within hw with
    | variant ha htype _ =>
      refine ⟨ha, htype, fun u hu hnothing => ?_⟩
      have hsome := htype.isNothing_of_within ha.regular hu
      rw [hnothing] at hsome
      cases hsome
  · cases hmade.within hw with
    | dictEntry hcode _ _ => exact ⟨hcode, _, _, rfl⟩
  · obtain ⟨w, hw, hfound⟩ := foundIn_of_within hds h
    have hseq := hw
    simp only [toValue, bind_eq_ok, toValues_eq_mapM] at hseq
    obtain ⟨vs, hvs, hw'⟩ := hseq
    obtain ⟨items, rfl, hitems⟩ := itemsOf_of_ofElements hw'
    obtain ⟨x, hx, hwithin⟩ := hfound ⟨rfl, rfl⟩
    obtain rfl := List.mem_singleton.mp hx
    exact ⟨vs, items, hvs, hw, hwithin, hitems⟩

/-- A record with a sequence of a byte and of nothing. -/
theorem contents_of_toValue_optional :
    let one : Scalar := .int .byte 1 (by decide)
    let absent : Value := .variant ⟨.array (.int .byte), Option.none⟩ (.array [])
    let tags : Value := .array [.variant ⟨.int .byte, Option.none⟩ (.scalar one), absent]
    let v : Value :=
      .array [.dictEntry (.ofString "tags") (.variant ⟨.array .variant, Option.none⟩ tags)]
    (struct "Post" [("tags", .seq [.some (.scalar one), .none])]).toValue .dictionaries = .ok v ∧
      (∀ a w, (Value.variant a w).Within v → w.HasType a.ty) ∧
      (∀ key w, (Value.dictEntry key w).Within v → key.code.isContainer = false) ∧
      tags.Within v ∧ ItemsOf [.scalar one, .struct []]
        [.variant ⟨.int .byte, Option.none⟩ (.scalar one), absent] := by
  intro one absent tags v
  have hv : (struct "Post" [("tags", .seq [.some (.scalar one), .none])]).toValue .dictionaries =
    .ok v := by rfl
  obtain ⟨hvariants, hentries, hsequences⟩ := contents_of_toValue hv
  have hseq : (seq [.some (.scalar one), .none]).Within
      (struct "Post" [("tags", .seq [.some (.scalar one), .none])]) :=
    .child List.mem_cons_self .self
  obtain ⟨vs, items, hvs, hitems, hwithin, hof⟩ := hsequences _ hseq
  cases hvs
  cases hitems
  exact ⟨hv, fun a w hw => (hvariants a w hw).2.1, fun key w hw => (hentries key w hw).1, hwithin,
    hof⟩

end Data

end DBus
