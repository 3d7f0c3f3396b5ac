import DBus.Proofs.SlotTypes

/-!
# Native types and their wire types

A native type that says what it holds has the tree of a wire type (`NativeType.Mirrors`), and its
signature is that of the type. Since signatures are read from the left, it is the signature of no
other type (`NativeType.mirrors_of_wireSignature`), and a native type that mirrors none has no
signature that could be parsed.

So `Argument.ofNative` fails just for native types with a part that names no wire type
(`NativeType.isMisfit`) and for those that are too long or too deep. What it gives is the type that
the standard policy compares the native type with (`Argument.ofNative_mirrors`).
-/

namespace DBus

namespace NativeType

/-! ## Parts of a native type -/

/-- The native types directly inside a native type. -/
def children : NativeType → List NativeType
  | array e => [e]
  | struct ns => ns
  | dict k v => [k, v]
  | void | scalar _ | str | boxed _ => []

/-- The one native type is the other, or is somewhere inside of it. -/
inductive Within : NativeType → NativeType → Prop
  | self {n : NativeType} : Within n n
  | child {l m n : NativeType} : m ∈ n.children → Within l m → Within l n

/-- Whether a native type stands for containers. -/
def isContainer : NativeType → Bool
  | array _ | struct _ | dict _ _ | boxed .variant => true
  | _ => false

/-- Whether a native type by itself keeps a type from having a signature : it has no value, it does
not tell which type a value has, it is a struct without fields, or it is a dictionary the keys of
which are containers. -/
def isMisfit : NativeType → Bool
  | void | boxed .number | boxed .boolean | boxed .array | boxed .dictionary | boxed .struct => true
  | struct ns => ns.isEmpty
  | dict k _ => k.isContainer
  | _ => false

mutual

/-- The most that the containers around any part come to, where an array counts `a`, a struct `s`
and a dictionary as one array and one struct. -/
def depth (a s : Nat) : NativeType → Nat
  | array e => e.depth a s + a
  | struct ns => depthAll a s ns + s
  | dict k v => max (k.depth a s) (v.depth a s) + (a + s)
  | void | scalar _ | str | boxed _ => 0

/-- The most that the containers around any part of the native types come to. -/
def depthAll (a s : Nat) : List NativeType → Nat
  | [] => 0
  | n :: ns => max (n.depth a s) (depthAll a s ns)

end

/-- How many arrays are nested in each other. -/
abbrev arrayDepth : NativeType → Nat := depth 1 0

/-- How many structs are nested in each other. -/
abbrev structDepth : NativeType → Nat := depth 0 1

variable {n m : NativeType} {ns : List NativeType} {t : Ty} {ts : List Ty}

theorem depthAll_le_iff {a s d : Nat} : depthAll a s ns ≤ d ↔ ∀ n ∈ ns, n.depth a s ≤ d := by
  induction ns with
  | nil => simp [depthAll]
  | cons n ns ih => rw [depthAll, Nat.max_le, ih, List.forall_mem_cons]

theorem forall_within_iff {P : NativeType → Prop} : (∀ m, m.Within n → P m) ↔
    P n ∧ ∀ c ∈ n.children, ∀ m, m.Within c → P m := by
  constructor
  · exact fun h => ⟨h n .self, fun c hc m hm => h m (.child hc hm)⟩
  · rintro ⟨hself, hchildren⟩ m (_ | ⟨hc, hm⟩)
    · exact hself
    · exact hchildren _ hc m hm

/-! ## Mirrored types -/

/-- The native type has the tree of the type, with the same things in the same places. -/
inductive Mirrors : NativeType → Ty → Prop
  | scalar (c : FixedCode) : Mirrors (.scalar c) (.fixed c)
  | str : Mirrors .str (.text .string)
  | string : Mirrors (.boxed .string) (.text .string)
  | objectPath : Mirrors (.boxed .objectPath) (.text .objectPath)
  | signature : Mirrors (.boxed .signature) (.text .signature)
  | variant : Mirrors (.boxed .variant) .variant
  | array {n : NativeType} {t : Ty} : Mirrors n t → Mirrors (.array n) (.array t)
  | struct {ns : List NativeType} {ts : List Ty} : ns.length = ts.length →
      (∀ q ∈ ns.zip ts, Mirrors q.1 q.2) → Mirrors (.struct ns) (.struct ts)
  | dict {m n : NativeType} {k : BasicCode} {t : Ty} : Mirrors m (.basic k) → Mirrors n t →
      Mirrors (.dict m n) (.array (.dictEntry k t))

/-- Only basic types are mirrored by what stands for no container. -/
theorem Mirrors.exists_basic_iff (h : n.Mirrors t) :
    (∃ b, t = .basic b) ↔ n.isContainer = false := by
  cases h <;> simp [isContainer]

theorem Mirrors.code_ne_dictEntry (h : n.Mirrors t) : t.code ≠ .dictEntry := by
  cases h <;> simp [Ty.code]

/-- What mirrors a type without an empty struct is nested just as the type is. -/
theorem Mirrors.formed (h : n.Mirrors t) (hne : ∀ m : NativeType, m.Within n → m ≠ .struct [])
    {i j : Nat} (hi : n.depth 1 0 ≤ i) (hj : n.depth 0 1 ≤ j) : t.Formed false i j := by
  induction h generalizing i j with
  | scalar c => exact .basic _
  | str => exact .basic _
  | string => exact .basic _
  | objectPath => exact .basic _
  | signature => exact .basic _
  | variant => exact .variant
  | @array n t _ ih =>
    rw [forall_within_iff] at hne
    rw [depth] at hi
    rw [depth] at hj
    obtain ⟨i, rfl⟩ : ∃ i', i = i' + 1 := Nat.exists_eq_add_of_le' (by omega)
    exact .array (ih (hne.2 n (by simp [children])) (by omega) (by omega)).element
  | @struct ns ts hlen _ ih =>
    rw [forall_within_iff] at hne
    rw [depth, Nat.add_zero, depthAll_le_iff] at hi
    rw [depth] at hj
    obtain ⟨j, rfl⟩ : ∃ j', j = j' + 1 := Nat.exists_eq_add_of_le' (by omega)
    have hj' := depthAll_le_iff.mp (Nat.le_of_succ_le_succ hj)
    refine .struct ?_ fun t ht => ?_
    · rintro rfl
      exact hne.1 (congrArg _ (List.eq_nil_of_length_eq_zero hlen))
    · obtain ⟨n, hn⟩ := exists_mem_zip_right hlen ht
      have hmem := (List.of_mem_zip hn).1
      exact ih _ hn (hne.2 n hmem) (hi n hmem) (hj' n hmem)
  | @dict m n k t _ _ _ ih =>
    rw [forall_within_iff] at hne
    rw [depth] at hi
    rw [depth] at hj
    obtain ⟨i, rfl⟩ : ∃ i', i = i' + 1 := Nat.exists_eq_add_of_le' (by omega)
    obtain ⟨j, rfl⟩ : ∃ j', j = j' + 1 := Nat.exists_eq_add_of_le' (by omega)
    exact .array (.dictEntry k (ih (hne.2 n (by simp [children])) (by omega) (by omega)))

/-- What mirrors a complete type is nested no deeper than the type may be, and has no misfit. -/
theorem Mirrors.fits (h : n.Mirrors t) {b : Bool} {i j : Nat} (ht : t.Formed b i j) :
    n.depth 1 0 ≤ i ∧ n.depth 0 1 ≤ j ∧ ∀ m : NativeType, m.Within n → m.isMisfit = false := by
  rw [forall_within_iff]
  induction h generalizing b i j with
  | scalar c => exact ⟨Nat.zero_le i, Nat.zero_le j, rfl, nofun⟩
  | str => exact ⟨Nat.zero_le i, Nat.zero_le j, rfl, nofun⟩
  | string => exact ⟨Nat.zero_le i, Nat.zero_le j, rfl, nofun⟩
  | objectPath => exact ⟨Nat.zero_le i, Nat.zero_le j, rfl, nofun⟩
  | signature => exact ⟨Nat.zero_le i, Nat.zero_le j, rfl, nofun⟩
  | variant => exact ⟨Nat.zero_le i, Nat.zero_le j, rfl, nofun⟩
  | @array n t _ ih =>
    cases ht with
    | array ht =>
      obtain ⟨hi, hj, hself, hchildren⟩ := ih ht
      refine ⟨Nat.succ_le_succ hi, hj, rfl, ?_⟩
      simp only [children, List.forall_mem_singleton]
      exact forall_within_iff.mpr ⟨hself, hchildren⟩
  | @struct ns ts hlen _ ih =>
    cases ht with
    | @struct _ i j _ hne hts =>
      have hfields : ∀ n ∈ ns, n.depth 1 0 ≤ i ∧ n.depth 0 1 ≤ j ∧
          ∀ m : NativeType, m.Within n → m.isMisfit = false := by
        intro n hn
        obtain ⟨t, ht⟩ := exists_mem_zip hlen hn
        obtain ⟨hi, hj, hwithin⟩ := ih _ ht (hts t (List.of_mem_zip ht).2)
        exact ⟨hi, hj, forall_within_iff.mpr hwithin⟩
      refine ⟨depthAll_le_iff.mpr fun n hn => (hfields n hn).1,
        Nat.succ_le_succ (depthAll_le_iff.mpr fun n hn => (hfields n hn).2.1), ?_,
        fun n hn => (hfields n hn).2.2⟩
      cases ns with
      | nil => exact absurd (List.eq_nil_of_length_eq_zero hlen.symm) hne
      | cons n ns => rfl
  | @dict m n k t hkey _ ihkey ihvalue =>
    cases ht with
    | @array _ i _ _ ht =>
      cases ht with
      | @dictEntry _ j _ _ ht =>
        obtain ⟨hki, hkj, hk⟩ := ihkey (b := false) (i := i) (j := j) (.basic k)
        obtain ⟨hvi, hvj, hv⟩ := ihvalue ht
        refine ⟨Nat.succ_le_succ (Nat.max_le.mpr ⟨hki, hvi⟩),
          Nat.succ_le_succ (Nat.max_le.mpr ⟨hkj, hvj⟩), hkey.exists_basic_iff.mp ⟨k, rfl⟩, ?_⟩
        simp only [children, List.forall_mem_cons]
        exact ⟨forall_within_iff.mpr hk, forall_within_iff.mpr hv, nofun⟩

mutual

/-- A native type without a misfit mirrors a type. -/
theorem exists_mirrors : ∀ (n : NativeType), (∀ m : NativeType, m.Within n → m.isMisfit = false) →
    ∃ t, n.Mirrors t
  | void, h => by cases h _ .self
  | scalar c, _ => ⟨_, .scalar c⟩
  | str, _ => ⟨_, .str⟩
  | boxed kind, h => by
    have hself := h _ .self
    cases kind with
    | string => exact ⟨_, .string⟩
    | objectPath => exact ⟨_, .objectPath⟩
    | signature => exact ⟨_, .signature⟩
    | variant => exact ⟨_, .variant⟩
    | number | boolean | array | dictionary | struct => cases hself
  | array e, h => by
    obtain ⟨t, ht⟩ := exists_mirrors e ((forall_within_iff.mp h).2 e (by simp [children]))
    exact ⟨_, .array ht⟩
  | struct ns, h => by
    obtain ⟨ts, hlen, hts⟩ := exists_mirrorsAll ns (forall_within_iff.mp h).2
    exact ⟨_, .struct hlen hts⟩
  | dict k v, h => by
    obtain ⟨hself, hchildren⟩ := forall_within_iff.mp h
    obtain ⟨t, ht⟩ := exists_mirrors k (hchildren k (by simp [children]))
    obtain ⟨u, hu⟩ := exists_mirrors v (hchildren v (by simp [children]))
    obtain ⟨b, rfl⟩ := ht.exists_basic_iff.mpr hself
    exact ⟨_, .dict ht hu⟩

theorem exists_mirrorsAll : ∀ (ns : List NativeType),
    (∀ n ∈ ns, ∀ m : NativeType, m.Within n → m.isMisfit = false) →
      ∃ ts : List Ty, ns.length = ts.length ∧ ∀ q ∈ ns.zip ts, q.1.Mirrors q.2
  | [], _ => ⟨[], rfl, nofun⟩
  | n :: ns, h => by
    rw [List.forall_mem_cons] at h
    obtain ⟨t, ht⟩ := exists_mirrors n h.1
    obtain ⟨ts, hlen, hts⟩ := exists_mirrorsAll ns h.2
    exact ⟨t :: ts, congrArg _ hlen, List.forall_mem_cons.mpr ⟨ht, hts⟩⟩

end

/-! ## Signatures -/

theorem wireSignatureAll_eq (hlen : ns.length = ts.length)
    (h : ∀ q ∈ ns.zip ts, q.1.wireSignature = .ok q.2.render) :
    wireSignatureAll ns = .ok (Ty.renderAll ts) := by
  induction ns generalizing ts with
  | nil =>
    obtain rfl := List.eq_nil_of_length_eq_zero hlen.symm
    rfl
  | cons n ns ih =>
    cases ts with
    | nil => cases hlen
    | cons t ts =>
      rw [List.zip_cons_cons, List.forall_mem_cons] at h
      rw [wireSignatureAll, h.1, ih (Nat.succ.inj hlen) h.2]
      rfl

/-- The signature of a native type is that of the type it mirrors. -/
theorem Mirrors.wireSignature_eq (h : n.Mirrors t) : n.wireSignature = .ok t.render := by
  induction h with
  | scalar c => rfl
  | str => rfl
  | string => rfl
  | objectPath => rfl
  | signature => rfl
  | variant => rfl
  | array _ ih =>
    rw [wireSignature, ih]
    rfl
  | struct hlen _ ih =>
    rw [wireSignature, wireSignatureAll_eq hlen ih]
    rfl
  | dict _ _ ihkey ihvalue =>
    rw [wireSignature, ihkey, ihvalue]
    rfl

/-- A signature starts with a type code. -/
theorem wireSignature_eq_cons {s : Bytes} (h : n.wireSignature = .ok s) :
    ∃ (c : TypeCode) (bs : Bytes), s = c.byte :: bs := by
  cases n with
  | void => cases h
  | scalar c =>
    cases h
    exact ⟨_, _, rfl⟩
  | str =>
    cases h
    exact ⟨_, _, rfl⟩
  | boxed kind =>
    cases kind <;> cases h <;> exact ⟨_, _, rfl⟩
  | array e =>
    simp only [wireSignature, bind_eq_ok, pure_eq_ok] at h
    obtain ⟨e, -, rfl⟩ := h
    exact ⟨_, _, rfl⟩
  | struct ns =>
    simp only [wireSignature, bind_eq_ok, pure_eq_ok] at h
    obtain ⟨s, -, rfl⟩ := h
    exact ⟨_, _, rfl⟩
  | dict k v =>
    simp only [wireSignature, bind_eq_ok, pure_eq_ok] at h
    obtain ⟨key, -, value, -, rfl⟩ := h
    exact ⟨_, _, rfl⟩

/-- The code in front of a type is that of the type. -/
theorem code_of_cons {c : TypeCode} {s y : Bytes} (h : c.byte :: s = t.render ++ y) :
    c = t.code := by
  obtain ⟨bs, ht⟩ := t.render_eq_cons
  rw [ht, List.cons_append, List.cons.injEq] at h
  exact TypeCode.byte_inj h.1

/-- What mirrors a type mirrors any type that starts with the same signature, for that is no other
one. -/
theorem Mirrors.of_render_append {u : Ty} {x y : Bytes} (h : n.Mirrors u)
    (hs : u.render ++ x = t.render ++ y) : u.render = t.render ∧ x = y ∧ n.Mirrors t := by
  obtain ⟨rfl, rfl⟩ := Ty.render_append_inj u t hs
  exact ⟨rfl, rfl, h⟩

mutual

/-- If the signature of a native type starts that of a type, it is all of it, and the native type
mirrors the type. -/
theorem mirrors_of_wireSignature : ∀ (n : NativeType) {t : Ty} {s x y : Bytes},
    n.wireSignature = .ok s → s ++ x = t.render ++ y → s = t.render ∧ x = y ∧ n.Mirrors t
  | void, t, s, x, y, h, hs => by cases h
  | scalar c, t, s, x, y, h, hs => by
    cases h
    exact (Mirrors.scalar c).of_render_append hs
  | str, t, s, x, y, h, hs => by
    cases h
    exact Mirrors.str.of_render_append hs
  | boxed kind, t, s, x, y, h, hs => by
    cases kind with
    | string =>
      cases h
      exact Mirrors.string.of_render_append hs
    | objectPath =>
      cases h
      exact Mirrors.objectPath.of_render_append hs
    | signature =>
      cases h
      exact Mirrors.signature.of_render_append hs
    | variant =>
      cases h
      exact Mirrors.variant.of_render_append hs
    | number | boolean | array | dictionary | struct => cases h
  | array e, t, s, x, y, h, hs => by
    simp only [wireSignature, bind_eq_ok, pure_eq_ok] at h
    obtain ⟨s, hsig, rfl⟩ := h
    rw [List.cons_append] at hs
    have hcode := code_of_cons hs
    cases t with
    | array t =>
      rw [Ty.render, List.cons_append, List.cons.injEq] at hs
      obtain ⟨rfl, rfl, he⟩ := mirrors_of_wireSignature e hsig hs.2
      exact ⟨rfl, rfl, .array he⟩
    | _ => cases hcode
  | struct ns, t, s, x, y, h, hs => by
    simp only [wireSignature, bind_eq_ok, pure_eq_ok] at h
    obtain ⟨s, hsig, rfl⟩ := h
    rw [List.cons_append] at hs
    have hcode := code_of_cons hs
    cases t with
    | struct ts =>
      rw [Ty.render, List.cons_append, List.cons.injEq, List.append_assoc,
        List.append_assoc] at hs
      obtain ⟨rfl, rfl, hlen, hns⟩ := mirrors_of_wireSignatureAll ns hsig hs.2
      exact ⟨rfl, rfl, .struct hlen hns⟩
    | _ => cases hcode
  | dict k v, t, s, x, y, h, hs => by
    simp only [wireSignature, bind_eq_ok, pure_eq_ok] at h
    obtain ⟨key, hkey, value, hvalue, rfl⟩ := h
    rw [List.cons_append, List.cons_append] at hs
    have hcode := code_of_cons hs
    cases t with
    | array t =>
      rw [Ty.render, List.cons_append, List.cons.injEq] at hs
      have hentry := code_of_cons hs.2
      cases t with
      | dictEntry b u =>
        have hrender : (Ty.dictEntry b u).render =
            TypeCode.dictEntry.byte :: ((Ty.basic b).render ++ (u.render ++ [Ty.entryEnd])) := rfl
        rw [hrender, List.cons_append, List.cons.injEq] at hs
        simp only [List.append_assoc] at hs
        obtain ⟨rfl, hrest, hk⟩ := mirrors_of_wireSignature k hkey hs.2.2
        obtain ⟨rfl, hend, hv⟩ := mirrors_of_wireSignature v hvalue hrest
        rw [List.append_assoc]
        exact ⟨rfl, (List.cons.inj hend).2, .dict hk hv⟩
      | _ => cases hentry
    | _ => cases hcode

theorem mirrors_of_wireSignatureAll : ∀ (ns : List NativeType) {ts : List Ty} {s x y : Bytes},
    wireSignatureAll ns = .ok s → s ++ Ty.structEnd :: x = Ty.renderAll ts ++ Ty.structEnd :: y →
      s = Ty.renderAll ts ∧ x = y ∧ ns.length = ts.length ∧ ∀ q ∈ ns.zip ts, q.1.Mirrors q.2
  | [], ts, s, x, y, h, hs => by
    cases h
    cases ts with
    | nil => exact ⟨rfl, (List.cons.inj hs).2, rfl, nofun⟩
    | cons t ts =>
      obtain ⟨bs, ht⟩ := t.render_eq_cons
      rw [Ty.renderAll, ht] at hs
      exact absurd (List.cons.inj hs).1.symm (TypeCode.byte_ne_structEnd _)
  | n :: ns, ts, s, x, y, h, hs => by
    simp only [wireSignatureAll, bind_eq_ok, pure_eq_ok] at h
    obtain ⟨a, ha, b, hb, rfl⟩ := h
    cases ts with
    | nil =>
      obtain ⟨c, bs, rfl⟩ := wireSignature_eq_cons ha
      exact absurd (List.cons.inj hs).1 (TypeCode.byte_ne_structEnd c)
    | cons t ts =>
      rw [Ty.renderAll, List.append_assoc, List.append_assoc] at hs
      obtain ⟨rfl, hrest, hn⟩ := mirrors_of_wireSignature n ha hs
      obtain ⟨rfl, rfl, hlen, hns⟩ := mirrors_of_wireSignatureAll ns hb hrest
      exact ⟨rfl, rfl, congrArg _ hlen, List.forall_mem_cons.mpr ⟨hn, hns⟩⟩

end

/-- The native types of a signature are those that mirror its type. -/
theorem wireSignature_eq_ok_iff : n.wireSignature = .ok t.render ↔ n.Mirrors t :=
  ⟨fun h => (mirrors_of_wireSignature n (x := []) (y := []) h rfl).2.2, Mirrors.wireSignature_eq⟩

/-! ## Comparing -/

theorem suitsAll_of_zip {p : BoxingPolicy} (hlen : ns.length = ts.length)
    (h : ∀ q ∈ ns.zip ts, (p.boxingState q.2 q.1).isValid = true) : p.suitsAll ts ns = true := by
  induction ns generalizing ts with
  | nil =>
    obtain rfl := List.eq_nil_of_length_eq_zero hlen.symm
    rfl
  | cons n ns ih =>
    cases ts with
    | nil => cases hlen
    | cons t ts =>
      rw [List.zip_cons_cons, List.forall_mem_cons] at h
      rw [BoxingPolicy.suitsAll, h.1, ih (Nat.succ.inj hlen) h.2]
      rfl

/-- An array that is no dictionary goes by its element. -/
theorem boxingState_array {p : BoxingPolicy} (ht : t.code ≠ .dictEntry) :
    p.boxingState (.array t) (.array n) =
      if p.isRegistered .array && (p.boxingState t n).isValid then .boxed else .invalid := by
  have hne : ∀ k u, t = .dictEntry k u → False := by
    rintro k u rfl
    exact ht rfl
  rw [BoxingPolicy.boxingState]
  exact hne

theorem isValid_ite (p : Prop) [Decidable p] :
    (if p then BoxingState.unboxed else .boxed).isValid = true := by
  split <;> rfl

/-- A native type suits the type that it mirrors, unboxed if it is a scalar or a text. -/
theorem Mirrors.boxingState_eq (h : n.Mirrors t) : BoxingPolicy.standard.boxingState t n =
    if n.isScalar = true ∨ n = .str then .unboxed else .boxed := by
  induction h with
  | scalar c => exact BoxingPolicy.boxingState_fixed c
  | str => rfl
  | string => rfl
  | objectPath => rfl
  | signature => rfl
  | variant => rfl
  | @array n t hn ih =>
    have hstate : (BoxingPolicy.standard.boxingState t n).isValid = true := by
      rw [ih]
      exact isValid_ite _
    rw [boxingState_array hn.code_ne_dictEntry, hstate]
    rfl
  | struct hlen _ ih =>
    have hsuits := suitsAll_of_zip (p := .standard) hlen fun q hq => by
      rw [ih q hq]
      exact isValid_ite _
    simp only [BoxingPolicy.boxingState, hsuits]
    rfl
  | @dict m n k t _ _ ihkey ihvalue =>
    have hkey : (BoxingPolicy.standard.basicState k m).isValid = true := by
      rw [← BoxingPolicy.boxingState, ihkey]
      exact isValid_ite _
    have hvalue : (BoxingPolicy.standard.boxingState t n).isValid = true := by
      rw [ihvalue]
      exact isValid_ite _
    simp only [BoxingPolicy.boxingState, hkey, hvalue]
    rfl

end NativeType

/-! ## Arguments -/

namespace Argument

variable {n : NativeType} {a : Argument}

theorem ofNative_eq_ok_iff :
    ofNative n = .ok a ↔ a.name = none ∧ a.ty.Valid ∧ n.Mirrors a.ty := by
  simp only [ofNative, bind_eq_ok, ofSignature_eq_ok_iff, Ty.parseType_eq_ok_iff_valid,
    ← NativeType.wireSignature_eq_ok_iff]
  constructor
  · rintro ⟨s, hs, t, ⟨ht, rfl⟩, rfl⟩
    exact ⟨rfl, ht, hs⟩
  · obtain ⟨t, name⟩ := a
    rintro ⟨rfl, ht, hs⟩
    exact ⟨_, hs, t, ⟨ht, rfl⟩, rfl⟩

theorem exists_ofNative (hparts : ∀ m : NativeType, m.Within n → m.isMisfit = false)
    (hlen : ∀ s, n.wireSignature = .ok s → s.length ≤ maxSignatureLength)
    (harrays : n.arrayDepth ≤ maxTypeDepth) (hstructs : n.structDepth ≤ maxTypeDepth) :
    ∃ a, ofNative n = .ok a := by
  obtain ⟨t, ht⟩ := n.exists_mirrors hparts
  have hne : ∀ m : NativeType, m.Within n → m ≠ .struct [] := by
    rintro m hm rfl
    cases hparts _ hm
  exact ⟨⟨t, none⟩, ofNative_eq_ok_iff.mpr ⟨rfl, Ty.valid_iff.mpr
    ⟨hlen _ ht.wireSignature_eq, ht.formed hne harrays hstructs⟩, ht⟩⟩

/-- There is an argument for a native type unless a part of it is a misfit, its signature is too
long, or too many arrays or structs are nested in it. The argument has no name and the tree of the
native type, and it is what the standard policy compares the native type with. -/
theorem ofNative_mirrors (n : NativeType) :
    ((∃ e, ofNative n = .error e) ↔ (∃ m : NativeType, m.Within n ∧ m.isMisfit = true) ∨
      (∃ s, n.wireSignature = .ok s ∧ 255 < s.length) ∨ 32 < n.arrayDepth ∨ 32 < n.structDepth) ∧
    ∀ a, ofNative n = .ok a → a.name = none ∧ n.Mirrors a.ty ∧
      BoxingPolicy.standard.boxingState a.ty n =
        if n.isScalar = true ∨ n = .str then .unboxed else .boxed := by
  refine ⟨⟨fun ⟨e, he⟩ => ?_, fun hbad => ?_⟩, fun a ha => ?_⟩
  · refine Classical.byContradiction fun hgood => ?_
    simp only [not_or, not_exists, not_and, Bool.not_eq_true, Nat.not_lt] at hgood
    obtain ⟨hparts, hlen, harrays, hstructs⟩ := hgood
    obtain ⟨a, ha⟩ := exists_ofNative hparts hlen harrays hstructs
    cases he.symm.trans ha
  · cases ha : ofNative n with
    | error e => exact ⟨e, rfl⟩
    | ok a =>
      obtain ⟨-, hvalid, hn⟩ := ofNative_eq_ok_iff.mp ha
      obtain ⟨hlen, hcomplete⟩ := Ty.valid_iff.mp hvalid
      obtain ⟨harrays, hstructs, hparts⟩ := hn.fits hcomplete
      rcases hbad with ⟨m, hm, hmisfit⟩ | ⟨s, hs, hlong⟩ | hdeep | hdeep
      · cases (hparts m hm).symm.trans hmisfit
      · obtain rfl := Except.ok.inj (hn.wireSignature_eq.symm.trans hs)
        exact absurd hlen (Nat.not_le.mpr hlong)
      · exact absurd harrays (Nat.not_le.mpr hdeep)
      · exact absurd hstructs (Nat.not_le.mpr hdeep)
  · obtain ⟨hname, -, hn⟩ := ofNative_eq_ok_iff.mp ha
    exact ⟨hname, hn, hn.boxingState_eq⟩

/-- A struct of an object path and a dictionary of bytes. -/
theorem ofNative_mirrors_struct :
    let n : NativeType := .struct [.boxed .objectPath, .dict .str (.scalar (.int .byte))]
    let a : Argument := ⟨.struct [.text .objectPath,
      .array (.dictEntry (.text .string) (.int .byte))], none⟩
    ofNative n = .ok a ∧ n.Mirrors a.ty ∧
      BoxingPolicy.standard.boxingState a.ty n = .boxed := by
  intro n a
  have ha : ofNative n = .ok a := by
    simp only [n, a]
    rfl
  obtain ⟨-, hn, hstate⟩ := (ofNative_mirrors n).2 a ha
  exact ⟨ha, hn, hstate⟩

end Argument

end DBus
