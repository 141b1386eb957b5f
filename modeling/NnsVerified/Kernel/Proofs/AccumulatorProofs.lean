import NnsVerified.Kernel.Accumulator

/-!
# `nns-accumulator.hoon`: insertion, lookup and the hashable encoding

An accumulator that insertions build is a lawful map whose rows lie under the keys of their names.
Insertion registers a name in it, first writer wins. The hashable encoding is injective on the
sorted rows, so it determines the set of rows and is determined by it.
-/

namespace NnsVerified.Kernel

open NnsVerified.Hoon NnsVerified.Library

variable {Acc Vesl : Type} {env : Env Acc Vesl}

/-! ## Chunks of an atom -/

theorem atomU32Le_eq_digits (a : Nat) : atomU32Le a = Nat.digits (2 ^ 32) a := by
  induction a using atomU32Le.induct with
  | case1 =>
    rw [atomU32Le]
    simp
  | case2 a ha ih =>
    have hdigits : Nat.digits (2 ^ 32) a = a % 2 ^ 32 :: Nat.digits (2 ^ 32) (a / 2 ^ 32) :=
      Nat.digits_def' (by norm_num) (Nat.pos_of_ne_zero ha)
    rw [atomU32Le, if_neg ha, ih, hdigits]

theorem atomU32Le_injective : Function.Injective atomU32Le := by
  intro a b h
  rw [atomU32Le_eq_digits, atomU32Le_eq_digits] at h
  exact Nat.digits_inj_iff.mp h

theorem leaf_injective : Function.Injective leaf := by
  intro a b h
  simpa [leaf] using h

theorem hashableList_injective : Function.Injective hashableList := by
  intro xs ys h
  simpa [hashableList] using h

theorem hashableAtomChunks_injective : Function.Injective hashableAtomChunks :=
  hashableList_injective.comp (leaf_injective.list_map.comp atomU32Le_injective)

/-- Chunks are belts, whatever the atom. -/
theorem beltHashable_chunks (a : Nat) : BeltHashable (hashableAtomChunks a) := by
  refine .list fun x hx => ?_
  obtain ⟨w, hw, rfl⟩ := List.mem_map.mp hx
  rw [atomU32Le_eq_digits] at hw
  have hlt : w < 2 ^ 32 := Nat.digits_lt_base (by norm_num) hw
  exact .leaf (by unfold goldilocks; omega)

/-! ## Keys and lookups -/

/-- The key of a name, with a default where the hash has none. -/
def keyOf (env : Env Acc Vesl) (name : Nat) : NnsNameKey :=
  match nameKey env name with
  | .ok k => k
  | .error _ => default

theorem nameKey_eq (hh : env.HashLaws) (name : Nat) : nameKey env name = .ok (keyOf env name) := by
  obtain ⟨k, hk⟩ := hh.total (beltHashable_chunks name)
  have hname : nameKey env name = .ok k := hk
  simp [keyOf, hname]

theorem keyOf_based (hh : env.HashLaws) (name : Nat) : (keyOf env name).Based :=
  hh.based (nameKey_eq hh name)

/-- The accumulators that insertions build from the empty map. -/
inductive Inserted (env : Env Acc Vesl) : Acc → Prop where
  | new : Inserted env env.zBy.nul
  | put {acc acc' : Acc} {name : Nat} {entry : NnsAccumulatorEntry} (hacc : Inserted env acc)
      (h : insert env acc name entry = .ok acc') : Inserted env acc'

/-- Insertion is `insertNew` at the key of the name. -/
theorem insert_eq (hh : env.HashLaws) (acc : Acc) (name : Nat) (entry : NnsAccumulatorEntry) :
    insert env acc name entry =
      env.zBy.insertNew acc (keyOf env name) { entry with name := name } := by
  simp only [insert, nameKey_eq hh, ok_bind]
  rfl

section

variable (hh : env.HashLaws) (hm : env.MapLaws)

include hh hm

theorem get_eq {acc : Acc} (hb : env.zBy.Built NounDigest.Based acc) (name : Nat) :
    get env acc name = .ok (env.zBy.view acc (keyOf env name)) := by
  simp only [get, nameKey_eq hh, ok_bind]
  exact MapOps.Lawful.get_eq_view hm hb (keyOf_based hh name)

theorem has_eq {acc : Acc} (hb : env.zBy.Built NounDigest.Based acc) (name : Nat) :
    has env acc name = .ok (env.zBy.view acc (keyOf env name)).isSome := by
  simp only [has, nameKey_eq hh, ok_bind]
  exact MapOps.Lawful.has_eq_view hm hb (keyOf_based hh name)

/-- Insertion never fails on a built accumulator, and registers the row. -/
theorem insert_spec {acc : Acc} (hb : env.zBy.Built NounDigest.Based acc) (name : Nat)
    (entry : NnsAccumulatorEntry) :
    ∃ acc', insert env acc name entry = .ok acc' ∧ env.zBy.Built NounDigest.Based acc' ∧
      ∀ k, k.Based → env.zBy.view acc' k =
        register (env.zBy.view acc) (keyOf env name) { entry with name := name } k := by
  rw [insert_eq hh]
  exact MapOps.Lawful.insertNew_spec hm hb (keyOf_based hh name) _

theorem Inserted.built {acc : Acc} (h : Inserted env acc) : env.zBy.Built NounDigest.Based acc := by
  induction h with
  | new => exact .nul
  | put _ h ih =>
    obtain ⟨acc', hins, hb', -⟩ := insert_spec hh hm ih _ _
    rw [h] at hins
    obtain rfl := Except.ok.inj hins
    exact hb'

/-- The rows of an inserted accumulator, key by key. -/
theorem Inserted.mem_tap {acc : Acc} (h : Inserted env acc) (k : NnsNameKey)
    (e : NnsAccumulatorEntry) :
    (k, e) ∈ env.zBy.tap acc ↔ k.Based ∧ env.zBy.view acc k = some e :=
  MapOps.Lawful.mem_tap_iff hm (h.built hh hm)

/-- Every row lies under the key of its name. -/
theorem Inserted.coherent {acc : Acc} (h : Inserted env acc) {k : NnsNameKey}
    {e : NnsAccumulatorEntry} (hk : k.Based) (hv : env.zBy.view acc k = some e) :
    keyOf env e.name = k := by
  induction h generalizing e with
  | new =>
    rw [MapOps.Lawful.view_nul hm hk] at hv
    exact absurd hv (by simp)
  | @put acc acc' name entry hacc hins ih =>
    obtain ⟨acc'', hins', -, hview⟩ := insert_spec hh hm (hacc.built hh hm) name entry
    rw [hins] at hins'
    obtain rfl := Except.ok.inj hins'
    rw [hview k hk] at hv
    rcases Option.or_eq_some_iff.mp hv with hold | ⟨-, hnew⟩
    · exact ih hold
    · by_cases hkey : k = keyOf env name
      · rw [if_pos hkey] at hnew
        obtain rfl := Option.some.inj hnew
        exact hkey.symm
      · rw [if_neg hkey] at hnew
        exact absurd hnew (by simp)

end

/-! ## The set of rows -/

/-- The rows of an accumulator. -/
def rows (env : Env Acc Vesl) (acc : Acc) : List NnsAccumulatorEntry :=
  (env.zBy.tap acc).map Prod.snd

section

variable (hh : env.HashLaws) (hm : env.MapLaws)

include hh hm

/-- A row is held exactly when the lookup of its name finds it. -/
theorem Inserted.mem_rows {acc : Acc} (h : Inserted env acc) (e : NnsAccumulatorEntry) :
    e ∈ rows env acc ↔ env.zBy.view acc (keyOf env e.name) = some e := by
  constructor
  · intro he
    obtain ⟨⟨k, e'⟩, hmem, rfl⟩ := List.mem_map.mp he
    obtain ⟨hk, hv⟩ := (h.mem_tap hh hm k e').mp hmem
    have hkey : keyOf env e'.name = k := h.coherent hh hm hk hv
    show env.zBy.view acc (keyOf env e'.name) = some e'
    rw [hkey]
    exact hv
  · intro hv
    have hmem := (h.mem_tap hh hm _ e).mpr ⟨keyOf_based hh e.name, hv⟩
    exact List.mem_map.mpr ⟨_, hmem, rfl⟩

/-- The row that a lookup finds may be written for another name only where the keys collide. -/
theorem Inserted.view_eq_some {acc : Acc} (h : Inserted env acc) (name : Nat)
    (e : NnsAccumulatorEntry) :
    env.zBy.view acc (keyOf env name) = some e ↔
      e ∈ rows env acc ∧ keyOf env e.name = keyOf env name := by
  constructor
  · intro hv
    have hkey := h.coherent hh hm (keyOf_based hh name) hv
    refine ⟨(h.mem_rows hh hm e).mpr ?_, hkey⟩
    rw [hkey]
    exact hv
  · rintro ⟨he, hkey⟩
    rw [← hkey]
    exact (h.mem_rows hh hm e).mp he

theorem Inserted.names_nodup {acc : Acc} (h : Inserted env acc) :
    ((env.zBy.tap acc).map fun row => row.2.name).Nodup := by
  have hnd : ((env.zBy.tap acc).map Prod.fst).Nodup := hm.tap_nodup (h.built hh hm)
  have hkeys : (env.zBy.tap acc).map Prod.fst
      = ((env.zBy.tap acc).map fun row => row.2.name).map (keyOf env) := by
    rw [List.map_map]
    refine List.map_congr_left fun row hrow => ?_
    obtain ⟨hk, hv⟩ := (h.mem_tap hh hm row.1 row.2).mp hrow
    exact (h.coherent hh hm hk hv).symm
  rw [hkeys] at hnd
  exact List.Nodup.of_map _ hnd

/-- Accumulators with the same rows list them in orders that differ by a permutation. -/
theorem Inserted.tap_perm {acc acc' : Acc} (h : Inserted env acc) (h' : Inserted env acc')
    (hrows : ∀ e, e ∈ rows env acc ↔ e ∈ rows env acc') :
    (env.zBy.tap acc).Perm (env.zBy.tap acc') := by
  refine (List.perm_ext_iff_of_nodup (.of_map _ (h.names_nodup hh hm))
    (.of_map _ (h'.names_nodup hh hm))).mpr ?_
  rintro ⟨k, e⟩
  have key : ∀ {a b : Acc}, Inserted env a → Inserted env b →
      (∀ e, e ∈ rows env a → e ∈ rows env b) →
      (k, e) ∈ env.zBy.tap a → (k, e) ∈ env.zBy.tap b := by
    intro a b ha hb hsub hmem
    obtain ⟨hk, hv⟩ := (ha.mem_tap hh hm k e).mp hmem
    have hkey := ha.coherent hh hm hk hv
    refine (hb.mem_tap hh hm k e).mpr ⟨hk, ?_⟩
    rw [← hkey]
    exact (hb.mem_rows hh hm e).mp (hsub e (List.mem_map.mpr ⟨_, hmem, rfl⟩))
  exact ⟨key h h' fun e => (hrows e).mp, key h' h fun e => (hrows e).mpr⟩

end

/-! ## The hashable encoding -/

theorem hashableEntry_inj {e e' : NnsAccumulatorEntry} (h : hashableEntry e = hashableEntry e') :
    e.owner = e'.owner ∧ e.txHash = e'.txHash ∧ e.claimHeight = e'.claimHeight ∧
      e.blockDigest = e'.blockDigest := by
  have hlist := hashableList_injective h
  simp only [List.cons.injEq, and_true] at hlist
  obtain ⟨howner, htx, hheight, hdigest⟩ := hlist
  exact ⟨hashableAtomChunks_injective howner, hashableAtomChunks_injective htx,
    leaf_injective hheight, hashableAtomChunks_injective hdigest⟩

theorem hashableRow_injective : Function.Injective hashableRow := by
  intro e e' h
  obtain ⟨hname, hentry⟩ := Noun.cell.inj h
  have hn := hashableAtomChunks_injective hname
  obtain ⟨ho, ht, hc, hb⟩ := hashableEntry_inj hentry
  cases e
  cases e'
  simp_all

/-- The encoding determines the set of rows, also for a map that no insertion built. -/
theorem mem_rows_of_hashable_eq {acc acc' : Acc}
    (h : hashableAccumulator env acc = hashableAccumulator env acc') (e : NnsAccumulatorEntry) :
    e ∈ rows env acc ↔ e ∈ rows env acc' := by
  set before : NnsNameKey × NnsAccumulatorEntry → NnsNameKey × NnsAccumulatorEntry → Bool :=
    fun a b => decide (a.2.name < b.2.name) with hbefore
  have hlists : (sort before (env.zBy.tap acc)).map Prod.snd
      = (sort before (env.zBy.tap acc')).map Prod.snd := by
    have hmapped := hashableList_injective h
    refine hashableRow_injective.list_map ?_
    rw [List.map_map, List.map_map]
    exact hmapped
  have hmem : ∀ a : Acc, e ∈ rows env a ↔ e ∈ (sort before (env.zBy.tap a)).map Prod.snd :=
    fun a => (((sort_perm before _).map Prod.snd).mem_iff).symm
  rw [hmem acc, hmem acc', hlists]

/-- The encoding does not depend on the order in which the rows came. -/
theorem hashable_eq_of_rows (hh : env.HashLaws) (hm : env.MapLaws) {acc acc' : Acc}
    (h : Inserted env acc) (h' : Inserted env acc')
    (hrows : ∀ e, e ∈ rows env acc ↔ e ∈ rows env acc') :
    hashableAccumulator env acc = hashableAccumulator env acc' := by
  have hsort := sort_canonical (fun row : NnsNameKey × NnsAccumulatorEntry => row.2.name)
    (h.tap_perm hh hm h' hrows) (h.names_nodup hh hm)
  simp only [hashableAccumulator]
  rw [hsort]

/-- The hash accepts an accumulator whose heights are belts. -/
theorem beltHashable_accumulator {acc : Acc}
    (h : ∀ e ∈ rows env acc, e.claimHeight < goldilocks) :
    BeltHashable (hashableAccumulator env acc) := by
  refine .list fun x hx => ?_
  obtain ⟨row, hrow, rfl⟩ := List.mem_map.mp hx
  have hmem : row.2 ∈ rows env acc :=
    List.mem_map.mpr ⟨row, (sort_perm _ _).mem_iff.mp hrow, rfl⟩
  refine .pair (beltHashable_chunks _) (.list fun y hy => ?_)
  simp only [List.mem_cons, List.not_mem_nil, or_false] at hy
  rcases hy with rfl | rfl | rfl | rfl
  · exact beltHashable_chunks _
  · exact beltHashable_chunks _
  · exact .leaf (h row.2 hmem)
  · exact beltHashable_chunks _

theorem rootAtom_ok (hh : env.HashLaws) {acc : Acc}
    (h : ∀ e ∈ rows env acc, e.claimHeight < goldilocks) : ∃ r, rootAtom env acc = .ok r := by
  obtain ⟨d, hd⟩ := hh.total (beltHashable_accumulator h)
  exact ⟨env.digestToAtom d, by simp [rootAtom, root, hd]⟩

end NnsVerified.Kernel
