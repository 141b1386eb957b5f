import NnsVerified.Kernel.Proofs.RegistryProofs

/-!
# The list views of an accumulator

`+from-list` registers the items of a list, so each name keeps its first item. `+to-list` lists the
rows, one a name; reading them back, in whatever order, gives the same rows.
-/

namespace NnsVerified.Kernel

open NnsVerified.Hoon NnsVerified.Library

variable {Acc Vesl : Type} {env : Env Acc Vesl}

/-- The row of an item: its entry, under its name. -/
def itemRow (item : Nat × NnsAccumulatorEntry) : NnsAccumulatorEntry :=
  { item.2 with name := item.1 }

/-- The binding that an item of a list makes. -/
def itemBinding (env : Env Acc Vesl) (item : Nat × NnsAccumulatorEntry) :
    NnsNameKey × NnsAccumulatorEntry :=
  (keyOf env item.1, itemRow item)

section

variable (hh : env.HashLaws) (hm : env.MapLaws)

include hh hm

/-- Each key keeps the first of the items whose names have it. -/
theorem fromList_spec (items : List (Nat × NnsAccumulatorEntry)) :
    ∃ acc, fromList env items = .ok acc ∧ Inserted env acc ∧ ∀ k, k.Based →
      env.zBy.view acc k =
        ((items.map (itemBinding env)).find? fun kv => kv.1 = k).map Prod.snd := by
  have hturn : ∀ (acc : Acc) (item : Nat × NnsAccumulatorEntry), Inserted env acc →
      ∃ acc', insert env acc item.1 (itemRow item) = .ok acc' ∧ Inserted env acc' ∧
        ∀ k, k.Based → env.zBy.view acc' k =
          registerAll (env.zBy.view acc) [itemBinding env item] k :=
    fun _ item h => h.insert_spec hh hm item.1 (itemRow item)
  obtain ⟨acc, hok, hins, hview⟩ := MapOps.foldlM_registers hturn items .new
  refine ⟨acc, hok, hins, fun k hk => ?_⟩
  have hnul : env.zBy.view env.zBy.nul k = none := MapOps.Lawful.view_nul hm hk
  rw [hview k hk, registerAll_apply, hnul, Option.none_or, ← List.map_eq_flatMap]

/-- The rows that `+from-list` keeps: the first item of each name. -/
theorem fromList_row_iff {items : List (Nat × NnsAccumulatorEntry)} {acc : Acc}
    (hacc : fromList env items = .ok acc) (hkeys : KeysDistinct env (items.map Prod.fst))
    (k : NnsNameKey) (e : NnsAccumulatorEntry) :
    (k, e) ∈ env.zBy.tap acc ↔ nameKey env e.name = .ok k ∧
      (items.find? fun item => item.1 = e.name).map itemRow = some e := by
  obtain ⟨acc', hacc', hins, hview⟩ := fromList_spec hh hm items
  rw [hacc] at hacc'
  obtain rfl := Except.ok.inj hacc'
  have hinj : ∀ item ∈ items, ∀ other ∈ items, keyOf env item.1 = keyOf env other.1 →
      item.1 = other.1 := by
    intro item hitem other hother heq
    refine hkeys _ (List.mem_map_of_mem hitem) _ (List.mem_map_of_mem hother) ?_
    rw [nameKey_eq hh, nameKey_eq hh, heq]
  have hfirst : ∀ other ∈ items, env.zBy.view acc (keyOf env other.1) =
      (items.find? fun item => item.1 = other.1).map itemRow := by
    intro other hother
    rw [hview _ (keyOf_based hh other.1)]
    exact find?_map_key fun item hitem => hinj item hitem other hother
  rw [hins.mem_tap hh hm, nameKey_eq hh, Except.ok.injEq]
  constructor
  · rintro ⟨hk, hv⟩
    have hkey := hins.coherent hh hm hk hv
    obtain ⟨kv, hkv, rfl⟩ := Option.map_eq_some_iff.mp ((hview k hk).symm.trans hv)
    obtain ⟨item, hitem, rfl⟩ := List.mem_map.mp (List.mem_of_find?_eq_some hkv)
    rw [← hkey] at hv
    exact ⟨hkey, (hfirst item hitem).symm.trans hv⟩
  · rintro ⟨rfl, hrow⟩
    obtain ⟨item, hfind, -⟩ := Option.map_eq_some_iff.mp hrow
    have hname : item.1 = e.name := by simpa using List.find?_some hfind
    have hv := hfirst item (List.mem_of_find?_eq_some hfind)
    rw [hname, hrow] at hv
    exact ⟨keyOf_based hh e.name, hv⟩

theorem fromList_get {items : List (Nat × NnsAccumulatorEntry)} {acc : Acc}
    (hacc : fromList env items = .ok acc) {name : Nat}
    (hkeys : KeysDistinct env (name :: items.map Prod.fst)) :
    get env acc name = .ok ((items.find? fun item => item.1 = name).map itemRow) := by
  obtain ⟨acc', hacc', hins, hview⟩ := fromList_spec hh hm items
  rw [hacc] at hacc'
  obtain rfl := Except.ok.inj hacc'
  rw [get_eq hh hm (hins.built hh hm), hview _ (keyOf_based hh name)]
  refine congrArg Except.ok (find?_map_key fun item hitem heq => ?_)
  refine hkeys _ (List.mem_cons_of_mem _ (List.mem_map_of_mem hitem)) _ (by simp) ?_
  rw [nameKey_eq hh, nameKey_eq hh, heq]

theorem Inserted.toList_names_nodup {acc : Acc} (h : Inserted env acc) :
    ((toList env acc).map Prod.fst).Nodup := by
  unfold toList
  rw [List.map_map]
  exact h.names_nodup hh hm

theorem Inserted.length_toList {acc : Acc} (h : Inserted env acc) :
    (toList env acc).length = size env acc := by
  unfold toList size
  rw [List.length_map, hm.wyt_eq (h.built hh hm)]

/-- An item of `+to-list` stands for the row that it comes from. -/
theorem Inserted.toList_bindings {acc : Acc} (h : Inserted env acc) :
    (toList env acc).map (itemBinding env) = env.zBy.tap acc := by
  unfold toList
  rw [List.map_map]
  refine (List.map_congr_left fun row hrow => ?_).trans (List.map_id _)
  obtain ⟨hk, hv⟩ := (h.mem_tap hh hm row.1 row.2).mp hrow
  exact Prod.ext (h.coherent hh hm hk hv) rfl

/-- The items may come in any order, since each name has one. -/
theorem Inserted.fromList_toList {acc : Acc} (h : Inserted env acc)
    {items : List (Nat × NnsAccumulatorEntry)} (hitems : items.Perm (toList env acc)) :
    ∃ acc', fromList env items = .ok acc' ∧
      ∀ row, row ∈ env.zBy.tap acc' ↔ row ∈ env.zBy.tap acc := by
  obtain ⟨acc', hok, hins, hview⟩ := fromList_spec hh hm items
  have hperm : (items.map (itemBinding env)).Perm (env.zBy.tap acc) := by
    rw [← h.toList_bindings hh hm]
    exact hitems.map _
  have hnodup : ((items.map (itemBinding env)).map Prod.fst).Nodup :=
    (hperm.map Prod.fst).nodup_iff.mpr (hm.tap_nodup (h.built hh hm))
  refine ⟨acc', hok, fun row => ?_⟩
  rw [hins.mem_tap hh hm row.1 row.2, ← hperm.mem_iff, assoc_mem_iff hnodup row.1 row.2]
  constructor
  · rintro ⟨hk, hv⟩
    rwa [hview row.1 hk] at hv
  · intro hfind
    have hmem := hperm.mem_iff.mp ((assoc_mem_iff hnodup row.1 row.2).mpr hfind)
    have hk := ((h.mem_tap hh hm row.1 row.2).mp hmem).1
    exact ⟨hk, (hview row.1 hk).trans hfind⟩

end

/-- `+from-list` keeps the first item of each name, under the name; `+to-list` has each name once and
as many items as rows; and from the items of an accumulator, in any order, come its rows. -/
theorem listViews_firstWriterWins (hh : env.HashLaws) (hm : env.MapLaws) :
    (∀ items : List (Nat × NnsAccumulatorEntry), ∃ acc, fromList env items = .ok acc ∧
      Inserted env acc ∧
      (KeysDistinct env (items.map Prod.fst) → ∀ k e, (k, e) ∈ env.zBy.tap acc ↔
        nameKey env e.name = .ok k ∧ (items.find? fun item => item.1 = e.name).map
          (fun item => { item.2 with name := item.1 }) = some e) ∧
      ∀ name, KeysDistinct env (name :: items.map Prod.fst) → get env acc name =
        .ok ((items.find? fun item => item.1 = name).map
          fun item => { item.2 with name := item.1 })) ∧
    (∀ acc, Inserted env acc → ((toList env acc).map Prod.fst).Nodup ∧
      (toList env acc).length = size env acc) ∧
    ∀ acc, Inserted env acc → ∀ items, items.Perm (toList env acc) →
      ∃ acc', fromList env items = .ok acc' ∧
        ∀ row, row ∈ env.zBy.tap acc' ↔ row ∈ env.zBy.tap acc := by
  refine ⟨fun items => ?_, fun acc h => ⟨h.toList_names_nodup hh hm, h.length_toList hh hm⟩,
    fun acc h items hitems => h.fromList_toList hh hm hitems⟩
  obtain ⟨acc, hok, hins, -⟩ := fromList_spec hh hm items
  exact ⟨acc, hok, hins, fromList_row_iff hh hm hok, fun name => fromList_get hh hm hok⟩

/-- Two items of one name, the first of which has another name in its entry. -/
def repeatedItems : List (Nat × NnsAccumulatorEntry) :=
  [(cord "a.nock", ⟨0, 3, 21, 5, 7⟩), (cord "b.nock", ⟨cord "b.nock", 4, 22, 5, 7⟩),
    (cord "a.nock", ⟨cord "a.nock", 5, 23, 6, 8⟩)]

theorem listViews_firstWriterWins_repeated :
    ∃ acc, fromList sampleEnv repeatedItems = .ok acc ∧
      (keyOf sampleEnv (cord "a.nock"), ⟨cord "a.nock", 3, 21, 5, 7⟩) ∈ sampleEnv.zBy.tap acc ∧
      get sampleEnv acc (cord "a.nock") = .ok (some ⟨cord "a.nock", 3, 21, 5, 7⟩) ∧
      ((toList sampleEnv acc).map Prod.fst).Nodup ∧
      ∃ acc', fromList sampleEnv (toList sampleEnv acc).reverse = .ok acc' ∧
        ∀ row, row ∈ sampleEnv.zBy.tap acc' ↔ row ∈ sampleEnv.zBy.tap acc := by
  obtain ⟨hlist, hviews, hback⟩ :=
    listViews_firstWriterWins sampleEnv_hashLaws sampleEnv_mapLaws
  obtain ⟨acc, hok, hins, hrows, hget⟩ := hlist repeatedItems
  have hkeys : KeysDistinct sampleEnv (cord "a.nock" :: repeatedItems.map Prod.fst) := by
    decide +kernel
  have hitems : KeysDistinct sampleEnv (repeatedItems.map Prod.fst) := fun a ha b hb =>
    hkeys a (List.mem_cons_of_mem _ ha) b (List.mem_cons_of_mem _ hb)
  have hrow := (hrows hitems (keyOf sampleEnv (cord "a.nock")) ⟨cord "a.nock", 3, 21, 5, 7⟩).mpr
    ⟨nameKey_eq sampleEnv_hashLaws _, by decide⟩
  exact ⟨acc, hok, hrow, hget _ hkeys, (hviews acc hins).1,
    hback acc hins _ (List.reverse_perm _)⟩

end NnsVerified.Kernel
