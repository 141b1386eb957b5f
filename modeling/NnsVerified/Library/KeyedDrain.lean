import Mathlib.Data.List.AList
import Mathlib.Data.List.Perm.Subperm

/-!
# Reordering a list through a map

A list is put into a map by a key that may fail to decode (`collect`: of the items of one key the
last stays), and is then taken out of the map in the order of a given list of keys (`drain`).

When there are as many keys as items and nothing stays in the map, no item was overwritten and none
is left out: the result is the list, reordered so that the item at each position has the key at that
position (`arranged_iff`). So it does not depend on the order of the list.
-/

namespace NnsVerified.Library

variable {ε κ α : Type} [DecidableEq κ]

/-- Insert the items of a list under their keys. -/
def collect (key : α → Except ε κ) (m : AList fun _ : κ => α) :
    List α → Except ε (AList fun _ : κ => α)
  | [] => .ok m
  | x :: xs => do
    let k ← key x
    collect key (m.insert k x) xs

/-- Remove the items of a list of keys, in order. Returns them with what is left in the map. -/
def drain (missing : κ → ε) (m : AList fun _ : κ => α) :
    List κ → Except ε (List α × AList fun _ : κ => α)
  | [] => .ok ([], m)
  | k :: ks =>
    match m.extract k with
    | (none, _) => .error (missing k)
    | (some x, m) => do
      let (xs, rest) ← drain missing m ks
      return (x :: xs, rest)

/-- The items `ys` are the items `xs`, arranged by the distinct keys `ks`. -/
structure Arranged (key : α → Except ε κ) (ks : List κ) (xs ys : List α) : Prop where
  nodup : ks.Nodup
  keys : ys.map key = ks.map .ok
  perm : ys.Perm xs

variable {key : α → Except ε κ} {missing : κ → ε} {m m' : AList fun _ : κ => α}
  {ks : List κ} {xs ys : List α}

/-! ## Filling the map -/

theorem mem_collect (h : collect key m xs = .ok m') (k : κ) :
    k ∈ m' ↔ k ∈ m ∨ ∃ x ∈ xs, key x = .ok k := by
  induction xs generalizing m with
  | nil =>
    obtain rfl := Except.ok.inj h
    simp
  | cons x xs ih =>
    cases hx : key x with
    | error e => simp [collect, hx, bind, Except.bind] at h
    | ok k' =>
      simp only [collect, hx, bind, Except.bind] at h
      rw [ih h, AList.mem_insert]
      constructor
      · rintro ((rfl | hm) | ⟨y, hy, hyk⟩)
        · exact Or.inr ⟨x, by simp, hx⟩
        · exact Or.inl hm
        · exact Or.inr ⟨y, List.mem_cons_of_mem _ hy, hyk⟩
      · rintro (hm | ⟨y, hy, hyk⟩)
        · exact Or.inl (Or.inr hm)
        · rcases List.mem_cons.mp hy with rfl | hy
          · rw [hx] at hyk
            exact Or.inl (Or.inl (Except.ok.inj hyk).symm)
          · exact Or.inr ⟨y, hy, hyk⟩

/-- An item of the map was there before or is an item of the list under its key. -/
theorem lookup_collect (h : collect key m xs = .ok m') {k : κ} {y : α}
    (hy : m'.lookup k = some y) : m.lookup k = some y ∨ (y ∈ xs ∧ key y = .ok k) := by
  induction xs generalizing m with
  | nil =>
    obtain rfl := Except.ok.inj h
    exact Or.inl hy
  | cons x xs ih =>
    cases hx : key x with
    | error e => simp [collect, hx, bind, Except.bind] at h
    | ok k' =>
      simp only [collect, hx, bind, Except.bind] at h
      rcases ih h with hm | ⟨hmem, hk⟩
      · by_cases hkk : k = k'
        · subst hkk
          rw [AList.lookup_insert] at hm
          obtain rfl := Option.some.inj hm
          exact Or.inr ⟨by simp, hx⟩
        · rw [AList.lookup_insert_ne hkk] at hm
          exact Or.inl hm
      · exact Or.inr ⟨List.mem_cons_of_mem _ hmem, hk⟩

/-- The map is filled exactly when every key decodes. -/
theorem collect_ok_iff : (∃ m', collect key m xs = .ok m') ↔ ∀ x ∈ xs, ∃ k, key x = .ok k := by
  induction xs generalizing m with
  | nil => simp [collect]
  | cons x xs ih =>
    cases hx : key x with
    | error e => simp [collect, hx, bind, Except.bind]
    | ok k' => simpa [collect, hx, bind, Except.bind] using ih

/-! ## Draining the map -/

theorem lookup_erase_some {k k' : κ} {y : α} (h : (m.erase k).lookup k' = some y) :
    k' ≠ k ∧ m.lookup k' = some y := by
  by_cases hk : k' = k
  · rw [hk, AList.lookup_erase] at h
    exact absurd h (by simp)
  · rw [AList.lookup_erase_ne hk] at h
    exact ⟨hk, h⟩

/-- What is drained, and what stays. -/
theorem drain_spec {rest : AList fun _ : κ => α} (h : drain missing m ks = .ok (ys, rest)) :
    ks.Nodup ∧ List.Forall₂ (fun k y => m.lookup k = some y) ks ys ∧
      ∀ k, k ∈ rest ↔ k ∈ m ∧ k ∉ ks := by
  induction ks generalizing m ys with
  | nil =>
    obtain ⟨rfl, rfl⟩ := Prod.mk.inj (Except.ok.inj h)
    exact ⟨.nil, .nil, by simp⟩
  | cons k ks ih =>
    rw [drain, AList.extract_eq_lookup_erase] at h
    cases hk : m.lookup k with
    | none => simp [hk] at h
    | some x =>
      simp only [hk] at h
      cases hrec : drain missing (m.erase k) ks with
      | error e => simp [hrec, bind, Except.bind] at h
      | ok r =>
        obtain ⟨xs, rest'⟩ := r
        simp only [hrec, bind, Except.bind, pure, Except.pure] at h
        obtain ⟨rfl, rfl⟩ := Prod.mk.inj (Except.ok.inj h)
        obtain ⟨hnodup, hlookup, hrest⟩ := ih hrec
        have hboth := hlookup.imp fun k' y hy => lookup_erase_some hy
        obtain ⟨hne, htail⟩ := (List.forall₂_and_left _ _).mp hboth
        refine ⟨List.nodup_cons.mpr ⟨fun hmem => hne k hmem rfl, hnodup⟩, .cons hk htail, ?_⟩
        intro k'
        rw [hrest, AList.mem_erase, List.mem_cons]
        tauto

/-- The keys of a map can be drained in any order. -/
theorem drain_ok (missing : κ → ε) (hnodup : ks.Nodup) (h : ∀ k ∈ ks, k ∈ m) :
    ∃ r, drain missing m ks = .ok r := by
  induction ks generalizing m with
  | nil => exact ⟨_, rfl⟩
  | cons k ks ih =>
    obtain ⟨hk, hnodup⟩ := List.nodup_cons.mp hnodup
    obtain ⟨x, hx⟩ := Option.isSome_iff_exists.mp (AList.lookup_isSome.mpr (h k (by simp)))
    obtain ⟨r, hr⟩ := ih (m := m.erase k) hnodup fun k' hk' => by
      refine AList.mem_erase.mpr ⟨?_, h k' (List.mem_cons_of_mem _ hk')⟩
      rintro rfl
      exact hk hk'
    rw [drain, AList.extract_eq_lookup_erase]
    simp only [hx, hr]
    exact ⟨_, rfl⟩

/-! ## Filling and draining -/

/-- Items drained from a filled map are items of the list, with the keys asked for. -/
theorem keys_of_drain (hcollect : collect key ∅ xs = .ok m) {rest : AList fun _ : κ => α}
    (hdrain : drain missing m ks = .ok (ys, rest)) :
    ys.map key = ks.map .ok ∧ ∀ y ∈ ys, y ∈ xs := by
  obtain ⟨-, hlookup, -⟩ := drain_spec hdrain
  have hitem : List.Forall₂ (fun k y => y ∈ xs ∧ key y = .ok k) ks ys := by
    refine hlookup.imp fun k y hy => ?_
    rcases lookup_collect hcollect hy with hempty | hitem
    · simp at hempty
    · exact hitem
  clear hlookup hdrain
  induction hitem with
  | nil => simp
  | cons hky _ ih =>
    obtain ⟨hkeys, hmem⟩ := ih
    refine ⟨by rw [List.map_cons, List.map_cons, hky.2, hkeys], ?_⟩
    intro y hy
    rcases List.mem_cons.mp hy with rfl | hy
    · exact hky.1
    · exact hmem y hy

omit [DecidableEq κ] in
theorem keys_nodup (hnodup : ks.Nodup) (hkeys : ys.map key = ks.map .ok) :
    (ys.map key).Nodup := by
  rw [hkeys]
  exact hnodup.map fun _ _ h => Except.ok.inj h

/-- As many keys as items: the drained items are the items of the list, reordered. -/
theorem arranged_of_drain (hlen : xs.length = ks.length) (hcollect : collect key ∅ xs = .ok m)
    {rest : AList fun _ : κ => α} (hdrain : drain missing m ks = .ok (ys, rest)) :
    Arranged key ks xs ys := by
  obtain ⟨hkeys, hmem⟩ := keys_of_drain hcollect hdrain
  have hnodup := (drain_spec hdrain).1
  have hlenys : ys.length = ks.length := by
    have := congrArg List.length hkeys
    simpa using this
  have hsub : ys.Subperm xs := List.subperm_of_subset (keys_nodup hnodup hkeys).of_map hmem
  exact ⟨hnodup, hkeys, hsub.perm_of_length_le (by omega)⟩

omit [DecidableEq κ] in
theorem eq_of_arranged {ys' : List α} (h : Arranged key ks xs ys) (h' : Arranged key ks xs ys') :
    ys = ys' := by
  have hinj := List.inj_on_of_nodup_map (keys_nodup h.nodup h.keys)
  have hperm : ys'.Perm ys := h'.perm.trans h.perm.symm
  refine List.ext_getElem hperm.length_eq.symm fun i hi hi' => ?_
  refine hinj (List.getElem_mem hi) (hperm.subset (List.getElem_mem hi')) ?_
  have hkeys : (ys.map key)[i]? = (ys'.map key)[i]? := by rw [h.keys, h'.keys]
  simpa [hi, hi'] using hkeys

/-- Filling the map and emptying it in the order of the keys arranges the list. -/
theorem collect_drain_iff (hlen : xs.length = ks.length) :
    (∃ m rest, collect key ∅ xs = .ok m ∧ drain missing m ks = .ok (ys, rest) ∧ rest.entries = []) ↔
      Arranged key ks xs ys := by
  constructor
  · rintro ⟨m, rest, hcollect, hdrain, -⟩
    exact arranged_of_drain hlen hcollect hdrain
  · intro h
    have hkey : ∀ x ∈ xs, ∃ k ∈ ks, key x = .ok k := by
      intro x hx
      have hmem : key x ∈ ks.map .ok := h.keys ▸ List.mem_map_of_mem (h.perm.mem_iff.mpr hx)
      obtain ⟨k, hk, hkx⟩ := List.mem_map.mp hmem
      exact ⟨k, hk, hkx.symm⟩
    obtain ⟨m, hcollect⟩ : ∃ m, collect key ∅ xs = .ok m :=
      collect_ok_iff.mpr fun x hx => (hkey x hx).imp fun _ hk => hk.2
    have hm : ∀ k, k ∈ m ↔ k ∈ ks := by
      intro k
      rw [mem_collect hcollect]
      constructor
      · rintro (hempty | ⟨x, hx, hxk⟩)
        · exact absurd hempty (AList.notMem_empty k)
        · obtain ⟨k', hk', hxk'⟩ := hkey x hx
          rw [hxk] at hxk'
          exact Except.ok.inj hxk' ▸ hk'
      · intro hk
        have hmem : (.ok k : Except ε κ) ∈ ys.map key := h.keys ▸ List.mem_map_of_mem hk
        obtain ⟨y, hy, hyk⟩ := List.mem_map.mp hmem
        exact Or.inr ⟨y, h.perm.mem_iff.mp hy, hyk⟩
    obtain ⟨⟨ys', rest⟩, hdrain⟩ := drain_ok missing h.nodup fun k hk => (hm k).mpr hk
    have hrest : rest.entries = [] := by
      refine List.eq_nil_iff_forall_not_mem.mpr fun e he => ?_
      obtain ⟨hem, hek⟩ := ((drain_spec hdrain).2.2 e.1).mp (List.mem_map_of_mem he)
      exact hek ((hm e.1).mp hem)
    obtain rfl := eq_of_arranged h (arranged_of_drain hlen hcollect hdrain)
    exact ⟨m, rest, hcollect, hdrain, hrest⟩

end NnsVerified.Library
