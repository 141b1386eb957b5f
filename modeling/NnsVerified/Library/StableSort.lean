import Mathlib.Data.List.Sort
import Mathlib.Order.BoundedOrder.Basic

/-!
# Stable sorting by a key

A stable sort puts the items in the order of their keys and leaves the items of one key in the order
in which they were. Both together determine the result (`sortByKey_eq`). So a list that consists of
blocks, each with a key of its own, is sorted by arranging the blocks (`sortByKey_flatMap`).
-/

namespace NnsVerified.Library

variable {α δ κ : Type} [LinearOrder κ] {key : α → κ} {l m : List α}

/-- Sort the items of a list by their keys. -/
def sortByKey (key : α → κ) (l : List α) : List α := l.insertionSort fun a b => key a ≤ key b

theorem sortByKey_perm : (sortByKey key l).Perm l := List.perm_insertionSort _ l

theorem sortByKey_pairwise : (sortByKey key l).Pairwise fun a b => key a ≤ key b := by
  have : Std.Total fun a b : α => key a ≤ key b := ⟨fun a b => le_total (key a) (key b)⟩
  have : IsTrans α fun a b : α => key a ≤ key b := ⟨fun _ _ _ hab hbc => le_trans hab hbc⟩
  exact List.pairwise_insertionSort _ l

/-- An item is inserted before all items of its key. -/
theorem filter_orderedInsert (a : α) (k : κ) :
    (l.orderedInsert (fun a b => key a ≤ key b) a).filter (fun b => key b = k)
      = (a :: l).filter fun b => key b = k := by
  induction l with
  | nil => rfl
  | cons b l ih =>
    rw [List.orderedInsert_cons]
    by_cases hab : key a ≤ key b
    · rw [if_pos hab]
    · rw [if_neg hab, List.filter_cons, ih]
      by_cases hb : key b = k
      · have ha : key a ≠ k := fun ha => hab (le_of_eq (ha.trans hb.symm))
        simp [hb, ha]
      · by_cases ha : key a = k <;> simp [hb, ha]

/-- The items of one key stay in their order. -/
theorem filter_sortByKey (k : κ) :
    (sortByKey key l).filter (fun a => key a = k) = l.filter fun a => key a = k := by
  induction l with
  | nil => rfl
  | cons a l ih =>
    have hcons : sortByKey key (a :: l)
        = (sortByKey key l).orderedInsert (fun a b => key a ≤ key b) a := rfl
    rw [hcons, filter_orderedInsert, List.filter_cons, List.filter_cons, ih]

theorem mem_iff_of_filter_eq (h : ∀ k, l.filter (fun a => key a = k) = m.filter fun a => key a = k)
    (a : α) : a ∈ l ↔ a ∈ m := by
  have ha : a ∈ l.filter (fun b => key b = key a) ↔ a ∈ m.filter fun b => key b = key a := by
    rw [h]
  simpa using ha

/-- Lists in the order of their keys are equal when for each key their items are. -/
theorem eq_of_filter_eq (hl : l.Pairwise fun a b => key a ≤ key b)
    (hm : m.Pairwise fun a b => key a ≤ key b)
    (h : ∀ k, l.filter (fun a => key a = k) = m.filter fun a => key a = k) : l = m := by
  induction l generalizing m with
  | nil =>
    cases m with
    | nil => rfl
    | cons b m =>
      exact absurd ((mem_iff_of_filter_eq h b).mpr List.mem_cons_self) List.not_mem_nil
  | cons a l ih =>
    cases m with
    | nil => exact absurd ((mem_iff_of_filter_eq h a).mp List.mem_cons_self) List.not_mem_nil
    | cons b m =>
      obtain ⟨hal, hl'⟩ := List.pairwise_cons.mp hl
      obtain ⟨hbm, hm'⟩ := List.pairwise_cons.mp hm
      -- both heads have the least key
      have hba : key b ≤ key a := by
        rcases List.mem_cons.mp ((mem_iff_of_filter_eq h a).mp List.mem_cons_self) with rfl | ha
        · exact le_rfl
        · exact hbm a ha
      have hab : key a ≤ key b := by
        rcases List.mem_cons.mp ((mem_iff_of_filter_eq h b).mpr List.mem_cons_self) with rfl | hb
        · exact le_rfl
        · exact hal b hb
      have hhead := h (key a)
      rw [List.filter_cons_of_pos (by simp), List.filter_cons_of_pos (by simp [le_antisymm hba hab])]
        at hhead
      obtain ⟨rfl, -⟩ := List.cons.inj hhead
      have htail : ∀ k, l.filter (fun x => key x = k) = m.filter fun x => key x = k := by
        intro k
        have hk := h k
        rw [List.filter_cons, List.filter_cons] at hk
        split at hk
        · exact (List.cons.inj hk).2
        · exact hk
      rw [ih hl' hm' htail]

/-- The sorted list is the one in the order of the keys that has the items of each key in their
order. -/
theorem sortByKey_eq (hm : m.Pairwise fun a b => key a ≤ key b)
    (h : ∀ k, m.filter (fun a => key a = k) = l.filter fun a => key a = k) :
    sortByKey key l = m :=
  eq_of_filter_eq sortByKey_pairwise hm fun k => (filter_sortByKey k).trans (h k).symm

/-- The items of the greatest key come last, in their order. -/
theorem sortByKey_append_top [OrderTop κ] :
    sortByKey key l = ((sortByKey key l).filter fun a => key a ≠ ⊤) ++ l.filter fun a => key a = ⊤ := by
  have hsplit : ∀ m : List α, m.Pairwise (fun a b => key a ≤ key b) →
      m = (m.filter fun a => key a ≠ ⊤) ++ m.filter fun a => key a = ⊤ := by
    intro m hm
    induction m with
    | nil => rfl
    | cons a m ih =>
      obtain ⟨ham, hm⟩ := List.pairwise_cons.mp hm
      by_cases ha : key a = ⊤
      · have htop : ∀ b ∈ m, key b = ⊤ := fun b hb => top_le_iff.mp (ha ▸ ham b hb)
        have hnone : (a :: m).filter (fun a => key a ≠ ⊤) = [] := by
          refine List.filter_eq_nil_iff.mpr fun b hb => ?_
          rcases List.mem_cons.mp hb with rfl | hb
          · simp [ha]
          · simp [htop b hb]
        have hall : (a :: m).filter (fun a => key a = ⊤) = a :: m := by
          refine List.filter_eq_self.mpr fun b hb => ?_
          rcases List.mem_cons.mp hb with rfl | hb
          · simp [ha]
          · simp [htop b hb]
        rw [hnone, hall, List.nil_append]
      · rw [List.filter_cons_of_pos (by simpa using ha), List.filter_cons_of_neg (by simpa using ha),
          List.cons_append, ← ih hm]
  have htop := hsplit (sortByKey key l) sortByKey_pairwise
  rwa [filter_sortByKey] at htop

/-- At most one item of a list with increasing keys has a given key. -/
theorem filter_eq_of_perm {rank : δ → κ} {ds es : List δ} (hperm : es.Perm ds)
    (hes : es.Pairwise fun d e => rank d < rank e) (k : κ) :
    es.filter (fun d => rank d = k) = ds.filter fun d => rank d = k := by
  have hfilter := hperm.filter fun d => decide (rank d = k)
  have hpairwise := hes.filter fun d => decide (rank d = k)
  cases hcase : es.filter fun d => decide (rank d = k) with
  | nil =>
    rw [hcase] at hfilter
    exact hfilter.nil_eq
  | cons d rest =>
    cases rest with
    | nil =>
      rw [hcase] at hfilter
      exact hfilter.singleton_eq
    | cons e rest =>
      have hmem : ∀ x ∈ d :: e :: rest, rank x = k := by
        intro x hx
        rw [← hcase] at hx
        simpa using (List.mem_filter.mp hx).2
      rw [hcase] at hpairwise
      have hlt := (List.pairwise_cons.mp hpairwise).1 e List.mem_cons_self
      rw [hmem d (by simp), hmem e (by simp)] at hlt
      exact absurd hlt (lt_irrefl k)

/-- A list of blocks with a key for each is sorted by arranging the blocks. -/
theorem sortByKey_flatMap {rank : δ → κ} {block : δ → List α} {ds es : List δ}
    (hblock : ∀ d ∈ ds, ∀ a ∈ block d, key a = rank d) (hperm : es.Perm ds)
    (hes : es.Pairwise fun d e => rank d < rank e) :
    sortByKey key (ds.flatMap block) = es.flatMap block := by
  have hblock' : ∀ d ∈ es, ∀ a ∈ block d, key a = rank d := fun d hd =>
    hblock d (hperm.subset hd)
  refine sortByKey_eq ?_ fun k => ?_
  · rw [List.pairwise_flatMap]
    constructor
    · intro d hd
      refine List.pairwise_iff_forall_sublist.mpr fun {a b} hab => ?_
      have ha := hblock' d hd a (hab.subset (by simp))
      have hb := hblock' d hd b (hab.subset (by simp))
      rw [ha, hb]
    · refine hes.imp_of_mem fun {d e} hd he hlt a ha b hb => ?_
      rw [hblock' d hd a ha, hblock' e he b hb]
      exact le_of_lt hlt
  · have hfilter : ∀ fs : List δ, (∀ d ∈ fs, ∀ a ∈ block d, key a = rank d) →
        (fs.flatMap block).filter (fun a => key a = k)
          = (fs.filter fun d => rank d = k).flatMap block := by
      intro fs hfs
      induction fs with
      | nil => rfl
      | cons d fs ih =>
        rw [List.flatMap_cons, List.filter_append, ih fun e he => hfs e (List.mem_cons_of_mem _ he),
          List.filter_cons]
        have hd : ∀ a ∈ block d, key a = rank d := hfs d List.mem_cons_self
        by_cases hk : rank d = k
        · have hall : (block d).filter (fun a => key a = k) = block d :=
            List.filter_eq_self.mpr fun a ha => decide_eq_true ((hd a ha).trans hk)
          rw [hall, if_pos (decide_eq_true hk), List.flatMap_cons]
        · have hnone : (block d).filter (fun a => key a = k) = [] :=
            List.filter_eq_nil_iff.mpr fun a ha => by simp [hd a ha, hk]
          rw [hnone, if_neg (by simpa using hk), List.nil_append]
    rw [hfilter es hblock', hfilter ds hblock, filter_eq_of_perm hperm hes]

end NnsVerified.Library
