import Mathlib.Data.List.Basic
import Mathlib.Data.List.Nodup
import Mathlib.Logic.Function.Basic

/-!
# Finite maps with fallible operations, and first-writer-wins registration

A finite map whose operations may fail (`MapOps`), the laws of one that behaves on a class of good
keys (`MapOps.Lawful`), and what such a map means: a partial function (`MapOps.view`).

Over that meaning, `register` binds a key unless it is bound already, and `registerAll` does so for
a list of bindings: each key keeps its first one. `MapOps.insertNew` is the same on the map itself.
-/

namespace NnsVerified.Library

variable {ε M κ υ : Type}

/-- The operations of a finite map. -/
structure MapOps (ε M κ υ : Type) where
  nul : M
  get : M → κ → Except ε (Option υ)
  has : M → κ → Except ε Bool
  /-- Give a key a value. -/
  put : M → κ → υ → Except ε M
  tap : M → List (κ × υ)
  wyt : M → Nat

namespace MapOps

/-- The maps built from the empty one by putting values at good keys. -/
inductive Built (ops : MapOps ε M κ υ) (good : κ → Prop) : M → Prop where
  | nul : Built ops good ops.nul
  | put {m m' : M} {k : κ} {v : υ} (hm : Built ops good m) (hk : good k)
      (h : ops.put m k v = .ok m') : Built ops good m'

/-- The laws of a finite map on its good keys. Only `get_mem_tap` speaks about every value of the
representation type, also one that no sequence of `put` builds. -/
structure Lawful [DecidableEq κ] (ops : MapOps ε M κ υ) (good : κ → Prop) : Prop where
  get_nul : ∀ {k}, good k → ops.get ops.nul k = .ok none
  put_ok : ∀ {m k} (v), ops.Built good m → good k → ∃ m', ops.put m k v = .ok m'
  get_put : ∀ {m m' k k' v}, ops.Built good m → good k → good k' → ops.put m k v = .ok m' →
    ops.get m' k' = if k' = k then .ok (some v) else ops.get m k'
  has_eq : ∀ {m k}, ops.Built good m → good k → ops.has m k = (ops.get m k).map Option.isSome
  tap_nodup : ∀ {m}, ops.Built good m → ((ops.tap m).map Prod.fst).Nodup
  tap_good : ∀ {m k v}, ops.Built good m → (k, v) ∈ ops.tap m → good k
  mem_tap : ∀ {m k v}, ops.Built good m → good k →
    ((k, v) ∈ ops.tap m ↔ ops.get m k = .ok (some v))
  get_mem_tap : ∀ {m k v}, ops.get m k = .ok (some v) → (k, v) ∈ ops.tap m
  wyt_eq : ∀ {m}, ops.Built good m → ops.wyt m = (ops.tap m).length

/-- The partial function that a map denotes. -/
def view (ops : MapOps ε M κ υ) (m : M) (k : κ) : Option υ :=
  match ops.get m k with
  | .ok r => r
  | .error _ => none

end MapOps

/-! ## First writer wins -/

section Register

variable [DecidableEq κ]

/-- Bind `k` to `v` unless it is bound already. -/
def register (f : κ → Option υ) (k : κ) (v : υ) : κ → Option υ :=
  fun k' => (f k').or (if k' = k then some v else none)

/-- Register a list of bindings, in order. -/
def registerAll (f : κ → Option υ) (l : List (κ × υ)) : κ → Option υ :=
  l.foldl (fun g kv => register g kv.1 kv.2) f

@[simp] theorem registerAll_nil (f : κ → Option υ) : registerAll f [] = f := rfl

@[simp] theorem registerAll_cons (f : κ → Option υ) (kv : κ × υ) (l : List (κ × υ)) :
    registerAll f (kv :: l) = registerAll (register f kv.1 kv.2) l := rfl

theorem registerAll_append (f : κ → Option υ) (l l' : List (κ × υ)) :
    registerAll f (l ++ l') = registerAll (registerAll f l) l' :=
  List.foldl_append

theorem register_of_some {f : κ → Option υ} {k' : κ} {v' : υ} (h : f k' = some v') (k : κ) (v : υ) :
    register f k v k' = some v' := by
  simp [register, h]

theorem register_bound {f : κ → Option υ} {k : κ} (h : (f k).isSome) (v : υ) :
    register f k v = f := by
  obtain ⟨w, hw⟩ := Option.isSome_iff_exists.mp h
  funext k'
  by_cases e : k' = k
  · rw [e, register_of_some hw, hw]
  · simp [register, e]

/-- Registering a list of bindings gives each free key the first of its bindings. -/
theorem registerAll_apply (f : κ → Option υ) (l : List (κ × υ)) (k : κ) :
    registerAll f l k = (f k).or ((l.find? fun kv => kv.1 = k).map Prod.snd) := by
  induction l generalizing f with
  | nil => simp
  | cons kv l ih =>
    rw [registerAll_cons, ih, register, Option.or_assoc]
    congr 1
    by_cases h : k = kv.1
    · simp [h]
    · simp [h, Ne.symm h]

/-- Registration at one key depends on the map at that key only. -/
theorem registerAll_congr_at {f g : κ → Option υ} {k : κ} (h : f k = g k) (l : List (κ × υ)) :
    registerAll f l k = registerAll g l k := by
  rw [registerAll_apply, registerAll_apply, h]

/-- Where the key of a name is the key of no other name, the first binding of the key is the first
item of the name. -/
theorem find?_map_key {α ν : Type} [DecidableEq ν] {l : List α} {nameOf : α → ν} {key : ν → κ}
    {value : α → υ} {name : ν} (h : ∀ a ∈ l, key (nameOf a) = key name → nameOf a = name) :
    ((l.map fun a => (key (nameOf a), value a)).find? fun kv => kv.1 = key name).map Prod.snd =
      (l.find? fun a => nameOf a = name).map value := by
  induction l with
  | nil => rfl
  | cons a l ih =>
    have htail := ih fun x hx => h x (List.mem_cons_of_mem _ hx)
    by_cases hname : nameOf a = name
    · simp [hname]
    · have hne : key (nameOf a) ≠ key name := fun heq => hname (h a (by simp) heq)
      rw [List.map_cons, List.find?_cons_of_neg (by simpa using hne),
        List.find?_cons_of_neg (by simpa using hname)]
      exact htail

/-- Only the order of the bindings of each key matters. -/
theorem registerAll_congr_of_filter {l l' : List (κ × υ)}
    (h : ∀ k, (l.filter fun kv => kv.1 = k) = l'.filter fun kv => kv.1 = k) (f : κ → Option υ) :
    registerAll f l = registerAll f l' := by
  funext k
  rw [registerAll_apply, registerAll_apply, ← List.head?_filter, ← List.head?_filter, h k]

theorem registerAll_isSome {f : κ → Option υ} {l : List (κ × υ)} {kv : κ × υ} (h : kv ∈ l) :
    (registerAll f l kv.1).isSome := by
  have hfind : (l.find? fun x => x.1 = kv.1).isSome :=
    List.find?_isSome.mpr ⟨kv, h, by simp⟩
  rw [registerAll_apply, Option.isSome_or, Option.isSome_map, hfind, Bool.or_true]

/-- The bindings of a list that take effect: those of a free key that no earlier one binds. -/
def winners (f : κ → Option υ) : List (κ × υ) → List (κ × υ)
  | [] => []
  | kv :: l =>
    if (f kv.1).isSome then winners f l else kv :: winners (register f kv.1 kv.2) l

/-- The winners have free keys, pairwise distinct. -/
theorem winners_free (f : κ → Option υ) (l : List (κ × υ)) :
    (∀ kv ∈ winners f l, f kv.1 = none) ∧ ((winners f l).map Prod.fst).Nodup := by
  induction l generalizing f with
  | nil => simp [winners]
  | cons kv l ih =>
    rw [winners]
    split
    · exact ih f
    · rename_i hs
      obtain ⟨hfree, hnodup⟩ := ih (register f kv.1 kv.2)
      have hback : ∀ x ∈ winners (register f kv.1 kv.2) l, f x.1 = none ∧ x.1 ≠ kv.1 := by
        intro x hx
        have hx' := hfree x hx
        simp only [register, Option.or_eq_none_iff] at hx'
        exact ⟨hx'.1, fun e => by simp [e] at hx'⟩
      refine ⟨?_, ?_⟩
      · intro x hx
        rcases List.mem_cons.mp hx with rfl | hx
        · simpa using hs
        · exact (hback x hx).1
      · rw [List.map_cons, List.nodup_cons]
        refine ⟨?_, hnodup⟩
        intro hmem
        obtain ⟨x, hx, hxk⟩ := List.mem_map.mp hmem
        exact (hback x hx).2 hxk

theorem winners_sublist (f : κ → Option υ) (l : List (κ × υ)) : (winners f l).Sublist l := by
  induction l generalizing f with
  | nil => exact List.Sublist.refl []
  | cons kv l ih =>
    rw [winners]
    split
    · exact (ih f).cons kv
    · exact (ih _).cons_cons kv

/-- The winners depend on the map at the keys of the bindings only. -/
theorem winners_congr {f g : κ → Option υ} {l : List (κ × υ)} (h : ∀ kv ∈ l, f kv.1 = g kv.1) :
    winners f l = winners g l := by
  induction l generalizing f g with
  | nil => rfl
  | cons kv l ih =>
    have hreg : ∀ x ∈ l, register f kv.1 kv.2 x.1 = register g kv.1 kv.2 x.1 := by
      intro x hx
      rw [register, register, h x (List.mem_cons_of_mem _ hx)]
    rw [winners, winners, h kv (by simp), ih hreg, ih fun x hx => h x (List.mem_cons_of_mem _ hx)]

/-- What is bound after registering a list: what was bound before, and the winners. -/
theorem registerAll_eq_some_iff (f : κ → Option υ) (l : List (κ × υ)) (k : κ) (v : υ) :
    registerAll f l k = some v ↔ f k = some v ∨ (k, v) ∈ winners f l := by
  induction l generalizing f with
  | nil => simp [winners]
  | cons kv l ih =>
    rw [registerAll_cons, ih, winners]
    split
    · rename_i hs
      rw [register_bound hs]
    · rename_i hs
      have hnone : f kv.1 = none := by simpa using hs
      rw [List.mem_cons, ← or_assoc]
      refine or_congr_left ?_
      by_cases h : k = kv.1
      · subst h
        simp [register, hnone, Prod.ext_iff, eq_comm]
      · simp [register, h, Prod.ext_iff]

end Register

/-! ## Meaning of the operations -/

namespace MapOps

variable [DecidableEq κ] {ops : MapOps ε M κ υ} {good : κ → Prop}

/-- Bind a key unless it is bound already. -/
def insertNew (ops : MapOps ε M κ υ) (m : M) (k : κ) (v : υ) : Except ε M := do
  if ← ops.has m k then pure m else ops.put m k v

theorem Lawful.get_ok (hl : ops.Lawful good) {m : M} (hm : ops.Built good m) {k : κ} (hk : good k) :
    ∃ r, ops.get m k = .ok r := by
  induction hm with
  | nul => exact ⟨none, hl.get_nul hk⟩
  | put hm hk' h ih =>
    rw [hl.get_put hm hk' hk h]
    split
    · exact ⟨_, rfl⟩
    · exact ih

theorem Lawful.get_eq_view (hl : ops.Lawful good) {m : M} (hm : ops.Built good m) {k : κ}
    (hk : good k) : ops.get m k = .ok (ops.view m k) := by
  obtain ⟨r, hr⟩ := hl.get_ok hm hk
  simp [view, hr]

theorem Lawful.has_eq_view (hl : ops.Lawful good) {m : M} (hm : ops.Built good m) {k : κ}
    (hk : good k) : ops.has m k = .ok (ops.view m k).isSome := by
  rw [hl.has_eq hm hk, hl.get_eq_view hm hk]
  rfl

theorem Lawful.view_nul (hl : ops.Lawful good) {k : κ} (hk : good k) : ops.view ops.nul k = none := by
  simp [view, hl.get_nul hk]

theorem Lawful.view_put (hl : ops.Lawful good) {m m' : M} {k k' : κ} {v : υ}
    (hm : ops.Built good m) (hk : good k) (hk' : good k') (h : ops.put m k v = .ok m') :
    ops.view m' k' = if k' = k then some v else ops.view m k' := by
  have hget := hl.get_put hm hk hk' h
  by_cases e : k' = k
  · rw [if_pos e] at hget
    rw [if_pos e, view, hget]
  · rw [if_neg e] at hget
    rw [if_neg e, view, hget]
    rfl

/-- The rows of a built map are the graph of what it denotes. -/
theorem Lawful.mem_tap_iff (hl : ops.Lawful good) {m : M} (hm : ops.Built good m) {k : κ} {v : υ} :
    (k, v) ∈ ops.tap m ↔ good k ∧ ops.view m k = some v := by
  constructor
  · intro h
    have hk := hl.tap_good hm h
    have hget := (hl.mem_tap hm hk).mp h
    exact ⟨hk, by simp [view, hget]⟩
  · rintro ⟨hk, hv⟩
    rw [hl.mem_tap hm hk, hl.get_eq_view hm hk, hv]

/-- `insertNew` succeeds on a built map and registers the binding. -/
theorem Lawful.insertNew_spec (hl : ops.Lawful good) {m : M} (hm : ops.Built good m) {k : κ}
    (hk : good k) (v : υ) :
    ∃ m', ops.insertNew m k v = .ok m' ∧ ops.Built good m' ∧
      ∀ k', good k' → ops.view m' k' = register (ops.view m) k v k' := by
  have hhas := hl.has_eq_view hm hk
  cases hview : ops.view m k with
  | some w =>
    refine ⟨m, by simp [insertNew, hhas, hview, bind, Except.bind, pure, Except.pure], hm, ?_⟩
    intro k' _
    rw [register_bound (by simp [hview])]
  | none =>
    obtain ⟨m', hput⟩ := hl.put_ok v hm hk
    refine ⟨m', by simp [insertNew, hhas, hview, hput, bind, Except.bind], .put hm hk hput, ?_⟩
    intro k' hk'
    rw [hl.view_put hm hk hk' hput]
    by_cases h : k' = k
    · simp [register, h, hview]
    · simp [register, h]

/-- The rule for loops: when each turn keeps an invariant and registers its bindings, so does the
whole loop. -/
theorem foldlM_registers {α : Type} {I : M → Prop} {f : M → α → Except ε M}
    {bindings : α → List (κ × υ)}
    (hstep : ∀ m a, I m → ∃ m', f m a = .ok m' ∧ I m' ∧
      ∀ k, good k → ops.view m' k = registerAll (ops.view m) (bindings a) k)
    (l : List α) {m : M} (hm : I m) :
    ∃ m', l.foldlM f m = .ok m' ∧ I m' ∧
      ∀ k, good k → ops.view m' k = registerAll (ops.view m) (l.flatMap bindings) k := by
  induction l generalizing m with
  | nil => exact ⟨m, rfl, hm, fun k _ => rfl⟩
  | cons a l ih =>
    obtain ⟨m₁, hf, h₁, hview₁⟩ := hstep m a hm
    obtain ⟨m', hrest, h', hview'⟩ := ih h₁
    refine ⟨m', by rw [List.foldlM_cons, hf]; exact hrest, h', fun k hk => ?_⟩
    rw [List.flatMap_cons, registerAll_append, hview' k hk]
    exact registerAll_congr_at (hview₁ k hk) _

end MapOps

/-! ## Association lists

The simplest lawful map, with every key good. -/

section Assoc

variable [DecidableEq κ]

/-- An association list with distinct keys: `put` replaces the row of its key or adds one. -/
def assocOps (ε κ υ : Type) [DecidableEq κ] : MapOps ε (List (κ × υ)) κ υ where
  nul := []
  get m k := .ok ((m.find? fun kv => kv.1 = k).map Prod.snd)
  has m k := .ok (m.find? fun kv => kv.1 = k).isSome
  put m k v := .ok ((k, v) :: m.filter fun kv => kv.1 ≠ k)
  tap m := m
  wyt m := m.length

theorem assoc_built_nodup {good : κ → Prop} {m : List (κ × υ)}
    (hm : (assocOps ε κ υ).Built good m) : (m.map Prod.fst).Nodup ∧ ∀ kv ∈ m, good kv.1 := by
  induction hm with
  | nul => simp [assocOps]
  | put _ hk h ih =>
    obtain rfl := (Except.ok.inj h).symm
    refine ⟨?_, ?_⟩
    · rw [List.map_cons, List.nodup_cons]
      refine ⟨?_, (List.filter_sublist.map Prod.fst).nodup ih.1⟩
      intro hmem
      obtain ⟨x, hx, rfl⟩ := List.mem_map.mp hmem
      simp at hx
    · intro kv hkv
      rcases List.mem_cons.mp hkv with rfl | hkv
      · exact hk
      · exact ih.2 kv (List.mem_of_mem_filter hkv)

theorem find?_filter_ne (m : List (κ × υ)) {k k' : κ} (h : k' ≠ k) :
    (m.filter fun kv => kv.1 ≠ k).find? (fun kv => kv.1 = k') = m.find? fun kv => kv.1 = k' := by
  rw [List.find?_filter]
  congr 1
  funext kv
  by_cases e : kv.1 = k'
  · simp [e, h]
  · simp [e]

theorem assoc_mem_iff {m : List (κ × υ)} (hm : (m.map Prod.fst).Nodup) (k : κ) (v : υ) :
    (k, v) ∈ m ↔ (m.find? fun kv => kv.1 = k).map Prod.snd = some v := by
  constructor
  · intro h
    obtain ⟨w, hw⟩ : ∃ w, m.find? (fun kv => kv.1 = k) = some (k, w) := by
      cases hf : m.find? fun kv => kv.1 = k with
      | none => exact absurd (List.find?_eq_none.mp hf (k, v) h) (by simp)
      | some kv =>
        have hk : kv.1 = k := by simpa using List.find?_some hf
        exact ⟨kv.2, by rw [← hk]⟩
    have hmem := List.mem_of_find?_eq_some hw
    rw [hw, Option.map_some, Option.some.injEq]
    exact (Prod.mk.inj (List.inj_on_of_nodup_map hm hmem h rfl)).2
  · intro h
    obtain ⟨kv, hf, rfl⟩ := Option.map_eq_some_iff.mp h
    have hk : kv.1 = k := by simpa using List.find?_some hf
    rw [← hk]
    exact List.mem_of_find?_eq_some hf

theorem assocOps_lawful (good : κ → Prop) : (assocOps ε κ υ).Lawful good where
  get_nul _ := rfl
  put_ok _ _ _ := ⟨_, rfl⟩
  get_put := by
    intro m m' k k' v _ _ _ h
    obtain rfl := (Except.ok.inj h).symm
    by_cases e : k' = k
    · simp [assocOps, e]
    · simp only [assocOps, e, if_false]
      rw [List.find?_cons_of_neg (by simpa using Ne.symm e), find?_filter_ne m e]
  has_eq := by
    intro m k _ _
    simp [assocOps, Except.map]
  tap_nodup hm := (assoc_built_nodup hm).1
  tap_good hm h := (assoc_built_nodup hm).2 _ h
  mem_tap := by
    intro m k v hm _
    rw [show (assocOps ε κ υ).tap m = m from rfl, assoc_mem_iff (assoc_built_nodup hm).1]
    simp [assocOps]
  get_mem_tap := by
    intro m k v h
    obtain ⟨kv, hf, rfl⟩ := Option.map_eq_some_iff.mp (Except.ok.inj h)
    have hk : kv.1 = k := by simpa using List.find?_some hf
    rw [← hk]
    exact List.mem_of_find?_eq_some hf
  wyt_eq _ := rfl

end Assoc

end NnsVerified.Library
