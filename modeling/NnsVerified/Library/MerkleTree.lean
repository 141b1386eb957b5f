import Mathlib.Data.List.GetD
import Mathlib.Data.List.Infix
import Mathlib.Tactic.Common

/-!
# Merkle trees whose last node is paired with itself

A level of digests is hashed in pairs, and the last digest of a level of odd length with itself,
until one digest is left: the root. The path of a position is the list of the siblings on the way to
the root, each with the side that it stands on.

The hash is a parameter. What the results need of it is that the calls that a computation really
makes do not collide (`CollisionFree`), which also keeps the hash of a leaf apart from that of a
pair. Then only the leaves of the tree have paths to its root (`mem_of_climb`), and two lists of
leaves with one root have the same members (`mem_iff_of_root_eq`), and are equal if they are equally
long (`eq_of_root_eq`). A list of odd length has the root of the list with its last leaf repeated.
-/

namespace NnsVerified.Library

variable {L D : Type}

/-- The two uses of a hash. -/
inductive HashCall (L D : Type) where
  | leaf (x : L)
  | pair (a b : D)

/-- How a tree hashes its leaves and its pairs. -/
structure MerkleHash (L D : Type) where
  leaf : L → D
  pair : D → D → D

namespace MerkleHash

variable (H : MerkleHash L D)

/-- The digest that a call returns. -/
def value : HashCall L D → D
  | .leaf x => H.leaf x
  | .pair a b => H.pair a b

/-- No two of the calls have one digest. -/
def CollisionFree (calls : List (HashCall L D)) : Prop :=
  ∀ c ∈ calls, ∀ c' ∈ calls, H.value c = H.value c' → c = c'

/-! ## The tree -/

/-- The level above a level. -/
def nextLevel : List D → List D
  | [] => []
  | [a] => [H.pair a a]
  | a :: b :: level => H.pair a b :: nextLevel level

theorem length_nextLevel (level : List D) :
    (H.nextLevel level).length = (level.length + 1) / 2 := by
  induction level using nextLevel.induct with
  | case1 => simp [nextLevel]
  | case2 a => simp [nextLevel]
  | case3 a b level ih =>
    rw [nextLevel, List.length_cons, ih]
    simp only [List.length_cons]
    omega

/-- The root of a level; no root is computed from nothing. -/
def root : List D → Option D
  | [] => none
  | [a] => some a
  | a :: b :: level => root (H.nextLevel (a :: b :: level))
termination_by level => level.length
decreasing_by
  rw [length_nextLevel]
  simp only [List.length_cons]
  omega

/-- The sibling of a position, or the digest itself at the end of a level of odd length. -/
def sibling (level : List D) (i : Nat) : Option D :=
  level[if i % 2 = 0 then i + 1 else i - 1]?.or level[i]?

/-- The siblings on the way from a position to the root, with `true` for one that stands on the left.
There is no path from a position outside of the level. -/
def path : List D → Nat → Option (List (D × Bool))
  | [], _ => none
  | [_], _ => some []
  | a :: b :: level, i => do
    let sib ← sibling (a :: b :: level) i
    let rest ← path (H.nextLevel (a :: b :: level)) (i / 2)
    return (sib, decide (i % 2 = 1)) :: rest
termination_by level => level.length
decreasing_by
  rw [length_nextLevel]
  simp only [List.length_cons]
  omega

/-- The digest above a digest and its sibling. -/
def node (h : D) (sibling : D × Bool) : D :=
  if sibling.2 then H.pair sibling.1 h else H.pair h sibling.1

/-- The digest that a path leads to. -/
def climb (h : D) : List (D × Bool) → D
  | [] => h
  | sibling :: path => climb (H.node h sibling) path

/-! ## The calls -/

/-- The calls for the parents of a level. -/
def levelCalls : List D → List (HashCall L D)
  | [] => []
  | [a] => [.pair a a]
  | a :: b :: level => .pair a b :: levelCalls level

/-- The calls of a root, without those of the leaves. -/
def rootCalls : List D → List (HashCall L D)
  | [] => []
  | [_] => []
  | a :: b :: level =>
    levelCalls (a :: b :: level) ++ rootCalls (H.nextLevel (a :: b :: level))
termination_by level => level.length
decreasing_by
  rw [length_nextLevel]
  simp only [List.length_cons]
  omega

/-- The call that a sibling takes one level up. -/
def nodeCall (h : D) (sibling : D × Bool) : HashCall L D :=
  if sibling.2 then .pair sibling.1 h else .pair h sibling.1

/-- The calls along a path. -/
def climbCalls (h : D) : List (D × Bool) → List (HashCall L D)
  | [] => []
  | sibling :: path => nodeCall h sibling :: climbCalls (H.node h sibling) path

/-- All calls of the tree of a list of leaves. -/
def treeCalls (leaves : List L) : List (HashCall L D) :=
  leaves.map .leaf ++ H.rootCalls (leaves.map H.leaf)

/-- All calls of a climb from a leaf. -/
def pathCalls (x : L) (path : List (D × Bool)) : List (HashCall L D) :=
  .leaf x :: H.climbCalls (H.leaf x) path

variable {H}

theorem CollisionFree.subset {calls calls' : List (HashCall L D)} (h : H.CollisionFree calls')
    (hsub : calls ⊆ calls') : H.CollisionFree calls :=
  fun c hc c' hc' => h c (hsub hc) c' (hsub hc')

/-- Calls that do not collide are told apart by their digests. -/
theorem CollisionFree.eq_of_map_value_eq {calls calls' : List (HashCall L D)}
    (h : H.CollisionFree (calls ++ calls')) (heq : calls.map H.value = calls'.map H.value) :
    calls = calls' := by
  have hlen : calls.length = calls'.length := by simpa using congrArg List.length heq
  refine List.ext_getElem hlen fun i hi hi' => ?_
  refine h _ (List.mem_append_left _ (List.getElem_mem hi)) _
    (List.mem_append_right _ (List.getElem_mem hi')) ?_
  have hat := congrArg (·[i]?) heq
  simpa [List.getElem?_eq_getElem hi, List.getElem?_eq_getElem hi'] using hat

theorem value_nodeCall (h : D) (sibling : D × Bool) :
    H.value (nodeCall h sibling) = H.node h sibling := by
  unfold nodeCall node
  split <;> rfl

theorem climb_append (h : D) (p q : List (D × Bool)) :
    H.climb h (p ++ q) = H.climb (H.climb h p) q := by
  induction p generalizing h with
  | nil => rfl
  | cons s p ih => exact ih _

theorem climbCalls_append (h : D) (p q : List (D × Bool)) :
    H.climbCalls h (p ++ q) = H.climbCalls h p ++ H.climbCalls (H.climb h p) q := by
  induction p generalizing h with
  | nil => rfl
  | cons s p ih => exact congrArg _ (ih _)

/-- The digests of a level are the values of its calls. -/
theorem nextLevel_eq_map (level : List D) :
    H.nextLevel level = (levelCalls level).map H.value := by
  induction level using nextLevel.induct with
  | case1 => rfl
  | case2 a => rfl
  | case3 a b level ih => exact congrArg (H.pair a b :: ·) ih

theorem mem_of_mem_levelCalls {level : List D} {c : HashCall L D} (h : c ∈ levelCalls level) :
    ∃ a ∈ level, ∃ b ∈ level, c = .pair a b := by
  induction level using nextLevel.induct with
  | case1 => cases h
  | case2 a =>
    obtain rfl := List.mem_singleton.mp h
    exact ⟨a, List.mem_singleton_self a, a, List.mem_singleton_self a, rfl⟩
  | case3 a b level ih =>
    rcases List.mem_cons.mp h with rfl | h
    · exact ⟨a, by simp, b, by simp, rfl⟩
    · obtain ⟨x, hx, y, hy, rfl⟩ := ih h
      exact ⟨x, by simp [hx], y, by simp [hy], rfl⟩

/-! ## Paths -/

theorem getElem?_levelCalls (level : List D) (i : Nat) : (levelCalls level)[i]? =
    level[2 * i]?.map fun a => (.pair a (level[2 * i + 1]?.getD a) : HashCall L D) := by
  induction level using nextLevel.induct generalizing i with
  | case1 => simp [levelCalls]
  | case2 a => cases i <;> simp [levelCalls, Nat.mul_succ]
  | case3 a b level ih =>
    cases i with
    | zero => simp [levelCalls]
    | succ i => simpa [levelCalls, Nat.mul_succ] using ih i

/-- A digest and its sibling make the digest above them, and its call. -/
theorem nodeCall_sibling {level : List D} {i : Nat} {h sib : D} (hi : level[i]? = some h)
    (hsib : sibling level i = some sib) :
    (levelCalls level)[i / 2]? = some (nodeCall (L := L) h (sib, decide (i % 2 = 1))) := by
  rw [getElem?_levelCalls]
  unfold sibling at hsib
  rcases Nat.mod_two_eq_zero_or_one i with heven | hodd
  · rw [if_pos heven, hi] at hsib
    rw [show 2 * (i / 2) = i by omega, hi]
    have hsib' : level[i + 1]?.getD h = sib := by
      cases hnext : level[i + 1]? with
      | none => simpa [hnext] using hsib
      | some x => simpa [hnext] using hsib
    simp [nodeCall, heven, hsib']
  · have hlt : i < level.length := (List.getElem?_eq_some_iff.mp hi).1
    obtain ⟨x, hx⟩ : ∃ x, level[i - 1]? = some x :=
      ⟨_, List.getElem?_eq_getElem (show i - 1 < level.length by omega)⟩
    rw [if_neg (by omega), hx] at hsib
    obtain rfl : x = sib := Option.some.inj hsib
    rw [show 2 * (i / 2) = i - 1 by omega, show i - 1 + 1 = i by omega, hx, hi]
    simp [nodeCall, hodd]

theorem sibling_isSome {level : List D} {i : Nat} (hi : i < level.length) :
    (sibling level i).isSome := by
  unfold sibling
  rw [Option.isSome_or, List.getElem?_eq_getElem hi]
  simp

/-- Each position of a level has a path, which leads to the root by calls of the tree. -/
theorem climb_path {level : List D} {i : Nat} {h : D} (hi : level[i]? = some h) :
    ∃ p, H.path level i = some p ∧ H.root level = some (H.climb h p) ∧
      H.climbCalls h p ⊆ H.rootCalls level := by
  induction level, i using path.induct H generalizing h with
  | case1 i => simp at hi
  | case2 a i =>
    obtain rfl : i = 0 := by
      have := (List.getElem?_eq_some_iff.mp hi).1
      simpa using this
    obtain rfl : a = h := by simpa using hi
    exact ⟨[], by rw [path], by rw [root]; rfl, by simp [climbCalls]⟩
  | case3 a b level i ih =>
    set full := a :: b :: level with hfull
    have hlt : i < full.length := (List.getElem?_eq_some_iff.mp hi).1
    obtain ⟨sib, hsib⟩ := Option.isSome_iff_exists.mp (sibling_isSome hlt)
    have hcall := nodeCall_sibling (L := L) hi hsib
    have hnext : (H.nextLevel full)[i / 2]? = some (H.node h (sib, decide (i % 2 = 1))) := by
      rw [nextLevel_eq_map, List.getElem?_map, hcall, Option.map_some, value_nodeCall]
    obtain ⟨p, hp, hroot, hcalls⟩ := ih hnext
    refine ⟨(sib, decide (i % 2 = 1)) :: p, ?_, ?_, ?_⟩
    · rw [hfull, path, ← hfull, hsib, hp]
      rfl
    · rw [hfull, root, ← hfull]
      exact hroot
    · rw [hfull, rootCalls, climbCalls, ← hfull]
      refine List.cons_subset.mpr ⟨List.mem_append_left _ (List.mem_of_getElem? hcall), ?_⟩
      exact List.Subset.trans hcalls (List.subset_append_right _ _)

/-! ## Only leaves have paths -/

/-- A path to the root of a level comes through the level, unless it starts above it. -/
theorem climb_crosses {level : List D} {h : D} {p : List (D × Bool)}
    (hroot : H.root level = some (H.climb h p))
    (hfree : H.CollisionFree (H.rootCalls level ++ H.climbCalls h p))
    (hfresh : ∀ c ∈ H.rootCalls (L := L) level, H.value c ≠ h) :
    ∃ q t, p = q ++ t ∧ H.climb h q ∈ level := by
  induction level using root.induct H with
  | case1 =>
    rw [root] at hroot
    cases hroot
  | case2 a =>
    rw [root] at hroot
    exact ⟨p, [], (List.append_nil p).symm, by simpa using (Option.some.inj hroot).symm⟩
  | case3 a b level ih =>
    set full := a :: b :: level with hfull
    rw [hfull, root, ← hfull] at hroot
    rw [hfull, rootCalls, ← hfull] at hfree hfresh
    rw [List.append_assoc] at hfree
    obtain ⟨q, t, rfl, hmem⟩ := ih hroot (hfree.subset (List.subset_append_right _ _))
      fun c hc => hfresh c (List.mem_append_right _ hc)
    rw [nextLevel_eq_map] at hmem
    obtain ⟨c, hc, hvalue⟩ := List.mem_map.mp hmem
    rcases List.eq_nil_or_concat' q with rfl | ⟨q, s, rfl⟩
    · exact absurd hvalue (hfresh c (List.mem_append_left _ hc))
    · rw [List.append_assoc, climbCalls_append] at hfree
      rw [climb_append] at hvalue
      -- the last step of the path and the call of the tree are one call
      obtain rfl : c = nodeCall (H.climb h q) s :=
        hfree c (List.mem_append_left _ hc) _ (List.mem_append_right _ (List.mem_append_right _
          (List.mem_append_right _ List.mem_cons_self))) (hvalue.trans (value_nodeCall _ _).symm)
      obtain ⟨x, hx, y, hy, hpair⟩ := mem_of_mem_levelCalls hc
      refine ⟨q, [s] ++ t, List.append_assoc _ _ _, ?_⟩
      unfold nodeCall at hpair
      split at hpair
      · obtain ⟨-, rfl⟩ := HashCall.pair.inj hpair
        exact hy
      · obtain ⟨rfl, -⟩ := HashCall.pair.inj hpair
        exact hx

theorem mem_rootCalls {level : List D} {c : HashCall L D} (h : c ∈ H.rootCalls level) :
    ∃ a b, c = .pair a b := by
  induction level using root.induct H with
  | case1 =>
    rw [rootCalls] at h
    cases h
  | case2 a =>
    rw [rootCalls] at h
    cases h
  | case3 a b level ih =>
    rw [rootCalls] at h
    rcases List.mem_append.mp h with h | h
    · obtain ⟨x, -, y, -, rfl⟩ := mem_of_mem_levelCalls h
      exact ⟨x, y, rfl⟩
    · exact ih h

/-- What has a path to the root of a tree is a leaf of the tree. -/
theorem mem_of_climb {leaves : List L} {x : L} {p : List (D × Bool)}
    (hfree : H.CollisionFree (H.treeCalls leaves ++ H.pathCalls x p))
    (hroot : H.root (leaves.map H.leaf) = some (H.climb (H.leaf x) p)) : x ∈ leaves := by
  have hleaf : HashCall.leaf x ∈ H.treeCalls leaves ++ H.pathCalls x p :=
    List.mem_append_right _ List.mem_cons_self
  have hfresh : ∀ c ∈ H.rootCalls (L := L) (leaves.map H.leaf), H.value c ≠ H.leaf x := by
    intro c hc hvalue
    obtain ⟨a, b, rfl⟩ := mem_rootCalls hc
    cases hfree _ (List.mem_append_left _ (List.mem_append_right _ hc)) _ hleaf hvalue
  obtain ⟨q, t, rfl, hmem⟩ := climb_crosses hroot (hfree.subset
    (List.append_subset.mpr ⟨fun c hc => List.mem_append_left _ (List.mem_append_right _ hc),
      fun c hc => List.mem_append_right _ (List.mem_cons_of_mem _ hc)⟩)) hfresh
  obtain ⟨y, hy, hvalue⟩ := List.mem_map.mp hmem
  have hcall : HashCall.leaf y ∈ H.treeCalls leaves ++ H.pathCalls x (q ++ t) :=
    List.mem_append_left _ (List.mem_append_left _ (List.mem_map_of_mem hy))
  rcases List.eq_nil_or_concat' q with rfl | ⟨q, s, rfl⟩
  · cases hfree _ hleaf _ hcall hvalue.symm
    exact hy
  · -- a leaf is not the digest of a pair
    rw [climb_append] at hvalue
    have hnode : nodeCall (H.climb (H.leaf x) q) s ∈
        H.treeCalls leaves ++ H.pathCalls x (q ++ [s] ++ t) := by
      refine List.mem_append_right _ (List.mem_cons_of_mem _ ?_)
      rw [List.append_assoc, climbCalls_append]
      exact List.mem_append_right _ List.mem_cons_self
    have hsame := hfree _ hcall _ hnode (hvalue.trans (value_nodeCall _ _).symm)
    unfold nodeCall at hsame
    split at hsame <;> cases hsame

/-! ## What a root commits to -/

theorem mem_of_root_eq {leaves leaves' : List L}
    (hfree : H.CollisionFree (H.treeCalls leaves ++ H.treeCalls leaves'))
    (h : H.root (leaves.map H.leaf) = H.root (leaves'.map H.leaf)) {x : L} (hx : x ∈ leaves) :
    x ∈ leaves' := by
  obtain ⟨i, hi⟩ := List.getElem?_of_mem hx
  have hat : (leaves.map H.leaf)[i]? = some (H.leaf x) := by rw [List.getElem?_map, hi]; rfl
  obtain ⟨p, -, hroot, hcalls⟩ := climb_path (L := L) hat
  refine mem_of_climb (hfree.subset ?_) (h.symm.trans hroot)
  refine List.append_subset.mpr ⟨List.subset_append_right _ _, List.cons_subset.mpr ⟨?_, ?_⟩⟩
  · exact List.mem_append_left _ (List.mem_append_left _ (List.mem_map_of_mem hx))
  · exact fun c hc => List.mem_append_left _ (List.mem_append_right _ (hcalls hc))

/-- Two lists of leaves with one root have the same members. -/
theorem mem_iff_of_root_eq {leaves leaves' : List L}
    (hfree : H.CollisionFree (H.treeCalls leaves ++ H.treeCalls leaves'))
    (h : H.root (leaves.map H.leaf) = H.root (leaves'.map H.leaf)) (x : L) :
    x ∈ leaves ↔ x ∈ leaves' :=
  ⟨mem_of_root_eq hfree h, mem_of_root_eq (hfree.subset (List.append_subset.mpr
    ⟨List.subset_append_right _ _, List.subset_append_left _ _⟩)) h.symm⟩

theorem levelCalls_inj {level level' : List D} (hlen : level.length = level'.length)
    (h : levelCalls (L := L) level = levelCalls level') : level = level' := by
  induction level using nextLevel.induct generalizing level' with
  | case1 => exact (List.length_eq_zero_iff.mp hlen.symm).symm
  | case2 a =>
    obtain ⟨a', rfl⟩ := List.length_eq_one_iff.mp hlen.symm
    simpa [levelCalls] using h
  | case3 a b level ih =>
    match level', hlen with
    | a' :: b' :: level', hlen =>
      obtain ⟨hpair, hrest⟩ := List.cons.inj h
      obtain ⟨rfl, rfl⟩ := HashCall.pair.inj hpair
      rw [ih (by simpa using hlen) hrest]

theorem level_eq_of_root_eq {level level' : List D} (hlen : level.length = level'.length)
    (hfree : H.CollisionFree (H.rootCalls level ++ H.rootCalls level'))
    (h : H.root level = H.root level') : level = level' := by
  induction level using root.induct H generalizing level' with
  | case1 => exact (List.length_eq_zero_iff.mp hlen.symm).symm
  | case2 a =>
    obtain ⟨a', rfl⟩ := List.length_eq_one_iff.mp hlen.symm
    simpa [root] using h
  | case3 a b level ih =>
    match level', hlen with
    | a' :: b' :: level', hlen =>
      rw [root, root] at h
      rw [rootCalls, rootCalls] at hfree
      have hnext := ih (by rw [length_nextLevel, length_nextLevel, hlen]) (hfree.subset
        (List.append_subset.mpr ⟨fun c hc => List.mem_append_left _ (List.mem_append_right _ hc),
          fun c hc => List.mem_append_right _ (List.mem_append_right _ hc)⟩)) h
      rw [nextLevel_eq_map, nextLevel_eq_map] at hnext
      refine levelCalls_inj hlen (CollisionFree.eq_of_map_value_eq (hfree.subset ?_) hnext)
      exact List.append_subset.mpr ⟨fun c hc => List.mem_append_left _ (List.mem_append_left _ hc),
        fun c hc => List.mem_append_right _ (List.mem_append_left _ hc)⟩

/-- Two lists of leaves of one length with one root are equal. -/
theorem eq_of_root_eq {leaves leaves' : List L} (hlen : leaves.length = leaves'.length)
    (hfree : H.CollisionFree (H.treeCalls leaves ++ H.treeCalls leaves'))
    (h : H.root (leaves.map H.leaf) = H.root (leaves'.map H.leaf)) : leaves = leaves' := by
  have hlevel := level_eq_of_root_eq (L := L) (by simpa using hlen) (hfree.subset
    (List.append_subset.mpr ⟨fun c hc => List.mem_append_left _ (List.mem_append_right _ hc),
      fun c hc => List.mem_append_right _ (List.mem_append_right _ hc)⟩)) h
  have hcalls : (leaves.map HashCall.leaf).map H.value = (leaves'.map .leaf).map H.value := by
    rw [List.map_map, List.map_map]
    exact hlevel
  have hleaves := CollisionFree.eq_of_map_value_eq (hfree.subset (List.append_subset.mpr
    ⟨fun c hc => List.mem_append_left _ (List.mem_append_left _ hc),
      fun c hc => List.mem_append_right _ (List.mem_append_left _ hc)⟩)) hcalls
  exact List.map_injective_iff.mpr (fun _ _ h => HashCall.leaf.inj h) hleaves

/-! ## The last leaf -/

/-- A last digest at an even position is paired with itself. -/
theorem nextLevel_repeat (level : List D) (a : D) (heven : level.length % 2 = 0) :
    H.nextLevel (level ++ [a, a]) = H.nextLevel (level ++ [a]) := by
  induction level using nextLevel.induct with
  | case1 => rfl
  | case2 b => simp at heven
  | case3 b c level ih =>
    simp only [List.length_cons] at heven
    exact congrArg (H.pair b c :: ·) (ih (by omega))

/-- Repeating the last leaf of a list of odd length keeps the root, except for a single leaf. -/
theorem root_repeat {level : List D} (a : D) (heven : level.length % 2 = 0) (hne : level ≠ []) :
    H.root (level ++ [a, a]) = H.root (level ++ [a]) := by
  match level, hne with
  | [b], _ => simp at heven
  | b :: c :: level, _ =>
    have hnext := nextLevel_repeat (H := H) (b :: c :: level) a heven
    simp only [List.cons_append] at hnext ⊢
    rw [root, root, hnext]

end MerkleHash

end NnsVerified.Library
