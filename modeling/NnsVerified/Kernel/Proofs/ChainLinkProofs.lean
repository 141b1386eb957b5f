import NnsVerified.Kernel.Predicates
import NnsVerified.Library.Chains

/-!
# Header paths

`chain-links-to` accepts exactly the paths of headers from the block of a claim to the tip, each
header on top of the one before it and one higher. Paths compose where the heights meet.
-/

namespace NnsVerified.Kernel

open NnsVerified.Hoon NnsVerified.Library

/-- A header on top of the one before it. -/
def AnchorHeader.Follows (prev next : AnchorHeader) : Prop :=
  next.parent = prev.digest ∧ next.height = prev.height + 1

/-- The walk passes on the paths from its header to the tip. -/
theorem chainLinksTo_walk_iff (tip : Nat) (prev : AnchorHeader) (rest : List AnchorHeader) :
    chainLinksTo.walk tip prev rest = true ↔ (prev :: rest).IsChain AnchorHeader.Follows ∧
      ((prev :: rest).getLast (List.cons_ne_nil prev rest)).digest = tip := by
  induction rest generalizing prev with
  | nil => simp [chainLinksTo.walk]
  | cons i t ih =>
    rw [chainLinksTo.walk, List.isChain_cons_cons, List.getLast_cons (List.cons_ne_nil i t),
      and_assoc, ← ih, AnchorHeader.Follows]
    by_cases hparent : i.parent = prev.digest
    · by_cases hheight : i.height = prev.height + 1
      · simp [hparent, hheight]
      · simp [hparent, hheight]
    · simp [hparent]

theorem chainLinksTo_iff (claimDigest tip : Nat) (headers : List AnchorHeader) :
    chainLinksTo claimDigest headers tip = true ↔
      (headers = [] ∧ claimDigest = tip) ∨
        ((∃ first ∈ headers.head?, first.parent = claimDigest) ∧
          headers.IsChain AnchorHeader.Follows ∧ ∃ last ∈ headers.getLast?, last.digest = tip) := by
  cases headers with
  | nil => simp [chainLinksTo]
  | cons i t =>
    rw [chainLinksTo]
    by_cases hparent : i.parent = claimDigest
    · simp [hparent, chainLinksTo_walk_iff, List.getLast?_eq_some_getLast]
    · simp [hparent]

/-- The heights of an accepted path are consecutive. -/
theorem chainLinksTo_heights {claimDigest tip : Nat} {headers : List AnchorHeader}
    (h : chainLinksTo claimDigest headers tip = true) :
    ∃ start, headers.map AnchorHeader.height = List.range' start headers.length := by
  cases headers with
  | nil => exact ⟨0, rfl⟩
  | cons i t =>
    rcases (chainLinksTo_iff _ _ _).mp h with ⟨hnil, -⟩ | ⟨-, hchain, -⟩
    · exact absurd hnil (List.cons_ne_nil i t)
    · exact ⟨i.height, isChain_succ_map (hchain.imp fun _ _ hfollows => hfollows.2)⟩

theorem chainLinksTo_append {claimDigest tip : Nat} {xs ys : List AnchorHeader} (hx : xs ≠ [])
    (hy : ys ≠ []) :
    chainLinksTo claimDigest (xs ++ ys) tip = true ↔
      chainLinksTo claimDigest xs (xs.getLast hx).digest = true ∧
        chainLinksTo (xs.getLast hx).digest ys tip = true ∧
        (ys.head hy).height = (xs.getLast hx).height + 1 := by
  simp only [chainLinksTo_iff, hx, hy, List.append_ne_nil_of_left_ne_nil hx ys, false_and, false_or,
    List.head?_append_of_ne_nil xs hx, List.getLast?_append_of_ne_nil xs hy, List.isChain_append,
    List.getLast?_eq_some_getLast hx, List.head?_eq_some_head hy, Option.mem_some_iff,
    exists_eq_left', forall_eq', AnchorHeader.Follows]
  tauto

/-- What `chain-links-to` accepts, how accepted paths compose, and the heights that they span. -/
theorem chainLinksTo_paths :
    (∀ (c : Nat) (hs : List AnchorHeader) (t : Nat), chainLinksTo c hs t = true ↔
      (hs = [] ∧ c = t) ∨ ∃ hne : hs ≠ [], (hs.head hne).parent = c ∧
        (∀ (i : Nat) (hi : i + 1 < hs.length),
          hs[i + 1].parent = hs[i].digest ∧ hs[i + 1].height = hs[i].height + 1) ∧
        (hs.getLast hne).digest = t) ∧
    (∀ (c t : Nat) (xs ys : List AnchorHeader) (hx : xs ≠ []) (hy : ys ≠ []),
      chainLinksTo c (xs ++ ys) t = true ↔
        chainLinksTo c xs (xs.getLast hx).digest = true ∧
          chainLinksTo (xs.getLast hx).digest ys t = true ∧
          (ys.head hy).height = (xs.getLast hx).height + 1) ∧
    ∀ (c t : Nat) (hs : List AnchorHeader), chainLinksTo c hs t = true →
      ∃ start, hs.map AnchorHeader.height = List.range' start hs.length := by
  refine ⟨fun c hs t => ?_, fun c t xs ys hx hy => chainLinksTo_append hx hy,
    fun c t hs h => chainLinksTo_heights h⟩
  rw [chainLinksTo_iff]
  refine or_congr_right ?_
  rw [List.isChain_iff_getElem]
  constructor
  · rintro ⟨⟨first, hfirst, hparent⟩, hchain, last, hlast, htip⟩
    have hne : hs ≠ [] := List.ne_nil_of_mem (List.mem_of_mem_head? hfirst)
    rw [List.head?_eq_some_head hne, Option.mem_some_iff] at hfirst
    rw [List.getLast?_eq_some_getLast hne, Option.mem_some_iff] at hlast
    exact ⟨hne, hfirst ▸ hparent, hchain, hlast ▸ htip⟩
  · rintro ⟨hne, hparent, hchain, htip⟩
    exact ⟨⟨_, List.head_mem_head? hne, hparent⟩, hchain, _, List.getLast_mem_getLast? hne, htip⟩

/-- Two steps from a claim in block 1 to the tip 4. -/
theorem chainLinksTo_paths_two :
    chainLinksTo 1 ([⟨2, 2, 1⟩, ⟨3, 3, 2⟩] ++ [⟨4, 4, 3⟩]) 4 = true := by
  refine (chainLinksTo_paths.2.1 1 4 [⟨2, 2, 1⟩, ⟨3, 3, 2⟩] [⟨4, 4, 3⟩] (by decide)
    (by decide)).mpr ⟨?_, ?_, ?_⟩
  · decide
  · decide
  · decide

end NnsVerified.Kernel
