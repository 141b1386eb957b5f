import Mathlib.Algebra.Module.NatInt
import Mathlib.Data.List.Chain

/-!
# Lists whose neighbours are related

A list is checked link by link (`walkLinks`): each element against the next, and the last by itself.
The check passes exactly on the chains of a relation, and it fails at the end of the longest chain.
Along a chain that adds a constant, values form an arithmetic progression.
-/

namespace NnsVerified.Library

variable {ε α : Type}

/-! ## Walks -/

/-- Check each element against the next, and the last one by itself, up to the first failure. The
checks are told the index. -/
def walkLinks (link : Nat → α → α → Except ε Unit) (last : Nat → α → Except ε Unit) :
    Nat → List α → Except ε Unit
  | _, [] => .ok ()
  | i, [a] => last i a
  | i, a :: b :: l =>
    match link i a b with
    | .ok _ => walkLinks link last (i + 1) (b :: l)
    | .error e => .error e

section

variable {link : Nat → α → α → Except ε Unit} {last : Nat → α → Except ε Unit} {R : α → α → Prop}
  (hlink : ∀ i a b, link i a b = .ok () ↔ R a b)

include hlink

/-- A walk passes on the chains of what its links accept. -/
theorem walkLinks_eq_ok {P : α → Prop} (hlast : ∀ i a, last i a = .ok () ↔ P a) (i : Nat) (a : α)
    (l : List α) : walkLinks link last i (a :: l) = .ok () ↔
      (a :: l).IsChain R ∧ P ((a :: l).getLast (List.cons_ne_nil a l)) := by
  induction l generalizing i a with
  | nil => simp [walkLinks, hlast]
  | cons b l ih =>
    rw [walkLinks, List.isChain_cons_cons, List.getLast_cons (List.cons_ne_nil b l), and_assoc,
      ← ih (i + 1), ← hlink i a b]
    cases h : link i a b with
    | ok _ => simp
    | error e => simp

/-- A walk fails where the longest chain ends: at a link, or at the last element. -/
theorem walkLinks_eq_error {e : ε} {B : α → α → Prop} {E : α → Prop}
    (hbad : ∀ i a b, link i a b = .error e ↔ B a b) (hend : ∀ i a, last i a = .error e ↔ E a)
    (i : Nat) (l : List α) : walkLinks link last i l = .error e ↔
      ∃ before a after, l = before ++ a :: after ∧ (before ++ [a]).IsChain R ∧
        ((after = [] ∧ E a) ∨ ∃ b ∈ after.head?, B a b) := by
  induction l generalizing i with
  | nil => simp [walkLinks]
  | cons a l ih =>
    -- the walk fails at once, or passes its first link and fails later
    have hstep : walkLinks link last i (a :: l) = .error e ↔
        ((l = [] ∧ E a) ∨ ∃ b ∈ l.head?, B a b) ∨
          (∃ b ∈ l.head?, R a b) ∧ walkLinks link last (i + 1) l = .error e := by
      cases l with
      | nil => simp [walkLinks, hend]
      | cons b l =>
        rw [walkLinks]
        cases h : link i a b with
        | ok u =>
          have hR : R a b := (hlink i a b).mp h
          have hB : ¬B a b := fun hb => by simp [(hbad i a b).mpr hb] at h
          simp [hR, hB]
        | error e' =>
          have hR : ¬R a b := fun hr => by simp [(hlink i a b).mpr hr] at h
          have hB : B a b ↔ e' = e := by rw [← hbad i a b, h, Except.error.injEq]
          simp [hR, hB]
    rw [hstep, ih]
    constructor
    · rintro (hfail | ⟨⟨b, hb, hR⟩, before, c, after, rfl, hchain, hfail⟩)
      · exact ⟨[], a, l, rfl, List.isChain_singleton a, hfail⟩
      · refine ⟨a :: before, c, after, rfl, ?_, hfail⟩
        rw [List.cons_append, List.isChain_cons]
        refine ⟨fun y hy => ?_, hchain⟩
        have hsame : y = b := by
          cases before <;> simp_all
        exact hsame ▸ hR
    · rintro ⟨before, c, after, hsplit, hchain, hfail⟩
      cases before with
      | nil =>
        obtain ⟨rfl, rfl⟩ := List.cons.inj hsplit
        exact Or.inl hfail
      | cons x before =>
        obtain ⟨rfl, rfl⟩ := List.cons.inj hsplit
        rw [List.cons_append, List.isChain_cons] at hchain
        refine Or.inr ⟨?_, before, c, after, rfl, hchain.2, hfail⟩
        cases before with
        | nil => exact ⟨c, rfl, hchain.1 c rfl⟩
        | cons y before => exact ⟨y, rfl, hchain.1 y rfl⟩

end

/-! ## Progressions -/

/-- Along a chain that adds `d`, the value at an index is the first plus that many times `d`. -/
theorem isChain_add_getElem {M : Type} [AddMonoid M] {f : α → M} {d : M} {a : α} {l : List α}
    (h : (a :: l).IsChain fun x y => f y = f x + d) (i : Nat) (hi : i < (a :: l).length) :
    f (a :: l)[i] = f a + i • d := by
  induction l generalizing a i with
  | nil =>
    obtain rfl : i = 0 := by simpa using hi
    simp
  | cons b l ih =>
    obtain ⟨hab, hrest⟩ := List.isChain_cons_cons.mp h
    cases i with
    | zero => simp
    | succ i =>
      rw [List.getElem_cons_succ, ih hrest i (by simpa using hi), hab, succ_nsmul', add_assoc]

/-- Along a chain that counts up, the values are consecutive. -/
theorem isChain_succ_map {f : α → Nat} {a : α} {l : List α}
    (h : (a :: l).IsChain fun x y => f y = f x + 1) :
    (a :: l).map f = List.range' (f a) (a :: l).length := by
  refine List.ext_getElem (by simp) fun i hi _ => ?_
  rw [List.length_map] at hi
  have hvalue := isChain_add_getElem (f := f) (d := 1) h i hi
  rw [List.getElem_map, hvalue, List.getElem_range', smul_eq_mul, Nat.mul_one, Nat.one_mul]

/-- Along a chain that counts down, the value at an index is the first less the index. -/
theorem isChain_pred_getElem {f : α → Nat} {a : α} {l : List α}
    (h : (a :: l).IsChain fun x y => f x = f y + 1) (i : Nat) (hi : i < (a :: l).length) :
    f (a :: l)[i] + i = f a := by
  have hdown : (a :: l).IsChain fun x y => (f y : Int) = f x + (-1) :=
    h.imp fun x y hxy => by omega
  have hi' := isChain_add_getElem (f := fun x => (f x : Int)) hdown i hi
  rw [smul_neg, nsmul_one] at hi'
  omega

end NnsVerified.Library
