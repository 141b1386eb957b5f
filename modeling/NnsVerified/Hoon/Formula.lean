import Mathlib.Logic.Relation
import NnsVerified.Hoon.Nock
import NnsVerified.Library.Budget

/-!
# Formulas

One rule for each opcode, which says when a formula has a product; the nouns that are formulas
(`Formula`, over the opcodes that they may use); and the formulas inside a formula (`Position`), to
which quoted constants do not belong.
-/

namespace NnsVerified.Hoon

open Noun NnsVerified.Library

section

variable {a b c d f p : Noun}

/-! ## Steps -/

theorem nock_cons (n : Nat) : nock (n + 1) a (cell (cell b c) d) =
    nock n a (cell b c) >>= fun p => nock n a d >>= fun q => .ok (cell p q) := rfl

theorem nock_slot (n ax : Nat) : nock (n + 1) a (cell (atom 0) (atom ax)) = orCrash (slot ax a) := rfl

theorem nock_const (n : Nat) : nock (n + 1) a (cell (atom 1) c) = .ok c := rfl

theorem nock_eval (n : Nat) : nock (n + 1) a (cell (atom 2) (cell b c)) =
    nock n a b >>= fun s => nock n a c >>= fun g => nock n s g := rfl

/-- The product of opcode 3. -/
def cellLoob : Noun → Noun
  | atom _ => loob false
  | cell _ _ => loob true

theorem nock_isCell (n : Nat) : nock (n + 1) a (cell (atom 3) b) =
    nock n a b >>= fun x => .ok (cellLoob x) := by
  show nock n a b >>= _ = _
  refine congrArg _ (funext fun x => ?_)
  cases x <;> rfl

/-- The product of opcode 4. -/
def increment : Noun → Eval Noun
  | atom x => .ok (atom (x + 1))
  | cell _ _ => crash

theorem nock_inc (n : Nat) : nock (n + 1) a (cell (atom 4) b) = nock n a b >>= increment := rfl

theorem nock_eq (n : Nat) : nock (n + 1) a (cell (atom 5) (cell b c)) =
    nock n a b >>= fun x => nock n a c >>= fun y => .ok (loob (x = y)) := rfl

theorem nock_if (n : Nat) : nock (n + 1) a (cell (atom 6) (cell b (cell c d))) =
    nock n a b >>= fun t => match t with
      | atom 0 => nock n a c
      | atom 1 => nock n a d
      | _ => crash := rfl

theorem nock_compose (n : Nat) : nock (n + 1) a (cell (atom 7) (cell b c)) =
    nock n a b >>= fun s => nock n s c := rfl

theorem nock_push (n : Nat) : nock (n + 1) a (cell (atom 8) (cell b c)) =
    nock n a b >>= fun x => nock n (cell x a) c := rfl

theorem nock_call (n ax : Nat) : nock (n + 1) a (cell (atom 9) (cell (atom ax) c)) =
    nock n a c >>= fun core => orCrash (slot ax core) >>= fun g => nock n core g := rfl

theorem nock_edit (n ax : Nat) : nock (n + 1) a (cell (atom 10) (cell (cell (atom ax) c) d)) =
    nock n a c >>= fun v => nock n a d >>= fun t => orCrash (edit ax v t) := rfl

theorem nock_clue (n tag : Nat) :
    nock (n + 1) a (cell (atom 11) (cell (cell (atom tag) c) d)) =
      nock n a c >>= fun _ => nock n a d := rfl

theorem nock_hint (n tag : Nat) :
    nock (n + 1) a (cell (atom 11) (cell (atom tag) d)) = nock n a d := rfl

/-! ## Rules for products -/

theorem steady_nock (a f : Noun) : Steady fun n => nock n a f := fun _ _ _ hle h => nock_mono hle h

theorem yields_iff_gives : Yields a f p ↔ Gives (fun n => nock (n + 1) a f) p :=
  (gives_succ_iff (steady_nock a f)).symm

theorem yields_slot_iff {ax : Nat} :
    Yields a (cell (atom 0) (atom ax)) p ↔ slot ax a = some p := by
  rw [yields_iff_gives]
  simp only [nock_slot, gives_const_iff, orCrash_eq_ok]

theorem yields_const_iff : Yields a (cell (atom 1) c) p ↔ c = p := by
  rw [yields_iff_gives]
  simp [nock_const]

theorem yields_cons_iff : Yields a (cell (cell b c) d) p ↔
    ∃ x y, Yields a (cell b c) x ∧ Yields a d y ∧ cell x y = p := by
  rw [yields_iff_gives]
  simp only [nock_cons]
  rw [gives_bind_map_iff (steady_nock a _) (steady_nock a d)]
  simp only [Except.ok.injEq]
  exact Iff.rfl

theorem yields_eval_iff : Yields a (cell (atom 2) (cell b c)) p ↔
    ∃ s g, Yields a b s ∧ Yields a c g ∧ Yields s g p := by
  rw [yields_iff_gives]
  simp only [nock_eval]
  exact gives_bind_bind_iff (steady_nock a b) (steady_nock a c) steady_nock

theorem yields_isCell_iff :
    Yields a (cell (atom 3) b) p ↔ ∃ x, Yields a b x ∧ cellLoob x = p := by
  rw [yields_iff_gives]
  simp only [nock_isCell]
  rw [gives_map_iff (steady_nock a b)]
  simp only [Except.ok.injEq]
  exact Iff.rfl

theorem yields_inc_iff :
    Yields a (cell (atom 4) b) p ↔ ∃ x, Yields a b x ∧ increment x = .ok p := by
  rw [yields_iff_gives]
  simp only [nock_inc]
  exact gives_map_iff (steady_nock a b)

theorem yields_eq_iff : Yields a (cell (atom 5) (cell b c)) p ↔
    ∃ x y, Yields a b x ∧ Yields a c y ∧ loob (x = y) = p := by
  rw [yields_iff_gives]
  simp only [nock_eq]
  rw [gives_bind_map_iff (steady_nock a b) (steady_nock a c)]
  simp only [Except.ok.injEq]
  exact Iff.rfl

theorem yields_if_iff : Yields a (cell (atom 6) (cell b (cell c d))) p ↔
    ∃ t : Bool, Yields a b (loob t) ∧ Yields a (bif t then c else d) p := by
  rw [yields_iff_gives]
  simp only [nock_if]
  rw [gives_bind_iff (steady_nock a b)]
  · constructor
    · rintro ⟨x, hx, hp⟩
      split at hp
      · exact ⟨true, hx, hp⟩
      · exact ⟨false, hx, hp⟩
      · obtain ⟨n, hn⟩ := hp
        cases hn
    · rintro ⟨t, ht, hp⟩
      cases t with
      | true => exact ⟨_, ht, hp⟩
      | false => exact ⟨_, ht, hp⟩
  · intro x
    split
    · exact steady_nock a c
    · exact steady_nock a d
    · exact steady_const _

theorem yields_compose_iff : Yields a (cell (atom 7) (cell b c)) p ↔
    ∃ s, Yields a b s ∧ Yields s c p := by
  rw [yields_iff_gives]
  simp only [nock_compose]
  exact gives_bind_iff (steady_nock a b) fun s => steady_nock s c

theorem yields_push_iff : Yields a (cell (atom 8) (cell b c)) p ↔
    ∃ x, Yields a b x ∧ Yields (cell x a) c p := by
  rw [yields_iff_gives]
  simp only [nock_push]
  exact gives_bind_iff (steady_nock a b) fun x => steady_nock (cell x a) c

theorem yields_call_iff {ax : Nat} : Yields a (cell (atom 9) (cell (atom ax) c)) p ↔
    ∃ core, Yields a c core ∧ ∃ g, slot ax core = some g ∧ Yields core g p := by
  rw [yields_iff_gives]
  simp only [nock_call]
  rw [gives_bind_iff (steady_nock a c) fun core => (steady_const _).bind (steady_nock core)]
  refine exists_congr fun core => and_congr_right fun _ => ?_
  rw [gives_bind_iff (steady_const _) (steady_nock core)]
  simp only [gives_const_iff, orCrash_eq_ok]
  exact Iff.rfl

theorem yields_edit_iff {ax : Nat} : Yields a (cell (atom 10) (cell (cell (atom ax) c) d)) p ↔
    ∃ v t, Yields a c v ∧ Yields a d t ∧ edit ax v t = some p := by
  rw [yields_iff_gives]
  simp only [nock_edit]
  rw [gives_bind_map_iff (steady_nock a c) (steady_nock a d)]
  simp only [orCrash_eq_ok]
  exact Iff.rfl

theorem yields_hint_iff {tag : Nat} :
    Yields a (cell (atom 11) (cell (atom tag) d)) p ↔ Yields a d p := by
  rw [yields_iff_gives]
  simp only [nock_hint]
  exact Iff.rfl

theorem yields_clue_iff {tag : Nat} : Yields a (cell (atom 11) (cell (cell (atom tag) c) d)) p ↔
    (∃ x, Yields a c x) ∧ Yields a d p := by
  rw [yields_iff_gives]
  simp only [nock_clue]
  rw [gives_bind_iff (steady_nock a c) fun _ => steady_nock a d, exists_and_right]
  exact Iff.rfl

/-- The formula that calls the gate of an arm of a core: on a sample beside the core, it makes the
gate of the arm, puts the sample into the gate and runs its battery. -/
def slamFormula (ax : Nat) : Noun :=
  tuple (atom 9) [atom 2, atom 10, tuple (atom 6) [atom 0, atom 2], atom 9, atom ax, atom 0, atom 3]

/-- A call is a run of the battery on the gate that holds the sample. -/
theorem yields_slam {core arm battery sample context x : Noun} {ax : Nat}
    (harm : slot ax core = some arm) (hgate : Yields core arm (cell battery (cell sample context)))
    (hrun : Yields (cell battery (cell x context)) battery p) :
    Yields (cell x core) (slamFormula ax) p := by
  have hedit : edit 6 x (cell battery (cell sample context)) = some (cell battery (cell x context)) := by
    simp [edit, slot]
  have hcall : Yields (cell x core) (cell (atom 9) (cell (atom ax) (cell (atom 0) (atom 3))))
      (cell battery (cell sample context)) :=
    yields_call_iff.mpr ⟨core, yields_slot_iff.mpr (by simp [slot]), arm, harm, hgate⟩
  refine yields_call_iff.mpr ⟨cell battery (cell x context), ?_, battery, by simp [slot], hrun⟩
  exact yields_edit_iff.mpr ⟨x, _, yields_slot_iff.mpr (by simp [slot]), hcall, hedit⟩

end

/-! ## Refinement -/

/-- `g` has every product that `f` has. -/
def Refines (f g : Noun) : Prop := ∀ a p, Yields a f p → Yields a g p

section

variable {b b' c c' d d' : Noun}

theorem Refines.refl (f : Noun) : Refines f f := fun _ _ h => h

theorem Refines.cons (hb : Refines (cell b c) (cell b' c')) (hd : Refines d d') :
    Refines (cell (cell b c) d) (cell (cell b' c') d') := by
  intro a p h
  obtain ⟨x, y, hx, hy, rfl⟩ := yields_cons_iff.mp h
  exact yields_cons_iff.mpr ⟨x, y, hb a x hx, hd a y hy, rfl⟩

/-- The formula that runs may be computed: both sides compute the same one. -/
theorem Refines.eval (hb : Refines b b') (hc : Refines c c') :
    Refines (cell (atom 2) (cell b c)) (cell (atom 2) (cell b' c')) := by
  intro a p h
  obtain ⟨s, g, hs, hg, hp⟩ := yields_eval_iff.mp h
  exact yields_eval_iff.mpr ⟨s, g, hb a s hs, hc a g hg, hp⟩

theorem Refines.isCell (hb : Refines b b') :
    Refines (cell (atom 3) b) (cell (atom 3) b') := by
  intro a p h
  obtain ⟨x, hx, rfl⟩ := yields_isCell_iff.mp h
  exact yields_isCell_iff.mpr ⟨x, hb a x hx, rfl⟩

theorem Refines.inc (hb : Refines b b') : Refines (cell (atom 4) b) (cell (atom 4) b') := by
  intro a p h
  obtain ⟨x, hx, hp⟩ := yields_inc_iff.mp h
  exact yields_inc_iff.mpr ⟨x, hb a x hx, hp⟩

theorem Refines.eq (hb : Refines b b') (hc : Refines c c') :
    Refines (cell (atom 5) (cell b c)) (cell (atom 5) (cell b' c')) := by
  intro a p h
  obtain ⟨x, y, hx, hy, rfl⟩ := yields_eq_iff.mp h
  exact yields_eq_iff.mpr ⟨x, y, hb a x hx, hc a y hy, rfl⟩

theorem Refines.ifThenElse (hb : Refines b b') (hc : Refines c c') (hd : Refines d d') :
    Refines (cell (atom 6) (cell b (cell c d))) (cell (atom 6) (cell b' (cell c' d'))) := by
  intro a p h
  obtain ⟨t, ht, hp⟩ := yields_if_iff.mp h
  refine yields_if_iff.mpr ⟨t, hb a _ ht, ?_⟩
  cases t with
  | true => exact hc a p hp
  | false => exact hd a p hp

theorem Refines.compose (hb : Refines b b') (hc : Refines c c') :
    Refines (cell (atom 7) (cell b c)) (cell (atom 7) (cell b' c')) := by
  intro a p h
  obtain ⟨s, hs, hp⟩ := yields_compose_iff.mp h
  exact yields_compose_iff.mpr ⟨s, hb a s hs, hc s p hp⟩

theorem Refines.push (hb : Refines b b') (hc : Refines c c') :
    Refines (cell (atom 8) (cell b c)) (cell (atom 8) (cell b' c')) := by
  intro a p h
  obtain ⟨x, hx, hp⟩ := yields_push_iff.mp h
  exact yields_push_iff.mpr ⟨x, hb a x hx, hc _ p hp⟩

end

/-! ## Well-formed formulas -/

/-- The formulas whose opcodes satisfy `ops`. -/
inductive Formula (ops : Nat → Prop) : Noun → Prop where
  | cons {f g : Noun} (hf : Formula ops f) (hg : Formula ops g) : Formula ops (cell f g)
  | slot (h : ops 0) (ax : Nat) : Formula ops (cell (atom 0) (atom ax))
  | const (h : ops 1) (c : Noun) : Formula ops (cell (atom 1) c)
  | eval (h : ops 2) {b c : Noun} (hb : Formula ops b) (hc : Formula ops c) :
      Formula ops (cell (atom 2) (cell b c))
  | isCell (h : ops 3) {b : Noun} (hb : Formula ops b) : Formula ops (cell (atom 3) b)
  | inc (h : ops 4) {b : Noun} (hb : Formula ops b) : Formula ops (cell (atom 4) b)
  | eq (h : ops 5) {b c : Noun} (hb : Formula ops b) (hc : Formula ops c) :
      Formula ops (cell (atom 5) (cell b c))
  | ifThenElse (h : ops 6) {b c d : Noun} (hb : Formula ops b) (hc : Formula ops c)
      (hd : Formula ops d) : Formula ops (cell (atom 6) (cell b (cell c d)))
  | compose (h : ops 7) {b c : Noun} (hb : Formula ops b) (hc : Formula ops c) :
      Formula ops (cell (atom 7) (cell b c))
  | push (h : ops 8) {b c : Noun} (hb : Formula ops b) (hc : Formula ops c) :
      Formula ops (cell (atom 8) (cell b c))
  | call (h : ops 9) (ax : Nat) {c : Noun} (hc : Formula ops c) :
      Formula ops (cell (atom 9) (cell (atom ax) c))
  | edit (h : ops 10) (ax : Nat) {c d : Noun} (hc : Formula ops c) (hd : Formula ops d) :
      Formula ops (cell (atom 10) (cell (cell (atom ax) c) d))
  | hint (h : ops 11) (tag : Nat) {d : Noun} (hd : Formula ops d) :
      Formula ops (cell (atom 11) (cell (atom tag) d))
  | clue (h : ops 11) (tag : Nat) {c d : Noun} (hc : Formula ops c) (hd : Formula ops d) :
      Formula ops (cell (atom 11) (cell (cell (atom tag) c) d))

/-- The formulas that a formula is made of. -/
def subformulas : Noun → List Noun
  | cell (cell b c) d => [cell b c, d]
  | cell (atom 2) (cell b c) => [b, c]
  | cell (atom 3) b => [b]
  | cell (atom 4) b => [b]
  | cell (atom 5) (cell b c) => [b, c]
  | cell (atom 6) (cell b (cell c d)) => [b, c, d]
  | cell (atom 7) (cell b c) => [b, c]
  | cell (atom 8) (cell b c) => [b, c]
  | cell (atom 9) (cell (atom _) c) => [c]
  | cell (atom 10) (cell (cell (atom _) c) d) => [c, d]
  | cell (atom 11) (cell (cell (atom _) c) d) => [c, d]
  | cell (atom 11) (cell (atom _) d) => [d]
  | _ => []

/-- `g` stands at a formula position of `f`: it is `f` or a formula that `f` is made of, at any
depth. What a constant quotes is no position. -/
def Position : Noun → Noun → Prop := Relation.ReflTransGen fun f g => g ∈ subformulas f

section

variable {ops : Nat → Prop} {f g h : Noun}

theorem Position.sub (hg : g ∈ subformulas f) (hh : Position g h) : Position f h :=
  Relation.ReflTransGen.head hg hh

/-- A list that holds a formula, and with each formula those that it is made of, holds its
positions. -/
theorem Position.mem_of_closed {l : List Noun} (hf : f ∈ l)
    (hl : ∀ b ∈ l, ∀ c ∈ subformulas b, c ∈ l) (hg : Position f g) : g ∈ l := by
  induction hg with
  | refl => exact hf
  | tail _ hsub ih => exact hl _ ih _ hsub

theorem Formula.isCell_of (hf : Formula ops f) : ∃ p q, f = cell p q := by
  cases hf <;> exact ⟨_, _, rfl⟩

/-- A formula with an opcode in front uses that opcode. -/
theorem Formula.opcode {op : Nat} {d : Noun} (hf : Formula ops (cell (atom op) d)) : ops op := by
  cases hf with
  | cons hatom _ =>
    obtain ⟨p, q, hcell⟩ := hatom.isCell_of
    cases hcell
  | slot h | const h | eval h | isCell h | inc h | eq h | ifThenElse h | compose h | push h | call h
  | edit h | hint h | clue h => exact h

theorem Formula.sub (hf : Formula ops f) (hg : g ∈ subformulas f) : Formula ops g := by
  cases hf with
  | cons hf hd =>
    obtain ⟨p, q, rfl⟩ := hf.isCell_of
    simp only [subformulas, List.mem_cons, List.not_mem_nil, or_false] at hg
    rcases hg with rfl | rfl
    · exact hf
    · exact hd
  | slot | const => simp [subformulas] at hg
  | isCell _ hb | inc _ hb | call _ _ hb | hint _ _ hb =>
    obtain rfl := List.mem_singleton.mp hg
    exact hb
  | eval _ hb hc | eq _ hb hc | compose _ hb hc | push _ hb hc | edit _ _ hb hc | clue _ _ hb hc =>
    simp only [subformulas, List.mem_cons, List.not_mem_nil, or_false] at hg
    rcases hg with rfl | rfl
    · exact hb
    · exact hc
  | ifThenElse _ hb hc hd =>
    simp only [subformulas, List.mem_cons, List.not_mem_nil, or_false] at hg
    rcases hg with rfl | rfl | rfl
    · exact hb
    · exact hc
    · exact hd

/-- Every position of a formula holds a formula over the same opcodes. -/
theorem Formula.position (hf : Formula ops f) (hg : Position f g) : Formula ops g := by
  induction hg with
  | refl => exact hf
  | tail _ hsub ih => exact ih.sub hsub

end

end NnsVerified.Hoon
