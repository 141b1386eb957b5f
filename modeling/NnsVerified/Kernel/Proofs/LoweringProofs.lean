import NnsVerified.Kernel.Proofs.NormalizeProofs

/-!
# What `+normalize-to-0-8` preserves

On a well-formed formula the pass keeps every product and leaves the opcodes 0 to 8. A formula that
the opcode 2 computes is the same noun on both sides, so the induction is on the formula alone.
-/

namespace NnsVerified.Kernel

open NnsVerified.Hoon NnsVerified.Hoon.Noun NnsVerified.Library

/-- A formula to which the pass applies. -/
structure Rewritable (f : Noun) : Prop where
  edits : ∀ ax v t, Position f (cell (atom 10) (cell (cell (atom ax) v) t)) → 1 ≤ ax
  consts : ∀ c, Position f (cell (atom 1) c) → Normalizes c c

theorem Rewritable.sub {f g : Noun} (hf : Rewritable f) (hg : g ∈ subformulas f) :
    Rewritable g where
  edits ax v t hp := hf.edits ax v t (.sub hg hp)
  consts c hp := hf.consts c (.sub hg hp)

/-- The pass lowers `f` to a formula of the opcodes 0 to 8 with every product of `f`. -/
structure Lowers (f g : Noun) : Prop where
  normalizes : Normalizes f g
  formula : Formula (· ≤ 8) g
  refines : Refines f g

section

variable {b c d x y z : Noun}

theorem Lowers.cons (hb : Lowers (cell b c) x) (hd : Lowers d y) :
    Lowers (cell (cell b c) d) (cell x y) := by
  obtain ⟨p, q, rfl⟩ := hb.formula.isCell_of
  exact ⟨normalizes_cons_iff.mpr ⟨_, y, hb.normalizes, hd.normalizes, rfl⟩,
    .cons hb.formula hd.formula, hb.refines.cons hd.refines⟩

theorem Lowers.eval (hb : Lowers b x) (hc : Lowers c y) :
    Lowers (cell (atom 2) (cell b c)) (cell (atom 2) (cell x y)) :=
  ⟨(normalizes_two_iff (by simp)).mpr ⟨x, y, hb.normalizes, hc.normalizes, rfl⟩,
    .eval (by omega) hb.formula hc.formula, hb.refines.eval hc.refines⟩

theorem Lowers.isCell (hb : Lowers b x) : Lowers (cell (atom 3) b) (cell (atom 3) x) :=
  ⟨(normalizes_one_iff (by simp)).mpr ⟨x, hb.normalizes, rfl⟩,
    .isCell (by omega) hb.formula, hb.refines.isCell⟩

theorem Lowers.inc (hb : Lowers b x) : Lowers (cell (atom 4) b) (cell (atom 4) x) :=
  ⟨(normalizes_one_iff (by simp)).mpr ⟨x, hb.normalizes, rfl⟩,
    .inc (by omega) hb.formula, hb.refines.inc⟩

theorem Lowers.eq (hb : Lowers b x) (hc : Lowers c y) :
    Lowers (cell (atom 5) (cell b c)) (cell (atom 5) (cell x y)) :=
  ⟨(normalizes_two_iff (by simp)).mpr ⟨x, y, hb.normalizes, hc.normalizes, rfl⟩,
    .eq (by omega) hb.formula hc.formula, hb.refines.eq hc.refines⟩

theorem Lowers.ifThenElse (hb : Lowers b x) (hc : Lowers c y) (hd : Lowers d z) :
    Lowers (cell (atom 6) (cell b (cell c d))) (cell (atom 6) (cell x (cell y z))) :=
  ⟨normalizes_if_iff.mpr ⟨x, y, hb.normalizes, hc.normalizes, z, hd.normalizes, rfl⟩,
    .ifThenElse (by omega) hb.formula hc.formula hd.formula,
    hb.refines.ifThenElse hc.refines hd.refines⟩

theorem Lowers.compose (hb : Lowers b x) (hc : Lowers c y) :
    Lowers (cell (atom 7) (cell b c)) (cell (atom 7) (cell x y)) :=
  ⟨(normalizes_two_iff (by simp)).mpr ⟨x, y, hb.normalizes, hc.normalizes, rfl⟩,
    .compose (by omega) hb.formula hc.formula, hb.refines.compose hc.refines⟩

theorem Lowers.push (hb : Lowers b x) (hc : Lowers c y) :
    Lowers (cell (atom 8) (cell b c)) (cell (atom 8) (cell x y)) :=
  ⟨(normalizes_two_iff (by simp)).mpr ⟨x, y, hb.normalizes, hc.normalizes, rfl⟩,
    .push (by omega) hb.formula hc.formula, hb.refines.push hc.refines⟩

/-- A call evaluates the core, and then the arm that it fetches from it. -/
theorem Lowers.call (ax : Nat) (hc : Lowers c x) : Lowers (cell (atom 9) (cell (atom ax) c))
    (tuple (atom 7) [x, tuple (atom 2) [cell (atom 0) (atom 1), cell (atom 0) (atom ax)]]) := by
  refine ⟨normalizes_call_iff.mpr ⟨x, hc.normalizes, rfl⟩, .compose (by omega) hc.formula
    (.eval (by omega) (.slot (by omega) 1) (.slot (by omega) ax)), ?_⟩
  intro a p h
  obtain ⟨core, hcore, g, hg, hp⟩ := yields_call_iff.mp h
  have harm : Yields core (tuple (atom 2) [cell (atom 0) (atom 1), cell (atom 0) (atom ax)]) p :=
    yields_eval_iff.mpr ⟨core, g, yields_slot (slot_one core), yields_slot hg, hp⟩
  exact yields_compose_iff.mpr ⟨core, hc.refines a core hcore, harm⟩

/-- An edit pushes its target and rebuilds it around the value, which is computed on the subject
below. -/
theorem Lowers.edit {ax : Nat} (hax : 1 ≤ ax) (hc : Lowers c x) (hd : Lowers d y) :
    ∃ g, Lowers (cell (atom 10) (cell (cell (atom ax) c) d)) g := by
  set fetch := tuple (atom 7) [cell (atom 0) (atom 3), x] with hfetch
  have hformula : Formula (· ≤ 8) fetch := .compose (by omega) (.slot (by omega) 3) hc.formula
  obtain ⟨r, hr, hspec⟩ := rebuildAtAxis_spec (Nat.ne_of_gt hax) fetch
  obtain ⟨hrf, hedited⟩ := hspec hformula
  refine ⟨tuple (atom 8) [y, r],
    normalizes_edit_iff.mpr ⟨x, y, hc.normalizes, hd.normalizes, r, hr, rfl⟩,
    .push (by omega) hd.formula hrf, ?_⟩
  intro a p h
  obtain ⟨v, t, hv, ht, hp⟩ := yields_edit_iff.mp h
  have hsubject : slot 3 (cell t a) = some a := slot_odd (slot_one (cell t a))
  have hvalue : Yields (cell t a) fetch v :=
    yields_compose_iff.mpr ⟨a, yields_slot hsubject, hc.refines a v hv⟩
  exact yields_push_iff.mpr ⟨t, hd.refines a t ht, hedited t a v p hvalue hp⟩

/-- A hint has the products of the formula that it is about. -/
theorem Lowers.hint (hd : Lowers d x) (hsame : Refines (cell (atom 11) (cell c d)) d) :
    Lowers (cell (atom 11) (cell c d)) (tuple (atom 7) [cell (atom 0) (atom 1), x]) := by
  refine ⟨normalizes_hint_iff.mpr ⟨x, hd.normalizes, rfl⟩,
    .compose (by omega) (.slot (by omega) 1) hd.formula, ?_⟩
  intro a p h
  exact yields_compose_iff.mpr ⟨a, yields_slot (slot_one a), hd.refines a p (hsame a p h)⟩

end

/-! ## The pass -/

theorem lowers_of_formula {f : Noun} (hf : Formula (fun _ => True) f) (hr : Rewritable f) :
    ∃ g, Lowers f g := by
  induction hf with
  | cons hf _ ihf ihd =>
    obtain ⟨p, q, rfl⟩ := hf.isCell_of
    obtain ⟨x, hx⟩ := ihf (hr.sub (by simp [subformulas]))
    obtain ⟨y, hy⟩ := ihd (hr.sub (by simp [subformulas]))
    exact ⟨_, hx.cons hy⟩
  | slot _ ax =>
    exact ⟨_, (normalizes_leaf_iff rfl).mpr rfl, .slot (by omega) ax, .refl _⟩
  | const _ c =>
    have hfixed := hr.consts c .refl
    exact ⟨_, (normalizes_one_iff (by simp)).mpr ⟨c, hfixed, rfl⟩, .const (by omega) c, .refl _⟩
  | eval _ _ _ ihb ihc =>
    obtain ⟨x, hx⟩ := ihb (hr.sub (by simp [subformulas]))
    obtain ⟨y, hy⟩ := ihc (hr.sub (by simp [subformulas]))
    exact ⟨_, hx.eval hy⟩
  | isCell _ _ ihb =>
    obtain ⟨x, hx⟩ := ihb (hr.sub (by simp [subformulas]))
    exact ⟨_, hx.isCell⟩
  | inc _ _ ihb =>
    obtain ⟨x, hx⟩ := ihb (hr.sub (by simp [subformulas]))
    exact ⟨_, hx.inc⟩
  | eq _ _ _ ihb ihc =>
    obtain ⟨x, hx⟩ := ihb (hr.sub (by simp [subformulas]))
    obtain ⟨y, hy⟩ := ihc (hr.sub (by simp [subformulas]))
    exact ⟨_, hx.eq hy⟩
  | ifThenElse _ _ _ _ ihb ihc ihd =>
    obtain ⟨x, hx⟩ := ihb (hr.sub (by simp [subformulas]))
    obtain ⟨y, hy⟩ := ihc (hr.sub (by simp [subformulas]))
    obtain ⟨z, hz⟩ := ihd (hr.sub (by simp [subformulas]))
    exact ⟨_, hx.ifThenElse hy hz⟩
  | compose _ _ _ ihb ihc =>
    obtain ⟨x, hx⟩ := ihb (hr.sub (by simp [subformulas]))
    obtain ⟨y, hy⟩ := ihc (hr.sub (by simp [subformulas]))
    exact ⟨_, hx.compose hy⟩
  | push _ _ _ ihb ihc =>
    obtain ⟨x, hx⟩ := ihb (hr.sub (by simp [subformulas]))
    obtain ⟨y, hy⟩ := ihc (hr.sub (by simp [subformulas]))
    exact ⟨_, hx.push hy⟩
  | call _ ax _ ihc =>
    obtain ⟨x, hx⟩ := ihc (hr.sub (by simp [subformulas]))
    exact ⟨_, hx.call ax⟩
  | edit _ ax _ _ ihv iht =>
    obtain ⟨x, hx⟩ := ihv (hr.sub (by simp [subformulas]))
    obtain ⟨y, hy⟩ := iht (hr.sub (by simp [subformulas]))
    exact Lowers.edit (hr.edits ax _ _ .refl) hx hy
  | hint _ tag _ ihd =>
    obtain ⟨x, hx⟩ := ihd (hr.sub (by simp [subformulas]))
    exact ⟨_, hx.hint fun _ _ h => yields_hint_iff.mp h⟩
  | clue _ tag _ _ _ ihd =>
    obtain ⟨x, hx⟩ := ihd (hr.sub (by simp [subformulas]))
    exact ⟨_, hx.hint fun _ _ h => (yields_clue_iff.mp h).2⟩

/-- The pass ends on every well-formed formula whose edits have an axis and whose constants it leaves
as they are. The result has every product of the formula and no opcode 9, 10 or 11. -/
theorem normalizeTo08_preserves {f : Noun} (hf : Formula (fun _ => True) f)
    (hedits : ∀ ax v t, Position f (cell (atom 10) (cell (cell (atom ax) v) t)) → 1 ≤ ax)
    (hconsts : ∀ c, Position f (cell (atom 1) c) → Normalizes c c) :
    ∃ g, Normalizes f g ∧ (∀ a p, Yields a f p → Yields a g p) ∧
      ∀ op d, Position g (cell (atom op) d) → op ≠ 9 ∧ op ≠ 10 ∧ op ≠ 11 := by
  obtain ⟨g, hg⟩ := lowers_of_formula hf ⟨hedits, hconsts⟩
  refine ⟨g, hg.normalizes, hg.refines, fun op d hp => ?_⟩
  have hop : op ≤ 8 := (hg.formula.position hp).opcode
  omega

/-! ## A call -/

/-- A gate whose arm increments its sample. -/
def incrementGate : Noun := tuple (tuple (atom 4) [atom 0, atom 6]) [atom 0, atom 0]

/-- The gate, called on the subject: its sample is edited, and its arm run. -/
def incrementCall : Noun :=
  tuple (atom 8) [cell (atom 1) incrementGate,
    tuple (atom 9) [atom 2, tuple (atom 10) [tuple (atom 6) [atom 0, atom 3],
      tuple (atom 11) [atom 7, atom 0, atom 2]]]]

example : (nock 9 (atom 41) incrementCall).toOption = some (atom 42) := by
  decide +kernel

theorem normalizeTo08_preserves_call : ∃ g, Normalizes incrementCall g ∧
    (∀ a p, Yields a incrementCall p → Yields a g p) ∧
      ∀ op d, Position g (cell (atom op) d) → op ≠ 9 ∧ op ≠ 10 ∧ op ≠ 11 := by
  have hpositions : ∀ g, Position incrementCall g → g ∈ [incrementCall,
      cell (atom 1) incrementGate,
      tuple (atom 9) [atom 2, tuple (atom 10) [tuple (atom 6) [atom 0, atom 3],
        tuple (atom 11) [atom 7, atom 0, atom 2]]],
      tuple (atom 10) [tuple (atom 6) [atom 0, atom 3], tuple (atom 11) [atom 7, atom 0, atom 2]],
      cell (atom 0) (atom 3), tuple (atom 11) [atom 7, atom 0, atom 2], cell (atom 0) (atom 2)] :=
    fun g => Position.mem_of_closed (by decide) (by decide)
  refine normalizeTo08_preserves ?_ ?_ ?_
  · exact .push trivial (.const trivial _) (.call trivial 2 (.edit trivial 6 (.slot trivial 3)
      (.hint trivial 7 (.slot trivial 2))))
  · intro ax v t hp
    have hmem := hpositions _ hp
    simp [incrementCall, tuple] at hmem
    omega
  · intro c hp
    have hmem := hpositions _ hp
    obtain rfl : c = incrementGate := by simpa [incrementCall, tuple] using hmem
    exact ⟨4, by decide⟩

end NnsVerified.Kernel
