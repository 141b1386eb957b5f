import NnsVerified.Hoon.Formula
import NnsVerified.Kernel.Normalize

/-!
# Where `+normalize-to-0-8` ends

One rule for each arm of the pass. The walk along the axis of an edit goes on for ever at the axis
`0`, and nothing else does: the pass ends exactly on the nouns from which it gets to no such edit.
-/

namespace NnsVerified.Kernel

open NnsVerified.Hoon NnsVerified.Hoon.Noun NnsVerified.Library

/-! ## Budgets -/

theorem taAxis_succ {n k : Nat} {r : Eval Nat} (hr : r ≠ .error .hang) (h : taAxis n k = r) :
    taAxis (n + 1) k = r := by
  induction n generalizing k r with
  | zero => exact absurd h.symm hr
  | succ n ih =>
    rw [taAxis.eq_def] at h
    rw [taAxis.eq_def]
    dsimp only at h ⊢
    split at h
    · rename_i hone
      rw [if_pos hone]
      exact h
    · rename_i hone
      rw [if_neg hone]
      exact bind_mono hr h (fun _ => ih) fun _ h => h

theorem rebuildAtAxis_succ {n axis : Nat} {current : Noun} {r : Eval Noun} (hr : r ≠ .error .hang)
    (h : rebuildAtAxis n axis current = r) : rebuildAtAxis (n + 1) axis current = r := by
  induction n generalizing axis current r with
  | zero => exact absurd h.symm hr
  | succ n ih =>
    rw [rebuildAtAxis.eq_def] at h
    rw [rebuildAtAxis.eq_def]
    dsimp only at h ⊢
    split at h
    · rename_i hone
      rw [if_pos hone]
      exact h
    · rename_i hone
      rw [if_neg hone]
      exact bind_mono hr h (fun _ _ h => h) fun _ h =>
        bind_mono hr h (fun _ => taAxis_succ) fun _ h => ih hr h

theorem normalizeTo08_succ {n : Nat} {f : Noun} {r : Eval Noun} (hr : r ≠ .error .hang)
    (h : normalizeTo08 n f = r) : normalizeTo08 (n + 1) f = r := by
  induction n generalizing f r with
  | zero => exact absurd h.symm hr
  | succ n ih =>
    have hstep : ∀ {g : Noun} (s : Eval Noun), s ≠ .error .hang → normalizeTo08 n g = s →
        normalizeTo08 (n + 1) g = s := fun _ => ih
    rw [normalizeTo08.eq_def] at h
    rw [normalizeTo08.eq_def]
    dsimp only at h ⊢
    split at h
    · exact h
    · exact bind_mono hr h hstep fun _ h => bind_mono hr h hstep fun _ h => h
    · exact bind_mono hr h hstep fun _ h => h
    · exact bind_mono hr h hstep fun _ h => bind_mono hr h hstep fun _ h => h
    · exact bind_mono hr h hstep fun _ h => h
    · exact bind_mono hr h hstep fun _ h => h
    · exact bind_mono hr h hstep fun _ h => bind_mono hr h hstep fun _ h => h
    · exact bind_mono hr h hstep fun _ h => bind_mono hr h hstep fun _ h =>
        bind_mono hr h hstep fun _ h => h
    · exact bind_mono hr h hstep fun _ h => bind_mono hr h hstep fun _ h => h
    · exact bind_mono hr h hstep fun _ h => bind_mono hr h hstep fun _ h => h
    · exact bind_mono hr h hstep fun _ h => h
    · exact bind_mono hr h hstep fun _ h => bind_mono hr h hstep fun _ h =>
        bind_mono hr h (fun _ => rebuildAtAxis_succ) fun _ h => h
    · exact bind_mono hr h hstep fun _ h => h
    · exact h

theorem steady_taAxis (k : Nat) : Steady fun n => taAxis n k :=
  steady_of_succ fun _ _ h => taAxis_succ nofun h

theorem steady_rebuildAtAxis (axis : Nat) (current : Noun) :
    Steady fun n => rebuildAtAxis n axis current :=
  steady_of_succ fun _ _ h => rebuildAtAxis_succ nofun h

theorem steady_normalizeTo08 (f : Noun) : Steady fun n => normalizeTo08 n f :=
  steady_of_succ fun _ _ h => normalizeTo08_succ nofun h

/-! ## Axes -/

theorem siblingAxis_spec {axis : Nat} (h : 2 ≤ axis) :
    ∃ sibling, siblingAxis axis = .ok sibling ∧ sibling ≠ 0 ∧
      ∀ n p q, slot (axis / 2) n = some (cell p q) →
        slot sibling n = some (if axis % 2 = 0 then q else p) := by
  by_cases heven : axis % 2 = 0
  · refine ⟨axis + 1, if_pos heven, by omega, fun n p q hcell => ?_⟩
    have hhalf : (axis + 1) / 2 = axis / 2 := by omega
    rw [slot_child (by omega), hhalf, hcell, if_pos heven]
    exact congrArg some (if_neg (by omega))
  · refine ⟨axis - 1, ?_, by omega, fun n p q hcell => ?_⟩
    · rw [siblingAxis, if_neg heven, sub_of_le (by omega)]
    · have hhalf : (axis - 1) / 2 = axis / 2 := by omega
      rw [slot_child (by omega), hhalf, hcell, if_neg heven]
      exact congrArg some (if_pos (by omega))

/-- The axis inside the pushed subject addresses the same part. -/
theorem taAxis_spec {k : Nat} (h : k ≠ 0) :
    ∃ x, Gives (fun n => taAxis n k) x ∧ 2 ≤ x ∧ ∀ t a, slot x (cell t a) = slot k t := by
  induction k using Nat.strong_induction_on with
  | _ k ih =>
    by_cases hone : k = 1
    · subst hone
      refine ⟨2, ⟨1, rfl⟩, le_rfl, fun t a => ?_⟩
      rw [slot_one]
      exact slot_even (slot_one (cell t a))
    · obtain ⟨parent, hparent, hle, hslot⟩ := ih (k / 2) (by omega) (by omega)
      refine ⟨2 * parent + k % 2, ?_, by omega, fun t a => ?_⟩
      · refine (gives_succ_iff (steady_taAxis k)).mp ?_
        simp only [taAxis, if_neg hone]
        refine (gives_map_iff (steady_taAxis (k / 2))).mpr ⟨parent, hparent, ?_⟩
        rcases Nat.mod_two_eq_zero_or_one k with hk | hk <;> simp [hk]
      · have hhalf : (2 * parent + k % 2) / 2 = parent := by omega
        have hmod : (2 * parent + k % 2) % 2 = k % 2 := by omega
        rw [slot_child (by omega), slot_child (by omega) t, hhalf, hmod, hslot]

/-- The walk along an axis ends. The formula that it builds has the edited target for product, over
every target that has the axis. -/
theorem rebuildAtAxis_spec {axis : Nat} (h : axis ≠ 0) (current : Noun) :
    ∃ g, Gives (fun n => rebuildAtAxis n axis current) g ∧
      (Formula (· ≤ 8) current → Formula (· ≤ 8) g ∧
        ∀ t a v r, Yields (cell t a) current v → edit axis v t = some r → Yields (cell t a) g r) := by
  induction axis using Nat.strong_induction_on generalizing current with
  | _ axis ih =>
    by_cases hone : axis = 1
    · subst hone
      refine ⟨current, ⟨1, rfl⟩, fun hcurrent => ⟨hcurrent, fun t a v r hv hr => ?_⟩⟩
      obtain rfl : v = r := by
        rw [edit, if_neg one_ne_zero, if_pos rfl] at hr
        exact Option.some.inj hr
      exact hv
    · have htwo : 2 ≤ axis := by omega
      obtain ⟨sibling, hsibling, hpos, hslot⟩ := siblingAxis_spec htwo
      obtain ⟨x, hx, -, hta⟩ := taAxis_spec hpos
      set next := if axis % 2 = 0 then cell current (cell (atom 0) (atom x))
        else cell (cell (atom 0) (atom x)) current with hnext
      obtain ⟨g, hg, hspec⟩ := ih (axis / 2) (by omega) (by omega) next
      refine ⟨g, ?_, fun hcurrent => ?_⟩
      · refine (gives_succ_iff (steady_rebuildAtAxis axis current)).mp ?_
        simp only [rebuildAtAxis, if_neg hone, hsibling, ok_bind]
        exact (gives_bind_iff (steady_taAxis sibling) fun x => steady_rebuildAtAxis _ _).mpr
          ⟨x, hx, hg⟩
      have hfetch : Formula (· ≤ 8) (cell (atom 0) (atom x)) := .slot (by omega) x
      have hformula : Formula (· ≤ 8) next := by
        rw [hnext]
        split
        · exact .cons hcurrent hfetch
        · exact .cons hfetch hcurrent
      obtain ⟨hgf, hyields⟩ := hspec hformula
      refine ⟨hgf, fun t a v r hv hr => ?_⟩
      rw [edit_child (by omega)] at hr
      split at hr
      · rename_i p q hcell
        refine hyields t a _ r ?_ hr
        have hother : Yields (cell t a) (cell (atom 0) (atom x)) (if axis % 2 = 0 then q else p) :=
          yields_slot ((hta t a).trans (hslot t p q hcell))
        obtain ⟨b, c, rfl⟩ := hcurrent.isCell_of
        rw [hnext]
        split
        · rename_i heven
          rw [if_pos heven] at hother
          exact yields_cons_iff.mpr ⟨v, q, hv, hother, rfl⟩
        · rename_i hodd
          rw [if_neg hodd] at hother
          exact yields_cons_iff.mpr ⟨p, v, hother, hv, rfl⟩
      · cases hr

/-! ## The arms of the pass -/

/-- The pass ends on `f`, with `g`. -/
def Normalizes (f g : Noun) : Prop := Gives (fun n => normalizeTo08 n f) g

/-- The nouns that the pass goes on to from a noun. -/
def normalizeCalls : Noun → List Noun
  | cell (cell p q) t => [cell p q, t]
  | cell (atom 1) c => [c]
  | cell (atom 2) (cell b c) => [b, c]
  | cell (atom 3) b => [b]
  | cell (atom 4) b => [b]
  | cell (atom 5) (cell b c) => [b, c]
  | cell (atom 6) (cell b (cell c d)) => [b, c, d]
  | cell (atom 7) (cell b c) => [b, c]
  | cell (atom 8) (cell b c) => [b, c]
  | cell (atom 9) (cell (atom _) c) => [c]
  | cell (atom 10) (cell (cell (atom _) v) t) => [v, t]
  | cell (atom 11) (cell _ t) => [t]
  | _ => []

section

variable {b c d f g t v : Noun}

theorem normalizes_iff_gives : Normalizes f g ↔ Gives (fun n => normalizeTo08 (n + 1) f) g :=
  (gives_succ_iff (steady_normalizeTo08 f)).symm

/-- What the pass does not go on from stays as it is. -/
theorem normalizes_leaf_iff (h : normalizeCalls f = []) : Normalizes f g ↔ f = g := by
  have hstep : ∀ n, normalizeTo08 (n + 1) f = .ok f := by
    intro n
    rw [normalizeTo08.eq_def]
    dsimp only
    split
    all_goals first
      | rfl
      | simp [normalizeCalls] at h
  rw [normalizes_iff_gives]
  simp only [hstep, gives_const_iff, Except.ok.injEq]

theorem normalizes_cons_iff : Normalizes (cell (cell b c) d) g ↔
    ∃ x y, Normalizes (cell b c) x ∧ Normalizes d y ∧ cell x y = g := by
  have hstep : ∀ n, normalizeTo08 (n + 1) (cell (cell b c) d) =
      normalizeTo08 n (cell b c) >>= fun x => normalizeTo08 n d >>= fun y => .ok (cell x y) :=
    fun _ => rfl
  rw [normalizes_iff_gives]
  simp only [hstep]
  rw [gives_bind_map_iff (steady_normalizeTo08 _) (steady_normalizeTo08 d)]
  simp only [Except.ok.injEq]
  exact Iff.rfl

/-- The opcodes with one operand. -/
theorem normalizes_one_iff {op : Nat} (hop : op = 1 ∨ op = 3 ∨ op = 4) :
    Normalizes (cell (atom op) b) g ↔ ∃ x, Normalizes b x ∧ cell (atom op) x = g := by
  have hstep : ∀ n, normalizeTo08 (n + 1) (cell (atom op) b) =
      normalizeTo08 n b >>= fun x => .ok (cell (atom op) x) := by
    intro n
    rcases hop with rfl | rfl | rfl <;> rfl
  rw [normalizes_iff_gives]
  simp only [hstep]
  rw [gives_map_iff (steady_normalizeTo08 b)]
  simp only [Except.ok.injEq]
  exact Iff.rfl

/-- The opcodes with two operands. -/
theorem normalizes_two_iff {op : Nat} (hop : op = 2 ∨ op = 5 ∨ op = 7 ∨ op = 8) :
    Normalizes (cell (atom op) (cell b c)) g ↔
      ∃ x y, Normalizes b x ∧ Normalizes c y ∧ cell (atom op) (cell x y) = g := by
  have hstep : ∀ n, normalizeTo08 (n + 1) (cell (atom op) (cell b c)) =
      normalizeTo08 n b >>= fun x => normalizeTo08 n c >>= fun y =>
        .ok (cell (atom op) (cell x y)) := by
    intro n
    rcases hop with rfl | rfl | rfl | rfl <;> rfl
  rw [normalizes_iff_gives]
  simp only [hstep]
  rw [gives_bind_map_iff (steady_normalizeTo08 b) (steady_normalizeTo08 c)]
  simp only [Except.ok.injEq]
  exact Iff.rfl

theorem normalizes_if_iff : Normalizes (cell (atom 6) (cell b (cell c d))) g ↔
    ∃ x y, Normalizes b x ∧ Normalizes c y ∧ ∃ z, Normalizes d z ∧
      cell (atom 6) (cell x (cell y z)) = g := by
  have hstep : ∀ n, normalizeTo08 (n + 1) (cell (atom 6) (cell b (cell c d))) =
      normalizeTo08 n b >>= fun x => normalizeTo08 n c >>= fun y =>
        normalizeTo08 n d >>= fun z => .ok (cell (atom 6) (cell x (cell y z))) := fun _ => rfl
  rw [normalizes_iff_gives]
  simp only [hstep]
  rw [gives_bind_bind_iff (steady_normalizeTo08 b) (steady_normalizeTo08 c)]
  · simp only [gives_map_iff (steady_normalizeTo08 d), Except.ok.injEq]
    exact Iff.rfl
  · exact fun x y => (steady_normalizeTo08 d).bind fun z => steady_const _

theorem normalizes_call_iff {ax : Nat} : Normalizes (cell (atom 9) (cell (atom ax) c)) g ↔
    ∃ x, Normalizes c x ∧
      tuple (atom 7) [x, tuple (atom 2) [cell (atom 0) (atom 1), cell (atom 0) (atom ax)]] = g := by
  have hstep : ∀ n, normalizeTo08 (n + 1) (cell (atom 9) (cell (atom ax) c)) =
      normalizeTo08 n c >>= fun x => .ok (tuple (atom 7)
        [x, tuple (atom 2) [cell (atom 0) (atom 1), cell (atom 0) (atom ax)]]) := fun _ => rfl
  rw [normalizes_iff_gives]
  simp only [hstep]
  rw [gives_map_iff (steady_normalizeTo08 c)]
  simp only [Except.ok.injEq]
  exact Iff.rfl

theorem normalizes_edit_iff {ax : Nat} :
    Normalizes (cell (atom 10) (cell (cell (atom ax) v) t)) g ↔
      ∃ x y, Normalizes v x ∧ Normalizes t y ∧ ∃ r,
        Gives (fun n => rebuildAtAxis n ax (tuple (atom 7) [cell (atom 0) (atom 3), x])) r ∧
          tuple (atom 8) [y, r] = g := by
  have hstep : ∀ n, normalizeTo08 (n + 1) (cell (atom 10) (cell (cell (atom ax) v) t)) =
      normalizeTo08 n v >>= fun x => normalizeTo08 n t >>= fun y =>
        rebuildAtAxis n ax (tuple (atom 7) [cell (atom 0) (atom 3), x]) >>= fun r =>
          .ok (tuple (atom 8) [y, r]) := fun _ => rfl
  rw [normalizes_iff_gives]
  simp only [hstep]
  rw [gives_bind_bind_iff (steady_normalizeTo08 v) (steady_normalizeTo08 t)]
  · simp only [gives_map_iff (steady_rebuildAtAxis ax _), Except.ok.injEq]
    exact Iff.rfl
  · exact fun x y => (steady_rebuildAtAxis ax _).bind fun r => steady_const _

theorem normalizes_hint_iff : Normalizes (cell (atom 11) (cell c t)) g ↔
    ∃ x, Normalizes t x ∧ tuple (atom 7) [cell (atom 0) (atom 1), x] = g := by
  have hstep : ∀ n, normalizeTo08 (n + 1) (cell (atom 11) (cell c t)) =
      normalizeTo08 n t >>= fun x => .ok (tuple (atom 7) [cell (atom 0) (atom 1), x]) :=
    fun _ => rfl
  rw [normalizes_iff_gives]
  simp only [hstep]
  rw [gives_map_iff (steady_normalizeTo08 t)]
  simp only [Except.ok.injEq]
  exact Iff.rfl

end

/-! ## Where the pass ends -/

/-- The walk along an axis ends exactly where there is one. -/
theorem rebuildAtAxis_zero (n : Nat) (current : Noun) :
    rebuildAtAxis n 0 current = .error .hang := by
  induction n generalizing current with
  | zero => rfl
  | succ n ih =>
    have hsibling : siblingAxis 0 = .ok 1 := rfl
    simp only [rebuildAtAxis, if_neg zero_ne_one, hsibling, ok_bind]
    cases n with
    | zero => rfl
    | succ n => exact ih _

theorem gives_rebuildAtAxis_zero {current g : Noun} :
    ¬Gives (fun n => rebuildAtAxis n 0 current) g := by
  rintro ⟨n, hn⟩
  dsimp only at hn
  rw [rebuildAtAxis_zero] at hn
  cases hn

/-- The pass goes on from `f` to `g`, through any number of calls. -/
def Visits : Noun → Noun → Prop := Relation.ReflTransGen fun f g => g ∈ normalizeCalls f

/-- One call of the pass ends exactly where the calls that it makes do, unless it is an edit at the
axis `0`. -/
theorem normalizes_exists_iff (f : Noun) : (∃ g, Normalizes f g) ↔
    (∀ c ∈ normalizeCalls f, ∃ g, Normalizes c g) ∧
      ∀ v t, f ≠ cell (atom 10) (cell (cell (atom 0) v) t) := by
  fun_cases normalizeCalls f
  case case1 => simp [normalizes_cons_iff]
  case case2 | case4 | case5 => simp [normalizes_one_iff]
  case case3 | case6 | case8 | case9 => simp [normalizes_two_iff]
  case case7 => simp [normalizes_if_iff]
  case case10 => simp [normalizes_call_iff]
  case case11 ax v t =>
    by_cases hax : ax = 0
    · subst hax
      simp [normalizes_edit_iff, gives_rebuildAtAxis_zero]
    · have hrebuild : ∀ v', ∃ g, Gives (fun n => rebuildAtAxis n ax v') g := fun v' =>
        let ⟨g, hg, _⟩ := rebuildAtAxis_spec hax v'
        ⟨g, hg⟩
      simp [normalizes_edit_iff, hax, hrebuild]
  case case12 => simp [normalizes_hint_iff]
  case case13 hedit _ =>
    have hleaf : normalizeCalls f = [] := by rw [normalizeCalls] <;> assumption
    have hshape : ∀ v t, f ≠ cell (atom 10) (cell (cell (atom 0) v) t) := hedit 0
    simp [normalizes_leaf_iff hleaf, hshape]

/-! ### No crashes -/

/-- The computation does not crash. -/
def NoBail {α : Type} (x : Eval α) : Prop := ∀ trace, x ≠ .error (.bail trace)

theorem noBail_ok {α : Type} (a : α) : NoBail (.ok a) := nofun

theorem noBail_hang {α : Type} : NoBail (.error .hang : Eval α) := nofun

theorem NoBail.bind {α β : Type} {x : Eval α} {k : α → Eval β} (hx : NoBail x)
    (hk : ∀ a, NoBail (k a)) : NoBail (x >>= k) := by
  intro trace
  cases x with
  | ok a => exact hk a trace
  | error e =>
    intro h
    obtain rfl := Except.error.inj h
    exact hx trace rfl

theorem taAxis_noBail (n k : Nat) : NoBail (taAxis n k) := by
  induction n generalizing k with
  | zero => exact noBail_hang
  | succ n ih =>
    unfold taAxis
    split
    · exact noBail_ok 2
    · refine (ih (k / 2)).bind fun parent => ?_
      split
      · exact noBail_ok _
      · exact noBail_ok _

theorem siblingAxis_noBail (axis : Nat) : NoBail (siblingAxis axis) := by
  unfold siblingAxis
  split
  · exact noBail_ok _
  · rw [sub_of_le (by omega)]
    exact noBail_ok _

theorem rebuildAtAxis_noBail (n axis : Nat) (current : Noun) :
    NoBail (rebuildAtAxis n axis current) := by
  induction n generalizing axis current with
  | zero => exact noBail_hang
  | succ n ih =>
    unfold rebuildAtAxis
    split
    · exact noBail_ok current
    · exact (siblingAxis_noBail axis).bind fun sibling => (taAxis_noBail n sibling).bind fun _ => ih _ _

theorem normalizeTo08_noBail (n : Nat) (f : Noun) : NoBail (normalizeTo08 n f) := by
  induction n generalizing f with
  | zero => exact noBail_hang
  | succ n ih =>
    unfold normalizeTo08
    split
    case h_1 => exact noBail_ok _
    case h_14 => exact noBail_ok _
    case h_3 | h_5 | h_6 | h_11 | h_13 => exact (ih _).bind fun _ => noBail_ok _
    case h_8 => exact (ih _).bind fun _ => (ih _).bind fun _ => (ih _).bind fun _ => noBail_ok _
    case h_12 =>
      exact (ih _).bind fun _ => (ih _).bind fun _ =>
        (rebuildAtAxis_noBail n _ _).bind fun _ => noBail_ok _
    all_goals exact (ih _).bind fun _ => (ih _).bind fun _ => noBail_ok _

/-- The pass ends with a result, if at all. -/
theorem normalizes_of_ends {n : Nat} {f : Noun} (h : normalizeTo08 n f ≠ .error .hang) :
    ∃ g, Normalizes f g := by
  cases hres : normalizeTo08 n f with
  | ok g => exact ⟨g, n, hres⟩
  | error e =>
    cases e with
    | bail trace => exact absurd hres (normalizeTo08_noBail n f trace)
    | hang => exact absurd hres h

theorem sizeOf_normalizeCalls {f c : Noun} (h : c ∈ normalizeCalls f) : sizeOf c < sizeOf f := by
  revert h
  fun_cases normalizeCalls f
  all_goals
    simp only [List.mem_cons, List.not_mem_nil, or_false, Noun.cell.sizeOf_spec,
      Noun.atom.sizeOf_spec]
    intro h
    rcases h with rfl | rfl | rfl <;> simp <;> omega

theorem Visits.normalizes {f g : Noun} (hv : Visits f g) (hf : ∃ r, Normalizes f r) :
    ∃ r, Normalizes g r := by
  induction hv with
  | refl => exact hf
  | tail _ hcall ih => exact ((normalizes_exists_iff _).mp ih).1 _ hcall

theorem normalizes_of_visits {f : Noun}
    (h : ∀ v t, ¬Visits f (cell (atom 10) (cell (cell (atom 0) v) t))) : ∃ g, Normalizes f g := by
  induction hsize : sizeOf f using Nat.strong_induction_on generalizing f with
  | _ size ih =>
    subst hsize
    refine (normalizes_exists_iff f).mpr ⟨fun c hc => ?_, ?_⟩
    · exact ih _ (sizeOf_normalizeCalls hc) (fun v t hv => h v t (.head hc hv)) rfl
    · rintro v t rfl
      exact h v t .refl

/-- The pass never ends where it gets to an edit at the axis `0`. -/
theorem hang_of_visits {f v t : Noun} (hv : Visits f (cell (atom 10) (cell (cell (atom 0) v) t)))
    (n : Nat) : normalizeTo08 n f = .error .hang := by
  by_contra hends
  have hedit := hv.normalizes (normalizes_of_ends hends)
  exact ((normalizes_exists_iff _).mp hedit).2 v t rfl

/-- The pass ends exactly on the nouns from which it gets to no edit at the axis `0`. -/
theorem normalizeTo08_ends_iff (f : Noun) : (∃ n, normalizeTo08 n f ≠ .error .hang) ↔
    ∀ v t, ¬Visits f (cell (atom 10) (cell (cell (atom 0) v) t)) := by
  constructor
  · rintro ⟨n, hn⟩ v t hv
    exact hn (hang_of_visits hv n)
  · intro h
    obtain ⟨g, n, hn⟩ := normalizes_of_visits h
    refine ⟨n, ?_⟩
    dsimp only at hn
    rw [hn]
    nofun

/-- The pass does not end on an edit at the axis `0`, nor where a constant quotes one. -/
theorem normalizeTo08_diverges :
    (∀ n, normalizeTo08 n (cell (atom 10) (cell (cell (atom 0) (atom 5)) (atom 7)))
      = .error .hang) ∧
    ∀ n, normalizeTo08 n (cell (atom 1) (cell (atom 10) (cell (cell (atom 0) (atom 5)) (atom 7))))
      = .error .hang := by
  have hquoted : Visits (cell (atom 1) (cell (atom 10) (cell (cell (atom 0) (atom 5)) (atom 7))))
      (cell (atom 10) (cell (cell (atom 0) (atom 5)) (atom 7))) :=
    .single (List.mem_singleton.mpr rfl)
  exact ⟨hang_of_visits .refl, hang_of_visits hquoted⟩

end NnsVerified.Kernel
