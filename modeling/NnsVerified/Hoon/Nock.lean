import NnsVerified.Hoon.Noun

/-!
# The Nock interpreter

`nock n a f` is the product of the formula `f` on the subject `a`, evaluated within a budget of `n`
nested steps: `hang` when the budget does not suffice, `bail` where Nock has no product.
-/

namespace NnsVerified.Hoon

open Noun

/-- `/[ax n]`: the part of a noun at an axis. -/
def slot (ax : Nat) (n : Noun) : Option Noun :=
  if ax = 0 then none
  else if ax = 1 then some n
  else
    match slot (ax / 2) n with
    | some (cell p q) => some (if ax % 2 = 0 then p else q)
    | _ => none
termination_by ax

/-- `#[ax v n]`: replace the part of a noun at an axis. -/
def edit (ax : Nat) (v n : Noun) : Option Noun :=
  if ax = 0 then none
  else if ax = 1 then some v
  else
    match slot (ax / 2) n with
    | some (cell p q) => edit (ax / 2) (if ax % 2 = 0 then cell v q else cell p v) n
    | _ => none
termination_by ax

/-- `*[a f]`. -/
def nock : Nat → Noun → Noun → Eval Noun
  | 0, _, _ => .error .hang
  | n + 1, a, f =>
    match f with
    | cell (cell b c) d => do
      let p ← nock n a (cell b c)
      let q ← nock n a d
      pure (cell p q)
    | cell (atom 0) (atom ax) => orCrash (slot ax a)
    | cell (atom 1) c => pure c
    | cell (atom 2) (cell b c) => do
      let s ← nock n a b
      let g ← nock n a c
      nock n s g
    | cell (atom 3) b => do
      match ← nock n a b with
      | atom _ => pure (loob false)
      | cell _ _ => pure (loob true)
    | cell (atom 4) b => do
      match ← nock n a b with
      | atom x => pure (atom (x + 1))
      | cell _ _ => crash
    | cell (atom 5) (cell b c) => do
      let x ← nock n a b
      let y ← nock n a c
      pure (loob (x = y))
    | cell (atom 6) (cell b (cell c d)) => do
      match ← nock n a b with
      | atom 0 => nock n a c
      | atom 1 => nock n a d
      | _ => crash
    | cell (atom 7) (cell b c) => do
      let s ← nock n a b
      nock n s c
    | cell (atom 8) (cell b c) => do
      let x ← nock n a b
      nock n (cell x a) c
    | cell (atom 9) (cell (atom ax) c) => do
      let core ← nock n a c
      let g ← orCrash (slot ax core)
      nock n core g
    | cell (atom 10) (cell (cell (atom ax) c) d) => do
      let v ← nock n a c
      let t ← nock n a d
      orCrash (edit ax v t)
    | cell (atom 11) (cell (cell (atom _) c) d) => do
      let _ ← nock n a c
      nock n a d
    | cell (atom 11) (cell (atom _) d) => nock n a d
    | _ => crash

/-! ## Budgets -/

/-- A result other than a hang is kept when the first step of a computation gets a larger budget, and
so does the rest. -/
theorem bind_mono {α β : Type} {x y : Eval α} {f g : α → Eval β} {r : Eval β}
    (hr : r ≠ .error .hang) (h : x >>= f = r) (hx : ∀ s, s ≠ .error .hang → x = s → y = s)
    (hf : ∀ a, f a = r → g a = r) : y >>= g = r := by
  cases x with
  | ok a =>
    rw [hx (.ok a) nofun rfl]
    exact hf a h
  | error e =>
    have he : (.error e : Eval α) ≠ .error .hang := by
      intro hhang
      obtain rfl := Except.error.inj hhang
      exact hr h.symm
    rw [hx (.error e) he rfl]
    exact h

/-- A larger budget gives the same result, unless it was a hang. -/
theorem nock_succ {n : Nat} {a f : Noun} {r : Eval Noun} (hr : r ≠ .error .hang)
    (h : nock n a f = r) : nock (n + 1) a f = r := by
  induction n generalizing a f r with
  | zero => exact absurd h.symm hr
  | succ n ih =>
    have hstep : ∀ {b g : Noun} (s : Eval Noun), s ≠ .error .hang → nock n b g = s →
        nock (n + 1) b g = s := fun _ => ih
    rw [nock.eq_def] at h
    rw [nock.eq_def]
    dsimp only at h ⊢
    split at h
    · exact bind_mono hr h hstep fun _ h => bind_mono hr h hstep fun _ h => h
    · exact h
    · exact h
    · exact bind_mono hr h hstep fun _ h => bind_mono hr h hstep fun _ h => ih hr h
    · exact bind_mono hr h hstep fun _ h => h
    · exact bind_mono hr h hstep fun _ h => h
    · exact bind_mono hr h hstep fun _ h => bind_mono hr h hstep fun _ h => h
    · refine bind_mono hr h hstep fun x h => ?_
      split at h
      · exact ih hr h
      · exact ih hr h
      · exact h
    · exact bind_mono hr h hstep fun _ h => ih hr h
    · exact bind_mono hr h hstep fun _ h => ih hr h
    · exact bind_mono hr h hstep fun _ h => bind_mono hr h (fun _ _ h => h) fun _ h => ih hr h
    · exact bind_mono hr h hstep fun _ h => bind_mono hr h hstep fun _ h => h
    · exact bind_mono hr h hstep fun _ h => ih hr h
    · exact ih hr h
    · exact h

theorem nock_settled {n m : Nat} {a f : Noun} {r : Eval Noun} (hle : n ≤ m)
    (hr : r ≠ .error .hang) (h : nock n a f = r) : nock m a f = r := by
  induction hle with
  | refl => exact h
  | step _ ih => exact nock_succ hr ih

theorem nock_mono {n m : Nat} {a f p : Noun} (hle : n ≤ m) (h : nock n a f = .ok p) :
    nock m a f = .ok p := nock_settled hle nofun h

/-- A formula of parts, constants, comparisons and choices, nested less than `n` deep. -/
def shallow : Nat → Noun → Bool
  | 0, _ => false
  | n + 1, f =>
    match f with
    | cell (atom 0) (atom _) => true
    | cell (atom 1) _ => true
    | cell (atom 5) (cell b c) => shallow n b && shallow n c
    | cell (atom 6) (cell b (cell c d)) => shallow n b && shallow n c && shallow n d
    | _ => false

theorem bind_ne_hang {α β : Type} {x : Eval α} {f : α → Eval β} (hx : x ≠ .error .hang)
    (hf : ∀ a, f a ≠ .error .hang) : x >>= f ≠ .error .hang := by
  cases x with
  | ok a => exact hf a
  | error e =>
    intro h
    obtain rfl := Except.error.inj h
    exact hx rfl

theorem orCrash_ne_hang {α : Type} (x : Option α) : orCrash x ≠ .error .hang := by
  cases x with
  | none => simp [orCrash, crash]
  | some a => simp [orCrash]

/-- A shallow formula has a product or crashes, on any subject. -/
theorem nock_shallow {n : Nat} {a f : Noun} (h : shallow n f = true) :
    nock n a f ≠ .error .hang := by
  induction n generalizing f with
  | zero => simp [shallow] at h
  | succ n ih =>
    rw [shallow.eq_def] at h
    dsimp only at h
    split at h
    · rw [nock]
      exact orCrash_ne_hang _
    · rw [nock]
      simp
    · obtain ⟨hb, hc⟩ := Bool.and_eq_true_iff.mp h
      rw [nock]
      exact bind_ne_hang (ih hb) fun _ => bind_ne_hang (ih hc) fun _ => by simp
    · obtain ⟨hbc, hd⟩ := Bool.and_eq_true_iff.mp h
      obtain ⟨hb, hc⟩ := Bool.and_eq_true_iff.mp hbc
      rw [nock]
      refine bind_ne_hang (ih hb) fun p => ?_
      split
      · exact ih hc
      · exact ih hd
      · simp [crash]
    · cases h

theorem shallow_succ {n : Nat} {f : Noun} (h : shallow n f = true) : shallow (n + 1) f = true := by
  induction n generalizing f with
  | zero => simp [shallow] at h
  | succ n ih =>
    rw [shallow.eq_def] at h
    dsimp only at h
    split at h
    · rfl
    · rfl
    · obtain ⟨hb, hc⟩ := Bool.and_eq_true_iff.mp h
      exact Bool.and_eq_true_iff.mpr ⟨ih hb, ih hc⟩
    · obtain ⟨hbc, hd⟩ := Bool.and_eq_true_iff.mp h
      obtain ⟨hb, hc⟩ := Bool.and_eq_true_iff.mp hbc
      exact Bool.and_eq_true_iff.mpr ⟨Bool.and_eq_true_iff.mpr ⟨ih hb, ih hc⟩, ih hd⟩
    · cases h

theorem shallow_mono {n m : Nat} {f : Noun} (hle : n ≤ m) (h : shallow n f = true) :
    shallow m f = true := by
  induction hle with
  | refl => exact h
  | step _ ih => exact shallow_succ ih

/-! ## Products -/

/-- The formula `f` has the product `p` on the subject `a`, within some budget. -/
def Yields (a f p : Noun) : Prop := ∃ n, nock n a f = .ok p

theorem Yields.unique {a f p q : Noun} (hp : Yields a f p) (hq : Yields a f q) : p = q := by
  obtain ⟨n, hn⟩ := hp
  obtain ⟨m, hm⟩ := hq
  have h := nock_mono (Nat.le_max_left n m) hn
  rw [nock_mono (Nat.le_max_right n m) hm] at h
  exact (Except.ok.inj h).symm

/-- A formula with a product has it within every budget that settles it. -/
theorem Yields.nock {n : Nat} {a f p : Noun} (h : Yields a f p) (hn : nock n a f ≠ .error .hang) :
    nock n a f = .ok p := by
  obtain ⟨m, hm⟩ := h
  have hmax := nock_mono (Nat.le_max_left m n) hm
  rwa [nock_settled (Nat.le_max_right m n) hn rfl] at hmax

theorem yields_slot {a p : Noun} {ax : Nat} (h : slot ax a = some p) :
    Yields a (cell (atom 0) (atom ax)) p :=
  ⟨1, by rw [nock, h]; rfl⟩

theorem yields_const (a c : Noun) : Yields a (cell (atom 1) c) c := ⟨1, rfl⟩

theorem yields_eq {a b c x y : Noun} (hb : Yields a b x) (hc : Yields a c y) :
    Yields a (cell (atom 5) (cell b c)) (loob (x = y)) := by
  obtain ⟨n, hn⟩ := hb
  obtain ⟨m, hm⟩ := hc
  refine ⟨max n m + 1, ?_⟩
  rw [nock, nock_mono (Nat.le_max_left n m) hn, nock_mono (Nat.le_max_right n m) hm]
  rfl

/-- Only the branch taken is evaluated. -/
theorem yields_if {a b c d p : Noun} {t : Bool} (hb : Yields a b (loob t))
    (hc : t = true → Yields a c p) (hd : t = false → Yields a d p) :
    Yields a (cell (atom 6) (cell b (cell c d))) p := by
  obtain ⟨n, hn⟩ := hb
  cases t with
  | true =>
    obtain ⟨m, hm⟩ := hc rfl
    refine ⟨max n m + 1, ?_⟩
    rw [nock, nock_mono (Nat.le_max_left n m) hn]
    exact nock_mono (Nat.le_max_right n m) hm
  | false =>
    obtain ⟨m, hm⟩ := hd rfl
    refine ⟨max n m + 1, ?_⟩
    rw [nock, nock_mono (Nat.le_max_left n m) hn]
    exact nock_mono (Nat.le_max_right n m) hm

/-- A conditional whose branches both have loobeans for products. -/
theorem yields_cond {a b c d : Noun} {x y z : Bool} (hb : Yields a b (loob x))
    (hc : Yields a c (loob y)) (hd : Yields a d (loob z)) :
    Yields a (cell (atom 6) (cell b (cell c d))) (loob (bif x then y else z)) := by
  refine yields_if hb ?_ ?_
  · rintro rfl
    exact hc
  · rintro rfl
    exact hd

/-! ## Axes of a tuple -/

theorem slot_zero (n : Noun) : slot 0 n = none := by rw [slot, if_pos rfl]

theorem slot_one (n : Noun) : slot 1 n = some n := by rw [slot, if_neg one_ne_zero, if_pos rfl]

theorem pos_of_slot {ax : Nat} {n p : Noun} (h : slot ax n = some p) : 0 < ax := by
  refine Nat.pos_of_ne_zero ?_
  rintro rfl
  rw [slot_zero] at h
  exact absurd h (by simp)

/-- The part at an axis below the root is a half of the part above it. -/
theorem slot_child {ax : Nat} (h : 2 ≤ ax) (n : Noun) :
    slot ax n = match slot (ax / 2) n with
      | some (cell p q) => some (if ax % 2 = 0 then p else q)
      | _ => none := by
  rw [slot, if_neg (by omega), if_neg (by omega)]

theorem edit_child {ax : Nat} (h : 2 ≤ ax) (v n : Noun) :
    edit ax v n = match slot (ax / 2) n with
      | some (cell p q) => edit (ax / 2) (if ax % 2 = 0 then cell v q else cell p v) n
      | _ => none := by
  rw [edit, if_neg (by omega), if_neg (by omega)]

theorem slot_even {ax : Nat} {n p q : Noun} (h : slot ax n = some (cell p q)) :
    slot (2 * ax) n = some p := by
  have hpos := pos_of_slot h
  have hhalf : 2 * ax / 2 = ax := by omega
  rw [slot_child (by omega), hhalf, h]
  simp

theorem slot_odd {ax : Nat} {n p q : Noun} (h : slot ax n = some (cell p q)) :
    slot (2 * ax + 1) n = some q := by
  have hpos := pos_of_slot h
  have hhalf : (2 * ax + 1) / 2 = ax := by omega
  have hodd : (2 * ax + 1) % 2 = 1 := by omega
  rw [slot_child (by omega), hhalf, h]
  simp [hodd]

/-- The rest of a tuple after its first `k` parts. -/
theorem slot_rest {x y : Noun} {xs ys : List Noun} {k : Nat} (h : (x :: xs).drop k = y :: ys) :
    slot (2 ^ (k + 1) - 1) (tuple x xs) = some (tuple y ys) := by
  induction k generalizing y ys with
  | zero =>
    obtain ⟨rfl, rfl⟩ := List.cons.inj h
    exact slot_one _
  | succ k ih =>
    obtain ⟨z, zs, hz⟩ : ∃ z zs, (x :: xs).drop k = z :: zs := by
      cases hdrop : (x :: xs).drop k with
      | nil =>
        rw [← List.drop_drop (i := 1), hdrop] at h
        simp at h
      | cons z zs => exact ⟨z, zs, rfl⟩
    have hzs : zs = y :: ys := by
      rw [← h, ← List.tail_drop, hz, List.tail_cons]
    have hcell := ih hz
    rw [hzs] at hcell
    have haxis : 2 ^ (k + 1 + 1) - 1 = 2 * (2 ^ (k + 1) - 1) + 1 := by
      have hpos : 0 < 2 ^ (k + 1) := by positivity
      rw [Nat.pow_succ 2 (k + 1)]
      omega
    rw [haxis]
    exact slot_odd hcell

/-- A part of a tuple other than the last. -/
theorem slot_part {x y z : Noun} {xs ys : List Noun} {k : Nat}
    (h : (x :: xs).drop k = y :: z :: ys) : slot (2 ^ (k + 2) - 2) (tuple x xs) = some y := by
  have hcell := slot_rest h
  have haxis : 2 ^ (k + 2) - 2 = 2 * (2 ^ (k + 1) - 1) := by
    rw [Nat.pow_succ 2 (k + 1)]
    omega
  rw [haxis]
  exact slot_even hcell

end NnsVerified.Hoon
