import NnsVerified.Hoon.Atom

/-!
# The jam encoding

`jam` writes a noun as a string of bits, least significant first: an atom behind a `0`, a cell
behind `1 0`, and a noun that was written before, where that is shorter, as its position behind
`1 1`. `cue` reads it back. The positions that the encoder and the decoder keep agree, except for
the cells around the one that is written, which the decoder has not completed yet; `Synced` says so.
-/

namespace NnsVerified.Hoon

/-! ## Bits -/

/-- The number whose bits, least significant first, are `bs`. -/
def ofBits (bs : List Bool) : Nat := Nat.ofDigits 2 (bs.map Bool.toNat)

/-- The bits of an atom. -/
def bits (a : Nat) : List Bool := (rip 0 a).map fun d => d = 1

theorem length_bits (a : Nat) : (bits a).length = met 0 a := List.length_map _

theorem ofBits_append (as bs : List Bool) :
    ofBits (as ++ bs) = ofBits as + 2 ^ as.length * ofBits bs := by
  simp [ofBits, Nat.ofDigits_append]

theorem map_toNat_bits (a : Nat) : (bits a).map Bool.toNat = Nat.digits 2 a := by
  have hdigit : ∀ d ∈ rip 0 a, (decide (d = 1)).toNat = d := by
    intro d hd
    have hlt : d < 2 := Nat.digits_lt_base (by norm_num) hd
    rcases Nat.lt_succ_iff_lt_or_eq.mp hlt with h | rfl
    · obtain rfl : d = 0 := by omega
      rfl
    · rfl
  rw [bits, List.map_map]
  exact (List.map_congr_left hdigit).trans (List.map_id _)

theorem ofBits_bits (a : Nat) : ofBits (bits a) = a := by
  rw [ofBits, map_toNat_bits, Nat.ofDigits_digits]

theorem met_zero_pos {a : Nat} (h : a ≠ 0) : 0 < met 0 a :=
  List.length_pos_of_ne_nil (Nat.digits_ne_nil_iff_ne_zero.mpr h)

/-- The highest bit of an atom is set. -/
theorem bits_eq_concat {a : Nat} (h : a ≠ 0) :
    bits a = (bits a).take (met 0 a - 1) ++ [true] := by
  have hne : bits a ≠ [] := List.ne_nil_of_length_pos (by rw [length_bits]; exact met_zero_pos h)
  have hdigits : Nat.digits 2 a ≠ [] := Nat.digits_ne_nil_iff_ne_zero.mpr h
  have hlast : (bits a).getLast hne = true := by
    have hdigit : (Nat.digits 2 a).getLast hdigits ≠ 0 := Nat.getLast_digit_ne_zero 2 h
    have hlt : (Nat.digits 2 a).getLast hdigits < 2 :=
      Nat.digits_lt_base (by norm_num) (List.getLast_mem hdigits)
    refine (List.getLast_map hne).trans ?_
    exact decide_eq_true (show (Nat.digits 2 a).getLast hdigits = 1 by omega)
  conv_lhs => rw [← List.dropLast_append_getLast hne, hlast]
  rw [List.dropLast_eq_take, length_bits]

/-- Bits of which the last is set are the bits of their number. -/
theorem bits_ofBits {bs : List Bool} (h : ∀ hne : bs ≠ [], bs.getLast hne = true) :
    bits (ofBits bs) = bs := by
  have hmap : Function.Injective (List.map Bool.toNat) :=
    List.map_injective_iff.mpr fun a b h => by
      cases a <;> cases b <;> simp_all
  refine hmap ?_
  rw [map_toNat_bits]
  refine Nat.digits_ofDigits 2 (by norm_num) _ (fun d hd => ?_) fun hne => ?_
  · obtain ⟨b, -, rfl⟩ := List.mem_map.mp hd
    exact Bool.toNat_lt b
  · have hbs : bs ≠ [] := fun he => hne (by simp [he])
    rw [List.getLast_map, h hbs]
    simp

/-! ## Numbers -/

/-- `+mat`: an atom behind its width, which stands behind the width of the width in unary. -/
def mat (a : Nat) : List Bool :=
  if a = 0 then [true]
  else
    List.replicate (met 0 (met 0 a)) false ++
      true :: ((bits (met 0 a)).take (met 0 (met 0 a) - 1) ++ bits a)

/-- The length of a run of zeros up to the next set bit, and the bits after that bit. -/
def unary : List Bool → Option (Nat × List Bool)
  | [] => none
  | true :: bs => some (0, bs)
  | false :: bs => (unary bs).map fun r => (r.1 + 1, r.2)

/-- `+rub`: the atom that the bits start with, and the bits after it. -/
def rub (bs : List Bool) : Option (Nat × List Bool) := do
  let (c, bs) ← unary bs
  if c = 0 then return (0, bs)
  let width := ofBits (bs.take (c - 1)) + 2 ^ (c - 1)
  let bs := bs.drop (c - 1)
  if bs.length < width then none
  return (ofBits (bs.take width), bs.drop width)

theorem unary_replicate (c : Nat) (bs : List Bool) :
    unary (List.replicate c false ++ true :: bs) = some (c, bs) := by
  induction c with
  | zero => rfl
  | succ c ih => simp [List.replicate_succ, unary, ih]

theorem rub_mat (a : Nat) (rest : List Bool) : rub (mat a ++ rest) = some (a, rest) := by
  by_cases ha : a = 0
  · subst ha
    rfl
  · have hwidth : met 0 a ≠ 0 := (met_zero_pos ha).ne'
    have hpos : 0 < met 0 (met 0 a) := met_zero_pos hwidth
    have htop := bits_eq_concat hwidth
    set c := met 0 (met 0 a) with hc
    set low := (bits (met 0 a)).take (c - 1) with hlow
    have hlen : low.length = c - 1 := by
      rw [hlow, List.length_take, length_bits, ← hc]
      omega
    have hvalue : ofBits low + 2 ^ (c - 1) = met 0 a := by
      have h := ofBits_bits (met 0 a)
      rw [htop, ofBits_append, hlen] at h
      simpa [ofBits] using h
    have hmat : mat a ++ rest = List.replicate c false ++ true :: (low ++ (bits a ++ rest)) := by
      rw [mat, if_neg ha]
      simp [← hc, ← hlow]
    have htake : (low ++ (bits a ++ rest)).take (c - 1) = low := List.take_left' hlen
    have hdrop : (low ++ (bits a ++ rest)).drop (c - 1) = bits a ++ rest := List.drop_left' hlen
    rw [hmat, rub, unary_replicate]
    simp only [Option.bind_eq_bind, Option.bind_some, htake, hdrop, hvalue, hpos.ne', if_false,
      List.take_left' (length_bits a), List.drop_left' (length_bits a), ofBits_bits]
    rw [if_neg (by rw [List.length_append, length_bits]; omega)]
    rfl

theorem mat_eq_concat (a : Nat) : ∃ front, mat a = front ++ [true] := by
  by_cases ha : a = 0
  · subst ha
    exact ⟨[], rfl⟩
  · rw [mat, if_neg ha, bits_eq_concat ha]
    exact ⟨List.replicate (met 0 (met 0 a)) false ++
      true :: ((bits (met 0 a)).take (met 0 (met 0 a) - 1) ++ (bits a).take (met 0 a - 1)),
      by simp⟩

/-! ## Nouns -/

/-- The bits of a noun at position `b`, behind the nouns of `m` at theirs, and the nouns written
with it. -/
def jamAt : Noun → Nat → List (Noun × Nat) → List Bool × List (Noun × Nat)
  | .atom a, b, m =>
    match m.lookup (.atom a) with
    | none => (false :: mat a, (.atom a, b) :: m)
    | some p => if met 0 a ≤ met 0 p then (false :: mat a, m) else (true :: true :: mat p, m)
  | .cell x y, b, m =>
    match m.lookup (.cell x y) with
    | some p => (true :: true :: mat p, m)
    | none =>
      let (xs, m) := jamAt x (b + 2) ((.cell x y, b) :: m)
      let (ys, m) := jamAt y (b + 2 + xs.length) m
      (true :: false :: (xs ++ ys), m)

/-- The bits of a jam, the first one first. -/
def jamBits (n : Noun) : List Bool := (jamAt n 0 []).1

/-- `+jam`: a noun as an atom. -/
def jam (n : Noun) : Nat := ofBits (jamBits n)

/-- The noun that the bits at position `b` start with, where the nouns of `m` were read before, the
bits after it, and the nouns read with it. -/
def cueAt : Nat → Nat → List (Nat × Noun) → List Bool →
    Option (Noun × List Bool × List (Nat × Noun))
  | _ + 1, b, m, false :: bs => do
    let (a, rest) ← rub bs
    return (.atom a, rest, (b, .atom a) :: m)
  | fuel + 1, b, m, true :: false :: bs => do
    let (x, mid, m) ← cueAt fuel (b + 2) m bs
    let (y, rest, m) ← cueAt fuel (b + 2 + (bs.length - mid.length)) m mid
    return (.cell x y, rest, (b, .cell x y) :: m)
  | _ + 1, _, m, true :: true :: bs => do
    let (p, rest) ← rub bs
    let n ← m.lookup p
    return (n, rest, m)
  | _, _, _, _ => none

/-- `+cue`: the noun of a jam. -/
def cue (a : Nat) : Option Noun := (cueAt (met 0 a) 0 [] (bits a)).map Prod.fst

/-! ## Round trip -/

/-- The nouns that the encoder has written are the ones that the decoder has read, other than the
nouns larger than `n`, the cells in which `n` stands. -/
structure Synced (b : Nat) (n : Noun) (m : List (Noun × Nat)) (k : List (Nat × Noun)) : Prop where
  known : ∀ x p, m.lookup x = some p → k.lookup p = some x ∨ sizeOf n < sizeOf x
  before : ∀ p x, k.lookup p = some x → p < b

/-- What the encoder and the decoder know after a noun of `len` bits: the encoder what it knew, and
what the decoder knows; the decoder what it knew, and what stands in these bits. -/
structure Grown (b len : Nat) (m m' : List (Noun × Nat)) (k k' : List (Nat × Noun)) : Prop where
  known : ∀ x p, m'.lookup x = some p → k'.lookup p = some x ∨ m.lookup x = some p
  kept : ∀ p x, k.lookup p = some x → k'.lookup p = some x
  within : ∀ p x, k'.lookup p = some x → k.lookup p = some x ∨ b ≤ p ∧ p < b + len

theorem lookup_cons_of_ne {α β : Type} [BEq α] [LawfulBEq α] {a a' : α} (h : a' ≠ a) (v : β)
    (l : List (α × β)) : ((a, v) :: l).lookup a' = l.lookup a' := by
  rw [List.lookup_cons, beq_false_of_ne h]

theorem Grown.refl (b len : Nat) (m : List (Noun × Nat)) (k : List (Nat × Noun)) :
    Grown b len m m k k :=
  ⟨fun _ _ h => Or.inr h, fun _ _ h => h, fun _ _ h => Or.inl h⟩

/-- A noun at `b` that the decoder adds to what it knows, and the encoder adds or knew. -/
theorem Synced.grown_cons {b len : Nat} {n : Noun} {m m' : List (Noun × Nat)}
    {k : List (Nat × Noun)} (h : Synced b n m k) (hlen : 0 < len) (hm : m' = (n, b) :: m ∨ m' = m) :
    Grown b len m m' k ((b, n) :: k) := by
  refine ⟨fun x p hx => ?_, fun p x hp => ?_, fun p x hp => ?_⟩
  · rcases hm with rfl | rfl
    · by_cases hn : x = n
      · subst hn
        rw [List.lookup_cons_self] at hx
        obtain rfl := Option.some.inj hx
        exact Or.inl List.lookup_cons_self
      · rw [lookup_cons_of_ne hn] at hx
        exact Or.inr hx
    · exact Or.inr hx
  · rw [lookup_cons_of_ne (h.before p x hp).ne]
    exact hp
  · by_cases hb : p = b
    · exact Or.inr ⟨hb.ge, by omega⟩
    · rw [lookup_cons_of_ne hb] at hp
      exact Or.inl hp

/-- A noun that the encoder knows is one that the decoder knows, at the same position. -/
theorem Synced.lookup {b : Nat} {n : Noun} {m : List (Noun × Nat)} {k : List (Nat × Noun)}
    (h : Synced b n m k) {p : Nat} (hp : m.lookup n = some p) : k.lookup p = some n :=
  (h.known n p hp).resolve_right (lt_irrefl _)

section Cell

variable {b len len' : Nat} {x y : Noun} {m m₁ m₂ : List (Noun × Nat)} {k k₁ k₂ : List (Nat × Noun)}

theorem Synced.head (h : Synced b (.cell x y) m k) :
    Synced (b + 2) x ((.cell x y, b) :: m) k := by
  have hsize : sizeOf x < sizeOf (Noun.cell x y) := by
    simp
    omega
  refine ⟨fun z p hz => ?_, fun p z hp => (h.before p z hp).trans (by omega)⟩
  by_cases hcell : z = .cell x y
  · subst hcell
    exact Or.inr hsize
  · rw [lookup_cons_of_ne hcell] at hz
    exact (h.known z p hz).imp_right hsize.trans

theorem Synced.tail (h : Synced b (.cell x y) m k)
    (hx : Grown (b + 2) len ((.cell x y, b) :: m) m₁ k k₁) : Synced (b + 2 + len) y m₁ k₁ := by
  have hsize : sizeOf y < sizeOf (Noun.cell x y) := by simp
  refine ⟨fun z p hz => ?_, fun p z hp => ?_⟩
  · rcases hx.known z p hz with hread | hz
    · exact Or.inl hread
    · by_cases hcell : z = .cell x y
      · subst hcell
        exact Or.inr hsize
      · rw [lookup_cons_of_ne hcell] at hz
        exact (h.known z p hz).imp (hx.kept p z) hsize.trans
  · rcases hx.within p z hp with hread | ⟨-, hlt⟩
    · have hlt := h.before p z hread
      omega
    · exact hlt

/-- Both parts of a cell are read, and then the cell itself. -/
theorem Synced.grown_cell (h : Synced b (.cell x y) m k)
    (hx : Grown (b + 2) len ((.cell x y, b) :: m) m₁ k k₁)
    (hy : Grown (b + 2 + len) len' m₁ m₂ k₁ k₂) :
    Grown b (2 + (len + len')) m m₂ k ((b, .cell x y) :: k₂) := by
  -- nothing that the parts left stands at `b`
  have hwithin : ∀ p z, k₂.lookup p = some z →
      k.lookup p = some z ∨ b + 2 ≤ p ∧ p < b + 2 + len + len' := by
    intro p z hp
    rcases hy.within p z hp with hp | ⟨hge, hlt⟩
    · exact (hx.within p z hp).imp_right fun h => ⟨h.1, by omega⟩
    · exact Or.inr ⟨by omega, hlt⟩
  have hne : ∀ p z, k₂.lookup p = some z → p ≠ b := by
    intro p z hp
    rcases hwithin p z hp with hp | ⟨hge, -⟩
    · exact (h.before p z hp).ne
    · omega
  have hread : ∀ z p, k₂.lookup p = some z → ((b, .cell x y) :: k₂).lookup p = some z := by
    intro z p hp
    rw [lookup_cons_of_ne (hne p z hp)]
    exact hp
  refine ⟨fun z p hz => ?_, fun p z hp => hread z p (hy.kept p z (hx.kept p z hp)), fun p z hp => ?_⟩
  · rcases hy.known z p hz with hp | hz
    · exact Or.inl (hread z p hp)
    · rcases hx.known z p hz with hp | hz
      · exact Or.inl (hread z p (hy.kept p z hp))
      · by_cases hcell : z = .cell x y
        · subst hcell
          rw [List.lookup_cons_self] at hz
          obtain rfl := Option.some.inj hz
          exact Or.inl List.lookup_cons_self
        · rw [lookup_cons_of_ne hcell] at hz
          exact Or.inr hz
  · by_cases hb : p = b
    · exact Or.inr ⟨hb.ge, by omega⟩
    · rw [lookup_cons_of_ne hb] at hp
      exact (hwithin p z hp).imp_right fun h => ⟨by omega, by omega⟩

end Cell

/-- The decoder reads a reference to a noun that it knows. -/
theorem cueAt_reference {fuel b p : Nat} {n : Noun} {k : List (Nat × Noun)} (rest : List Bool)
    (h : k.lookup p = some n) :
    cueAt (fuel + 1) b k (true :: true :: mat p ++ rest) = some (n, rest, k) := by
  simp [cueAt, rub_mat, h]

theorem cueAt_atom {fuel b a : Nat} {k : List (Nat × Noun)} (rest : List Bool) :
    cueAt (fuel + 1) b k (false :: mat a ++ rest) = some (.atom a, rest, (b, .atom a) :: k) := by
  simp [cueAt, rub_mat]

theorem cueAt_cell {fuel b : Nat} {x y : Noun} {k k₁ k₂ : List (Nat × Noun)} {xs ys : List Bool}
    (rest : List Bool) (hx : cueAt fuel (b + 2) k (xs ++ (ys ++ rest)) = some (x, ys ++ rest, k₁))
    (hy : cueAt fuel (b + 2 + xs.length) k₁ (ys ++ rest) = some (y, rest, k₂)) :
    cueAt (fuel + 1) b k (true :: false :: (xs ++ ys) ++ rest)
      = some (.cell x y, rest, (b, .cell x y) :: k₂) := by
  have hread : (xs ++ (ys ++ rest)).length - (ys ++ rest).length = xs.length := by
    rw [List.length_append]
    omega
  simp only [List.cons_append, List.append_assoc]
  rw [cueAt, hx]
  simp only [Option.bind_eq_bind, Option.bind_some, hread, hy]
  rfl

/-- The decoder reads what the encoder wrote, and learns what the encoder learned. -/
theorem cueAt_jamAt (n : Noun) {fuel b : Nat} {m : List (Noun × Nat)} {k : List (Nat × Noun)}
    (rest : List Bool) (h : Synced b n m k) (hfuel : (jamAt n b m).1.length ≤ fuel) :
    ∃ k', cueAt fuel b k ((jamAt n b m).1 ++ rest) = some (n, rest, k') ∧
      Grown b (jamAt n b m).1.length m (jamAt n b m).2 k k' := by
  induction n generalizing fuel b m k rest with
  | atom a =>
    unfold jamAt at hfuel ⊢
    cases hm : m.lookup (.atom a) with
    | none =>
      simp only [hm] at hfuel ⊢
      obtain ⟨fuel, rfl⟩ := Nat.exists_eq_succ_of_ne_zero (n := fuel) (by simp at hfuel; omega)
      exact ⟨_, cueAt_atom rest, h.grown_cons (by simp) (Or.inl rfl)⟩
    | some p =>
      simp only [hm] at hfuel ⊢
      split at hfuel
      · rename_i hmet
        rw [if_pos hmet]
        obtain ⟨fuel, rfl⟩ := Nat.exists_eq_succ_of_ne_zero (n := fuel) (by simp at hfuel; omega)
        exact ⟨_, cueAt_atom rest, h.grown_cons (by simp) (Or.inr rfl)⟩
      · rename_i hmet
        rw [if_neg hmet]
        obtain ⟨fuel, rfl⟩ := Nat.exists_eq_succ_of_ne_zero (n := fuel) (by simp at hfuel; omega)
        exact ⟨_, cueAt_reference rest (h.lookup hm), Grown.refl _ _ _ _⟩
  | cell x y ihx ihy =>
    unfold jamAt at hfuel ⊢
    cases hm : m.lookup (.cell x y) with
    | some p =>
      simp only [hm] at hfuel ⊢
      obtain ⟨fuel, rfl⟩ := Nat.exists_eq_succ_of_ne_zero (n := fuel) (by simp at hfuel; omega)
      exact ⟨_, cueAt_reference rest (h.lookup hm), Grown.refl _ _ _ _⟩
    | none =>
      simp only [hm, List.length_cons, List.length_append] at hfuel ⊢
      set jx := jamAt x (b + 2) ((.cell x y, b) :: m) with hjx
      set jy := jamAt y (b + 2 + jx.1.length) jx.2 with hjy
      obtain ⟨fuel, rfl⟩ := Nat.exists_eq_succ_of_ne_zero (n := fuel) (by omega)
      obtain ⟨k₁, hcuex, hgrownx⟩ := ihx (jy.1 ++ rest) h.head (show jx.1.length ≤ fuel by omega)
      obtain ⟨k₂, hcuey, hgrowny⟩ := ihy rest (h.tail hgrownx) (show jy.1.length ≤ fuel by omega)
      refine ⟨_, cueAt_cell rest hcuex hcuey, ?_⟩
      have hlen : jx.1.length + jy.1.length + 1 + 1 = 2 + (jx.1.length + jy.1.length) := by omega
      rw [hlen]
      exact h.grown_cell hgrownx hgrowny

/-- The last bit of an encoding is set: it is the highest bit of an atom or of a position. -/
theorem jamAt_eq_concat (n : Noun) (b : Nat) (m : List (Noun × Nat)) :
    ∃ front, (jamAt n b m).1 = front ++ [true] := by
  induction n generalizing b m with
  | atom a =>
    obtain ⟨front, hfront⟩ := mat_eq_concat a
    unfold jamAt
    cases m.lookup (.atom a) with
    | none => exact ⟨false :: front, by simp [hfront]⟩
    | some p =>
      obtain ⟨fp, hfp⟩ := mat_eq_concat p
      dsimp only
      split
      · exact ⟨false :: front, by simp [hfront]⟩
      · exact ⟨true :: true :: fp, by simp [hfp]⟩
  | cell x y ihx ihy =>
    unfold jamAt
    cases m.lookup (.cell x y) with
    | some p =>
      obtain ⟨fp, hfp⟩ := mat_eq_concat p
      exact ⟨true :: true :: fp, by simp [hfp]⟩
    | none =>
      obtain ⟨front, hfront⟩ := ihy (b + 2 + (jamAt x (b + 2) ((.cell x y, b) :: m)).1.length)
        (jamAt x (b + 2) ((.cell x y, b) :: m)).2
      exact ⟨true :: false :: ((jamAt x (b + 2) ((.cell x y, b) :: m)).1 ++ front),
        by simp [hfront]⟩

theorem bits_jam (n : Noun) : bits (jam n) = jamBits n := by
  obtain ⟨front, hfront⟩ := jamAt_eq_concat n 0 []
  refine bits_ofBits fun hne => ?_
  have hbits : jamBits n = front ++ [true] := hfront
  simp [hbits]

/-- `cue` undoes `jam`. -/
theorem cue_jam (n : Noun) : cue (jam n) = some n := by
  have hsynced : Synced 0 n [] [] :=
    ⟨fun x p hx => by simp at hx, fun p x hp => by simp at hp⟩
  have hlen : met 0 (jam n) = (jamAt n 0 []).1.length := by
    rw [← length_bits, bits_jam]
    rfl
  obtain ⟨k, hcue, -⟩ := cueAt_jamAt n [] hsynced (Nat.le_refl _)
  rw [cue, hlen, bits_jam]
  rw [List.append_nil] at hcue
  exact congrArg (Option.map Prod.fst) hcue

example : jam (.cell (.atom 1) (.atom 1)) = 817 := by decide

/-- The jam of a cell starts with a set bit. -/
theorem odd_jam_cell (x y : Noun) : jam (.cell x y) % 2 = 1 := by
  simp [jam, jamBits, jamAt, ofBits, Nat.ofDigits_cons, Nat.add_mod]

end NnsVerified.Hoon
