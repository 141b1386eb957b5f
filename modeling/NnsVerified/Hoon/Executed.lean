import NnsVerified.Hoon.Nock

/-!
# Executed opcodes

`executed n a f` lists the opcodes of the formulas that `nock n a f` evaluates, in the order in which
it gets to them. Before the first Nock 2, which runs a computed formula, and without a Nock 9, which
runs one that it finds in the subject, the formulas are parts of `f`: an opcode that is the head of
no cell of `f` is not executed.
-/

namespace NnsVerified.Hoon

open Noun

/-! ## Execution -/

/-- The opcode of a formula, where it has one. -/
def opcode : Noun → List Nat
  | cell (atom op) _ => [op]
  | _ => []

/-- What goes on with the product of a formula, if it has one. -/
def after (x : Eval Noun) (k : Noun → List Nat) : List Nat :=
  match x with
  | .ok p => k p
  | .error _ => []

/-- The opcodes that `nock n a f` executes. -/
def executed : Nat → Noun → Noun → List Nat
  | 0, _, _ => []
  | n + 1, a, f => opcode f ++
    match f with
    | cell (cell b c) d =>
      executed n a (cell b c) ++ after (nock n a (cell b c)) fun _ => executed n a d
    | cell (atom 2) (cell b c) =>
      executed n a b ++ after (nock n a b) fun s =>
        executed n a c ++ after (nock n a c) fun g => executed n s g
    | cell (atom 3) b => executed n a b
    | cell (atom 4) b => executed n a b
    | cell (atom 5) (cell b c) => executed n a b ++ after (nock n a b) fun _ => executed n a c
    | cell (atom 6) (cell b (cell c d)) =>
      executed n a b ++ after (nock n a b) fun
        | atom 0 => executed n a c
        | atom 1 => executed n a d
        | _ => []
    | cell (atom 7) (cell b c) => executed n a b ++ after (nock n a b) fun s => executed n s c
    | cell (atom 8) (cell b c) =>
      executed n a b ++ after (nock n a b) fun x => executed n (cell x a) c
    | cell (atom 9) (cell (atom ax) c) =>
      executed n a c ++ after (nock n a c) fun core =>
        after (orCrash (slot ax core)) fun g => executed n core g
    | cell (atom 10) (cell (cell (atom _) c) d) =>
      executed n a c ++ after (nock n a c) fun _ => executed n a d
    | cell (atom 11) (cell (cell (atom _) c) d) =>
      executed n a c ++ after (nock n a c) fun _ => executed n a d
    | cell (atom 11) (cell (atom _) d) => executed n a d
    | _ => []

/-! ## Heads -/

/-- No cell of a noun has an atom with the property for its head. -/
def NoHead (bad : Nat → Prop) : Noun → Prop
  | atom _ => True
  | cell p q => (∀ op, p = atom op → ¬bad op) ∧ NoHead bad p ∧ NoHead bad q

section

variable {bad : Nat → Prop} {p q : Noun}

@[simp] theorem noHead_atom (a : Nat) : NoHead bad (atom a) := trivial

@[simp] theorem noHead_cell_atom {op : Nat} :
    NoHead bad (cell (atom op) q) ↔ ¬bad op ∧ NoHead bad q := by
  simp [NoHead]

@[simp] theorem noHead_cell_cell {p p' : Noun} :
    NoHead bad (cell (cell p p') q) ↔ NoHead bad (cell p p') ∧ NoHead bad q := by
  simp [NoHead]

theorem NoHead.left (h : NoHead bad (cell p q)) : NoHead bad p := h.2.1

theorem NoHead.right (h : NoHead bad (cell p q)) : NoHead bad q := h.2.2

end

/-! ## Until the first Nock 2 -/

/-- The opcodes before the first Nock 2 do not have the property. -/
def Spares (bad : Nat → Prop) (ops : List Nat) : Prop := ∀ op ∈ ops.takeWhile (· ≠ 2), ¬bad op

section

variable {bad : Nat → Prop}

theorem spares_nil : Spares bad [] := by
  intro op h
  cases h

theorem Spares.append {xs ys : List Nat} (hxs : Spares bad xs) (hys : Spares bad ys) :
    Spares bad (xs ++ ys) := by
  intro op hop
  rw [List.takeWhile_append] at hop
  split at hop
  · next hall =>
    have hwhole : xs.takeWhile (· ≠ 2) = xs :=
      (List.takeWhile_prefix _).eq_of_length hall
    rcases List.mem_append.mp hop with hop | hop
    · rw [← hwhole] at hop
      exact hxs op hop
    · exact hys op hop
  · exact hxs op hop

/-- What stands after a Nock 2 does not matter. -/
theorem Spares.cons {op : Nat} {ops : List Nat} (hop : ¬bad op) (hops : op ≠ 2 → Spares bad ops) :
    Spares bad (op :: ops) := by
  by_cases h : op = 2
  · subst h
    intro x hx
    simp at hx
  · have hone : Spares bad [op] := by
      intro x hx
      have hmem := List.mem_singleton.mp ((List.takeWhile_sublist _).mem hx)
      rw [hmem]
      exact hop
    exact hone.append (hops h)

theorem Spares.after {x : Eval Noun} {k : Noun → List Nat} (hk : ∀ p, Spares bad (k p)) :
    Spares bad (after x k) := by
  cases x with
  | ok p => exact hk p
  | error e => exact spares_nil

/-- A formula none of whose cells has a bad head executes no bad opcode before a Nock 2, if Nock 9 is
bad. -/
theorem executed_spares (hcall : bad 9) {f : Noun} (hf : NoHead bad f) (n : Nat) (a : Noun) :
    Spares bad (executed n a f) := by
  induction n generalizing a f with
  | zero => exact spares_nil
  | succ n ih =>
    cases f with
    | atom x => exact spares_nil
    | cell p d =>
    cases p with
    | cell b c =>
      obtain ⟨hb, hd⟩ := noHead_cell_cell.mp hf
      exact (ih hb a).append (Spares.after fun _ => ih hd a)
    | atom op =>
    obtain ⟨hop, hd⟩ := noHead_cell_atom.mp hf
    refine Spares.cons hop fun htwo => ?_
    split
    · next h => cases h
    · next h =>
      cases h
      exact absurd rfl htwo
    · next h =>
      cases h
      exact ih hd a
    · next h =>
      cases h
      exact ih hd a
    · next h =>
      cases h
      exact (ih hd.left a).append (Spares.after fun _ => ih hd.right a)
    · next h =>
      cases h
      refine (ih hd.left a).append (Spares.after fun x => ?_)
      split
      · exact ih hd.right.left a
      · exact ih hd.right.right a
      · exact spares_nil
    · next h =>
      cases h
      exact (ih hd.left a).append (Spares.after fun s => ih hd.right s)
    · next h =>
      cases h
      exact (ih hd.left a).append (Spares.after fun x => ih hd.right (cell x a))
    · next h =>
      cases h
      exact absurd hcall hop
    · next h =>
      cases h
      exact (ih hd.left.right a).append (Spares.after fun _ => ih hd.right a)
    · next h =>
      cases h
      exact (ih hd.left.right a).append (Spares.after fun _ => ih hd.right a)
    · next h =>
      cases h
      exact ih hd.right a
    · exact spares_nil

end

end NnsVerified.Hoon
