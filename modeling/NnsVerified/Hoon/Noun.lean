import Mathlib.Data.Nat.Digits.Defs
import Mathlib.Data.Nat.Digits.Lemmas

/-!
# Nouns and evaluation

Nock data (`Noun`), the outcome of evaluating Hoon code (`Eval`), and the clams that turn an
untyped noun into a value of a mold.

Evaluation either produces a value, or crashes with a stack trace (`bail`, caught by `+mule`), or
runs out of the resources of the virtual machine (`hang`, which `+mule` does not catch).
-/

namespace NnsVerified.Hoon

/-- A noun: an atom or a cell of two nouns. -/
inductive Noun where
  | atom (a : Nat)
  | cell (p q : Noun)
  deriving DecidableEq, Repr, Inhabited

/-- Why an evaluation produced no value. -/
inductive Fault where
  /-- A deterministic crash (`!!`, a failed `?>`, an underflow), with its stack trace. -/
  | bail (trace : Noun)
  /-- The evaluation does not finish within the budget of the virtual machine. -/
  | hang
  deriving DecidableEq, Repr

/-- The outcome of evaluating Hoon code. -/
abbrev Eval (α : Type) := Except Fault α

/-- A crash whose stack trace nobody reads. -/
def crash {α : Type} : Eval α := .error (.bail (.atom 0))

/-- `+mule`: run a computation and return its stack trace instead of crashing. -/
def mule {α : Type} : Eval α → Eval (Except Noun α)
  | .ok a => .ok (.ok a)
  | .error (.bail trace) => .ok (.error trace)
  | .error .hang => .error .hang

@[simp] theorem mule_ok {α : Type} (a : α) : mule (.ok a) = .ok (.ok a) := rfl

@[simp] theorem mule_bail {α : Type} (trace : Noun) :
    mule (α := α) (.error (.bail trace)) = .ok (.error trace) := rfl

@[simp] theorem mule_hang {α : Type} : mule (α := α) (.error .hang) = .error .hang := rfl

/-- The two ways in which `+mule` returns. -/
theorem mule_eq_ok {α : Type} {x : Eval α} {r : Except Noun α} (h : mule x = .ok r) :
    (∃ a, x = .ok a ∧ r = .ok a) ∨ (∃ trace, x = .error (.bail trace) ∧ r = .error trace) := by
  cases x with
  | ok a => exact Or.inl ⟨a, rfl, (Except.ok.inj h).symm⟩
  | error e =>
    cases e with
    | bail trace => exact Or.inr ⟨trace, rfl, (Except.ok.inj h).symm⟩
    | hang => simp at h

theorem bind_eq_ok {ε α β : Type} {x : Except ε α} {f : α → Except ε β} {b : β}
    (h : x >>= f = .ok b) : ∃ a, x = .ok a ∧ f a = .ok b := by
  cases x with
  | ok a => exact ⟨a, rfl, h⟩
  | error e => exact absurd h (by simp [bind, Except.bind])

theorem bind_eq_ok_iff {ε α β : Type} {x : Except ε α} {f : α → Except ε β} {b : β} :
    x >>= f = .ok b ↔ ∃ a, x = .ok a ∧ f a = .ok b := by
  refine ⟨bind_eq_ok, ?_⟩
  rintro ⟨a, rfl, hf⟩
  exact hf

theorem toOption_eq_some {ε α : Type} {x : Except ε α} {a : α} :
    x.toOption = some a ↔ x = .ok a := by
  cases x with
  | ok b => simp [Except.toOption]
  | error e => simp [Except.toOption]

@[simp] theorem ok_bind {ε α β : Type} (a : α) (f : α → Except ε β) :
    (Except.ok a : Except ε α) >>= f = f a := rfl

@[simp] theorem pure_eq_ok {ε α : Type} (a : α) : (pure a : Except ε α) = .ok a := rfl

namespace Noun

/-- A null-terminated list `[i0 i1 … ~]`. -/
def list : List Noun → Noun
  | [] => .atom 0
  | x :: xs => .cell x (list xs)

/-- A loobean: `0` is `%.y`. -/
def loob (b : Bool) : Noun := .atom (if b then 0 else 1)

/-- A cell of nouns `[x0 x1 … xn]`, nested to the right. -/
def tuple : Noun → List Noun → Noun
  | x, [] => x
  | x, y :: ys => .cell x (tuple y ys)

theorem list_injective : Function.Injective list := by
  intro xs
  induction xs with
  | nil =>
    intro ys h
    cases ys with
    | nil => rfl
    | cons y ys => simp [list] at h
  | cons x xs ih =>
    intro ys h
    cases ys with
    | nil => simp [list] at h
    | cons y ys =>
      simp only [list, Noun.cell.injEq] at h
      rw [h.1, ih h.2]

@[simp] theorem list_inj {xs ys : List Noun} : list xs = list ys ↔ xs = ys :=
  list_injective.eq_iff

end Noun

/-! ## Clams -/

/-- The mold `@` (and its auras): any atom. -/
def clamAtom : Noun → Option Nat
  | .atom a => some a
  | .cell _ _ => none

/-- The mold `(list item)`: a null-terminated list of items. -/
def clamList {α : Type} (item : Noun → Option α) : Noun → Option (List α)
  | .atom 0 => some []
  | .atom (_ + 1) => none
  | .cell p q => do
    let i ← item p
    let t ← clamList item q
    some (i :: t)

/-- The mold `?`. -/
def clamLoob : Noun → Option Bool
  | .atom 0 => some true
  | .atom 1 => some false
  | _ => none

/-- `;;`: a noun that does not fit the mold crashes. -/
def orCrash {α : Type} : Option α → Eval α
  | some a => .ok a
  | none => crash

theorem orCrash_eq_ok {α : Type} {x : Option α} {y : α} : orCrash x = .ok y ↔ x = some y := by
  cases x with
  | none => simp [orCrash, crash]
  | some z => simp [orCrash]

@[simp] theorem clamAtom_atom (a : Nat) : clamAtom (.atom a) = some a := rfl

/-- The clam of a list accepts the list of any values whose items it accepts. -/
theorem clamList_list {α : Type} {item : Noun → Option α} {xs : List Noun} {ys : List α}
    (h : List.Forall₂ (fun x y => item x = some y) xs ys) :
    clamList item (Noun.list xs) = some ys := by
  induction h with
  | nil => rfl
  | cons hx _ ih => simp [Noun.list, clamList, hx, ih]

end NnsVerified.Hoon
