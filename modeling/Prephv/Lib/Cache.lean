import Mathlib.Logic.Function.Iterate

/-!
# Lib — Cache

A cache remembers values of a function, so that they need not be computed again.  A computation whose
state is nothing but caches `Reads` a value when it returns the value from every state in which the
caches are right, and leaves them right.  What it returns then does not depend on what was
remembered: computations are put together as the plain functions they read.

`Right` is the invariant of one cache: a key and a value, which belong together unless the key is the
one that stands for nothing.
-/

set_option autoImplicit false

namespace Cache

variable {σ α β κ ν : Type}

/-! ### One entry -/

/-- The value that is remembered is the one at the key, unless the key is `invalid`. -/
def Right (f : κ → ν) (invalid key : κ) (val : ν) : Prop := key ≠ invalid → val = f key

theorem Right.of_invalid (f : κ → ν) (invalid : κ) (val : ν) : Right f invalid invalid val :=
  fun h => absurd rfl h

theorem Right.filled (f : κ → ν) (invalid key : κ) : Right f invalid key (f key) := fun _ => rfl

theorem Right.hit {f : κ → ν} {invalid key : κ} {val : ν} (h : Right f invalid key val)
    (hkey : key ≠ invalid) : val = f key := h hkey

/-! ### Computations -/

/-- The computation returns `a` where the caches are right, and leaves them right. -/
def Reads (inv : σ → Prop) (x : StateM σ α) (a : α) : Prop :=
  ∀ s, inv s → (x s).1 = a ∧ inv (x s).2

variable {inv : σ → Prop}

theorem Reads.pure (inv : σ → Prop) (a : α) : Reads inv (Pure.pure a) a := fun _ h => ⟨rfl, h⟩

theorem Reads.bind {x : StateM σ α} {f : α → StateM σ β} {a : α} {b : β} (hx : Reads inv x a)
    (hf : Reads inv (f a) b) : Reads inv (x >>= f) b := by
  intro s hs
  obtain ⟨ha, hs'⟩ := hx s hs
  have hrun : (x >>= f) s = f (x s).1 (x s).2 := rfl
  rw [hrun, ha]
  exact hf _ hs'

theorem Reads.ite {p : Prop} [Decidable p] {x y : StateM σ α} {a b : α}
    (hx : p → Reads inv x a) (hy : ¬ p → Reads inv y b) :
    Reads inv (if p then x else y) (if p then a else b) := by
  split
  · next h => exact hx h
  · next h => exact hy h

/-- The state is read, and what follows may use what the invariant says of it. -/
theorem Reads.get_bind {f : σ → StateM σ β} {b : β} (h : ∀ s, inv s → Reads inv (f s) b) :
    Reads inv (get >>= f) b := by
  intro s hs
  exact h s hs s hs

/-- Two computations after one another, of which the first changes nothing that is read. -/
theorem Reads.set_bind {s : σ} {x : Unit → StateM σ β} {b : β} (hs : inv s)
    (hx : Reads inv (x ()) b) : Reads inv (set s >>= x) b := by
  intro s' _
  exact hx s hs

/-- The computation returns a value with the property, whatever is remembered. -/
def Ensures (x : StateM σ α) (p : α → Prop) : Prop := ∀ s, p (x s).1

theorem Ensures.pure {p : α → Prop} {a : α} (h : p a) :
    Ensures (Pure.pure a : StateM σ α) p := fun _ => h

theorem Ensures.bind {x : StateM σ α} {f : α → StateM σ β} {p : α → Prop} {q : β → Prop}
    (hx : Ensures x p) (hf : ∀ a, p a → Ensures (f a) q) : Ensures (x >>= f) q :=
  fun s => hf _ (hx s) (x s).2

/-! ### Links -/

/-- `n` links are followed from a place. -/
def follow (next : α → StateM σ α) : Nat → α → StateM σ α
  | 0, a => Pure.pure a
  | n + 1, a => next a >>= follow next n

theorem Reads.follow {next : α → StateM σ α} {f : α → α} (h : ∀ a, Reads inv (next a) (f a))
    (n : Nat) (a : α) : Reads inv (follow next n a) (f^[n] a) := by
  induction n generalizing a with
  | zero => exact Reads.pure inv a
  | succ n ih =>
    rw [Function.iterate_succ_apply]
    exact Reads.bind (h a) (ih (f a))

end Cache
