/-!
# Lib — Fuel

A function that takes fuel returns an error when it runs out.  `Mono` says that more fuel does not
change what it returns, and `Ends` that enough fuel makes it return.  A sequence of two ends when
both do, and it does not matter how the fuel is counted (`Ends.bind_iff`, `Ends.shift`).
-/

set_option autoImplicit false

namespace Fuel

variable {ε α β : Type}

/-- `y` returns whatever `x` returns. -/
def Keeps (x y : Except ε α) : Prop := ∀ a, x = .ok a → y = .ok a

theorem Keeps.refl (x : Except ε α) : Keeps x x := fun _ h => h

theorem Keeps.error (e : ε) (y : Except ε α) : Keeps (.error e) y := nofun

theorem Keeps.bind {x y : Except ε α} {f g : α → Except ε β} (h : Keeps x y)
    (hfg : ∀ a, Keeps (f a) (g a)) : Keeps (x >>= f) (y >>= g) := by
  intro b hb
  cases x with
  | error e => cases hb
  | ok a =>
    rw [h a rfl]
    exact hfg a b hb

/-- More fuel does not change what is returned. -/
def Mono (f : Nat → Except ε α) : Prop := ∀ m n, m ≤ n → Keeps (f m) (f n)

theorem Mono.const (x : Except ε α) : Mono fun _ => x := fun _ _ _ => Keeps.refl x

/-- Enough fuel returns `a`. -/
def Ends (f : Nat → Except ε α) (a : α) : Prop := ∃ n, f n = .ok a

/-- A sequence ends when both its parts do. -/
theorem Ends.bind_iff {f : Nat → Except ε α} {g : α → Nat → Except ε β} {b : β} (hf : Mono f)
    (hg : ∀ a, Mono (g a)) :
    Ends (fun n => f n >>= fun a => g a n) b ↔ ∃ a, Ends f a ∧ Ends (g a) b := by
  constructor
  · rintro ⟨n, hn⟩
    change (f n >>= fun a => g a n) = _ at hn
    cases hx : f n with
    | error e =>
      rw [hx] at hn
      cases hn
    | ok a =>
      rw [hx] at hn
      exact ⟨a, ⟨n, hx⟩, ⟨n, hn⟩⟩
  · rintro ⟨a, ⟨m, hm⟩, ⟨n, hn⟩⟩
    refine ⟨max m n, ?_⟩
    have hfirst := hf m _ (Nat.le_max_left m n) a hm
    have hrest := hg a n _ (Nat.le_max_right m n) b hn
    change (f (max m n) >>= fun a => g a (max m n)) = _
    rw [hfirst]
    exact hrest

/-- The fuel may be counted from elsewhere. -/
theorem Ends.shift {f : Nat → Except ε α} (hf : Mono f) (k : Nat) {a : α} :
    Ends (fun n => f (n + k)) a ↔ Ends f a := by
  constructor
  · rintro ⟨n, hn⟩
    exact ⟨n + k, hn⟩
  · rintro ⟨n, hn⟩
    exact ⟨n, hf n _ (Nat.le_add_right n k) a hn⟩

end Fuel
