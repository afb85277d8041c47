import Mathlib.Data.Finset.Card
import Mathlib.Data.Option.Basic
import Mathlib.Logic.Function.Basic
import Mathlib.Order.Interval.Finset.Nat

/-!
# Lib — Group tables

A table of cells `t : Nat → C` cut into groups of `w` consecutive slots, used as a hash table: a key
`k` may sit in any slot of its group `group k`, and a cell is either live or dead.

`Stores` says that the live cells are exactly the cells of a partial map `m`, one for each key,
each in its key's group.  Filling a dead slot of a key's group with a live cell adds the key to
the map (`Stores.insert`); killing a live slot removes the one key that sat there
(`Stores.erase`).  What a search of a group may find is `findSlot_some` and `findSlot_none`.

`load` counts the live cells of a group: a search for a dead slot fails when they are `w`
(`findSlot_dead`), and a cell written to a dead slot adds one (`load_update`).
-/

set_option autoImplicit false

namespace GroupTable

variable {κ C : Type*}

/-! ### The relation -/

/-- The live cells of `t` are the cells of `m`: there is a slot for each key of `m`, in the key's
group and holding its cell, every live slot is some key's, and no two keys share one. -/
def Stores (w : Nat) (group : κ → Nat) (live : C → Bool) (t : Nat → C) (m : κ → Option C) : Prop :=
  ∃ slot : κ → Nat,
    (∀ k c, m k = some c → slot k / w = group k ∧ t (slot k) = c ∧ live c = true) ∧
    (∀ i, live (t i) = true → ∃ k c, m k = some c ∧ slot k = i) ∧
    (∀ k k' c c', m k = some c → m k' = some c' → slot k = slot k' → k = k')

variable {w : Nat} {group : κ → Nat} {live : C → Bool} {t : Nat → C} {m : κ → Option C}

/-- A table with no live cell stores the empty map. -/
theorem Stores.empty (h : ∀ i, live (t i) = false) :
    Stores w group live t fun _ => (none : Option C) := by
  refine ⟨fun _ => 0, ?_, fun i hi => ?_, ?_⟩
  · rintro k c ⟨⟩
  · rw [h i] at hi; cases hi
  · rintro k k' c c' ⟨⟩

/-- A live slot holds the cell of some key, in that key's group. -/
theorem Stores.exists_key (h : Stores w group live t m) {i : Nat} (hi : live (t i) = true) :
    ∃ k, m k = some (t i) ∧ i / w = group k := by
  obtain ⟨slot, hs, hl, -⟩ := h
  obtain ⟨k, c, hk, rfl⟩ := hl i hi
  obtain ⟨hg, hc, -⟩ := hs k c hk
  exact ⟨k, by rw [hc]; exact hk, hg⟩

/-- A property of slots that picks out the slots of one key of the map picks out one slot. -/
theorem Stores.existsUnique (h : Stores w group live t m) {k : κ} {c : C} (hk : m k = some c)
    {P : Nat → Prop} (hlive : ∀ i, P i → live (t i) = true)
    (hP : ∀ i k', m k' = some (t i) → i / w = group k' → (P i ↔ k' = k)) : ∃! i, P i := by
  obtain ⟨slot, hs, hl, -⟩ := h
  obtain ⟨hg, hc, -⟩ := hs k c hk
  refine ⟨slot k, (hP (slot k) k (by rw [hc]; exact hk) hg).mpr rfl, fun i hi => ?_⟩
  obtain ⟨k', c', hk', rfl⟩ := hl i (hlive i hi)
  obtain ⟨hg', hc', -⟩ := hs k' c' hk'
  rw [(hP (slot k') k' (by rw [hc']; exact hk') hg').mp hi]

/-! ### Filling and killing a slot -/

variable [DecidableEq κ]

/-- **Insertion.**  A live cell written to a dead slot of a new key's group adds the key. -/
theorem Stores.insert (h : Stores w group live t m) {k : κ} {c : C} {i : Nat} (hk : m k = none)
    (hg : i / w = group k) (hfree : live (t i) = false) (hc : live c = true) :
    Stores w group live (Function.update t i c) (Function.update m k (some c)) := by
  obtain ⟨slot, hs, hl, hinj⟩ := h
  have hne : ∀ k' c', m k' = some c' → k' ≠ k := fun k' c' hk' e => by
    subst e; rw [hk] at hk'; cases hk'
  have hsi : ∀ k' c', m k' = some c' → slot k' ≠ i := fun k' c' hk' e => by
    obtain ⟨-, hc', hlc'⟩ := hs k' c' hk'
    rw [e] at hc'; rw [hc', hlc'] at hfree; cases hfree
  refine ⟨Function.update slot k i, fun k' c' hk' => ?_, fun j hj => ?_,
    fun k₁ k₂ c₁ c₂ h₁ h₂ e => ?_⟩
  · by_cases e : k' = k
    · subst e
      rw [Function.update_self] at hk' ⊢
      cases hk'
      exact ⟨hg, by rw [Function.update_self], hc⟩
    · rw [Function.update_of_ne e] at hk' ⊢
      obtain ⟨hg', hc', hlc'⟩ := hs k' c' hk'
      exact ⟨hg', by rw [Function.update_of_ne (hsi k' c' hk'), hc'], hlc'⟩
  · by_cases e : j = i
    · exact ⟨k, c, by rw [Function.update_self], by rw [Function.update_self, e]⟩
    · rw [Function.update_of_ne e] at hj
      obtain ⟨k', c', hk', hslot⟩ := hl j hj
      have hk'ne := hne k' c' hk'
      exact ⟨k', c', by rw [Function.update_of_ne hk'ne, hk'],
        by rw [Function.update_of_ne hk'ne, hslot]⟩
  · by_cases e₁ : k₁ = k <;> by_cases e₂ : k₂ = k
    · exact e₁.trans e₂.symm
    · rw [Function.update_of_ne e₂] at h₂
      rw [e₁, Function.update_self, Function.update_of_ne e₂] at e
      exact absurd e.symm (hsi k₂ c₂ h₂)
    · rw [Function.update_of_ne e₁] at h₁
      rw [e₂, Function.update_self, Function.update_of_ne e₁] at e
      exact absurd e (hsi k₁ c₁ h₁)
    · rw [Function.update_of_ne e₁] at h₁ e
      rw [Function.update_of_ne e₂] at h₂ e
      exact hinj k₁ k₂ c₁ c₂ h₁ h₂ e

/-- **Removal.**  A dead cell written to a live slot removes the key whose cell was there. -/
theorem Stores.erase (h : Stores w group live t m) {d : C} {i : Nat} (hi : live (t i) = true)
    (hd : live d = false) :
    ∃ k, m k = some (t i) ∧ i / w = group k ∧
      Stores w group live (Function.update t i d) (Function.update m k none) := by
  obtain ⟨slot, hs, hl, hinj⟩ := h
  obtain ⟨k, c, hk, rfl⟩ := hl i hi
  obtain ⟨hg, hc, -⟩ := hs k c hk
  have hold : ∀ k' c', Function.update m k none k' = some c' → k' ≠ k ∧ m k' = some c' := by
    intro k' c' hk'
    have e : k' ≠ k := fun e => by subst e; rw [Function.update_self] at hk'; cases hk'
    exact ⟨e, by rwa [Function.update_of_ne e] at hk'⟩
  refine ⟨k, by rw [hc]; exact hk, hg, slot, fun k' c' hk' => ?_, fun j hj => ?_,
    fun k₁ k₂ c₁ c₂ h₁ h₂ e => hinj k₁ k₂ c₁ c₂ (hold k₁ c₁ h₁).2 (hold k₂ c₂ h₂).2 e⟩
  · obtain ⟨e, hk'⟩ := hold k' c' hk'
    obtain ⟨hg', hc', hlc'⟩ := hs k' c' hk'
    have hslot : slot k' ≠ slot k := fun e' => e (hinj k' k c' c hk' hk e')
    exact ⟨hg', by rw [Function.update_of_ne hslot, hc'], hlc'⟩
  · by_cases e : j = slot k
    · subst e; rw [Function.update_self, hd] at hj; cases hj
    · rw [Function.update_of_ne e] at hj
      obtain ⟨k', c', hk', hslot⟩ := hl j hj
      have hk'ne : k' ≠ k := fun e' => e (by rw [← hslot, e'])
      exact ⟨k', c', by rw [Function.update_of_ne hk'ne, hk'], hslot⟩

/-! ### Searching a group -/

/-- The first slot from `b`, of `w` slots, whose cell satisfies `p`. -/
def findSlot (w : Nat) (p : C → Bool) (t : Nat → C) (b : Nat) : Option Nat :=
  ((List.range w).find? fun i => p (t (b + i))).map (b + ·)

theorem findSlot_some {p : C → Bool} {g i : Nat} (h : findSlot w p t (g * w) = some i) :
    i / w = g ∧ p (t i) = true := by
  obtain ⟨j, hj, rfl⟩ := Option.map_eq_some_iff.mp h
  have hlt : j < w := List.mem_range.mp (List.mem_of_find?_eq_some hj)
  have hp : p (t (g * w + j)) = true :=
    List.find?_some (p := fun i => p (t (g * w + i))) hj
  refine ⟨?_, hp⟩
  rw [Nat.mul_comm, Nat.mul_add_div (by omega), Nat.div_eq_of_lt hlt, Nat.add_zero]

theorem findSlot_none {p : C → Bool} {g : Nat} (hw : 0 < w) (h : findSlot w p t (g * w) = none) :
    ∀ i, i / w = g → p (t i) = false := by
  intro i hi
  have hnone := List.find?_eq_none.mp (Option.map_eq_none_iff.mp h) (i % w)
    (List.mem_range.mpr (Nat.mod_lt i hw))
  have hsplit : g * w + i % w = i := by rw [← hi, Nat.mul_comm]; exact Nat.div_add_mod i w
  rw [hsplit] at hnone
  simpa using hnone

/-! ### Counting a group -/

/-- The slots of a group whose cells are live. -/
def liveSlots (w : Nat) (live : C → Bool) (t : Nat → C) (g : Nat) : Finset Nat :=
  (Finset.Ico (g * w) (g * w + w)).filter fun i => live (t i) = true

/-- The number of live cells of a group. -/
def load (w : Nat) (live : C → Bool) (t : Nat → C) (g : Nat) : Nat :=
  (liveSlots w live t g).card

variable {g i : Nat}

theorem mem_group (hw : 0 < w) : i ∈ Finset.Ico (g * w) (g * w + w) ↔ i / w = g := by
  rw [Finset.mem_Ico, Nat.div_eq_iff hw]
  omega

theorem mem_liveSlots (hw : 0 < w) :
    i ∈ liveSlots w live t g ↔ i / w = g ∧ live (t i) = true := by
  rw [liveSlots, Finset.mem_filter, mem_group hw]

theorem card_group : (Finset.Ico (g * w) (g * w + w)).card = w := by
  rw [Nat.card_Ico, Nat.add_sub_cancel_left]

theorem load_le : load w live t g ≤ w :=
  (Finset.card_filter_le _ _).trans card_group.le

/-- A group without live cells. -/
theorem load_eq_zero (hw : 0 < w) (h : ∀ i, i / w = g → live (t i) = false) :
    load w live t g = 0 := by
  rw [load, Finset.card_eq_zero, Finset.eq_empty_iff_forall_notMem]
  intro i hi
  obtain ⟨hg, hl⟩ := (mem_liveSlots hw).mp hi
  rw [h i hg] at hl
  cases hl

/-- A group with one. -/
theorem load_pos (hw : 0 < w) (hg : i / w = g) (hi : live (t i) = true) : 0 < load w live t g :=
  Finset.card_pos.mpr ⟨i, (mem_liveSlots hw).mpr ⟨hg, hi⟩⟩

/-- A search for a dead slot fails in a full group, and only there. -/
theorem findSlot_dead (hw : 0 < w) :
    findSlot w (fun c => !live c) t (g * w) = none ↔ load w live t g = w := by
  have hfull : load w live t g = w ↔ ∀ i, i / w = g → live (t i) = true := by
    have hcard := Finset.card_filter_eq_iff (s := Finset.Ico (g * w) (g * w + w))
      (p := fun i => live (t i) = true)
    rw [card_group] at hcard
    refine hcard.trans (forall_congr' fun i => ?_)
    rw [mem_group hw]
  rw [hfull]
  constructor
  · intro h i hi
    simpa using findSlot_none hw h i hi
  · intro h
    cases hfind : findSlot w (fun c => !live c) t (g * w) with
    | none => rfl
    | some i =>
      obtain ⟨hg, hdead⟩ := findSlot_some hfind
      rw [h i hg] at hdead
      cases hdead

/-- A live cell written to a dead slot adds one to its group. -/
theorem load_update (hw : 0 < w) {c : C} (hfree : live (t i) = false) (hc : live c = true) :
    load w live (Function.update t i c) g =
      load w live t g + if i / w = g then 1 else 0 := by
  have hother : ∀ j, j ≠ i → Function.update t i c j = t j := fun j hj =>
    Function.update_of_ne hj ..
  by_cases hg : i / w = g
  · rw [if_pos hg]
    have hslots : liveSlots w live (Function.update t i c) g =
        insert i (liveSlots w live t g) := by
      ext j
      rw [Finset.mem_insert, mem_liveSlots hw, mem_liveSlots hw]
      by_cases hj : j = i
      · rw [hj, Function.update_self]
        exact iff_of_true ⟨hg, hc⟩ (Or.inl rfl)
      · rw [hother j hj]
        exact (or_iff_right hj).symm
    rw [load, hslots, Finset.card_insert_of_notMem]
    · rfl
    · rw [mem_liveSlots hw, hfree]
      exact fun h => Bool.false_ne_true h.2
  · rw [if_neg hg, Nat.add_zero, load, load]
    congr 1
    ext j
    rw [mem_liveSlots hw, mem_liveSlots hw]
    by_cases hj : j = i
    · rw [hj]
      exact iff_of_false (fun h => hg h.1) (fun h => hg h.1)
    · rw [hother j hj]

end GroupTable
