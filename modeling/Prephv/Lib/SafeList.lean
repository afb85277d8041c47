import Mathlib.Data.List.Nodup
import Mathlib.Order.Lattice

/-!
# Lib — Linked lists under safe iteration

A circular list with a head, seen as the list of its entries, and the pointers a loop over it
holds.  A loop that is safe against the removal of its current entry keeps two of them: the current
entry and the one that followed it when the loop came there.  An entry that has been removed has
its link poisoned, so the entry after it is `Cursor.poison`.

The second part is insertion into a list kept in order of a key: before the first entry with a
greater key, unless the entry is met on the way (`enqueue`).  It keeps the order (`Sorted.enqueue`),
and it does nothing for an entry that is already in an ordered list (`Sorted.enqueue_of_mem`).
-/

set_option autoImplicit false

namespace SafeList

variable {α κ : Type*}

/-! ### Cursors -/

/-- Where a list pointer points: the list's head, an entry, or the poison a removed entry's link
holds. -/
inductive Cursor (α : Type*) where
  | head
  | entry (a : α)
  | poison
  deriving DecidableEq, Repr

/-- The pointer in the list's head. -/
def first : List α → Cursor α
  | [] => .head
  | a :: _ => .entry a

@[simp] theorem first_nil : first ([] : List α) = .head := rfl

@[simp] theorem first_cons (a : α) (l : List α) : first (a :: l) = .entry a := rfl

theorem first_eq_entry {l : List α} {a : α} : first l = .entry a ↔ ∃ r, l = a :: r := by
  cases l <;> simp [eq_comm]

theorem first_ne_poison (l : List α) : first l ≠ .poison := by
  cases l <;> simp

/-- The entry after one in a list without duplicates is another. -/
theorem first_ne_entry {a : α} {l : List α} (h : (a :: l).Nodup) : first l ≠ .entry a := by
  intro hfirst
  obtain ⟨r, rfl⟩ := first_eq_entry.mp hfirst
  exact (List.nodup_cons.mp h).1 List.mem_cons_self

section Links

variable [DecidableEq α]

/-- Removing an entry leaves the one in the list's head, unless that is it. -/
theorem first_erase_iff {a : α} {l : List α} (hl : l.Nodup) :
    first (l.erase a) = first l ↔ l.head? ≠ some a := by
  cases l with
  | nil => simp
  | cons b l =>
    by_cases hb : b = a
    · subst hb
      rw [List.erase_cons_head, first_cons, List.head?_cons]
      exact iff_of_false (first_ne_entry hl) (not_not.mpr rfl)
    · rw [List.erase_cons_tail (by simpa using hb), first_cons, first_cons, List.head?_cons]
      exact iff_of_true rfl fun h => hb (Option.some.inj h)

/-- The pointer in the link of `a`. -/
def next (l : List α) (a : α) : Cursor α :=
  if a ∈ l then first (l.dropWhile (· ≠ a)).tail else .poison

@[simp] theorem next_cons_self (a : α) (l : List α) : next (a :: l) a = first l := by
  simp [next]

theorem next_append_cons {l₁ l₂ : List α} {a : α} (h : a ∉ l₁) :
    next (l₁ ++ a :: l₂) a = first l₂ := by
  have hmem : a ∈ l₁ ++ a :: l₂ := by simp
  have hdrop : (l₁ ++ a :: l₂).dropWhile (· ≠ a) = a :: l₂ := by
    rw [List.dropWhile_append_of_pos fun b hb => by simpa using fun e : b = a => h (e ▸ hb)]
    simp
  rw [next, if_pos hmem, hdrop, List.tail_cons]

end Links

/-! ### Lists in order of a key -/

section Order

variable [LinearOrder κ] {key : α → κ}

/-- The list is in order of the key. -/
def Sorted (key : α → κ) (l : List α) : Prop :=
  l.Pairwise fun a b => key a ≤ key b

instance (key : α → κ) (l : List α) : Decidable (Sorted key l) :=
  inferInstanceAs (Decidable (l.Pairwise _))

theorem Sorted.head_le {a : α} {l : List α} (h : Sorted key (a :: l)) {r : α} (hr : r ∈ a :: l) :
    key a ≤ key r := by
  rcases List.mem_cons.mp hr with rfl | hr
  · exact le_refl _
  · exact (List.pairwise_cons.mp h).1 r hr

theorem Sorted.tail {a : α} {l : List α} (h : Sorted key (a :: l)) : Sorted key l :=
  (List.pairwise_cons.mp h).2

/-- The order only depends on the keys of the entries. -/
theorem Sorted.congr {key' : α → κ} {l : List α} (h : Sorted key l)
    (hkey : ∀ r ∈ l, key' r = key r) : Sorted key' l :=
  List.Pairwise.imp_of_mem (fun {a b} ha hb hab => by rw [hkey a ha, hkey b hb]; exact hab) h

/-- Removing an entry keeps the order. -/
theorem Sorted.erase [DecidableEq α] {l : List α} (h : Sorted key l) (t : α) :
    Sorted key (l.erase t) :=
  List.Pairwise.sublist List.erase_sublist h

variable [DecidableEq α]

/-- Insertion before the first entry with a greater key; nothing, when the entry is met first. -/
def enqueue (key : α → κ) (t : α) : List α → List α
  | [] => [t]
  | pos :: l =>
    if pos = t then pos :: l
    else if key t < key pos then t :: pos :: l
    else pos :: enqueue key t l

@[simp] theorem enqueue_nil (t : α) : enqueue key t [] = [t] := rfl

theorem mem_enqueue {t r : α} {l : List α} : r ∈ enqueue key t l ↔ r = t ∨ r ∈ l := by
  induction l with
  | nil => simp
  | cons pos l ih =>
    unfold enqueue
    by_cases e : pos = t
    · subst e
      simp
    · by_cases hlt : key t < key pos
      · simp [e, hlt]
      · simp only [if_neg e, if_neg hlt, List.mem_cons, ih]
        exact or_left_comm

theorem Sorted.enqueue {t : α} {l : List α} (h : Sorted key l) : Sorted key (enqueue key t l) := by
  induction l with
  | nil => exact List.pairwise_singleton _ _
  | cons pos l ih =>
    unfold SafeList.enqueue
    by_cases e : pos = t
    · rw [if_pos e]
      exact h
    · rw [if_neg e]
      by_cases hlt : key t < key pos
      · rw [if_pos hlt]
        exact List.pairwise_cons.mpr ⟨fun r hr => le_trans (le_of_lt hlt) (h.head_le hr), h⟩
      · rw [if_neg hlt]
        refine List.pairwise_cons.mpr ⟨fun r hr => ?_, ih h.tail⟩
        rcases mem_enqueue.mp hr with rfl | hr
        · exact not_lt.mp hlt
        · exact h.head_le (List.mem_cons_of_mem _ hr)

/-- An entry that is in an ordered list already is met before its place. -/
theorem Sorted.enqueue_of_mem {t : α} {l : List α} (h : Sorted key l) (ht : t ∈ l) :
    SafeList.enqueue key t l = l := by
  induction l with
  | nil => cases ht
  | cons pos l ih =>
    unfold SafeList.enqueue
    by_cases e : pos = t
    · rw [if_pos e]
    · rw [if_neg e, if_neg (not_lt.mpr (h.head_le ht)),
        ih h.tail ((List.mem_cons.mp ht).resolve_left (Ne.symm e))]

theorem enqueue_nodup_of_not_mem {t : α} {l : List α} (h : l.Nodup) (ht : t ∉ l) :
    (enqueue key t l).Nodup := by
  induction l with
  | nil => exact List.nodup_singleton t
  | cons pos l ih =>
    obtain ⟨hpos, hl⟩ := List.nodup_cons.mp h
    have e : pos ≠ t := fun e => ht (by simp [e])
    unfold enqueue
    rw [if_neg e]
    by_cases hlt : key t < key pos
    · rw [if_pos hlt]
      exact List.nodup_cons.mpr ⟨ht, h⟩
    · rw [if_neg hlt]
      refine List.nodup_cons.mpr ⟨fun hmem => ?_, ih hl fun hm => ht (List.mem_cons_of_mem _ hm)⟩
      exact (mem_enqueue.mp hmem).elim e hpos

theorem Sorted.enqueue_nodup {t : α} {l : List α} (h : Sorted key l) (hl : l.Nodup) :
    (SafeList.enqueue key t l).Nodup := by
  by_cases ht : t ∈ l
  · rw [h.enqueue_of_mem ht]
    exact hl
  · exact enqueue_nodup_of_not_mem hl ht

/-- An entry whose key is not less than the first one's goes behind that. -/
theorem enqueue_behind {t m : α} (l : List α) (hle : key m ≤ key t) :
    ∃ rest, enqueue key t (m :: l) = m :: rest := by
  unfold enqueue
  by_cases e : m = t
  · exact ⟨l, if_pos e⟩
  · rw [if_neg e, if_neg (not_lt.mpr hle)]
    exact ⟨_, rfl⟩

/-- An entry whose key is less than the first one's goes before that. -/
theorem enqueue_before {t : α} {l : List α} (hlt : ∀ m ∈ l.head?, key t < key m) :
    enqueue key t l = t :: l := by
  cases l with
  | nil => rfl
  | cons m l =>
    have hlt : key t < key m := hlt m rfl
    rw [enqueue, if_neg fun e => lt_irrefl _ (e ▸ hlt), if_pos hlt]

variable (key) in
/-- Where a loop goes on after it re-inserted its entry: the entry, when that went before the saved
next one, and the saved next one otherwise. -/
theorem first_enqueue_cons {t m : α} {l : List α} (hne : t ≠ m) :
    first (enqueue key t (m :: l)) = .entry (if key t < key m then t else m) := by
  unfold enqueue
  rw [if_neg hne.symm]
  by_cases hlt : key t < key m
  · rw [if_pos hlt, if_pos hlt, first_cons]
  · rw [if_neg hlt, if_neg hlt, first_cons]

end Order

end SafeList
