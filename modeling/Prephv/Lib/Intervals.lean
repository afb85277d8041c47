import Mathlib.Data.List.Nodup
import Mathlib.Data.List.Perm.Basic
import Mathlib.Order.Defs.LinearOrder

/-!
# Lib — Intervals

Closed intervals of natural numbers, and lists of them.

`diff` takes an interval from every interval of a list, which leaves up to two pieces of each.  It
is the exact set difference (`covers_diff`), and it keeps a list in order (`Sorted.diff`).  The
pieces that any number of such steps leave of one interval are its maximal intervals that avoid all
that was taken (`mem_pieces`), whatever the order of the steps (`pieces_perm`): between two of them
there is a gap, and lists in order with gaps are known by the numbers they cover (`Gapped.ext`).
-/

set_option autoImplicit false

namespace Intervals

/-- A closed interval, by its ends. -/
abbrev Interval := ℕ × ℕ

/-- The number lies in the interval. -/
def Has (i : Interval) (a : ℕ) : Prop := i.1 ≤ a ∧ a ≤ i.2

/-- The number lies in an interval of the list. -/
def Covers (l : List Interval) (a : ℕ) : Prop := ∃ i ∈ l, Has i a

/-- No interval of the list is empty. -/
def Proper (l : List Interval) : Prop := ∀ i ∈ l, i.1 ≤ i.2

/-- The intervals are in order and disjoint. -/
def Sorted (l : List Interval) : Prop := l.Pairwise fun i j => i.2 < j.1

/-- The intervals are in order, and a number lies between any two of them. -/
def Gapped (l : List Interval) : Prop := l.Pairwise fun i j => i.2 + 1 < j.1

/-- Every interval begins at a multiple of `d` and ends before one. -/
def Aligned (d : ℕ) (l : List Interval) : Prop := ∀ i ∈ l, d ∣ i.1 ∧ d ∣ i.2 + 1

instance (l : List Interval) : Decidable (Proper l) := inferInstanceAs (Decidable (∀ i ∈ l, _))
instance (l : List Interval) : Decidable (Sorted l) := inferInstanceAs (Decidable (l.Pairwise _))

@[simp] theorem covers_nil {a : ℕ} : ¬ Covers [] a := by
  rintro ⟨i, hi, -⟩
  cases hi

@[simp] theorem covers_cons {i : Interval} {l : List Interval} {a : ℕ} :
    Covers (i :: l) a ↔ Has i a ∨ Covers l a := by
  simp [Covers]

@[simp] theorem covers_append {l l' : List Interval} {a : ℕ} :
    Covers (l ++ l') a ↔ Covers l a ∨ Covers l' a := by
  simp only [Covers, List.mem_append, or_and_right, exists_or]

/-- Two intervals of a list in order are the same, or one is before the other. -/
theorem Sorted.apart {l : List Interval} (hl : Sorted l) {i j : Interval} (hi : i ∈ l)
    (hj : j ∈ l) : i = j ∨ i.2 < j.1 ∨ j.2 < i.1 := by
  obtain ⟨l₁, l₂, rfl⟩ := List.append_of_mem hi
  obtain ⟨-, hright, hleft⟩ := List.pairwise_append.mp hl
  rcases List.mem_append.mp hj with hj | hj
  · exact Or.inr (Or.inr (hleft j hj i List.mem_cons_self))
  · rcases List.mem_cons.mp hj with rfl | hj
    · exact Or.inl rfl
    · exact Or.inr (Or.inl ((List.pairwise_cons.mp hright).1 j hj))

theorem Gapped.sorted {l : List Interval} (h : Gapped l) : Sorted l :=
  h.imp fun hlt => by omega

/-- Intervals in order, each of whole blocks of `d`, from `lo` on and below `n`: there is room for
as many as there are blocks. -/
theorem Aligned.length_mul_le {d n lo : ℕ} {l : List Interval} (ha : Aligned d l) (hl : Sorted l)
    (hp : Proper l) (hlo : ∀ i ∈ l, lo ≤ i.1) (hn : ∀ i ∈ l, i.2 < n) (hlon : lo ≤ n) :
    lo + l.length * d ≤ n := by
  induction l generalizing lo with
  | nil => simpa using hlon
  | cons i l ih =>
    obtain ⟨hfirst, hl⟩ := List.pairwise_cons.mp hl
    obtain ⟨hd₁, hd₂⟩ := ha i List.mem_cons_self
    have hi := hp i List.mem_cons_self
    have hblock : d ≤ i.2 + 1 - i.1 :=
      Nat.le_of_dvd (by omega) (Nat.dvd_sub hd₂ hd₁)
    have hrest := @ih (i.2 + 1) (fun j hj => ha j (List.mem_cons_of_mem _ hj)) hl
      (fun j hj => hp j (List.mem_cons_of_mem _ hj)) hfirst
      (fun j hj => hn j (List.mem_cons_of_mem _ hj)) (hn i List.mem_cons_self)
    have hstart := hlo i List.mem_cons_self
    rw [List.length_cons, Nat.succ_mul]
    omega

/-! ### Taking an interval away -/

/-- What is left of `i` without `q`. -/
def cut (q i : Interval) : List Interval :=
  if i.2 < q.1 ∨ q.2 < i.1 then [i]
  else
    (if i.1 < q.1 then [(i.1, q.1 - 1)] else []) ++ (if q.2 < i.2 then [(q.2 + 1, i.2)] else [])

/-- What is left of the intervals of `l` without `q`. -/
def diff (l : List Interval) (q : Interval) : List Interval := l.flatMap (cut q)

@[simp] theorem diff_nil (q : Interval) : diff [] q = [] := rfl

theorem diff_cons (i : Interval) (l : List Interval) (q : Interval) :
    diff (i :: l) q = cut q i ++ diff l q := rfl

section Cut

variable {q i j : Interval} {l : List Interval} {a : ℕ}

/-- An interval that `q` does not meet is left as it is. -/
theorem cut_miss (h : i.2 < q.1 ∨ q.2 < i.1) : cut q i = [i] := if_pos h

/-- The pieces of an interval that `q` meets. -/
theorem mem_cut_hit (h : ¬ (i.2 < q.1 ∨ q.2 < i.1)) :
    j ∈ cut q i ↔ i.1 < q.1 ∧ j = (i.1, q.1 - 1) ∨ q.2 < i.2 ∧ j = (q.2 + 1, i.2) := by
  rw [cut, if_neg h, List.mem_append]
  refine or_congr ?_ ?_
  · split <;> simp [*]
  · split <;> simp [*]

/-- A piece lies in the interval it is cut from, and is not empty. -/
theorem cut_within (hi : i.1 ≤ i.2) (hj : j ∈ cut q i) : i.1 ≤ j.1 ∧ j.1 ≤ j.2 ∧ j.2 ≤ i.2 := by
  by_cases h : i.2 < q.1 ∨ q.2 < i.1
  · rw [cut_miss h, List.mem_singleton] at hj
    subst hj
    omega
  · rcases (mem_cut_hit h).mp hj with ⟨hlt, rfl⟩ | ⟨hlt, rfl⟩
    · dsimp only
      omega
    · dsimp only
      omega

theorem covers_cut (_ : q.1 ≤ q.2) : Covers (cut q i) a ↔ Has i a ∧ ¬ Has q a := by
  by_cases h : i.2 < q.1 ∨ q.2 < i.1
  · rw [cut_miss h]
    simp only [covers_cons, covers_nil, or_false, Has]
    omega
  · constructor
    · rintro ⟨j, hj, hja⟩
      rcases (mem_cut_hit h).mp hj with ⟨hlt, rfl⟩ | ⟨hlt, rfl⟩
      · simp only [Has] at hja ⊢
        omega
      · simp only [Has] at hja ⊢
        omega
    · rintro ⟨hia, hqa⟩
      simp only [Has] at hia hqa
      by_cases ha : a < q.1
      · refine ⟨(i.1, q.1 - 1), (mem_cut_hit h).mpr (Or.inl ⟨by omega, rfl⟩), ?_, ?_⟩
        · exact hia.1
        · exact Nat.le_sub_one_of_lt ha
      · refine ⟨(q.2 + 1, i.2), (mem_cut_hit h).mpr (Or.inr ⟨by omega, rfl⟩), ?_, hia.2⟩
        show q.2 + 1 ≤ a
        omega

theorem length_cut (q i : Interval) : (cut q i).length ≤ 2 := by
  unfold cut
  split_ifs <;> simp

theorem length_diff (l : List Interval) (q : Interval) : (diff l q).length ≤ 2 * l.length := by
  induction l with
  | nil => exact Nat.le_refl _
  | cons i l ih =>
    have hcut := length_cut q i
    rw [diff_cons, List.length_append, List.length_cons]
    omega

/-- Between the two pieces lies what was taken. -/
theorem gapped_cut (hq : q.1 ≤ q.2) : Gapped (cut q i) := by
  by_cases h : i.2 < q.1 ∨ q.2 < i.1
  · rw [cut_miss h]
    exact List.pairwise_singleton _ _
  · rw [cut, if_neg h]
    refine List.pairwise_append.mpr ⟨?_, ?_, ?_⟩
    · split
      · exact List.pairwise_singleton _ _
      · exact List.Pairwise.nil
    · split
      · exact List.pairwise_singleton _ _
      · exact List.Pairwise.nil
    · intro x hx y hy
      split at hx
      · split at hy
        · rw [List.mem_singleton] at hx hy
          subst hx hy
          show q.1 - 1 + 1 < q.2 + 1
          omega
        · cases hy
      · cases hx

/-- `diff` is the set difference. -/
theorem covers_diff (hq : q.1 ≤ q.2) : Covers (diff l q) a ↔ Covers l a ∧ ¬ Has q a := by
  induction l with
  | nil => simp
  | cons i l ih => rw [diff_cons, covers_append, covers_cut hq, ih, covers_cons, or_and_right]

theorem Proper.diff (hl : Proper l) : Proper (diff l q) := by
  intro j hj
  obtain ⟨i, hi, hj⟩ := List.mem_flatMap.mp hj
  exact (cut_within (hl i hi) hj).2.1

/-- An order of the intervals by their ends is kept, where the pieces of one interval are in it. -/
theorem pairwise_diff {d : ℕ} (hcut : ∀ i ∈ l, (cut q i).Pairwise fun i j => i.2 + d < j.1)
    (hp : Proper l) (hl : l.Pairwise fun i j => i.2 + d < j.1) :
    (Intervals.diff l q).Pairwise fun i j => i.2 + d < j.1 := by
  induction l with
  | nil => exact List.Pairwise.nil
  | cons i l ih =>
    obtain ⟨hfirst, hrest⟩ := List.pairwise_cons.mp hl
    have hp' : Proper l := fun j hj => hp j (List.mem_cons_of_mem _ hj)
    refine List.pairwise_append.mpr ⟨hcut i List.mem_cons_self,
      ih (fun j hj => hcut j (List.mem_cons_of_mem _ hj)) hp' hrest, ?_⟩
    intro x hx y hy
    obtain ⟨j, hj, hy⟩ := List.mem_flatMap.mp hy
    have hx := cut_within (hp i List.mem_cons_self) hx
    have hy := cut_within (hp' j hj) hy
    have hij := hfirst j hj
    omega

theorem Sorted.diff (hl : Sorted l) (hp : Proper l) (hq : q.1 ≤ q.2) :
    Sorted (Intervals.diff l q) :=
  pairwise_diff (d := 0) (fun _ _ => (gapped_cut hq).sorted) hp hl

theorem Gapped.diff (hl : Gapped l) (hp : Proper l) (hq : q.1 ≤ q.2) :
    Gapped (Intervals.diff l q) :=
  pairwise_diff (d := 1) (fun _ _ => gapped_cut hq) hp hl

theorem Aligned.diff {d : ℕ} (hl : Aligned d l) (hq : d ∣ q.1 ∧ d ∣ q.2 + 1) :
    Aligned d (Intervals.diff l q) := by
  intro j hj
  obtain ⟨i, hi, hj⟩ := List.mem_flatMap.mp hj
  by_cases h : i.2 < q.1 ∨ q.2 < i.1
  · rw [cut_miss h, List.mem_singleton] at hj
    exact hj ▸ hl i hi
  · rcases (mem_cut_hit h).mp hj with ⟨hlt, rfl⟩ | ⟨hlt, rfl⟩
    · refine ⟨(hl i hi).1, ?_⟩
      show d ∣ q.1 - 1 + 1
      rw [Nat.sub_add_cancel (Nat.one_le_of_lt hlt)]
      exact hq.1
    · exact ⟨hq.2, (hl i hi).2⟩

/-- A list stays in order when one of its intervals is cut. -/
theorem Sorted.cut {l₁ l₂ : List Interval} (h : Sorted (l₁ ++ i :: l₂)) (hi : i.1 ≤ i.2)
    (hq : q.1 ≤ q.2) : Sorted (l₁ ++ Intervals.cut q i ++ l₂) := by
  obtain ⟨h₁, hright, hleft⟩ := List.pairwise_append.mp h
  obtain ⟨hfirst, h₂⟩ := List.pairwise_cons.mp hright
  refine List.pairwise_append.mpr ⟨List.pairwise_append.mpr ⟨h₁, (gapped_cut hq).sorted, ?_⟩, h₂, ?_⟩
  · intro x hx y hy
    have hlt := hleft x hx i List.mem_cons_self
    have hy := cut_within hi hy
    omega
  · intro x hx y hy
    rcases List.mem_append.mp hx with hx | hx
    · exact hleft x hx y (List.mem_cons_of_mem _ hy)
    · have hlt := hfirst y hy
      have hx := cut_within hi hx
      omega

theorem Proper.cut {l₁ l₂ : List Interval} (h : Proper (l₁ ++ i :: l₂)) :
    Proper (l₁ ++ Intervals.cut q i ++ l₂) := by
  have hi : i.1 ≤ i.2 := h i (by simp)
  intro j hj
  simp only [List.mem_append] at hj
  rcases hj with (hj | hj) | hj
  · exact h j (by simp [hj])
  · exact (cut_within hi hj).2.1
  · exact h j (by simp [hj])

end Cut

/-! ### Lists with gaps -/

section Gaps

variable {i : Interval} {l l' : List Interval} {a : ℕ}

theorem Gapped.tail (h : Gapped (i :: l)) : Gapped l := (List.pairwise_cons.mp h).2

/-- The number after the first interval is not covered, nor is any before it. -/
theorem Gapped.not_covers (h : Gapped (i :: l)) (ha : a < i.1 ∨ a = i.2 + 1) (hi : i.1 ≤ i.2) :
    ¬ Covers (i :: l) a := by
  rintro ⟨j, hj, h₁, h₂⟩
  rcases List.mem_cons.mp hj with rfl | hj
  · omega
  · have := (List.pairwise_cons.mp h).1 j hj
    omega

/-- The first interval of a list with gaps begins at the least number covered. -/
theorem Gapped.head_le {j : Interval} (h : Gapped (i :: l)) (hi : i.1 ≤ i.2)
    (hj : j ∈ i :: l) : i.1 ≤ j.1 := by
  rcases List.mem_cons.mp hj with rfl | hj
  · exact Nat.le_refl _
  · have := (List.pairwise_cons.mp h).1 j hj
    omega

/-- The numbers that the rest of the list covers are those beyond the first interval. -/
theorem Gapped.covers_tail (h : Gapped (i :: l)) : Covers l a ↔ Covers (i :: l) a ∧ i.2 < a := by
  constructor
  · rintro ⟨j, hj, hja⟩
    have := (List.pairwise_cons.mp h).1 j hj
    exact ⟨⟨j, List.mem_cons_of_mem _ hj, hja⟩, by have := hja.1; omega⟩
  · rintro ⟨⟨j, hj, hja⟩, hlt⟩
    rcases List.mem_cons.mp hj with rfl | hj
    · exact absurd hja.2 (Nat.not_le_of_lt hlt)
    · exact ⟨j, hj, hja⟩

/-- Lists with gaps that cover the same numbers are the same. -/
theorem Gapped.ext (hl : Gapped l) (hl' : Gapped l') (hp : Proper l) (hp' : Proper l')
    (h : ∀ a, Covers l a ↔ Covers l' a) : l = l' := by
  induction l generalizing l' with
  | nil =>
    cases l' with
    | nil => rfl
    | cons j l' =>
      have hj := hp' j List.mem_cons_self
      exact absurd ((h j.1).mpr ⟨j, List.mem_cons_self, Nat.le_refl _, hj⟩) covers_nil
  | cons i l ih =>
    have hi := hp i List.mem_cons_self
    cases l' with
    | nil => exact absurd ((h i.1).mp ⟨i, List.mem_cons_self, Nat.le_refl _, hi⟩) covers_nil
    | cons j l' =>
      have hj := hp' j List.mem_cons_self
      -- both begin at the least number, and end before the first that is missing
      have hlo : i.1 = j.1 := by
        have hge : ¬ i.1 < j.1 := fun hlt => hl'.not_covers (Or.inl hlt) hj
          ((h i.1).mp ⟨i, List.mem_cons_self, Nat.le_refl _, hi⟩)
        have hle : ¬ j.1 < i.1 := fun hlt => hl.not_covers (Or.inl hlt) hi
          ((h j.1).mpr ⟨j, List.mem_cons_self, Nat.le_refl _, hj⟩)
        omega
      have hhi : i.2 = j.2 := by
        have hge : ¬ i.2 < j.2 := fun hlt => hl.not_covers (Or.inr rfl) hi
          ((h (i.2 + 1)).mpr ⟨j, List.mem_cons_self, by omega, hlt⟩)
        have hle : ¬ j.2 < i.2 := fun hlt => hl'.not_covers (Or.inr rfl) hj
          ((h (j.2 + 1)).mp ⟨i, List.mem_cons_self, by omega, hlt⟩)
        omega
      have hij : i = j := Prod.ext hlo hhi
      subst hij
      rw [ih hl.tail hl'.tail (fun k hk => hp k (List.mem_cons_of_mem _ hk))
        (fun k hk => hp' k (List.mem_cons_of_mem _ hk)) fun a => by
          rw [hl.covers_tail, hl'.covers_tail, h a]]

end Gaps

/-! ### Taking several intervals away -/

/-- What is left of `i` after the intervals `qs` are taken away, one after the other. -/
def pieces (qs : List Interval) (i : Interval) : List Interval := qs.foldl diff [i]

/-- An interval `j` is a maximal one of those within `i` that avoid all of `qs`. -/
structure Maximal (qs : List Interval) (i j : Interval) : Prop where
  le : j.1 ≤ j.2
  within : ∀ a, Has j a → Has i a ∧ ∀ q ∈ qs, ¬ Has q a
  max : ∀ k : Interval, (∀ a, Has j a → Has k a) →
    (∀ a, Has k a → Has i a ∧ ∀ q ∈ qs, ¬ Has q a) → k = j

section Pieces

variable {qs qs' : List Interval} {i j : Interval} {a : ℕ}

theorem diff_append (l l' : List Interval) (q : Interval) :
    diff (l ++ l') q = diff l q ++ diff l' q := List.flatMap_append

/-- The steps treat the intervals of a list one by one. -/
theorem foldl_diff (qs : List Interval) (l : List Interval) :
    qs.foldl diff l = l.flatMap (pieces qs) := by
  have happ : ∀ l l' : List Interval, qs.foldl diff (l ++ l') = qs.foldl diff l ++ qs.foldl diff l' := by
    induction qs with
    | nil => intro l l'; rfl
    | cons q qs ih =>
      intro l l'
      rw [List.foldl_cons, diff_append, ih]
      rfl
  have hnil : qs.foldl diff [] = [] := by
    clear happ
    induction qs with
    | nil => rfl
    | cons q qs ih => exact ih
  induction l with
  | nil => exact hnil
  | cons i l ih => rw [← List.singleton_append, happ, ih]; rfl

theorem foldl_diff_spec {l : List Interval} (hqs : Proper qs) (hl : Gapped l) (hp : Proper l) :
    Gapped (qs.foldl diff l) ∧ Proper (qs.foldl diff l) ∧
      ∀ a, Covers (qs.foldl diff l) a ↔ Covers l a ∧ ∀ q ∈ qs, ¬ Has q a := by
  induction qs generalizing l with
  | nil => exact ⟨hl, hp, fun a => by simp⟩
  | cons q qs ih =>
    have hq := hqs q List.mem_cons_self
    obtain ⟨hg, hp', hcov⟩ := ih (fun q hq => hqs q (List.mem_cons_of_mem _ hq)) (hl.diff hp hq) hp.diff
    refine ⟨hg, hp', fun a => ?_⟩
    rw [List.foldl_cons, hcov, covers_diff hq, and_assoc, List.forall_mem_cons]

theorem pieces_spec (hqs : Proper qs) (hi : i.1 ≤ i.2) :
    Gapped (pieces qs i) ∧ Proper (pieces qs i) ∧
      ∀ a, Covers (pieces qs i) a ↔ Has i a ∧ ∀ q ∈ qs, ¬ Has q a := by
  obtain ⟨hg, hp, hcov⟩ := foldl_diff_spec hqs (List.pairwise_singleton _ i)
    (show Proper [i] from fun j hj => by rw [List.mem_singleton.mp hj]; exact hi)
  exact ⟨hg, hp, fun a => by rw [pieces, hcov, covers_cons, or_iff_left covers_nil]⟩

/-- The order of the steps does not matter. -/
theorem pieces_perm (h : qs.Perm qs') (hqs : Proper qs) (hi : i.1 ≤ i.2) :
    pieces qs i = pieces qs' i := by
  have hqs' : Proper qs' := fun q hq => hqs q (h.mem_iff.mpr hq)
  obtain ⟨hg, hp, hcov⟩ := pieces_spec hqs hi
  obtain ⟨hg', hp', hcov'⟩ := pieces_spec hqs' hi
  refine hg.ext hg' hp hp' fun a => ?_
  rw [hcov, hcov']
  exact and_congr_right fun _ => ⟨fun hall q hq => hall q (h.mem_iff.mpr hq),
    fun hall q hq => hall q (h.mem_iff.mp hq)⟩

/-- An interval of covered numbers lies in one interval of a list with gaps. -/
theorem Gapped.mem_of_covers {l : List Interval} (hl : Gapped l) (hp : Proper l) {k : Interval}
    (hk : k.1 ≤ k.2) (h : ∀ a, Has k a → Covers l a) : ∃ i ∈ l, i.1 ≤ k.1 ∧ k.2 ≤ i.2 := by
  obtain ⟨i, hi, h₁, h₂⟩ := h k.1 ⟨Nat.le_refl _, hk⟩
  refine ⟨i, hi, h₁, ?_⟩
  by_contra hlt
  -- the number after `i` would be covered
  obtain ⟨j, hj, hj₁, hj₂⟩ := h (i.2 + 1) ⟨by omega, by omega⟩
  obtain ⟨l₁, l₂, rfl⟩ := List.append_of_mem hi
  obtain ⟨-, hright, hleft⟩ := List.pairwise_append.mp hl
  rcases List.mem_append.mp hj with hj | hj
  · have := hleft j hj i List.mem_cons_self
    omega
  · rcases List.mem_cons.mp hj with rfl | hj
    · omega
    · have := (List.pairwise_cons.mp hright).1 j hj
      omega

/-- **The pieces are the maximal intervals** of `i` that avoid all that was taken. -/
theorem mem_pieces (hqs : Proper qs) (hi : i.1 ≤ i.2) : j ∈ pieces qs i ↔ Maximal qs i j := by
  obtain ⟨hg, hp, hcov⟩ := pieces_spec hqs hi
  constructor
  · intro hj
    have hle := hp j hj
    refine ⟨hle, fun a ha => (hcov a).mp ⟨j, hj, ha⟩, fun k hjk hk => ?_⟩
    have hlo := hjk j.1 ⟨Nat.le_refl _, hle⟩
    have hhi := hjk j.2 ⟨hle, Nat.le_refl _⟩
    have hkle : k.1 ≤ k.2 := Nat.le_trans hlo.1 hlo.2
    obtain ⟨j', hj', h₁, h₂⟩ := hg.mem_of_covers hp hkle fun a ha => (hcov a).mpr (hk a ha)
    -- the piece around `k` is the one around `j`
    have hsame : j' = j := by
      have hlo := hlo.1
      have hhi := hhi.2
      rcases hg.sorted.apart hj' hj with h | h | h
      · exact h
      · omega
      · omega
    subst hsame
    exact Prod.ext (Nat.le_antisymm hlo.1 h₁) (Nat.le_antisymm h₂ hhi.2)
  · intro hj
    obtain ⟨k, hk, h₁, h₂⟩ := hg.mem_of_covers hp hj.le fun a ha => (hcov a).mpr (hj.within a ha)
    have hkj : k = j := hj.max k (fun a ha => ⟨Nat.le_trans h₁ ha.1, Nat.le_trans ha.2 h₂⟩)
      fun a ha => (hcov a).mp ⟨k, hk, ha⟩
    exact hkj ▸ hk

end Pieces

end Intervals
