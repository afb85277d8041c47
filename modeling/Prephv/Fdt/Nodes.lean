import Prephv.Fdt.Model

/-!
# Fdt — Nodes

What a search by `device_type` finds.  The nodes of a tree are the offsets that `fdt_next_node`
gives one after the other, from before the root on (`Fdt.IsNode`), until it gives an error.

A search from one node goes on to the nodes after it and stops at the first with the type, so the
nodes with the type after the start are the one found and those after that
(`nodeOffsetByDtype_spec`); there are none when it ends with `-FDT_ERR_NOTFOUND`.  The walk is a
function of the offset, which is what makes the two sides the same nodes.
-/

set_option autoImplicit false

namespace Prephv

namespace Fdt

variable {fdt : Fdt} {o p q r : FdtInt} {dtype : String}

/-! ### The nodes from an offset on -/

/-- The node `q` is `o`, or one that the walk from `o` comes to. -/
inductive From (fdt : Fdt) : FdtInt → FdtInt → Prop where
  | here {o : FdtInt} (ho : o.neg = false) : From fdt o o
  | later {o p q : FdtInt} {d : Option Int} (ho : o.neg = false)
      (hnext : fdt.nextNode o none = .ok (p, d)) (hq : From fdt p q) : From fdt o q

/-- The walk from `o` comes to the node `q` later. -/
def After (fdt : Fdt) (o q : FdtInt) : Prop :=
  ∃ p d, fdt.nextNode o none = .ok (p, d) ∧ fdt.From p q

/-- A node of the tree. -/
def IsNode (fdt : Fdt) (q : FdtInt) : Prop := fdt.After (-1) q

/-- The node's `device_type` is `dtype`. -/
def HasDtype (fdt : Fdt) (dtype : String) (q : FdtInt) : Prop :=
  fdt.nodeCheckDtype q dtype = .ok 0

/-- There are no nodes from an error on. -/
theorem not_from_neg (ho : o.neg = true) : ¬ fdt.From o q := by
  intro h
  cases h with
  | here h => rw [h] at ho; cases ho
  | later h _ _ => rw [h] at ho; cases ho

theorem from_iff_after (ho : o.neg = false) : fdt.From o q ↔ q = o ∨ fdt.After o q := by
  constructor
  · intro h
    cases h with
    | here _ => exact Or.inl rfl
    | later _ hnext hq => exact Or.inr ⟨_, _, hnext, hq⟩
  · rintro (rfl | ⟨p, d, hnext, hq⟩)
    · exact .here ho
    · exact .later ho hnext hq

theorem after_iff {d : Option Int} (hnext : fdt.nextNode o none = .ok (p, d)) :
    fdt.After o q ↔ fdt.From p q := by
  constructor
  · rintro ⟨p', d', hnext', hq⟩
    rw [hnext] at hnext'
    cases hnext'
    exact hq
  · intro hq
    exact ⟨p, d, hnext, hq⟩

/-! ### The search -/

/-- Where the search from the node `o` ends with a node or with `-FDT_ERR_NOTFOUND`, the nodes of
the type from `o` on are those from that node on. -/
theorem byDtypeLoop_spec {n : Nat} (h : fdt.byDtypeLoop dtype n o = .ok r)
    (hr : r.neg = true → r = -1) :
    (∀ q, fdt.HasDtype dtype q → (fdt.From o q ↔ fdt.From r q)) ∧
      (r.neg = false → fdt.HasDtype dtype r) := by
  induction n generalizing o with
  | zero => cases h
  | succ n ih =>
    rw [byDtypeLoop] at h
    by_cases ho : o.neg = true
    · rw [if_pos ho] at h
      cases h
      exact ⟨fun q _ => Iff.rfl, fun hno => by rw [ho] at hno; cases hno⟩
    rw [if_neg ho, bind_eq_ok] at h
    obtain ⟨err, herr, h⟩ := h
    by_cases hbad : err.neg ∧ err ≠ -fdtErrNotfound
    · -- an error that is not `FDT_ERR_NOTFOUND` would be the result
      rw [if_pos hbad] at h
      cases h
      exact absurd (hr hbad.1) hbad.2
    rw [if_neg hbad] at h
    by_cases hzero : err = 0
    · rw [if_pos hzero] at h
      cases h
      exact ⟨fun q _ => Iff.rfl, fun _ => herr.trans (by rw [hzero])⟩
    · rw [if_neg hzero, bind_eq_ok] at h
      obtain ⟨⟨p, d⟩, hnext, h⟩ := h
      obtain ⟨hfrom, htype⟩ := ih h
      refine ⟨fun q hq => ?_, htype⟩
      rw [← hfrom q hq, from_iff_after (Bool.eq_false_iff.mpr ho), after_iff hnext, or_iff_right]
      -- `o` itself does not have the type
      rintro rfl
      rw [HasDtype, herr] at hq
      cases hq
      exact hzero rfl

/-- The nodes of the type after `o` are the node found and those after it. -/
theorem nodeOffsetByDtype_spec (h : fdt.nodeOffsetByDtype o dtype = .ok r)
    (hr : r.neg = true → r = -1) :
    fdt.checkHeader = 0 ∧ (∀ q, fdt.HasDtype dtype q → (fdt.After o q ↔ fdt.From r q)) ∧
      (r.neg = false → fdt.HasDtype dtype r) := by
  rw [nodeOffsetByDtype] at h
  have hcheck : fdt.checkHeader = 0 := by
    by_contra hne
    rw [if_pos hne] at h
    cases h
    -- the header's errors are not `FDT_ERR_NOTFOUND`
    have hnone : fdt.checkHeader ∉ [(-1 : FdtInt)] ∧ fdt.checkHeader.neg = true := by
      unfold checkHeader at hne ⊢
      split_ifs at hne ⊢ <;> first | exact absurd rfl hne | decide
    exact hnone.1 (List.mem_singleton.mpr (hr hnone.2))
  rw [if_neg (not_not.mpr hcheck), bind_eq_ok] at h
  obtain ⟨⟨p, d⟩, hnext, h⟩ := h
  obtain ⟨hfrom, htype⟩ := byDtypeLoop_spec h hr
  refine ⟨hcheck, fun q hq => ?_, htype⟩
  rw [after_iff hnext, hfrom q hq]

/-- A property is only read of a node. -/
theorem getprop_neg (ho : o.neg = true) (name : String) :
    ∃ len, fdt.getprop o name = .ok (none, len) := by
  unfold getprop
  by_cases hcheck : fdt.checkHeader ≠ 0
  · exact ⟨_, if_pos hcheck⟩
  · rw [if_neg hcheck, checkNodeOffset, if_pos (Or.inl ho)]
    exact ⟨_, rfl⟩

/-! ### Memory reservations -/

/-- The reserve map has an entry `n`: no entry up to it is the terminator. -/
def IsRsv (fdt : Fdt) (n : Nat) : Prop := ∀ j ≤ n, fdt.rsvSize j ≠ 0

theorem numMemRsvLoop_spec {n i count : Nat} (h : fdt.numMemRsvLoop n i = .ok count) :
    i ≤ count ∧ fdt.rsvSize count = 0 ∧ ∀ j, i ≤ j → j < count → fdt.rsvSize j ≠ 0 := by
  induction n generalizing i with
  | zero => cases h
  | succ n ih =>
    rw [numMemRsvLoop] at h
    by_cases hsize : fdt.rsvSize i ≠ 0
    · rw [if_pos hsize] at h
      obtain ⟨hle, hend, hall⟩ := ih h
      refine ⟨by omega, hend, fun j h₁ h₂ => ?_⟩
      by_cases e : j = i
      · exact e ▸ hsize
      · exact hall j (by omega) h₂
    · rw [if_neg hsize] at h
      cases h
      exact ⟨Nat.le_refl _, not_not.mp hsize, fun j h₁ h₂ => by omega⟩

/-- `fdt_num_mem_rsv` counts the entries. -/
theorem numMemRsv_spec {count n : Nat} (h : fdt.numMemRsv = .ok count) :
    n < count ↔ fdt.IsRsv n := by
  obtain ⟨-, hend, hall⟩ := numMemRsvLoop_spec h
  constructor
  · intro hn j hj
    exact hall j (Nat.zero_le j) (by omega)
  · intro hn
    by_contra hle
    exact hn count (by omega) hend

end Fdt

end Prephv
