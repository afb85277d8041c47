import Prephv.Lib.Intervals
import Prephv.Mem.Ranges

/-!
# Mem — Difference

`range_add` and `range_remove` on lists that are in order and disjoint, for any node allocation that
leaves the list alone.

`range_remove` is `Intervals.diff` of the list (`rangeRemove_diff`), unless it stops: when it leaves
a single address on the left of the request in a range that goes on beyond it, `range_add` has its
`base >= limit` assertion for that piece, though a range of one address is a good range everywhere
else.  It never stops for another reason, so that is the exact condition
(`rangeRemove_returns_iff`).  Requests can be made in any order (`rangeRemoves_perm`).

`range_add` stops where one range of the list holds all of the new one, and puts the new one in
order where none meets it.  Any other overlap it does not see (`rangeAdd_ordered_iff`).
-/

set_option autoImplicit false

namespace Prephv

open SafeList Intervals

/-! ### Lists in order -/

/-- The ends of a range. -/
def Range.ends (r : Range) : Interval := (r.base.toNat, r.limit.toNat)

/-- The ends of the ranges of a list. -/
def ends (l : List Range) : List Interval := l.map Range.ends

/-- The base and limit of every range of a list. -/
def words (l : List Range) : List (U64 × U64) := l.map fun r => (r.base, r.limit)

/-- The list is in order and disjoint, no range is empty, and the nodes are distinct. -/
structure InOrder (l : List Range) : Prop where
  ordered : Ordered l
  proper : Prephv.Proper l
  nodup : (nodes l).Nodup

instance (l : List Range) : Decidable (InOrder l) :=
  decidable_of_iff ((l.Pairwise fun r r' : Range => r.limit.toNat < r'.base.toNat) ∧
    (∀ r ∈ l, r.base.toNat ≤ r.limit.toNat) ∧ (nodes l).Nodup)
    ⟨fun h => ⟨h.1, h.2.1, h.2.2⟩, fun h => ⟨h.1, h.2, h.3⟩⟩

@[simp] theorem ends_append (l l' : List Range) : ends (l ++ l') = ends l ++ ends l' :=
  List.map_append

@[simp] theorem ends_cons (r : Range) (l : List Range) : ends (r :: l) = r.ends :: ends l := rfl

theorem covers_ends {l : List Range} {a : Nat} : Intervals.Covers (ends l) a ↔ Prephv.Covers l a := by
  simp only [Intervals.Covers, Prephv.Covers, ends, List.mem_map, exists_exists_and_eq_and]
  rfl

theorem sorted_ends {l : List Range} : Intervals.Sorted (ends l) ↔ Ordered l := List.pairwise_map

theorem proper_ends {l : List Range} : Intervals.Proper (ends l) ↔ Prephv.Proper l := by
  simp only [Intervals.Proper, Prephv.Proper, ends, List.forall_mem_map]
  rfl

/-- Lists with the same ends have the same words there. -/
theorem words_of_ends {l l' : List Range} (h : ends l = ends l') : words l = words l' := by
  have hends : ∀ l : List Range,
      words l = (ends l).map fun i => (BitVec.ofNat 64 i.1, BitVec.ofNat 64 i.2) := by
    intro l
    rw [words, ends, List.map_map]
    refine List.map_congr_left fun r _ => ?_
    simp [Range.ends]
  rw [hends, hends, h]

/-! ### Runs and allocations -/

/-- A run returns a value that meets `Q`, or stops at an assertion. -/
def OrBug {α : Type} (Q : α → Prop) : MemRes α → Prop
  | .ok a => Q a
  | .error (.bug _) => True
  | .error _ => False

/-- A node allocation that leaves the list alone: it gives a node that is not in the list, or stops
at an assertion. -/
def AllocLocal (alloc : MemState → MemRes (Nat × MemState)) : Prop :=
  ∀ s, OrBug (fun r => r.1 ∉ nodes s.ranges ∧ r.2.ranges = s.ranges) (alloc s)

/-- A node allocation that leaves the list alone and has memory. -/
structure AllocTotal (alloc : MemState → MemRes (Nat × MemState)) : Prop where
  allocLocal : AllocLocal alloc
  total : ∀ s, ∃ r, alloc s = .ok r

theorem OrBug.imp {α : Type} {Q Q' : α → Prop} {x : MemRes α} (h : OrBug Q x)
    (himp : ∀ a, Q a → Q' a) : OrBug Q' x := by
  cases x with
  | ok a => exact himp a h
  | error e =>
    cases e with
    | bug b => trivial
    | fault => exact h.elim
    | fuel => exact h.elim

theorem OrBug.bind {α β : Type} {Q : α → Prop} {Q' : β → Prop} {x : MemRes α} {f : α → MemRes β}
    (hx : OrBug Q x) (hf : ∀ a, Q a → OrBug Q' (f a)) : OrBug Q' (x >>= f) := by
  cases x with
  | ok a => exact hf a hx
  | error e =>
    cases e with
    | bug b => trivial
    | fault => exact hx.elim
    | fuel => exact hx.elim

/-- After an assertion its condition is false. -/
theorem OrBug.memBugOn {β : Type} {Q : β → Prop} {x : Prop} [Decidable x] {fmt : String}
    {f : Unit → MemRes β} (hf : ¬ x → OrBug Q (f ())) : OrBug Q (Prephv.memBugOn x fmt >>= f) := by
  unfold Prephv.memBugOn
  by_cases hx : x
  · rw [if_pos hx]
    trivial
  · rw [if_neg hx]
    exact hf hx

theorem OrBug.of_ok {α : Type} {Q : α → Prop} {x : MemRes α} {a : α} (h : OrBug Q x)
    (hx : x = .ok a) : Q a := by
  rw [hx] at h
  exact h

/-- A run that is not stopped by an assertion returns. -/
theorem OrBug.returns {α : Type} {Q : α → Prop} {x : MemRes α} (h : OrBug Q x)
    (hx : ∀ b, x ≠ .error (.bug b)) : ∃ a, x = .ok a ∧ Q a := by
  cases x with
  | ok a => exact ⟨a, rfl, h⟩
  | error e =>
    cases e with
    | bug b => exact absurd rfl (hx b)
    | fault => exact h.elim
    | fuel => exact h.elim

/-- An allocation that always has a node that is not in the list. -/
def freshNode (s : MemState) : MemRes (Nat × MemState) := .ok ((nodes s.ranges).sum + 1, s)

theorem freshNode_total : AllocTotal freshNode := by
  have hsum : ∀ (l : List Nat) (i : Nat), i ∈ l → i ≤ l.sum := by
    intro l i hi
    induction l with
    | nil => cases hi
    | cons j l ih =>
      rw [List.sum_cons]
      rcases List.mem_cons.mp hi with rfl | hi
      · exact Nat.le_add_right _ _
      · exact Nat.le_add_left_of_le (ih hi)
  refine ⟨fun s => ⟨fun hmem => ?_, rfl⟩, fun s => ⟨_, rfl⟩⟩
  exact Nat.not_succ_le_self _ (hsum _ _ hmem)

/-- A list of ranges, with its nodes numbered. -/
def rangeState (l : List Range) : MemState := ⟨true, 0, l, l.length, [], []⟩

/-! ### Where `range_add` puts a range -/

/-- A range beyond the first ones and before the next goes between them. -/
theorem insertRange_between {r : Range} {l₁ l₂ : List Range} (hr : r.base.toNat ≤ r.limit.toNat)
    (hp : Prephv.Proper l₁) (h₁ : ∀ y ∈ l₁, y.limit.toNat < r.base.toNat)
    (h₂ : ∀ y ∈ l₂.head?, r.limit.toNat < y.base.toNat) :
    insertRange r (l₁ ++ l₂) = .ok (l₁ ++ r :: l₂) := by
  induction l₁ with
  | nil =>
    cases l₂ with
    | nil => rfl
    | cons x l₂ =>
      have hlt : r.limit.toNat < x.base.toNat := h₂ x rfl
      have hbug : ¬ (r.base ≥ x.base ∧ r.limit ≤ x.limit) := by
        rintro ⟨h, -⟩
        have h : x.base.toNat ≤ r.base.toNat := h
        omega
      have hgt : x.base > r.limit := hlt
      rw [List.nil_append, insertRange, memBugOn, if_neg hbug]
      exact if_pos hgt
  | cons y l₁ ih =>
    obtain ⟨hy, hp'⟩ := proper_cons.mp hp
    have hlt := h₁ y List.mem_cons_self
    have hbug : ¬ (r.base ≥ y.base ∧ r.limit ≤ y.limit) := by
      rintro ⟨-, h⟩
      have h : r.limit.toNat ≤ y.limit.toNat := h
      omega
    have hgt : ¬ y.base > r.limit := by
      intro h
      have h : r.limit.toNat < y.base.toNat := h
      omega
    rw [List.cons_append, insertRange, memBugOn, if_neg hbug]
    show (if y.base > r.limit then _ else _) = _
    rw [if_neg hgt, ih hp' fun z hz => h₁ z (List.mem_cons_of_mem _ hz)]
    rfl

/-! ### One visit of `range_remove` -/

section Remove

variable {alloc : MemState → MemRes (Nat × MemState)} {base limit : U64} {s : MemState}
  {l₁ l₂ m : List Range} {x : Range}

/-- The request leaves a single address on the left of the range, and something on the right. -/
def Range.LeavesOne (base limit : U64) (r : Range) : Prop :=
  r.base.toNat + 1 = base.toNat ∧ limit.toNat < r.limit.toNat

instance (base limit : U64) (r : Range) : Decidable (r.LeavesOne base limit) :=
  inferInstanceAs (Decidable (_ ∧ _))

/-- The request, as an interval. -/
def request (base limit : U64) : Interval := (base.toNat, limit.toNat)

/-- A list stays in order where a range is replaced by what is left of it. -/
theorem InOrder.replace (hwf : InOrder (l₁ ++ x :: l₂)) (hle : base.toNat ≤ limit.toNat)
    (hm : ends m = cut (request base limit) x.ends) (hnd : (nodes (l₁ ++ m ++ l₂)).Nodup) :
    InOrder (l₁ ++ m ++ l₂) := by
  have hs : Intervals.Sorted (ends l₁ ++ x.ends :: ends l₂) := by
    rw [← ends_cons, ← ends_append]
    exact sorted_ends.mpr hwf.ordered
  have hp : Intervals.Proper (ends l₁ ++ x.ends :: ends l₂) := by
    rw [← ends_cons, ← ends_append]
    exact proper_ends.mpr hwf.proper
  have hx : x.base.toNat ≤ x.limit.toNat := hwf.proper x (by simp)
  refine ⟨sorted_ends.mp ?_, proper_ends.mp ?_, hnd⟩
  · rw [ends_append, ends_append, hm]
    exact hs.cut hx hle
  · rw [ends_append, ends_append, hm]
    exact hp.cut

/-- What a visit leaves in the place of the range `x`. -/
def Visit (base limit : U64) (l₁ : List Range) (x : Range) (l₂ : List Range) (s' : MemState) : Prop :=
  ∃ m, s'.ranges = l₁ ++ m ++ l₂ ∧ ends m = cut (request base limit) x.ends ∧ InOrder s'.ranges

/-- A visit that keeps the range's node. -/
theorem Visit.keep {x' : Range} {s' : MemState} (hwf : InOrder (l₁ ++ x :: l₂))
    (hle : base.toNat ≤ limit.toNat) (h : s'.ranges = l₁ ++ x' :: l₂) (hnode : x'.node = x.node)
    (hends : [x'.ends] = cut (request base limit) x.ends) : Visit base limit l₁ x l₂ s' := by
  have hranges : s'.ranges = l₁ ++ [x'] ++ l₂ := by rw [h, List.append_assoc]; rfl
  refine ⟨[x'], hranges, hends, ?_⟩
  rw [hranges]
  refine hwf.replace hle hends ?_
  have hnd := hwf.nodup
  simpa [nodes, hnode] using hnd

/-- The left part of a range that is cut in two goes right before the right part. -/
theorem insertRange_leftPart {node : Nat} (hwf : InOrder (l₁ ++ x :: l₂))
    (hle : base.toNat ≤ limit.toNat) (hb : x.base.toNat < base.toNat)
    (hl : limit.toNat < x.limit.toNat) (hlt : x.base.toNat < (base - 1).toNat) :
    insertRange ⟨node, x.base, base - 1⟩ (l₁ ++ { x with base := limit + 1 } :: l₂) =
      .ok (l₁ ++ ⟨node, x.base, base - 1⟩ :: { x with base := limit + 1 } :: l₂) := by
  have hsucc := Words.succ_toNat (Nat.lt_of_le_of_lt (Nat.succ_le_of_lt hl) x.limit.isLt)
  have hpred : (base - 1).toNat = base.toNat - 1 := pred_toNat (by omega)
  obtain ⟨-, -, hleft⟩ := List.pairwise_append.mp hwf.ordered
  refine insertRange_between (Nat.le_of_lt hlt) (proper_append.mp hwf.proper).1
    (fun y hy => hleft y hy x List.mem_cons_self) ?_
  intro y hy
  obtain rfl := Option.some.inj hy
  show (base - 1).toNat < (limit + 1).toNat
  omega

/-- A visit that cuts the range in two, and puts the left part back. -/
theorem removeBody_split (halloc : AllocLocal alloc) (hwf : InOrder s.ranges)
    (h : s.ranges = l₁ ++ x :: l₂) (hle : base.toNat ≤ limit.toNat)
    (hb : x.base.toNat < base.toNat) (hl : limit.toNat < x.limit.toNat) :
    OrBug (fun s' => ¬ x.LeavesOne base limit ∧ Visit base limit l₁ x l₂ s')
      (removeBody alloc base limit x s) := by
  have hne : x.base ≠ base := fun e => by rw [e] at hb; omega
  have hsucc := Words.succ_toNat (Nat.lt_of_le_of_lt (Nat.succ_le_of_lt hl) x.limit.isLt)
  have hpred : (base - 1).toNat = base.toNat - 1 := pred_toNat (by omega)
  rw [removeBody_inside alloc (Nat.le_of_lt hb) hle hl, if_neg hne]
  set x' : Range := { x with base := limit + 1 } with hx'
  have hranges : (setNode x.node (fun r => { r with base := limit + 1 }) s).ranges =
      l₁ ++ x' :: l₂ := setNode_ranges h hwf.nodup _
  rw [h] at hwf
  refine OrBug.bind (halloc _) ?_
  rintro ⟨node, s₁⟩ ⟨hnode, hs₁⟩
  dsimp only at hnode hs₁
  rw [hranges] at hnode hs₁
  refine OrBug.memBugOn fun hlt => ?_
  have hlt : x.base.toNat < (base - 1).toNat := Nat.lt_of_not_le hlt
  set r : Range := ⟨node, x.base, base - 1⟩ with hr
  have hins : insertRange r (l₁ ++ x' :: l₂) = .ok (l₁ ++ r :: x' :: l₂) :=
    insertRange_leftPart hwf hle hb hl hlt
  have hm : ends [r, x'] = cut (request base limit) x.ends := by
    have hhit : ¬ (x.ends.2 < (request base limit).1 ∨ (request base limit).2 < x.ends.1) := by
      show ¬ (x.limit.toNat < base.toNat ∨ limit.toNat < x.base.toNat)
      omega
    rw [cut, if_neg hhit, if_pos (show x.ends.1 < (request base limit).1 from hb),
      if_pos (show (request base limit).2 < x.ends.2 from hl)]
    show [(x.base.toNat, (base - 1).toNat), ((limit + 1).toNat, x.limit.toNat)] = _
    rw [hpred, hsucc]
    rfl
  have hnd : (nodes (l₁ ++ [r, x'] ++ l₂)).Nodup := by
    have hnd := hwf.nodup
    rw [nodes_append, nodes_cons] at hnd hnode
    rw [nodes_append, nodes_append, List.append_assoc]
    show (nodes l₁ ++ node :: x.node :: nodes l₂).Nodup
    exact List.nodup_middle.mpr (List.nodup_cons.mpr ⟨hnode, hnd⟩)
  rw [hs₁, hins]
  have hsplit : l₁ ++ r :: x' :: l₂ = l₁ ++ [r, x'] ++ l₂ := by simp
  refine ⟨?_, [r, x'], hsplit, hm, ?_⟩
  · rintro ⟨hone, -⟩
    omega
  · show InOrder (l₁ ++ r :: x' :: l₂)
    rw [hsplit]
    exact hwf.replace hle hm hnd

/-- A visit of `range_remove` leaves the cut range in its place, and stops where one address is left
on the left of the request. -/
theorem removeBody_visit (halloc : AllocLocal alloc) (hwf : InOrder s.ranges)
    (h : s.ranges = l₁ ++ x :: l₂) (hle : base.toNat ≤ limit.toNat) :
    OrBug (fun s' => ¬ x.LeavesOne base limit ∧ Visit base limit l₁ x l₂ s')
      (removeBody alloc base limit x s) := by
  have hwf' := h ▸ hwf
  have hx : x.base.toNat ≤ x.limit.toNat := hwf'.proper x (by simp)
  by_cases hmiss : ¬ x.Hit base limit
  · rw [removeBody_miss alloc hmiss]
    have hm : x.ends.2 < (request base limit).1 ∨ (request base limit).2 < x.ends.1 := by
      show x.limit.toNat < base.toNat ∨ limit.toNat < x.base.toNat
      simp only [Range.Hit, not_and_or, not_le] at hmiss
      omega
    refine ⟨fun hone => hmiss ?_, Visit.keep hwf' hle h rfl (cut_miss hm).symm⟩
    obtain ⟨h₁, h₂⟩ := hone
    exact ⟨by omega, by omega⟩
  obtain ⟨hh₁, hh₂⟩ := not_not.mp hmiss
  have hhit : ¬ (x.ends.2 < (request base limit).1 ∨ (request base limit).2 < x.ends.1) := by
    show ¬ (x.limit.toNat < base.toNat ∨ limit.toNat < x.base.toNat)
    omega
  have hno : ¬ (x.base > limit ∨ x.limit < base) := by
    rintro (h' | h')
    · exact Nat.not_le_of_lt h' hh₁
    · exact Nat.not_le_of_lt h' hh₂
  rcases Nat.lt_or_ge x.base.toNat base.toNat with hb | hb <;>
    rcases Nat.lt_or_ge limit.toNat x.limit.toNat with hl | hl
  · exact removeBody_split halloc hwf h hle hb hl
  · -- the request runs over the range's end
    have hpred : (base - 1).toNat = base.toNat - 1 := pred_toNat (by omega)
    have hbody : removeBody alloc base limit x s =
        .ok (setNode x.node (fun r => { r with limit := base - 1 }) s) := by
      rw [removeBody, if_neg hno, if_neg, if_neg, if_pos]
      · exact BitVec.le_def.mpr hl
      · exact fun h' => Nat.not_le_of_lt hb h'
      · exact fun h' => Nat.not_le_of_lt hb h'.1
    rw [hbody]
    refine ⟨fun hone => Nat.not_le_of_lt hone.2 hl,
      Visit.keep hwf' hle (setNode_ranges h hwf.nodup _) rfl ?_⟩
    rw [cut, if_neg hhit, if_pos (show x.ends.1 < (request base limit).1 from hb),
      if_neg (show ¬ (request base limit).2 < x.ends.2 from Nat.not_lt_of_le hl)]
    show [(x.base.toNat, (base - 1).toNat)] = _
    rw [hpred]
    rfl
  · -- the request runs over the range's start
    have hsucc := Words.succ_toNat (Nat.lt_of_le_of_lt (Nat.succ_le_of_lt hl) x.limit.isLt)
    have hbody : removeBody alloc base limit x s =
        .ok (setNode x.node (fun r => { r with base := limit + 1 }) s) := by
      rw [removeBody, if_neg hno, if_neg, if_pos]
      · exact BitVec.le_def.mpr hb
      · exact fun h' => Nat.not_le_of_lt hl h'.2
    rw [hbody]
    refine ⟨fun hone => by have := hone.1; omega,
      Visit.keep hwf' hle (setNode_ranges h hwf.nodup _) rfl ?_⟩
    rw [cut, if_neg hhit, if_neg (show ¬ x.ends.1 < (request base limit).1 from Nat.not_lt_of_le hb),
      if_pos (show (request base limit).2 < x.ends.2 from hl)]
    show [((limit + 1).toNat, x.limit.toNat)] = _
    rw [hsucc]
    rfl
  · -- the request holds the whole range
    have hbody : removeBody alloc base limit x s = .ok (freeNode x.node s) := by
      rw [removeBody, if_neg hno, if_pos]
      exact ⟨BitVec.le_def.mpr hb, BitVec.le_def.mpr hl⟩
    have hranges : (freeNode x.node s).ranges = l₁ ++ [] ++ l₂ := by
      rw [List.append_nil]
      exact freeNode_ranges h hwf.nodup
    have hcut : ends [] = cut (request base limit) x.ends := by
      rw [cut, if_neg hhit,
        if_neg (show ¬ x.ends.1 < (request base limit).1 from Nat.not_lt_of_le hb),
        if_neg (show ¬ (request base limit).2 < x.ends.2 from Nat.not_lt_of_le hl)]
      rfl
    rw [hbody]
    refine ⟨fun hone => Nat.not_le_of_lt hone.2 hl, [], hranges, hcut, ?_⟩
    rw [hranges]
    refine hwf'.replace hle hcut ?_
    have hnd := hwf'.nodup
    rw [nodes_append, nodes_cons] at hnd
    rw [List.append_nil, nodes_append]
    exact (List.nodup_cons.mp (List.nodup_middle.mp hnd)).2

/-! ### `range_remove` -/

/-- `range_remove`'s loop cuts the ranges from its cursor on, one after the other. -/
theorem removeLoop_diff (halloc : AllocLocal alloc) (hle : base.toNat ≤ limit.toNat) (fuel : Nat)
    (l₁ l₂ : List Range) {s : MemState} (hwf : InOrder s.ranges) (h : s.ranges = l₁ ++ l₂)
    (hfuel : l₂.length < fuel) :
    OrBug (fun s' => (∀ r ∈ l₂, ¬ r.LeavesOne base limit) ∧ InOrder s'.ranges ∧
      ends s'.ranges = ends l₁ ++ diff (ends l₂) (request base limit))
      (removeLoop alloc base limit fuel (first (nodes l₂)) s) := by
  induction fuel generalizing s l₁ l₂ with
  | zero => omega
  | succ fuel ih =>
    cases l₂ with
    | nil =>
      refine ⟨nofun, hwf, ?_⟩
      rw [h]
      simp [ends]
    | cons x l₂ =>
      rw [nodes_cons, first_cons, removeLoop_entry alloc base limit fuel h hwf.nodup]
      refine OrBug.bind (removeBody_visit halloc hwf h hle) ?_
      rintro s₁ ⟨hone, m, hm, hends, hwf₁⟩
      rw [List.length_cons] at hfuel
      refine (ih (l₁ ++ m) l₂ hwf₁ hm (by omega)).imp ?_
      rintro s' ⟨hones, hwf', hends'⟩
      refine ⟨List.forall_mem_cons.mpr ⟨hone, hones⟩, hwf', ?_⟩
      rw [hends', ends_append, hends, ends_cons, diff_cons, List.append_assoc]

/-- **`range_remove` is the set difference, range by range.** -/
theorem rangeRemove_diff (halloc : AllocLocal alloc) {fuel : Nat} (hwf : InOrder s.ranges)
    (hfuel : s.ranges.length < fuel) :
    OrBug (fun s' => (∀ r ∈ s.ranges, ¬ r.LeavesOne base limit) ∧ InOrder s'.ranges ∧
      ends s'.ranges = diff (ends s.ranges) (request base limit))
      (rangeRemove alloc fuel base limit s) := by
  refine OrBug.memBugOn fun hlt => ?_
  have hlt : base.toNat < limit.toNat := Nat.lt_of_not_le hlt
  exact removeLoop_diff halloc (Nat.le_of_lt hlt) fuel [] s.ranges hwf rfl hfuel

/-! ### Exactness -/

/-- At the range, `range_remove` computes `limit + 1`. -/
def Range.UsesSucc (base limit : U64) (range : Range) : Prop :=
  ¬ (range.base > limit ∨ range.limit < base) ∧ ¬ (range.base ≥ base ∧ range.limit ≤ limit) ∧
    (range.base ≥ base ∨ ¬ range.limit ≤ limit)

/-- At the range, `range_remove` computes `base - 1`. -/
def Range.UsesPred (base limit : U64) (range : Range) : Prop :=
  ¬ (range.base > limit ∨ range.limit < base) ∧ ¬ (range.base ≥ base ∧ range.limit ≤ limit) ∧
    ¬ range.base ≥ base

instance (base limit : U64) (range : Range) : Decidable (range.UsesSucc base limit) :=
  inferInstanceAs (Decidable (_ ∧ _ ∧ _))

instance (base limit : U64) (range : Range) : Decidable (range.UsesPred base limit) :=
  inferInstanceAs (Decidable (_ ∧ _ ∧ _))

/-- A visit computes `limit + 1` and `base - 1` at the ranges that say so, and at no others. -/
theorem removeBody_uses (range : Range) (s : MemState) :
    removeBody alloc base limit range s =
      if range.UsesSucc base limit then
        if range.UsesPred base limit then
          rangeAdd alloc range.base (base - 1)
            (setNode range.node (fun r => { r with base := limit + 1 }) s)
        else .ok (setNode range.node (fun r => { r with base := limit + 1 }) s)
      else if range.UsesPred base limit then
        .ok (setNode range.node (fun r => { r with limit := base - 1 }) s)
      else if range.base > limit ∨ range.limit < base then .ok s
      else .ok (freeNode range.node s) := by
  unfold removeBody
  by_cases hout : range.base > limit ∨ range.limit < base
  · have hsucc : ¬ range.UsesSucc base limit := fun h => h.1 hout
    have hpred : ¬ range.UsesPred base limit := fun h => h.1 hout
    rw [if_pos hout, if_neg hsucc, if_neg hpred, if_pos hout]
  by_cases hin : range.base ≥ base ∧ range.limit ≤ limit
  · have hsucc : ¬ range.UsesSucc base limit := fun h => h.2.1 hin
    have hpred : ¬ range.UsesPred base limit := fun h => h.2.1 hin
    rw [if_neg hout, if_pos hin, if_neg hsucc, if_neg hpred, if_neg hout]
  rw [if_neg hout, if_neg hin]
  by_cases hb : range.base ≥ base
  · have hsucc : range.UsesSucc base limit := ⟨hout, hin, Or.inl hb⟩
    have hpred : ¬ range.UsesPred base limit := fun h => h.2.2 hb
    rw [if_pos hb, if_pos hsucc, if_neg hpred]
  have hpred : range.UsesPred base limit := ⟨hout, hin, hb⟩
  by_cases hl : range.limit ≤ limit
  · have hsucc : ¬ range.UsesSucc base limit := fun h => h.2.2.elim hb fun hno => hno hl
    rw [if_neg hb, if_pos hl, if_neg hsucc, if_pos hpred]
  · have hsucc : range.UsesSucc base limit := ⟨hout, hin, Or.inr hl⟩
    rw [if_neg hb, if_neg hl, if_pos hsucc, if_pos hpred]

/-- Neither computation wraps. -/
theorem noWrap_of_uses {r : Range} :
    (r.UsesSucc base limit → (limit + 1).toNat = limit.toNat + 1) ∧
      (r.UsesPred base limit → (base - 1).toNat + 1 = base.toNat) := by
  constructor
  · rintro ⟨-, hin, hor⟩
    have hlt : ¬ r.limit ≤ limit := hor.elim (fun hb hle => hin ⟨hb, hle⟩) id
    exact Words.succ_toNat (Nat.lt_of_le_of_lt (Nat.lt_of_not_le hlt) r.limit.isLt)
  · rintro ⟨-, -, hb⟩
    have hlt : r.base.toNat < base.toNat := Nat.lt_of_not_le hb
    rw [pred_toNat (by omega)]
    omega

/-- **`range_remove` is exact.**  On a list in order, a request either stops at an assertion or
leaves a list in order that covers what it covered but for the request; no computation wraps. -/
theorem rangeRemove_exact (halloc : AllocLocal alloc) {fuel : Nat} (hwf : InOrder s.ranges)
    (hfuel : s.ranges.length < fuel) :
    (∀ r ∈ s.ranges, (r.UsesSucc base limit → (limit + 1).toNat = limit.toNat + 1) ∧
      (r.UsesPred base limit → (base - 1).toNat + 1 = base.toNat)) ∧
    OrBug (fun s' => InOrder s'.ranges ∧ ∀ a, Prephv.Covers s'.ranges a ↔
      Prephv.Covers s.ranges a ∧ ¬ (base.toNat ≤ a ∧ a ≤ limit.toNat))
      (rangeRemove alloc fuel base limit s) := by
  refine ⟨fun r _ => noWrap_of_uses, OrBug.memBugOn fun hlt => ?_⟩
  have hlt : base.toNat < limit.toNat := Nat.lt_of_not_le hlt
  refine (removeLoop_diff halloc (Nat.le_of_lt hlt) fuel [] s.ranges hwf rfl hfuel).imp ?_
  rintro s' ⟨-, hwf', hends⟩
  refine ⟨hwf', fun a => ?_⟩
  have hq : (request base limit).1 ≤ (request base limit).2 := Nat.le_of_lt hlt
  rw [← covers_ends, hends, ← covers_ends]
  exact covers_diff hq

/-- A request that trims a range, holds the next and cuts the last in two. -/
theorem rangeRemove_exact_sample :
    let s := rangeState [⟨0, 0, 9⟩, ⟨1, 20, 29⟩, ⟨2, 40, 59⟩]
    (∀ r ∈ s.ranges, (r.UsesSucc 5 49 → ((49 : U64) + 1).toNat = (49 : U64).toNat + 1) ∧
      (r.UsesPred 5 49 → ((5 : U64) - 1).toNat + 1 = (5 : U64).toNat)) ∧
    OrBug (fun s' => InOrder s'.ranges ∧ ∀ a, Prephv.Covers s'.ranges a ↔
      Prephv.Covers s.ranges a ∧ ¬ ((5 : U64).toNat ≤ a ∧ a ≤ (49 : U64).toNat))
      (rangeRemove freshNode 4 5 49 s) :=
  rangeRemove_exact freshNode_total.allocLocal (by decide) (by decide)

/-! ### When `range_remove` returns -/

/-- A visit returns, unless it leaves one address on the left. -/
theorem removeBody_returns (halloc : AllocTotal alloc) (hwf : InOrder s.ranges)
    (h : s.ranges = l₁ ++ x :: l₂) (hle : base.toNat ≤ limit.toNat)
    (hone : ¬ x.LeavesOne base limit) : ∃ s', removeBody alloc base limit x s = .ok s' := by
  by_cases hsplit : x.base.toNat < base.toNat ∧ limit.toNat < x.limit.toNat
  · obtain ⟨hb, hl⟩ := hsplit
    have hne : x.base ≠ base := fun e => by rw [e] at hb; omega
    have hpred : (base - 1).toNat = base.toNat - 1 := pred_toNat (by omega)
    have hlt : x.base.toNat < (base - 1).toNat := by
      have hne : x.base.toNat + 1 ≠ base.toNat := fun e => hone ⟨e, hl⟩
      omega
    have hbug : ¬ x.base ≥ base - 1 := fun h => Nat.not_le_of_lt hlt h
    rw [removeBody_inside alloc (Nat.le_of_lt hb) hle hl, if_neg hne]
    have hranges := setNode_ranges h hwf.nodup fun r => { r with base := limit + 1 }
    obtain ⟨⟨node, s₁⟩, hal⟩ :=
      halloc.total (setNode x.node (fun r => { r with base := limit + 1 }) s)
    have hs₁ := ((halloc.allocLocal _).of_ok hal).2
    dsimp only at hs₁
    rw [hranges] at hs₁
    rw [h] at hwf
    rw [rangeAdd, hal]
    show ∃ s', (memBugOn (x.base ≥ base - 1) _ >>= fun _ => _) = .ok s'
    rw [memBugOn, if_neg hbug]
    show ∃ s', (insertRange ⟨node, x.base, base - 1⟩ s₁.ranges >>= fun _ => _) = .ok s'
    rw [hs₁, insertRange_leftPart hwf hle hb hl hlt]
    exact ⟨_, rfl⟩
  · unfold removeBody
    split
    · exact ⟨_, rfl⟩
    · split
      · exact ⟨_, rfl⟩
      · split
        · exact ⟨_, rfl⟩
        · next hb =>
          rw [if_pos]
          · exact ⟨_, rfl⟩
          · have hb : x.base.toNat < base.toNat := Nat.lt_of_not_le hb
            exact BitVec.le_def.mpr (Nat.le_of_not_lt fun hl => hsplit ⟨hb, hl⟩)

theorem removeLoop_returns (halloc : AllocTotal alloc) (hle : base.toNat ≤ limit.toNat) (fuel : Nat)
    (l₁ l₂ : List Range) {s : MemState} (hwf : InOrder s.ranges) (h : s.ranges = l₁ ++ l₂)
    (hfuel : l₂.length < fuel) (hone : ∀ r ∈ l₂, ¬ r.LeavesOne base limit) :
    ∃ s', removeLoop alloc base limit fuel (first (nodes l₂)) s = .ok s' := by
  induction fuel generalizing s l₁ l₂ with
  | zero => omega
  | succ fuel ih =>
    cases l₂ with
    | nil => exact ⟨s, rfl⟩
    | cons x l₂ =>
      obtain ⟨hx, hone⟩ := List.forall_mem_cons.mp hone
      rw [List.length_cons] at hfuel
      rw [nodes_cons, first_cons, removeLoop_entry alloc base limit fuel h hwf.nodup]
      obtain ⟨s₁, hbody⟩ := removeBody_returns halloc hwf h hle hx
      obtain ⟨-, m, hm, -, hwf₁⟩ := (removeBody_visit halloc.allocLocal hwf h hle).of_ok hbody
      rw [hbody]
      exact ih (l₁ ++ m) l₂ hwf₁ hm (by omega) hone

/-- **When `range_remove` returns.**  On a list in order, with memory for a node, a request gets
past every assertion just when it leaves no single address on the left of a range that goes on
beyond it. -/
theorem rangeRemove_returns_iff (halloc : AllocTotal alloc) {fuel : Nat} (hwf : InOrder s.ranges)
    (hfuel : s.ranges.length < fuel) (hlt : base.toNat < limit.toNat) :
    (∃ s', rangeRemove alloc fuel base limit s = .ok s') ↔
      ∀ r ∈ s.ranges, ¬ r.LeavesOne base limit := by
  constructor
  · rintro ⟨s', hs'⟩
    exact ((rangeRemove_diff halloc.allocLocal hwf hfuel).of_ok hs').1
  · intro hone
    have hbug : ¬ base ≥ limit := fun h => Nat.not_le_of_lt hlt h
    rw [rangeRemove, memBugOn, if_neg hbug]
    exact removeLoop_returns halloc (Nat.le_of_lt hlt) fuel [] s.ranges hwf rfl hfuel hone

/-- A range cut in its middle, with more than an address on each side. -/
theorem rangeRemove_returns_iff_sample :
    (∃ s', rangeRemove freshNode 2 4 6 (rangeState [⟨0, 0, 10⟩]) = .ok s') ↔
      ∀ r ∈ (rangeState [⟨0, 0, 10⟩]).ranges, ¬ r.LeavesOne 4 6 :=
  rangeRemove_returns_iff freshNode_total (by decide) (by decide) (by decide)

/-- The piece `[0, 0]` that the request `[1, 5]` leaves of `[0, 10]` stops `range_add`. -/
theorem rangeRemove_stops :
    InOrder (rangeState [⟨0, 0, 10⟩]).ranges ∧ (1 : U64).toNat < (5 : U64).toNat ∧
      rangeRemove freshNode 2 1 5 (rangeState [⟨0, 0, 10⟩]) =
        .error (.bug ⟨"base (0x%lx) >= limit (0x%lx)"⟩) := by
  decide +kernel

end Remove

/-! ### `range_add` -/

section Add

variable {alloc : MemState → MemRes (Nat × MemState)} {base limit : U64} {s : MemState}

/-- The walk stops at a range that holds all of the new one. -/
theorem insertRange_contained {r x : Range} {l : List Range} (hl : Ordered l) (hp : Prephv.Proper l)
    (hr : r.base.toNat ≤ r.limit.toNat) (hx : x ∈ l) (hb : x.base.toNat ≤ r.base.toNat)
    (hlim : r.limit.toNat ≤ x.limit.toNat) : ∃ b, insertRange r l = .error (.bug b) := by
  induction l with
  | nil => cases hx
  | cons y l ih =>
    obtain ⟨hy, hp'⟩ := proper_cons.mp hp
    obtain ⟨hfirst, hl'⟩ := List.pairwise_cons.mp hl
    by_cases hbug : r.base ≥ y.base ∧ r.limit ≤ y.limit
    · rw [insertRange, memBugOn, if_pos hbug]
      exact ⟨_, rfl⟩
    · rcases List.mem_cons.mp hx with rfl | hx
      · exact absurd ⟨BitVec.le_def.mpr hb, BitVec.le_def.mpr hlim⟩ hbug
      · -- `y` is before `x`, so the walk goes past it
        have hbefore := hfirst x hx
        have hgt : ¬ y.base > r.limit := by
          intro h
          have h : r.limit.toNat < y.base.toNat := h
          omega
        obtain ⟨b, hb⟩ := ih hl' hp' hx
        refine ⟨b, ?_⟩
        rw [insertRange, memBugOn, if_neg hbug]
        show (if y.base > r.limit then _ else _) = _
        rw [if_neg hgt, hb]
        rfl

/-- Where the walk stops, a range holds all of the new one. -/
theorem insertRange_error {r : Range} {l : List Range} {e : MemErr}
    (h : insertRange r l = .error e) :
    ∃ x ∈ l, x.base.toNat ≤ r.base.toNat ∧ r.limit.toNat ≤ x.limit.toNat := by
  induction l generalizing e with
  | nil => cases h
  | cons y l ih =>
    by_cases hbug : r.base ≥ y.base ∧ r.limit ≤ y.limit
    · exact ⟨y, List.mem_cons_self, hbug.1, hbug.2⟩
    · rw [insertRange, memBugOn, if_neg hbug] at h
      change (if y.base > r.limit then _ else _) = _ at h
      by_cases hgt : y.base > r.limit
      · rw [if_pos hgt] at h
        cases h
      · rw [if_neg hgt] at h
        cases hl : insertRange r l with
        | ok l' =>
          rw [hl] at h
          cases h
        | error e' =>
          obtain ⟨x, hx, hin⟩ := ih hl
          exact ⟨x, List.mem_cons_of_mem _ hx, hin⟩

/-- Where one range of a list in order holds the new one, every range that it meets does. -/
theorem InOrder.holds_of_hit {l : List Range} (hl : InOrder l) {x y : Range} (hx : x ∈ l)
    (hin : x.base.toNat ≤ base.toNat ∧ limit.toNat ≤ x.limit.toNat) (hy : y ∈ l)
    (hhit : y.Hit base limit) : y.base.toNat ≤ base.toNat ∧ limit.toNat ≤ y.limit.toNat := by
  have hxe : x.ends ∈ ends l := List.mem_map_of_mem hx
  have hye : y.ends ∈ ends l := List.mem_map_of_mem hy
  obtain ⟨h₁, h₂⟩ := hhit
  rcases (sorted_ends.mpr hl.ordered).apart hxe hye with he | hlt | hlt
  · obtain ⟨hb, hlim⟩ := Prod.mk.inj he
    omega
  · have hlt : x.limit.toNat < y.base.toNat := hlt
    omega
  · have hlt : y.limit.toNat < x.base.toNat := hlt
    omega

/-- The new range meets no range of a list in order that it has been put into. -/
theorem InOrder.not_hit {l₁ l₂ : List Range} {r : Range} (hl : InOrder (l₁ ++ r :: l₂))
    {x : Range} (hx : x ∈ l₁ ++ l₂) : ¬ x.Hit r.base r.limit := by
  rintro ⟨h₁, h₂⟩
  obtain ⟨-, hright, hleft⟩ := List.pairwise_append.mp hl.ordered
  rcases List.mem_append.mp hx with hx | hx
  · have := hleft x hx r List.mem_cons_self
    omega
  · have := (List.pairwise_cons.mp hright).1 x hx
    omega

/-- What `range_add` is for: the list stays in order, and covers the new range as well. -/
def Added (base limit : U64) (l : List Range) (s' : MemState) : Prop :=
  InOrder s'.ranges ∧ ∀ a, Prephv.Covers s'.ranges a ↔
    Prephv.Covers l a ∨ (base.toNat ≤ a ∧ a ≤ limit.toNat)

/-- **When `range_add` keeps a list in order.**  With memory for a node, it stops at an assertion or
leaves the list in order and covering the new range as well, just when every range that the new one
meets holds all of it. -/
theorem rangeAdd_ordered_iff (halloc : AllocTotal alloc) (hwf : InOrder s.ranges)
    (hlt : base.toNat < limit.toNat) :
    OrBug (Added base limit s.ranges) (rangeAdd alloc base limit s) ↔
      ∀ x ∈ s.ranges, x.Hit base limit →
        x.base.toNat ≤ base.toNat ∧ limit.toNat ≤ x.limit.toNat := by
  have hbug : ¬ base ≥ limit := fun h => Nat.not_le_of_lt hlt h
  obtain ⟨⟨node, s₁⟩, hal⟩ := halloc.total s
  obtain ⟨hnode, hs₁⟩ := (halloc.allocLocal s).of_ok hal
  dsimp only at hnode hs₁
  have hrun : rangeAdd alloc base limit s = (insertRange ⟨node, base, limit⟩ s.ranges >>= fun l =>
      .ok { s₁ with ranges := l }) := by
    rw [rangeAdd, hal]
    show (memBugOn (base ≥ limit) _ >>= fun _ => _) = _
    rw [memBugOn, if_neg hbug, ← hs₁]
    rfl
  rw [hrun]
  constructor
  · intro h x hx hhit
    cases hins : insertRange ⟨node, base, limit⟩ s.ranges with
    | error e =>
      obtain ⟨y, hy, hin⟩ := insertRange_error hins
      exact hwf.holds_of_hit hy hin hx hhit
    | ok l =>
      rw [hins] at h
      obtain ⟨l₁, l₂, hsplit, rfl⟩ := insertRange_split hins
      exact absurd hhit (InOrder.not_hit (r := ⟨node, base, limit⟩) h.1 (hsplit ▸ hx))
  · intro hall
    by_cases hmeet : ∃ x ∈ s.ranges, x.Hit base limit
    · obtain ⟨x, hx, hhit⟩ := hmeet
      obtain ⟨hb, hlim⟩ := hall x hx hhit
      obtain ⟨b, hstop⟩ := @insertRange_contained ⟨node, base, limit⟩ x s.ranges hwf.ordered
        hwf.proper (Nat.le_of_lt hlt) hx hb hlim
      rw [hstop]
      trivial
    · -- no range meets the new one
      have hdis : ∀ a, Range.Has ⟨node, base, limit⟩ a → ¬ Prephv.Covers s.ranges a := by
        rintro a ⟨h₁, h₂⟩ ⟨x, hx, hx₁, hx₂⟩
        exact hmeet ⟨x, hx, Nat.le_trans hx₁ h₂, Nat.le_trans h₁ hx₂⟩
      obtain ⟨l, hins, hord⟩ := insertRange_ordered hwf.ordered hwf.proper (Nat.le_of_lt hlt) hdis
      rw [hins]
      obtain ⟨l₁, l₂, hsplit, rfl⟩ := insertRange_split hins
      have hp := hwf.proper
      have hnd := hwf.nodup
      rw [hsplit] at hp hnd hnode
      obtain ⟨hp₁, hp₂⟩ := proper_append.mp hp
      rw [nodes_append] at hnd hnode
      refine ⟨⟨hord, ?_, ?_⟩, fun a => ?_⟩
      · exact proper_append.mpr ⟨hp₁, proper_cons.mpr ⟨Nat.le_of_lt hlt, hp₂⟩⟩
      · show (nodes (l₁ ++ ⟨node, base, limit⟩ :: l₂)).Nodup
        rw [nodes_append, nodes_cons]
        exact List.nodup_middle.mpr (List.nodup_cons.mpr ⟨hnode, hnd⟩)
      · show Prephv.Covers (l₁ ++ ⟨node, base, limit⟩ :: l₂) a ↔ _
        rw [hsplit, Prephv.covers_append, Prephv.covers_cons, Prephv.covers_append]
        show _ ∨ (base.toNat ≤ a ∧ a ≤ limit.toNat) ∨ _ ↔ _
        rw [or_assoc, or_comm (b := Prephv.Covers l₂ a)]

/-- A range between two others, and one that is within the first. -/
theorem rangeAdd_ordered_iff_sample :
    OrBug (Added 5 7 [⟨0, 0, 3⟩, ⟨1, 9, 12⟩])
      (rangeAdd freshNode 5 7 (rangeState [⟨0, 0, 3⟩, ⟨1, 9, 12⟩])) ↔
      ∀ x ∈ (rangeState [⟨0, 0, 3⟩, ⟨1, 9, 12⟩]).ranges, x.Hit 5 7 →
        x.base.toNat ≤ (5 : U64).toNat ∧ (7 : U64).toNat ≤ x.limit.toNat :=
  @rangeAdd_ordered_iff freshNode 5 7 (rangeState [⟨0, 0, 3⟩, ⟨1, 9, 12⟩]) freshNode_total
    (by decide) (by decide)

/-- `[0, 7]` goes behind `[5, 10]`, which it overlaps. -/
theorem rangeAdd_overlaps :
    InOrder (rangeState [⟨0, 5, 10⟩]).ranges ∧ (0 : U64).toNat < (7 : U64).toNat ∧
      ∃ s', rangeAdd freshNode 0 7 (rangeState [⟨0, 5, 10⟩]) = .ok s' ∧
        s'.ranges = [⟨0, 5, 10⟩, ⟨1, 0, 7⟩] ∧ ¬ Ordered s'.ranges := by
  refine ⟨by decide, by decide, _, rfl, rfl, fun h => ?_⟩
  have hlt := (List.pairwise_cons.mp h).1 ⟨1, 0, 7⟩ (by decide)
  exact absurd hlt (by decide)

end Add

/-! ### Several requests -/

section Order

variable {alloc : MemState → MemRes (Nat × MemState)} {fuel : Nat} {reqs reqs' : List (U64 × U64)}
  {s : MemState}

/-- `range_remove` for one request after the other. -/
def rangeRemoves (alloc : MemState → MemRes (Nat × MemState)) (fuel : Nat) (reqs : List (U64 × U64))
    (s : MemState) : MemRes MemState :=
  reqs.foldlM (fun s q => rangeRemove alloc fuel q.1 q.2 s) s

/-- The requests, as intervals. -/
def requests (reqs : List (U64 × U64)) : List Interval := reqs.map fun q => request q.1 q.2

/-- A run of requests takes one interval after the other. -/
theorem rangeRemoves_diff (halloc : AllocLocal alloc) (hwf : InOrder s.ranges)
    (hfuel : s.ranges.length * 2 ^ reqs.length < fuel) :
    OrBug (fun s' => InOrder s'.ranges ∧ ends s'.ranges = (requests reqs).foldl diff (ends s.ranges))
      (rangeRemoves alloc fuel reqs s) := by
  induction reqs generalizing s with
  | nil => exact ⟨hwf, rfl⟩
  | cons q reqs ih =>
    have hpow : 0 < 2 ^ reqs.length := Nat.two_pow_pos _
    rw [List.length_cons, Nat.pow_succ'] at hfuel
    have hfirst : s.ranges.length < fuel :=
      Nat.lt_of_le_of_lt (Nat.le_mul_of_pos_right _ (by omega)) hfuel
    rw [rangeRemoves, List.foldlM_cons]
    refine OrBug.bind (rangeRemove_diff halloc hwf hfirst) ?_
    rintro s₁ ⟨-, hwf₁, hends₁⟩
    have hlen : s₁.ranges.length ≤ 2 * s.ranges.length := by
      have h := length_diff (ends s.ranges) (request q.1 q.2)
      rw [← hends₁] at h
      simpa [ends] using h
    have hnext : s₁.ranges.length * 2 ^ reqs.length < fuel :=
      calc s₁.ranges.length * 2 ^ reqs.length
          ≤ 2 * s.ranges.length * 2 ^ reqs.length := Nat.mul_le_mul_right _ hlen
        _ = s.ranges.length * (2 * 2 ^ reqs.length) := by
            rw [Nat.mul_comm 2 s.ranges.length, Nat.mul_assoc]
        _ < fuel := hfuel
    refine (ih hwf₁ hnext).imp ?_
    rintro s' ⟨hwf', hends'⟩
    exact ⟨hwf', by rw [hends', hends₁]; rfl⟩

/-- What is left of a range after the requests: its maximal intervals that avoid them all, in
order. -/
def Left (reqs : List (U64 × U64)) (r : Range) (l : List Interval) : Prop :=
  Intervals.Sorted l ∧ ∀ j, j ∈ l ↔ Maximal (requests reqs) r.ends j

/-- The pieces of every range of a list. -/
theorem forall₂_pieces {qs : List Interval} {P : Range → List Interval → Prop} :
    ∀ {l : List Range}, (∀ r ∈ l, P r (pieces qs r.ends)) →
      List.Forall₂ P l (l.map fun r => pieces qs r.ends)
  | [], _ => .nil
  | _ :: _, h =>
    .cons (h _ List.mem_cons_self) (forall₂_pieces fun r hr => h r (List.mem_cons_of_mem _ hr))

/-- **Requests can be made in any order.**  Two orders of the same requests that are stopped by no
assertion leave the same bases and limits: of every range the maximal intervals that avoid all the
requests, in order. -/
theorem rangeRemoves_perm (halloc : AllocLocal alloc) (hwf : InOrder s.ranges)
    (hlt : ∀ q ∈ reqs, q.1.toNat < q.2.toNat) (hperm : reqs.Perm reqs')
    (hfuel : s.ranges.length * 2 ^ reqs.length < fuel)
    (hrun : ∀ b, rangeRemoves alloc fuel reqs s ≠ .error (.bug b))
    (hrun' : ∀ b, rangeRemoves alloc fuel reqs' s ≠ .error (.bug b)) :
    ∃ s₁ s₂, rangeRemoves alloc fuel reqs s = .ok s₁ ∧ rangeRemoves alloc fuel reqs' s = .ok s₂ ∧
      words s₁.ranges = words s₂.ranges ∧
      ∃ ls, List.Forall₂ (Left reqs) s.ranges ls ∧ ends s₁.ranges = ls.flatten := by
  have hqs : Intervals.Proper (requests reqs) := by
    intro i hi
    obtain ⟨q, hq, rfl⟩ := List.mem_map.mp hi
    exact Nat.le_of_lt (hlt q hq)
  have hqs_perm : (requests reqs).Perm (requests reqs') := hperm.map _
  obtain ⟨s₁, hs₁, -, hends₁⟩ := (rangeRemoves_diff halloc hwf hfuel).returns hrun
  obtain ⟨s₂, hs₂, -, hends₂⟩ :=
    (rangeRemoves_diff halloc hwf (hperm.length_eq ▸ hfuel)).returns hrun'
  rw [foldl_diff] at hends₁ hends₂
  have hsame : ends s₁.ranges = ends s₂.ranges := by
    rw [hends₁, hends₂, List.flatMap_def, List.flatMap_def]
    refine congrArg List.flatten (List.map_congr_left fun i hi => ?_)
    exact pieces_perm hqs_perm hqs (proper_ends.mpr hwf.proper i hi)
  refine ⟨s₁, s₂, hs₁, hs₂, words_of_ends hsame, s.ranges.map fun r => pieces (requests reqs) r.ends,
    forall₂_pieces fun r hr => ?_, ?_⟩
  · have hr : r.ends.1 ≤ r.ends.2 := hwf.proper r hr
    obtain ⟨hgapped, -, -⟩ := pieces_spec hqs hr
    exact ⟨hgapped.sorted, fun j => mem_pieces hqs hr⟩
  · rw [hends₁, List.flatMap_def, ends, List.map_map]
    rfl

/-- Two requests that overlap and reach over the end of a range, in both orders. -/
theorem rangeRemoves_perm_sample :
    let s := rangeState [⟨0, 0, 20⟩, ⟨1, 30, 40⟩]
    ∃ s₁ s₂, rangeRemoves freshNode 9 [(5, 9), (8, 33)] s = .ok s₁ ∧
      rangeRemoves freshNode 9 [(8, 33), (5, 9)] s = .ok s₂ ∧ words s₁.ranges = words s₂.ranges ∧
      ∃ ls, List.Forall₂ (Left [(5, 9), (8, 33)]) s.ranges ls ∧ ends s₁.ranges = ls.flatten := by
  refine rangeRemoves_perm freshNode_total.allocLocal (by decide) (by simp) (.swap _ _ _)
    (by decide) ?_ ?_
  · intro b h
    have hok : (rangeRemoves freshNode 9 [(5, 9), (8, 33)]
      (rangeState [⟨0, 0, 20⟩, ⟨1, 30, 40⟩])).isOk = true := by decide +kernel
    rw [h] at hok
    cases hok
  · intro b h
    have hok : (rangeRemoves freshNode 9 [(8, 33), (5, 9)]
      (rangeState [⟨0, 0, 20⟩, ⟨1, 30, 40⟩])).isOk = true := by decide +kernel
    rw [h] at hok
    cases hok

end Order

end Prephv
