import Prephv.Defs
import Prephv.Lib.SafeList

/-!
# Mem — Ranges

The range lists of `lib/ranges.c`, node by node: a `range_t` is known by its address, and the loop
of `range_remove` holds the address of the node it is at and, as `list_for_each_entry_safe` does, of
the one that followed it.

A node is allocated by `range_alloc`, which the functions here take as the parameter `alloc`: it may
change the list the loop is walking.  Following a node that has been freed is the error
`MemErr.fault`; the loop takes fuel, and running out is `MemErr.fuel`.

`Covers` says which addresses a list holds.  Whatever order the list is in, `range_add` adds the
addresses of its range (`insertRange_split`), and a visit of `range_remove` to a node takes the
request's addresses from that node's and leaves the other nodes alone.
-/

set_option autoImplicit false

namespace Prephv

open SafeList

/-! ### The state -/

/-- `range_t`, with its address. -/
structure Range where
  node : Nat
  base : U64
  limit : U64
  deriving DecidableEq, Repr

/-- A block of memory, by its pointer. -/
structure Block where
  ptr : U64
  length : U64
  deriving DecidableEq, Repr

/-- The allocator's state: `mem_early`, `sbrk` and the free list `mem_free_ranges`.  The ghost
fields are the number of nodes allocated, the nodes freed, and the blocks handed out, in order. -/
structure MemState where
  early : Bool
  sbrk : U64
  ranges : List Range
  allocs : Nat
  freed : List Nat
  blocks : List Block
  deriving DecidableEq, Repr

/-- Why a run stops before it returns. -/
inductive MemErr where
  | bug (b : Bug)
  | fault
  | fuel
  deriving DecidableEq, Repr

abbrev MemRes (α : Type) := Except MemErr α

/-- `BUG_ON(x, fmt, …)`. -/
def memBugOn (x : Prop) [Decidable x] (fmt : String) : MemRes Unit :=
  if x then .error (.bug ⟨fmt⟩) else .ok ()

/-- The code after an assertion runs when the assertion does not fire. -/
theorem memBugOn_bind_eq_ok {β : Type} {x : Prop} [Decidable x] {fmt : String}
    {f : Unit → MemRes β} {b : β} : (memBugOn x fmt >>= f) = .ok b ↔ ¬ x ∧ f () = .ok b := by
  unfold memBugOn
  split
  · next hx => simp [hx, bind, Except.bind]
  · next hx => simp [hx, bind, Except.bind]

/-- A run does not fault, and what it returns meets `Q`. -/
def Safe {α : Type} (Q : α → Prop) : MemRes α → Prop
  | .error e => e ≠ .fault
  | .ok a => Q a

theorem Safe.imp {α : Type} {Q Q' : α → Prop} {x : MemRes α} (h : Safe Q x)
    (himp : ∀ a, Q a → Q' a) : Safe Q' x := by
  cases x with
  | error e => exact h
  | ok a => exact himp a h

theorem Safe.bind {α β : Type} {Q : α → Prop} {Q' : β → Prop} {x : MemRes α} {f : α → MemRes β}
    (hx : Safe Q x) (hf : ∀ a, Q a → Safe Q' (f a)) : Safe Q' (x >>= f) := by
  cases x with
  | error e => exact hx
  | ok a => exact hf a hx

/-- After an assertion its condition is false. -/
theorem Safe.memBugOn {β : Type} {Q : β → Prop} {x : Prop} [Decidable x] {fmt : String}
    {f : Unit → MemRes β} (hf : ¬ x → Safe Q (f ())) : Safe Q (Prephv.memBugOn x fmt >>= f) := by
  unfold Prephv.memBugOn
  split
  · nofun
  · next hx => exact hf hx

/-! ### `range_add` -/

/-- The walk of `range_add`, which puts the new node `r` before the first range beyond it. -/
def insertRange (r : Range) : List Range → MemRes (List Range)
  | [] => .ok [r]
  | range :: l => do
    memBugOn (r.base ≥ range.base ∧ r.limit ≤ range.limit) "range 0x%lx-0x%lx already present"
    if range.base > r.limit then .ok (r :: range :: l)
    else
      let l ← insertRange r l
      .ok (range :: l)

/-- `range_add`. -/
def rangeAdd (alloc : MemState → MemRes (Nat × MemState)) (base limit : U64) (s : MemState) :
    MemRes MemState := do
  let (node, s) ← alloc s
  memBugOn (base ≥ limit) "base (0x%lx) >= limit (0x%lx)"
  let l ← insertRange ⟨node, base, limit⟩ s.ranges
  .ok { s with ranges := l }

/-! ### `range_remove` -/

/-- The nodes of a list, in order. -/
def nodes (l : List Range) : List Nat := l.map Range.node

/-- A write to the fields of a node. -/
def setNode (node : Nat) (f : Range → Range) (s : MemState) : MemState :=
  { s with ranges := s.ranges.map fun r => if r.node = node then f r else r }

/-- `list_del(&range->link); mem_free(range)`. -/
def freeNode (node : Nat) (s : MemState) : MemState :=
  { s with
    ranges := s.ranges.filter fun r => decide (r.node ≠ node)
    freed := node :: s.freed }

/-- The body of `range_remove`'s loop, at the node `range`. -/
def removeBody (alloc : MemState → MemRes (Nat × MemState)) (base limit : U64) (range : Range)
    (s : MemState) : MemRes MemState :=
  if range.base > limit ∨ range.limit < base then .ok s
  else if range.base ≥ base ∧ range.limit ≤ limit then .ok (freeNode range.node s)
  else if range.base ≥ base then
    .ok (setNode range.node (fun r => { r with base := limit + 1 }) s)
  else if range.limit ≤ limit then
    .ok (setNode range.node (fun r => { r with limit := base - 1 }) s)
  else
    let b := range.base
    rangeAdd alloc b (base - 1) (setNode range.node (fun r => { r with base := limit + 1 }) s)

/-- `range_remove`'s loop from the cursor on. -/
def removeLoop (alloc : MemState → MemRes (Nat × MemState)) (base limit : U64) :
    Nat → Cursor Nat → MemState → MemRes MemState
  | 0, _, _ => .error .fuel
  | _ + 1, .head, s => .ok s
  | _ + 1, .poison, _ => .error .fault
  | fuel + 1, .entry node, s =>
    match s.ranges.find? fun r => decide (r.node = node) with
    | none => .error .fault
    | some range => do
      let n := next (nodes s.ranges) node
      let s ← removeBody alloc base limit range s
      removeLoop alloc base limit fuel n s

/-- `range_remove`. -/
def rangeRemove (alloc : MemState → MemRes (Nat × MemState)) (fuel : Nat) (base limit : U64)
    (s : MemState) : MemRes MemState := do
  memBugOn (base ≥ limit) "base (0x%lx) >= limit (0x%lx)"
  removeLoop alloc base limit fuel (first (nodes s.ranges)) s

/-! ### Coverage -/

/-- The address lies in the range. -/
def Range.Has (r : Range) (a : Nat) : Prop := r.base.toNat ≤ a ∧ a ≤ r.limit.toNat

/-- The address lies in a range of the list. -/
def Covers (l : List Range) (a : Nat) : Prop := ∃ r ∈ l, r.Has a

/-- No range is empty. -/
def Proper (l : List Range) : Prop := ∀ r ∈ l, r.base.toNat ≤ r.limit.toNat

/-- The request of `range_remove` meets the range. -/
def Range.Hit (base limit : U64) (r : Range) : Prop :=
  r.base.toNat ≤ limit.toNat ∧ base.toNat ≤ r.limit.toNat

theorem covers_append {l l' : List Range} {a : Nat} :
    Covers (l ++ l') a ↔ Covers l a ∨ Covers l' a := by
  simp only [Covers, List.mem_append, or_and_right, exists_or]

theorem covers_cons {r : Range} {l : List Range} {a : Nat} :
    Covers (r :: l) a ↔ r.Has a ∨ Covers l a := by
  simp only [Covers, List.mem_cons, exists_eq_or_imp]

theorem proper_append {l l' : List Range} : Proper (l ++ l') ↔ Proper l ∧ Proper l' := by
  simp only [Proper, List.mem_append, or_imp, forall_and]

theorem proper_cons {r : Range} {l : List Range} :
    Proper (r :: l) ↔ r.base.toNat ≤ r.limit.toNat ∧ Proper l := by
  simp only [Proper, List.mem_cons, forall_eq_or_imp]

theorem nodes_append (l l' : List Range) : nodes (l ++ l') = nodes l ++ nodes l' := List.map_append

theorem nodes_cons (r : Range) (l : List Range) : nodes (r :: l) = r.node :: nodes l := rfl

/-! ### One node of the list -/

section Node

variable {s : MemState} {l₁ l₂ : List Range} {x : Range}

/-- The node of `x` is not another's. -/
theorem ne_node_of_nodup (hnd : (nodes (l₁ ++ x :: l₂)).Nodup) {r : Range}
    (hr : r ∈ l₁ ∨ r ∈ l₂) : r.node ≠ x.node := by
  rw [nodes_append, nodes_cons, List.nodup_append] at hnd
  obtain ⟨-, h₂, h₁⟩ := hnd
  intro e
  rcases hr with hr | hr
  · exact h₁ _ (List.mem_map_of_mem hr) _ List.mem_cons_self e
  · exact (List.nodup_cons.mp h₂).1 (e ▸ List.mem_map_of_mem hr)

theorem find_node (hnd : (nodes (l₁ ++ x :: l₂)).Nodup) :
    (l₁ ++ x :: l₂).find? (fun r => decide (r.node = x.node)) = some x := by
  rw [List.find?_append, List.find?_eq_none.mpr, Option.none_or, List.find?_cons_of_pos]
  · exact decide_eq_true rfl
  · exact fun r hr => by simpa using ne_node_of_nodup hnd (Or.inl hr)

theorem next_node (hnd : (nodes (l₁ ++ x :: l₂)).Nodup) :
    next (nodes (l₁ ++ x :: l₂)) x.node = first (nodes l₂) := by
  have hnot : x.node ∉ nodes l₁ := fun hmem => by
    obtain ⟨r, hr, e⟩ := List.mem_map.mp hmem
    exact ne_node_of_nodup hnd (Or.inl hr) e
  rw [nodes_append, nodes_cons]
  exact next_append_cons hnot

theorem setNode_ranges (h : s.ranges = l₁ ++ x :: l₂) (hnd : (nodes s.ranges).Nodup)
    (f : Range → Range) : (setNode x.node f s).ranges = l₁ ++ f x :: l₂ := by
  rw [h] at hnd
  have hother : ∀ l : List Range, (∀ r ∈ l, r.node ≠ x.node) →
      l.map (fun r => if r.node = x.node then f r else r) = l := fun l hl =>
    (List.map_congr_left fun r hr => if_neg (hl r hr)).trans (List.map_id' l)
  show s.ranges.map _ = _
  rw [h, List.map_append, List.map_cons, if_pos rfl,
    hother l₁ fun r hr => ne_node_of_nodup hnd (Or.inl hr),
    hother l₂ fun r hr => ne_node_of_nodup hnd (Or.inr hr)]

theorem freeNode_ranges (h : s.ranges = l₁ ++ x :: l₂) (hnd : (nodes s.ranges).Nodup) :
    (freeNode x.node s).ranges = l₁ ++ l₂ := by
  rw [h] at hnd
  have hother : ∀ l : List Range, (∀ r ∈ l, r.node ≠ x.node) →
      l.filter (fun r => decide (r.node ≠ x.node)) = l := fun l hl =>
    List.filter_eq_self.mpr fun r hr => decide_eq_true (hl r hr)
  show s.ranges.filter _ = _
  rw [h, List.filter_append, List.filter_cons_of_neg (by simp),
    hother l₁ fun r hr => ne_node_of_nodup hnd (Or.inl hr),
    hother l₂ fun r hr => ne_node_of_nodup hnd (Or.inr hr)]

/-- The loop at a node: its body runs, and the loop goes on from the node that followed. -/
theorem removeLoop_entry (alloc : MemState → MemRes (Nat × MemState)) (base limit : U64)
    (fuel : Nat) (h : s.ranges = l₁ ++ x :: l₂) (hnd : (nodes s.ranges).Nodup) :
    removeLoop alloc base limit (fuel + 1) (.entry x.node) s =
      (removeBody alloc base limit x s >>=
        removeLoop alloc base limit fuel (first (nodes l₂))) := by
  have hfind := find_node (h ▸ hnd)
  have hnext := next_node (h ▸ hnd)
  rw [removeLoop, h, hfind]
  dsimp only
  rw [hnext]

/-- A node the request does not meet is left alone. -/
theorem removeBody_miss (alloc : MemState → MemRes (Nat × MemState)) {base limit : U64}
    (hx : ¬ x.Hit base limit) (s : MemState) : removeBody alloc base limit x s = .ok s := by
  refine if_pos ?_
  simp only [Range.Hit, not_and_or, not_le] at hx
  exact hx

/-- A request inside the range that leaves some of it on the right: the range keeps that, and what
is on the left of the request, if anything, goes back as a range of its own. -/
theorem removeBody_inside (alloc : MemState → MemRes (Nat × MemState)) {base limit : U64}
    (hb : x.base.toNat ≤ base.toNat) (hle : base.toNat ≤ limit.toNat)
    (hl : limit.toNat < x.limit.toNat) (s : MemState) :
    removeBody alloc base limit x s =
      if x.base = base then .ok (setNode x.node (fun r => { r with base := limit + 1 }) s)
      else rangeAdd alloc x.base (base - 1)
        (setNode x.node (fun r => { r with base := limit + 1 }) s) := by
  have hgt : ∀ {a b : U64}, a > b ↔ b.toNat < a.toNat := Iff.rfl
  have hge : ∀ {a b : U64}, a ≤ b ↔ a.toNat ≤ b.toNat := Iff.rfl
  unfold removeBody
  rw [if_neg (by rw [hgt, BitVec.lt_def]; omega), if_neg (by rw [hge]; omega)]
  by_cases e : x.base = base
  · rw [if_pos (by rw [e]; exact BitVec.le_refl base), if_pos e]
  · have hne : x.base.toNat ≠ base.toNat := fun h => e (BitVec.eq_of_toNat_eq h)
    rw [if_neg (by rw [ge_iff_le, hge]; omega), if_neg (by rw [hge]; omega), if_neg e]

end Node

/-! ### The loop past nodes the request does not meet -/

section Loop

variable {base limit : U64} {s : MemState}

/-- A request that holds no address of the list meets none of its ranges. -/
theorem not_hit_of_covers {l : List Range} (hp : Proper l) (hle : base.toNat ≤ limit.toNat)
    (h : ∀ a, base.toNat ≤ a → a ≤ limit.toNat → ¬ Covers l a) : ∀ r ∈ l, ¬ r.Hit base limit := by
  rintro r hr ⟨h₁, h₂⟩
  have hrp := hp r hr
  exact h (max r.base.toNat base.toNat) (by omega) (by omega) ⟨r, hr, by omega, by omega⟩

/-- Where the cursor `first (nodes l)` points. -/
theorem first_nodes (l : List Range) :
    first (nodes l) = .head ∨ ∃ i ∈ nodes l, first (nodes l) = .entry i := by
  cases l with
  | nil => exact Or.inl rfl
  | cons r l => exact Or.inr ⟨r.node, List.mem_cons_self, rfl⟩

/-- Where the request meets no range, the loop changes nothing, from wherever it goes on. -/
theorem removeLoop_clear (alloc : MemState → MemRes (Nat × MemState)) (hnd : (nodes s.ranges).Nodup)
    (hclear : ∀ r ∈ s.ranges, ¬ r.Hit base limit) (fuel : Nat) {c : Cursor Nat}
    (hc : c = .head ∨ ∃ i ∈ nodes s.ranges, c = .entry i) :
    Safe (· = s) (removeLoop alloc base limit fuel c s) := by
  induction fuel generalizing c with
  | zero => nofun
  | succ fuel ih =>
    rcases hc with rfl | ⟨i, hi, rfl⟩
    · exact rfl
    · obtain ⟨x, hx, rfl⟩ := List.mem_map.mp hi
      obtain ⟨l₁, l₂, hsplit⟩ := List.append_of_mem hx
      rw [removeLoop_entry alloc base limit fuel hsplit hnd, removeBody_miss alloc (hclear x hx)]
      refine ih ((first_nodes l₂).imp id ?_)
      rintro ⟨j, hj, e⟩
      refine ⟨j, ?_, e⟩
      rw [hsplit, nodes_append, nodes_cons]
      exact List.mem_append_right _ (List.mem_cons_of_mem _ hj)

/-- The loop comes to the node `x` past the nodes `m` that the request does not meet. -/
theorem removeLoop_reach {alloc : MemState → MemRes (Nat × MemState)} {Q : MemState → Prop}
    (hnd : (nodes s.ranges).Nodup) {x : Range}
    {m l₂ : List Range} (hm : ∀ r ∈ m, ¬ r.Hit base limit)
    (hQ : ∀ fuel, Safe Q (removeBody alloc base limit x s >>=
      removeLoop alloc base limit fuel (first (nodes l₂)))) :
    ∀ l₀ fuel, s.ranges = l₀ ++ (m ++ x :: l₂) →
      Safe Q (removeLoop alloc base limit fuel (first (nodes (m ++ x :: l₂))) s) := by
  induction m with
  | nil =>
    intro l₀ fuel h
    cases fuel with
    | zero => nofun
    | succ fuel =>
      rw [List.nil_append, nodes_cons, first_cons, removeLoop_entry alloc base limit fuel h hnd]
      exact hQ fuel
  | cons y m ih =>
    intro l₀ fuel h
    cases fuel with
    | zero => nofun
    | succ fuel =>
      rw [List.cons_append, nodes_cons, first_cons, removeLoop_entry alloc base limit fuel h hnd,
        removeBody_miss alloc (hm y List.mem_cons_self)]
      refine ih (fun r hr => hm r (List.mem_cons_of_mem _ hr)) (l₀ ++ [y]) fuel ?_
      rw [h, List.append_assoc]
      rfl

end Loop

/-! ### The walk of `range_add` -/

/-- The walk leaves the list as it is but for the new node. -/
theorem insertRange_split {r : Range} {l l' : List Range} (h : insertRange r l = .ok l') :
    ∃ l₁ l₂, l = l₁ ++ l₂ ∧ l' = l₁ ++ r :: l₂ := by
  induction l generalizing l' with
  | nil =>
    cases h
    exact ⟨[], [], rfl, rfl⟩
  | cons range l ih =>
    unfold insertRange memBugOn at h
    split at h
    · cases h
    · change (if range.base > r.limit then _ else _) = _ at h
      split at h
      · cases h
        exact ⟨[], range :: l, rfl, rfl⟩
      · cases hl : insertRange r l with
        | error e =>
          rw [hl] at h
          cases h
        | ok l'' =>
          rw [hl] at h
          cases h
          obtain ⟨l₁, l₂, rfl, rfl⟩ := ih hl
          exact ⟨range :: l₁, l₂, rfl, rfl⟩

/-- The walk meets no freed node. -/
theorem insertRange_ne_fault (r : Range) (l : List Range) : insertRange r l ≠ .error .fault := by
  induction l with
  | nil => nofun
  | cons range l ih =>
    unfold insertRange memBugOn
    split
    · nofun
    · change (if range.base > r.limit then _ else _) ≠ _
      split
      · nofun
      · cases hl : insertRange r l with
        | error e =>
          rw [hl] at ih
          exact fun h => ih (Except.error.inj h ▸ rfl)
        | ok l' => nofun

/-- The list is in order of the ranges, which do not overlap. -/
def Ordered (l : List Range) : Prop :=
  l.Pairwise fun r r' => r.limit.toNat < r'.base.toNat

/-- In a list in order, a range that meets none of the others finds its place. -/
theorem insertRange_ordered {r : Range} {l : List Range} (hl : Ordered l) (hp : Proper l)
    (hr : r.base.toNat ≤ r.limit.toNat) (hdis : ∀ a, r.Has a → ¬ Covers l a) :
    ∃ l', insertRange r l = .ok l' ∧ Ordered l' := by
  induction l with
  | nil => exact ⟨[r], rfl, List.pairwise_singleton _ _⟩
  | cons range l ih =>
    obtain ⟨hrange, hp'⟩ := proper_cons.mp hp
    obtain ⟨hfirst, hl'⟩ := List.pairwise_cons.mp hl
    -- the ranges do not meet, so one is before the other
    have hside : r.limit.toNat < range.base.toNat ∨ range.limit.toNat < r.base.toNat := by
      by_contra hno
      rw [not_or, not_lt, not_lt] at hno
      refine hdis (max r.base.toNat range.base.toNat) ⟨by omega, by omega⟩
        (covers_cons.mpr (Or.inl ⟨by omega, by omega⟩))
    have hbug : ¬ (r.base ≥ range.base ∧ r.limit ≤ range.limit) := by
      rintro ⟨h₁, h₂⟩
      have h₁ : range.base.toNat ≤ r.base.toNat := h₁
      have h₂ : r.limit.toNat ≤ range.limit.toNat := h₂
      omega
    rw [insertRange, memBugOn, if_neg hbug]
    change ∃ l', (if range.base > r.limit then _ else _) = _ ∧ _
    rcases hside with hside | hside
    · refine ⟨r :: range :: l, if_pos hside, List.pairwise_cons.mpr ⟨fun r' hr' => ?_, hl⟩⟩
      rcases List.mem_cons.mp hr' with rfl | hr'
      · exact hside
      · have := hfirst r' hr'
        omega
    · have hno : ¬ range.base > r.limit := fun h => by
        have h : r.limit.toNat < range.base.toNat := h
        omega
      obtain ⟨l', hins, hord⟩ := ih hl' hp' fun a ha hc => hdis a ha (covers_cons.mpr (Or.inr hc))
      refine ⟨range :: l', by rw [if_neg hno, hins]; rfl, List.pairwise_cons.mpr ⟨?_, hord⟩⟩
      obtain ⟨l₁, l₂, rfl, rfl⟩ := insertRange_split hins
      intro r' hr'
      rcases List.mem_append.mp hr' with hr' | hr'
      · exact hfirst r' (List.mem_append_left _ hr')
      · rcases List.mem_cons.mp hr' with rfl | hr'
        · exact hside
        · exact hfirst r' (List.mem_append_right _ hr')

/-! ### `range_add` and `range_remove` where the allocation leaves the list alone -/

/-- What holds of a list of any order: no range is empty, and its nodes are distinct and among those
allocated. -/
structure MemState.Nodes (s : MemState) : Prop where
  proper : Proper s.ranges
  nodup : (nodes s.ranges).Nodup
  fresh : ∀ i ∈ nodes s.ranges, i < s.allocs

/-- A node allocation that does not touch the list, while `mem_early`. -/
def AllocQuiet (alloc : MemState → MemRes (Nat × MemState)) : Prop :=
  ∀ s : MemState, s.early = true → Safe (fun r => r.1 = s.allocs ∧ r.2.allocs = s.allocs + 1 ∧
    r.2.ranges = s.ranges ∧ r.2.early = true) (alloc s)

section Quiet

variable {alloc : MemState → MemRes (Nat × MemState)} {base limit : U64} {s : MemState}

/-- `range_add` puts its range somewhere into the list. -/
theorem rangeAdd_split (halloc : AllocQuiet alloc) (hs : s.Nodes) (hearly : s.early = true) :
    Safe (fun s' => ∃ l₁ l₂ r, s.ranges = l₁ ++ l₂ ∧ s'.ranges = l₁ ++ r :: l₂ ∧
      r.base = base ∧ r.limit = limit ∧ base.toNat < limit.toNat ∧ s'.early = true ∧ s'.Nodes)
      (rangeAdd alloc base limit s) := by
  refine Safe.bind (halloc s hearly) ?_
  rintro ⟨node, s₁⟩ ⟨hnode, hallocs, hranges, hearly₁⟩
  refine Safe.memBugOn fun hlt => ?_
  have hlt : base.toNat < limit.toNat := Nat.lt_of_not_le hlt
  cases hins : insertRange ⟨node, base, limit⟩ s₁.ranges with
  | error e =>
    refine Safe.imp (x := .error e) (Q := fun _ => False) ?_ fun _ h => h.elim
    rintro rfl
    exact insertRange_ne_fault _ _ hins
  | ok l =>
    obtain ⟨l₁, l₂, hsplit, rfl⟩ := insertRange_split hins
    rw [hranges] at hsplit
    refine ⟨l₁, l₂, _, hsplit, rfl, rfl, rfl, hlt, hearly₁, ?_, ?_, fun i hi => ?_⟩
    · have hp := hs.proper
      rw [hsplit] at hp
      obtain ⟨hp₁, hp₂⟩ := proper_append.mp hp
      exact proper_append.mpr ⟨hp₁, proper_cons.mpr ⟨Nat.le_of_lt hlt, hp₂⟩⟩
    · have hnd := hs.nodup
      have hnot : node ∉ nodes s.ranges := fun hmem => by
        have := hs.fresh node hmem
        dsimp only at hnode
        omega
      rw [hsplit, nodes_append] at hnd hnot
      show (nodes (l₁ ++ ⟨node, base, limit⟩ :: l₂)).Nodup
      rw [nodes_append, nodes_cons]
      exact List.nodup_middle.mpr (List.nodup_cons.mpr ⟨hnot, hnd⟩)
    · show i < s₁.allocs
      dsimp only at hnode hallocs
      have hi : i ∈ nodes (l₁ ++ ⟨node, base, limit⟩ :: l₂) := hi
      rw [nodes_append, nodes_cons, List.mem_append, List.mem_cons, or_left_comm,
        ← List.mem_append, ← nodes_append, ← hsplit] at hi
      rcases hi with rfl | hi
      · omega
      · have := hs.fresh i hi
        omega

/-- `range_add` adds the addresses of its range. -/
theorem rangeAdd_covers (halloc : AllocQuiet alloc) (hs : s.Nodes) (hearly : s.early = true) :
    Safe (fun s' => s'.Nodes ∧ s'.early = true ∧ ∀ a, Covers s'.ranges a ↔
      Covers s.ranges a ∨ (base.toNat ≤ a ∧ a ≤ limit.toNat)) (rangeAdd alloc base limit s) := by
  refine (rangeAdd_split halloc hs hearly).imp ?_
  rintro s' ⟨l₁, l₂, r, hsplit, hranges, rfl, rfl, -, hearly', hs'⟩
  refine ⟨hs', hearly', fun a => ?_⟩
  rw [hsplit, hranges, covers_append, covers_cons, covers_append]
  show _ ∨ (r.base.toNat ≤ a ∧ a ≤ r.limit.toNat) ∨ _ ↔ _
  rw [or_assoc, or_comm (b := Covers l₂ a)]

theorem MemState.Nodes.setNode {l₁ l₂ : List Range} {x : Range} (hs : s.Nodes)
    (h : s.ranges = l₁ ++ x :: l₂) {f : Range → Range} (hnode : (f x).node = x.node)
    (hf : (f x).base.toNat ≤ (f x).limit.toNat) : (setNode x.node f s).Nodes := by
  have hranges := setNode_ranges h hs.nodup f
  have hnodes : nodes (Prephv.setNode x.node f s).ranges = nodes s.ranges := by
    rw [hranges, h, nodes_append, nodes_append, nodes_cons, nodes_cons, hnode]
  refine ⟨?_, hnodes ▸ hs.nodup, fun i hi => hs.fresh i (hnodes ▸ hi)⟩
  have hp := hs.proper
  rw [h, proper_append, proper_cons] at hp
  rw [hranges, proper_append, proper_cons]
  exact ⟨hp.1, hf, hp.2.2⟩

theorem MemState.Nodes.freeNode {l₁ l₂ : List Range} {x : Range} (hs : s.Nodes)
    (h : s.ranges = l₁ ++ x :: l₂) : (freeNode x.node s).Nodes := by
  have hranges := freeNode_ranges h hs.nodup
  have hsub : (l₁ ++ l₂).Sublist s.ranges := by
    rw [h]
    exact List.Sublist.append_left (List.sublist_cons_self x l₂) l₁
  refine ⟨?_, ?_, fun i hi => ?_⟩
  · rw [hranges]
    exact fun r hr => hs.proper r (hsub.subset hr)
  · rw [hranges]
    exact hs.nodup.sublist (hsub.map _)
  · rw [hranges] at hi
    exact hs.fresh i ((hsub.map _).subset hi)

/-- What a visit of the loop to `x`, between `l₁` and `l₂`, leaves: a list that the loop goes on in
where it would have, with the request's addresses taken from `x` and with none of them behind. -/
structure Visited (base limit : U64) (l₁ : List Range) (x : Range) (l₂ : List Range)
    (s' : MemState) : Prop where
  nodes : s'.Nodes
  early : s'.early = true
  parts : ∃ l₁' l₂', s'.ranges = l₁' ++ l₂' ∧ first (Prephv.nodes l₂') = first (Prephv.nodes l₂) ∧
    ∀ a, base.toNat ≤ a → a ≤ limit.toNat → ¬ Covers l₁' a
  covers : ∀ a, Covers s'.ranges a ↔ Covers l₁ a ∨
    (x.Has a ∧ ¬ (base.toNat ≤ a ∧ a ≤ limit.toNat)) ∨ Covers l₂ a

/-- A visit that trims `x` to `x'`. -/
theorem Visited.trim {l₁ l₂ : List Range} {x x' : Range} {s' : MemState} (hs' : s'.Nodes)
    (hearly : s'.early = true) (h : s'.ranges = l₁ ++ x' :: l₂)
    (hclear : ∀ a, base.toNat ≤ a → a ≤ limit.toNat → ¬ Covers l₁ a)
    (hx : ∀ a, x'.Has a ↔ x.Has a ∧ ¬ (base.toNat ≤ a ∧ a ≤ limit.toNat)) :
    Visited base limit l₁ x l₂ s' := by
  refine ⟨hs', hearly, ⟨l₁ ++ [x'], l₂, by simp [h], rfl, fun a h₁ h₂ hc => ?_⟩, fun a => ?_⟩
  · rcases covers_append.mp hc with hc | hc
    · exact hclear a h₁ h₂ hc
    · obtain ⟨r, hr, hra⟩ := hc
      rw [List.mem_singleton.mp hr] at hra
      exact ((hx a).mp hra).2 ⟨h₁, h₂⟩
  · rw [h, covers_append, covers_cons, hx a]

/-- A range put anywhere into `l₁ ++ l₂` leaves a list that goes on where `l₂` starts. -/
theorem insert_parts {l₁ l₂ m₁ m₂ : List Range} (r : Range) (h : m₁ ++ m₂ = l₁ ++ l₂) :
    ∃ l₁' l₂', m₁ ++ r :: m₂ = l₁' ++ l₂' ∧ first (nodes l₂') = first (nodes l₂) ∧
      ∀ y ∈ l₁', y = r ∨ y ∈ l₁ := by
  rcases List.append_eq_append_iff.mp h with ⟨c, rfl, rfl⟩ | ⟨c, rfl, rfl⟩
  · refine ⟨m₁ ++ r :: c, l₂, by simp, rfl, fun y hy => ?_⟩
    simp only [List.mem_append, List.mem_cons] at hy ⊢
    exact or_left_comm.mp hy
  · cases c with
    | nil =>
      refine ⟨l₁ ++ [r], m₂, by simp, rfl, fun y hy => ?_⟩
      simpa [or_comm] using hy
    | cons y c => exact ⟨l₁, y :: c ++ r :: m₂, by simp, rfl, fun z hz => Or.inr hz⟩

/-- A visit that cuts `x` in two: the right part stays at its node, and the left part goes to
wherever `range_add` puts it. -/
theorem removeBody_cut (halloc : AllocQuiet alloc) {l₁ l₂ : List Range} {x : Range} (hs : s.Nodes)
    (hearly : s.early = true) (h : s.ranges = l₁ ++ x :: l₂) (hle : base.toNat ≤ limit.toNat)
    (hclear : ∀ a, base.toNat ≤ a → a ≤ limit.toNat → ¬ Covers l₁ a)
    (hb : x.base.toNat < base.toNat) (hl : limit.toNat < x.limit.toNat) :
    Safe (Visited base limit l₁ x l₂) (removeBody alloc base limit x s) := by
  have hne : x.base ≠ base := fun e => by rw [e] at hb; omega
  have hlt := x.limit.isLt
  have hsucc : (limit + 1).toNat = limit.toNat + 1 := Words.succ_toNat (by omega)
  have hpred : (base - 1).toNat = base.toNat - 1 := pred_toNat (by omega)
  rw [removeBody_inside alloc (Nat.le_of_lt hb) hle hl, if_neg hne]
  set x' : Range := { x with base := limit + 1 } with hx'
  have hranges : (setNode x.node (fun r => { r with base := limit + 1 }) s).ranges =
      l₁ ++ x' :: l₂ := setNode_ranges h hs.nodup _
  refine (rangeAdd_split halloc (hs.setNode h rfl ?_) hearly).imp ?_
  · show (limit + 1).toNat ≤ x.limit.toNat
    omega
  rintro s' ⟨m₁, m₂, r, hsplit, hs'r, hrb, hrl, -, hearly', hs'⟩
  rw [hranges] at hsplit
  have hleft : ∀ a, r.Has a ↔ x.base.toNat ≤ a ∧ a < base.toNat := fun a => by
    rw [Range.Has, hrb, hrl, hpred]
    omega
  have hright : ∀ a, x'.Has a ↔ limit.toNat < a ∧ a ≤ x.limit.toNat := fun a => by
    show (limit + 1).toNat ≤ a ∧ a ≤ x.limit.toNat ↔ _
    omega
  obtain ⟨l₁', l₂', hparts, hfirst, hmem⟩ :=
    @insert_parts (l₁ ++ [x']) l₂ m₁ m₂ r (by rw [← hsplit, List.append_assoc]; rfl)
  refine ⟨hs', hearly', ⟨l₁', l₂', hs'r.trans hparts, hfirst, ?_⟩, fun a => ?_⟩
  · rintro a h₁ h₂ ⟨y, hy, hya⟩
    rcases hmem y hy with rfl | hy
    · have := (hleft a).mp hya
      omega
    · rcases List.mem_append.mp hy with hy | hy
      · exact hclear a h₁ h₂ ⟨y, hy, hya⟩
      · rw [List.mem_singleton.mp hy] at hya
        have := (hright a).mp hya
        omega
  · have hall : Covers (m₁ ++ m₂) a ↔ Covers l₁ a ∨ x'.Has a ∨ Covers l₂ a := by
      rw [← hsplit, covers_append, covers_cons]
    have hpart : x.Has a ∧ ¬ (base.toNat ≤ a ∧ a ≤ limit.toNat) ↔ r.Has a ∨ x'.Has a := by
      rw [hleft, hright, Range.Has]
      omega
    rw [hs'r, covers_append, covers_cons, or_left_comm, ← covers_append, hall, hpart, or_assoc,
      or_left_comm (a := r.Has a)]

/-- A visit of the loop to a node. -/
theorem removeBody_visited (halloc : AllocQuiet alloc) {l₁ l₂ : List Range} {x : Range}
    (hs : s.Nodes) (hearly : s.early = true) (h : s.ranges = l₁ ++ x :: l₂)
    (hle : base.toNat ≤ limit.toNat)
    (hclear : ∀ a, base.toNat ≤ a → a ≤ limit.toNat → ¬ Covers l₁ a) :
    Safe (Visited base limit l₁ x l₂) (removeBody alloc base limit x s) := by
  have hx : x.base.toNat ≤ x.limit.toNat := hs.proper x (by simp [h])
  have hlt := x.limit.isLt
  have hlt' := base.isLt
  by_cases hmiss : ¬ x.Hit base limit
  · rw [removeBody_miss alloc hmiss]
    refine Visited.trim hs hearly h hclear fun a => ⟨fun ha => ⟨ha, fun hin => hmiss ?_⟩, And.left⟩
    obtain ⟨h₁, h₂⟩ := ha
    exact ⟨by omega, by omega⟩
  obtain ⟨hh₁, hh₂⟩ := not_not.mp hmiss
  have hno : ¬ (x.base > limit ∨ x.limit < base) := by
    rintro (h' | h')
    · have h' : limit.toNat < x.base.toNat := h'
      omega
    · have h' : x.limit.toNat < base.toNat := h'
      omega
  rcases Nat.lt_or_ge x.base.toNat base.toNat with hb | hb <;>
    rcases Nat.lt_or_ge limit.toNat x.limit.toNat with hl | hl
  · exact removeBody_cut halloc hs hearly h hle hclear hb hl
  · -- the request runs over the range's end
    have hpred : (base - 1).toNat = base.toNat - 1 := pred_toNat (by omega)
    have hbody : removeBody alloc base limit x s =
        .ok (setNode x.node (fun r => { r with limit := base - 1 }) s) := by
      rw [removeBody, if_neg hno, if_neg, if_neg, if_pos]
      · exact BitVec.le_def.mpr hl
      · exact fun h' => Nat.not_le_of_lt hb h'
      · exact fun h' => Nat.not_le_of_lt hb h'.1
    rw [hbody]
    refine Visited.trim (hs.setNode h rfl ?_) hearly (setNode_ranges h hs.nodup _) hclear fun a => ?_
    · show x.base.toNat ≤ (base - 1).toNat
      omega
    · show x.base.toNat ≤ a ∧ a ≤ (base - 1).toNat ↔ (x.base.toNat ≤ a ∧ a ≤ x.limit.toNat) ∧ _
      omega
  · -- the request runs over the range's start
    have hsucc : (limit + 1).toNat = limit.toNat + 1 := by
      rw [BitVec.toNat_add]
      exact Nat.mod_eq_of_lt (by simp only [BitVec.ofNat_eq_ofNat, BitVec.toNat_ofNat]; omega)
    have hbody : removeBody alloc base limit x s =
        .ok (setNode x.node (fun r => { r with base := limit + 1 }) s) := by
      rw [removeBody, if_neg hno, if_neg, if_pos]
      · exact BitVec.le_def.mpr hb
      · exact fun h' => Nat.not_le_of_lt hl h'.2
    rw [hbody]
    refine Visited.trim (hs.setNode h rfl ?_) hearly (setNode_ranges h hs.nodup _) hclear fun a => ?_
    · show (limit + 1).toNat ≤ x.limit.toNat
      omega
    · show (limit + 1).toNat ≤ a ∧ a ≤ x.limit.toNat ↔ (x.base.toNat ≤ a ∧ a ≤ x.limit.toNat) ∧ _
      omega
  · -- the request holds the whole range
    have hbody : removeBody alloc base limit x s = .ok (freeNode x.node s) := by
      rw [removeBody, if_neg hno, if_pos]
      exact ⟨BitVec.le_def.mpr hb, BitVec.le_def.mpr hl⟩
    have hranges := freeNode_ranges h hs.nodup
    rw [hbody]
    refine ⟨hs.freeNode h, hearly, ⟨l₁, l₂, hranges, rfl, hclear⟩, fun a => ?_⟩
    have hnone : ¬ (x.Has a ∧ ¬ (base.toNat ≤ a ∧ a ≤ limit.toNat)) := by
      rintro ⟨⟨h₁, h₂⟩, h₃⟩
      omega
    rw [hranges, covers_append, or_iff_right hnone]

/-- `range_remove`'s loop takes the request's addresses from the rest of the list. -/
theorem removeLoop_covers (halloc : AllocQuiet alloc) (hle : base.toNat ≤ limit.toNat)
    (fuel : Nat) (l₁ : List Range) {l₂ : List Range} (hs : s.Nodes) (hearly : s.early = true)
    (h : s.ranges = l₁ ++ l₂)
    (hclear : ∀ a, base.toNat ≤ a → a ≤ limit.toNat → ¬ Covers l₁ a) :
    Safe (fun s' => s'.Nodes ∧ s'.early = true ∧ ∀ a, Covers s'.ranges a ↔
      Covers s.ranges a ∧ ¬ (base.toNat ≤ a ∧ a ≤ limit.toNat))
      (removeLoop alloc base limit fuel (first (nodes l₂)) s) := by
  induction fuel generalizing s l₁ l₂ with
  | zero => nofun
  | succ fuel ih =>
    cases l₂ with
    | nil =>
      rw [List.append_nil] at h
      refine ⟨hs, hearly, fun a => ⟨fun hc => ⟨hc, fun hin => ?_⟩, And.left⟩⟩
      exact hclear a hin.1 hin.2 (h ▸ hc)
    | cons x l₂ =>
      rw [nodes_cons, first_cons, removeLoop_entry alloc base limit fuel h hs.nodup]
      refine Safe.bind (removeBody_visited halloc hs hearly h hle hclear) fun s₁ hv => ?_
      obtain ⟨l₁', l₂', hparts, hfirst, hclear'⟩ := hv.parts
      rw [← hfirst]
      refine (ih l₁' hv.nodes hv.early hparts hclear').imp ?_
      rintro s' ⟨hs', hearly', hcov⟩
      refine ⟨hs', hearly', fun a => ?_⟩
      -- what was taken from `x` is taken already, and what is behind `x` has nothing to take
      rw [hcov, hv.covers, h, covers_append, covers_cons]
      have := hclear a
      by_cases hin : base.toNat ≤ a ∧ a ≤ limit.toNat
      · simp [hin]
      · simp [hin]

/-- `range_remove` takes the addresses of its request from the list. -/
theorem rangeRemove_covers (halloc : AllocQuiet alloc) (fuel : Nat) (hs : s.Nodes)
    (hearly : s.early = true) :
    Safe (fun s' => s'.Nodes ∧ s'.early = true ∧ ∀ a, Covers s'.ranges a ↔
      Covers s.ranges a ∧ ¬ (base.toNat ≤ a ∧ a ≤ limit.toNat))
      (rangeRemove alloc fuel base limit s) := by
  refine Safe.memBugOn fun hlt => ?_
  have hlt : base.toNat < limit.toNat := Nat.lt_of_not_le hlt
  refine removeLoop_covers halloc (Nat.le_of_lt hlt) fuel [] hs hearly rfl ?_
  rintro a - - ⟨r, hr, -⟩
  cases hr

end Quiet

end Prephv
