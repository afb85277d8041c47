import Prephv.Mem.Ranges

/-!
# Mem — Pages

`mem_get_pages` of `mem.c`: before `mem_init` it moves `sbrk` through `early_memory`, after that it
takes the first free range that has room and removes the block from it with `range_remove`.

Removing a block from the middle of a range allocates a node for the piece on its left, and that
allocation may itself call `mem_get_pages` while the list is half updated: the range is trimmed and
its left piece not yet back.  What the heap asks for is the environment `MemEnv`: the lengths the
`k`-th node allocation requests first, and whether it fails.  `memGetPages` takes fuel for the
nesting and the loops.
-/

set_option autoImplicit false

namespace Prephv

open SafeList

/-! ### The source -/

/-- `PAGE_SIZE`. -/
def pageSize : U64 := 4096

/-- `EARLY_MEMORY`. -/
def earlyMemorySize : U64 := pageSize * 64

/-- The hypervisor's image in HV space, `_start` to `_end`, with `early_memory` in it. -/
structure Image where
  start : U64
  end_ : U64
  earlyMemory : U64
  hv : hvAspace.toNat ≤ start.toNat
  start_le : start.toNat ≤ earlyMemory.toNat
  le_end : earlyMemory.toNat + earlyMemorySize.toNat ≤ end_.toNat
  in_hv : end_.toNat ≤ hvAspace.toNat + 2 ^ 40

/-- What the heap does: the lengths it requests while it allocates the `k`-th node, and whether it
then has none. -/
structure MemEnv where
  nest : Nat → List U64
  null : Nat → Bool

/-- `ra_2_ptr`. -/
def ra2Ptr (ra : U64) : MemRes U64 := do
  memBugOn (ra ≥ hvAspace) "ra 0x%x looks like an EA (HV address)"
  .ok (ra ||| hvAspace)

def MemState.give (s : MemState) (b : Block) : MemState := { s with blocks := s.blocks ++ [b] }

/-- A run of `mem_get_pages` calls, where `get` is that function. -/
def runGets (get : U64 → MemState → MemRes (Option U64 × MemState)) :
    List U64 → MemState → MemRes MemState
  | [], s => .ok s
  | length :: lengths, s => do
    let (_, s) ← get length s
    runGets get lengths s

/-- `range_alloc`, whose `mem_malloc` runs the calls of `get` that the heap needs. -/
def rangeAlloc (env : MemEnv) (get : U64 → MemState → MemRes (Option U64 × MemState))
    (s : MemState) : MemRes (Nat × MemState) := do
  let k := s.allocs
  let s ← runGets get (env.nest k) { s with allocs := k + 1 }
  memBugOn (env.null k = true) "failed to alloc range struct for 0x%lx-0x%lx"
  .ok (k, s)

/-- The check of `mem_get_pages` on a free range. -/
def fits (length : U64) (r : Range) : Bool :=
  let baseAligned := alignUp r.base pageSize
  let limitAligned := align r.limit pageSize
  decide (baseAligned < limitAligned) && decide (limitAligned - baseAligned ≥ length)

/-- `mem_get_pages` while `mem_early`. -/
def earlyGetPages (img : Image) (length : U64) (s : MemState) : MemRes (Option U64 × MemState) := do
  let sbrk := alignUp s.sbrk pageSize + length
  memBugOn (sbrk - img.earlyMemory > earlyMemorySize) "too much early memory used"
  .ok (some (sbrk - length), { s with sbrk := sbrk }.give ⟨sbrk - length, length⟩)

/-- `mem_get_pages`.  Its last assertion is on `NULL` and never fires. -/
def memGetPages (env : MemEnv) (img : Image) :
    Nat → U64 → MemState → MemRes (Option U64 × MemState)
  | 0, _, _ => .error .fuel
  | fuel + 1, length, s => do
    memBugOn (length = 0) "length cannot be 0"
    memBugOn (length % pageSize ≠ 0) "length must be multiple of PAGE_SIZE"
    if s.early then earlyGetPages img length s
    else
      match s.ranges.find? (fits length) with
      | some r => do
        let baseAligned := alignUp r.base pageSize
        let s ← rangeRemove (rangeAlloc env (memGetPages env img fuel)) fuel baseAligned
          (baseAligned + length - 1) s
        let ptr ← ra2Ptr baseAligned
        .ok (some ptr, s.give ⟨ptr, length⟩)
      | none => .ok (none, s)

/-- The state at boot. -/
def bootMem (img : Image) : MemState where
  early := true
  sbrk := img.earlyMemory
  ranges := []
  allocs := 0
  freed := []
  blocks := []

/-- The state after `mem_init`, which built the free list `ranges` and allocated `allocs` nodes. -/
def MemState.ready (s : MemState) (ranges : List Range) (allocs : Nat) : MemState :=
  { s with early := false, ranges := ranges, allocs := allocs }

/-! ### Blocks -/

/-- The byte at an effective address is in the block. -/
def Block.Has (b : Block) (ea : Nat) : Prop := b.ptr.toNat ≤ ea ∧ ea < b.ptr.toNat + b.length.toNat

/-- The byte at a real address is in the block. -/
def Block.HasRa (b : Block) (ra : Nat) : Prop := b.Has (hvAspace.toNat + ra)

/-- The blocks share no byte. -/
def Block.Apart (b b' : Block) : Prop := ∀ ea, b.Has ea → ¬ b'.Has ea

/-! ### The free list after `mem_init` -/

/-- What holds of the allocator between calls, and at each nested one. -/
structure MemState.Late (s : MemState) : Prop where
  late : s.early = false
  ordered : Ordered s.ranges
  proper : Proper s.ranges
  below : ∀ r ∈ s.ranges, r.limit.toNat < hvAspace.toNat
  nodup : (nodes s.ranges).Nodup
  fresh : ∀ i ∈ nodes s.ranges, i < s.allocs

/-- Calls got the allocator from `s` to `s'` and handed out `bs`: pages of the free list that the
list does not have any more, and no node of the list was freed. -/
structure Took (s s' : MemState) (bs : List Block) : Prop where
  late : s'.Late
  blocks : s'.blocks = s.blocks ++ bs
  freed : s'.freed = s.freed
  keeps : ∀ i ∈ nodes s.ranges, i ∈ nodes s'.ranges
  new : ∀ i ∈ nodes s'.ranges, i ∈ nodes s.ranges ∨ s.allocs ≤ i
  allocs : s.allocs ≤ s'.allocs
  page : ∀ b ∈ bs, 4096 ∣ b.ptr.toNat
  inFree : ∀ b ∈ bs, ∀ ea, b.Has ea → ∃ ra, ea = hvAspace.toNat + ra ∧ Covers s.ranges ra
  apart : bs.Pairwise Block.Apart
  covers : ∀ a, Covers s'.ranges a ↔ Covers s.ranges a ∧ ∀ b ∈ bs, ¬ b.HasRa a

theorem Took.refl {s : MemState} (h : s.Late) : Took s s [] where
  late := h
  blocks := (List.append_nil _).symm
  freed := rfl
  keeps _ hi := hi
  new _ hi := Or.inl hi
  allocs := le_refl _
  page := nofun
  inFree := nofun
  apart := List.Pairwise.nil
  covers _ := ⟨fun h => ⟨h, nofun⟩, And.left⟩

/-- Calls in a row: what the later ones take, the earlier ones did not. -/
theorem Took.trans {s s₁ s' : MemState} {bs bs' : List Block} (h : Took s s₁ bs)
    (h' : Took s₁ s' bs') : Took s s' (bs ++ bs') where
  late := h'.late
  blocks := by rw [h'.blocks, h.blocks, List.append_assoc]
  freed := h'.freed.trans h.freed
  keeps i hi := h'.keeps i (h.keeps i hi)
  new i hi := by
    rcases h'.new i hi with hi | hi
    · exact h.new i hi
    · exact Or.inr (h.allocs.trans hi)
  allocs := h.allocs.trans h'.allocs
  page b hb := (List.mem_append.mp hb).elim (h.page b) (h'.page b)
  inFree b hb ea hea := by
    rcases List.mem_append.mp hb with hb | hb
    · exact h.inFree b hb ea hea
    · obtain ⟨ra, rfl, hra⟩ := h'.inFree b hb ea hea
      exact ⟨ra, rfl, ((h.covers ra).mp hra).1⟩
  apart := by
    refine List.pairwise_append.mpr ⟨h.apart, h'.apart, fun b hb b' hb' ea hea hea' => ?_⟩
    obtain ⟨ra, rfl, hra⟩ := h'.inFree b' hb' ea hea'
    exact ((h.covers ra).mp hra).2 b hb hea
  covers a := by
    rw [h'.covers, h.covers, and_assoc]
    simp only [List.mem_append, or_imp, forall_and]

/-! ### Removing a block from one range -/

/-- Trimming the left end of a range takes that end from the list. -/
theorem MemState.Late.trim {s : MemState} (hs : s.Late) {l₁ l₂ : List Range} {x : Range}
    (h : s.ranges = l₁ ++ x :: l₂) {limit : U64} (hx : x.base.toNat ≤ limit.toNat)
    (hl : limit.toNat < x.limit.toNat) {s₁ : MemState}
    (hs₁ : s₁ = setNode x.node (fun r => { r with base := limit + 1 }) s) :
    s₁.Late ∧ nodes s₁.ranges = nodes s.ranges ∧
      ∀ a, Covers s₁.ranges a ↔ Covers s.ranges a ∧ ¬ (x.base.toNat ≤ a ∧ a ≤ limit.toNat) := by
  subst hs₁
  have hbase : (limit + 1).toNat = limit.toNat + 1 := by
    have := x.limit.isLt
    rw [BitVec.toNat_add]
    exact Nat.mod_eq_of_lt (by show limit.toNat + 1 < _; omega)
  have hranges := setNode_ranges h hs.nodup fun r => { r with base := limit + 1 }
  have hord := hs.ordered
  have hp := hs.proper
  have hbelow := hs.below
  rw [h] at hord hp hbelow
  obtain ⟨hp₁, hp₂⟩ := proper_append.mp hp
  obtain ⟨-, hp₂⟩ := proper_cons.mp hp₂
  obtain ⟨ho₁, ho₂, ho₁₂⟩ := List.pairwise_append.mp hord
  obtain ⟨hox, ho₂⟩ := List.pairwise_cons.mp ho₂
  have hnodes : nodes (setNode x.node (fun r => { r with base := limit + 1 }) s).ranges =
      nodes s.ranges := by
    rw [hranges, h, nodes_append, nodes_append, nodes_cons, nodes_cons]
  refine ⟨⟨hs.late, ?_, ?_, ?_, by rw [hnodes]; exact hs.nodup,
    by rw [hnodes]; exact hs.fresh⟩, hnodes, fun a => ?_⟩
  · rw [hranges]
    refine List.pairwise_append.mpr ⟨ho₁, List.pairwise_cons.mpr ⟨hox, ho₂⟩, fun r hr r' hr' => ?_⟩
    rcases List.mem_cons.mp hr' with rfl | hr'
    · have := ho₁₂ r hr x List.mem_cons_self
      show r.limit.toNat < (limit + 1).toNat
      omega
    · exact ho₁₂ r hr r' (List.mem_cons_of_mem _ hr')
  · rw [hranges]
    refine proper_append.mpr ⟨hp₁, proper_cons.mpr ⟨?_, hp₂⟩⟩
    show (limit + 1).toNat ≤ x.limit.toNat
    omega
  · rw [hranges]
    intro r hr
    rcases List.mem_append.mp hr with hr | hr
    · exact hbelow r (List.mem_append_left _ hr)
    · rcases List.mem_cons.mp hr with rfl | hr
      · exact hbelow x (List.mem_append_right _ List.mem_cons_self)
      · exact hbelow r (List.mem_append_right _ (List.mem_cons_of_mem _ hr))
  · -- the other ranges do not reach into `x`
    have hout : ∀ r, r ∈ l₁ ∨ r ∈ l₂ → r.Has a → ¬ (x.base.toNat ≤ a ∧ a ≤ limit.toNat) := by
      rintro r (hr | hr) ⟨hra, hra'⟩ ⟨h₁, h₂⟩
      · have := ho₁₂ r hr x List.mem_cons_self
        omega
      · have := hox r hr
        omega
    rw [hranges, h, covers_append, covers_append, covers_cons, covers_cons]
    have hxa : Range.Has { x with base := limit + 1 } a ↔
        x.Has a ∧ ¬ (x.base.toNat ≤ a ∧ a ≤ limit.toNat) := by
      unfold Range.Has
      dsimp only
      omega
    rw [hxa]
    constructor
    · rintro (⟨r, hr, hra⟩ | ⟨hx, hno⟩ | ⟨r, hr, hra⟩)
      · exact ⟨Or.inl ⟨r, hr, hra⟩, hout r (Or.inl hr) hra⟩
      · exact ⟨Or.inr (Or.inl hx), hno⟩
      · exact ⟨Or.inr (Or.inr ⟨r, hr, hra⟩), hout r (Or.inr hr) hra⟩
    · rintro ⟨hc | hx | hc, hno⟩
      · exact Or.inl hc
      · exact Or.inr (Or.inl ⟨hx, hno⟩)
      · exact Or.inr (Or.inr hc)

/-- A node allocation that may take blocks while it runs. -/
def AllocLate (alloc : MemState → MemRes (Nat × MemState)) : Prop :=
  ∀ s : MemState, s.Late →
    Safe (fun r => r.1 = s.allocs ∧ ∃ bs, Took { s with allocs := s.allocs + 1 } r.2 bs) (alloc s)

/-- Inserting a range the list does not meet, with a fresh node. -/
theorem MemState.Late.insert {s : MemState} (hs : s.Late) {r : Range} {l : List Range}
    (hr : r.base.toNat ≤ r.limit.toNat) (hbelow : r.limit.toNat < hvAspace.toNat)
    (hnode : r.node ∉ nodes s.ranges) (hfresh : r.node < s.allocs)
    (hdis : ∀ a, r.Has a → ¬ Covers s.ranges a) (hl : insertRange r s.ranges = .ok l) :
    { s with ranges := l }.Late ∧ (∀ i, i ∈ nodes l ↔ i = r.node ∨ i ∈ nodes s.ranges) ∧
      ∀ a, Covers l a ↔ r.Has a ∨ Covers s.ranges a := by
  obtain ⟨l', hl', hord⟩ := insertRange_ordered hs.ordered hs.proper hr hdis
  obtain rfl : l = l' := by rw [hl] at hl'; exact Except.ok.inj hl'
  obtain ⟨l₁, l₂, hsplit, rfl⟩ := insertRange_split hl
  have hmem : ∀ r', r' ∈ l₁ ++ r :: l₂ ↔ r' = r ∨ r' ∈ s.ranges := fun r' => by
    rw [hsplit, List.mem_append, List.mem_cons, List.mem_append, or_left_comm]
  have hnodes : ∀ i, i ∈ nodes (l₁ ++ r :: l₂) ↔ i = r.node ∨ i ∈ nodes s.ranges := fun i => by
    rw [hsplit, nodes_append, nodes_cons, nodes_append, List.mem_append, List.mem_cons,
      List.mem_append, or_left_comm]
  refine ⟨⟨hs.late, hord, fun r' hr' => ?_, fun r' hr' => ?_, ?_, fun i hi => ?_⟩, hnodes,
    fun a => ?_⟩
  · rcases (hmem r').mp hr' with rfl | hr'
    · exact hr
    · exact hs.proper r' hr'
  · rcases (hmem r').mp hr' with rfl | hr'
    · exact hbelow
    · exact hs.below r' hr'
  · have hnd := hs.nodup
    rw [hsplit, nodes_append] at hnd hnode
    show (nodes (l₁ ++ r :: l₂)).Nodup
    rw [nodes_append, nodes_cons]
    exact List.nodup_middle.mpr (List.nodup_cons.mpr ⟨hnode, hnd⟩)
  · rcases (hnodes i).mp hi with rfl | hi
    · exact hfresh
    · exact hs.fresh i hi
  · constructor
    · rintro ⟨r', hr', ha⟩
      rcases (hmem r').mp hr' with rfl | hr'
      · exact Or.inl ha
      · exact Or.inr ⟨r', hr', ha⟩
    · rintro (ha | ⟨r', hr', ha⟩)
      · exact ⟨r, (hmem r).mpr (Or.inl rfl), ha⟩
      · exact ⟨r', (hmem r').mpr (Or.inr hr'), ha⟩

/-- The block `b` is the addresses `base` to `limit`. -/
structure Block.At (b : Block) (base limit : U64) : Prop where
  ptr : b.ptr.toNat = hvAspace.toNat + base.toNat
  length : base.toNat + b.length.toNat = limit.toNat + 1
  page : 4096 ∣ b.ptr.toNat

theorem Block.At.hasRa {b : Block} {base limit : U64} (hb : b.At base limit) (a : Nat) :
    b.HasRa a ↔ base.toNat ≤ a ∧ a ≤ limit.toNat := by
  have h₁ := hb.ptr
  have h₂ := hb.length
  unfold Block.HasRa Block.Has
  omega

theorem Block.At.has {b : Block} {base limit : U64} (hb : b.At base limit) {ea : Nat}
    (h : b.Has ea) : ∃ ra, ea = hvAspace.toNat + ra ∧ base.toNat ≤ ra ∧ ra ≤ limit.toNat := by
  have h₁ := hb.ptr
  have h₂ := hb.length
  obtain ⟨h₃, h₄⟩ := h
  exact ⟨ea - hvAspace.toNat, by omega, by omega, by omega⟩

/-- The left end of a range is the block. -/
theorem Took.trim {s s₁ : MemState} {b : Block} {base limit : U64} (hs₁ : s₁.Late)
    (hb : b.At base limit) (hblocks : s₁.blocks = s.blocks) (hfreed : s₁.freed = s.freed)
    (hallocs : s₁.allocs = s.allocs) (hnodes : nodes s₁.ranges = nodes s.ranges)
    (hin : ∀ a, base.toNat ≤ a → a ≤ limit.toNat → Covers s.ranges a)
    (hcov : ∀ a, Covers s₁.ranges a ↔ Covers s.ranges a ∧ ¬ (base.toNat ≤ a ∧ a ≤ limit.toNat)) :
    Took s (s₁.give b) [b] where
  late := ⟨hs₁.late, hs₁.ordered, hs₁.proper, hs₁.below, hs₁.nodup, hs₁.fresh⟩
  blocks := by rw [← hblocks]; rfl
  freed := hfreed
  keeps i hi := by show i ∈ nodes s₁.ranges; rw [hnodes]; exact hi
  new i hi := Or.inl (by rw [← hnodes]; exact hi)
  allocs := by rw [← hallocs]; exact le_refl _
  page b' hb' := by rw [List.mem_singleton.mp hb']; exact hb.page
  inFree b' hb' ea hea := by
    rw [List.mem_singleton.mp hb'] at hea
    obtain ⟨ra, rfl, h₁, h₂⟩ := hb.has hea
    exact ⟨ra, rfl, hin ra h₁ h₂⟩
  apart := List.pairwise_singleton _ _
  covers a := by
    simp only [List.mem_singleton, forall_eq, hb.hasRa]
    exact hcov a

/-- A block is cut out of a range whose left piece `r` goes back into the list, after the allocation
of its node took `bs`. -/
theorem Took.split {s : MemState} (s₁ : MemState) {s₂ : MemState} {b : Block} {base limit : U64}
    {bs : List Block} {r : Range} {l : List Range} (hb : b.At base limit) (htook : Took s₁ s₂ bs)
    (hblocks : s₁.blocks = s.blocks) (hfreed : s₁.freed = s.freed)
    (hallocs : s.allocs ≤ s₁.allocs) (hnodes : nodes s₁.ranges = nodes s.ranges)
    (hnode : s.allocs ≤ r.node) (hlate : { s₂ with ranges := l }.Late)
    (hl : ∀ i, i ∈ nodes l ↔ i = r.node ∨ i ∈ nodes s₂.ranges)
    (hlcov : ∀ a, Covers l a ↔ r.Has a ∨ Covers s₂.ranges a)
    (hcov : ∀ a, Covers s.ranges a ↔
      Covers s₁.ranges a ∨ r.Has a ∨ (base.toNat ≤ a ∧ a ≤ limit.toNat))
    (hdis : ∀ a, base.toNat ≤ a → a ≤ limit.toNat → ¬ Covers s₁.ranges a ∧ ¬ r.Has a)
    (hdisr : ∀ a, r.Has a → ¬ Covers s₁.ranges a) :
    Took s ({ s₂ with ranges := l }.give b) (bs ++ [b]) where
  late := ⟨hlate.late, hlate.ordered, hlate.proper, hlate.below, hlate.nodup, hlate.fresh⟩
  blocks := by
    show s₂.blocks ++ [b] = _
    rw [htook.blocks, hblocks, List.append_assoc]
  freed := htook.freed.trans hfreed
  keeps i hi := (hl i).mpr (Or.inr (htook.keeps i (by rw [hnodes]; exact hi)))
  new i hi := by
    rcases (hl i).mp hi with rfl | hi
    · exact Or.inr hnode
    · rw [← hnodes]
      exact (htook.new i hi).imp id hallocs.trans
  allocs := hallocs.trans htook.allocs
  page b' hb' := by
    rcases List.mem_append.mp hb' with hb' | hb'
    · exact htook.page b' hb'
    · rw [List.mem_singleton.mp hb']
      exact hb.page
  inFree b' hb' ea hea := by
    rcases List.mem_append.mp hb' with hb' | hb'
    · obtain ⟨ra, rfl, hra⟩ := htook.inFree b' hb' ea hea
      exact ⟨ra, rfl, (hcov ra).mpr (Or.inl hra)⟩
    · rw [List.mem_singleton.mp hb'] at hea
      obtain ⟨ra, rfl, hra⟩ := hb.has hea
      exact ⟨ra, rfl, (hcov ra).mpr (Or.inr (Or.inr hra))⟩
  apart := by
    refine List.pairwise_append.mpr ⟨htook.apart, List.pairwise_singleton _ _, ?_⟩
    intro b' hb' c hc ea hea hea'
    rw [List.mem_singleton.mp hc] at hea'
    obtain ⟨ra, rfl, h₁, h₂⟩ := hb.has hea'
    obtain ⟨ra', e, hra'⟩ := htook.inFree b' hb' _ hea
    obtain rfl : ra = ra' := by omega
    exact (hdis ra h₁ h₂).1 hra'
  covers a := by
    have hbs : (∀ b' ∈ bs ++ [b], ¬ b'.HasRa a) ↔
        (∀ b' ∈ bs, ¬ b'.HasRa a) ∧ ¬ (base.toNat ≤ a ∧ a ≤ limit.toNat) := by
      simp only [List.mem_append, List.mem_singleton, or_imp, forall_and, forall_eq, hb.hasRa]
    have hnone : ¬ Covers s₁.ranges a → ∀ b' ∈ bs, ¬ b'.HasRa a := fun hno b' hb' hba => by
      obtain ⟨ra, e, hra⟩ := htook.inFree b' hb' _ hba
      obtain rfl : a = ra := by omega
      exact hno hra
    show Covers l a ↔ _
    rw [hlcov, htook.covers, hcov, hbs]
    have h₁ := hdis a
    have h₂ := hdisr a
    clear * - h₁ h₂ hnone
    tauto

/-- The piece on the left of the block finds its place again, whatever calls took meanwhile. -/
theorem Took.insert_ok {s s' : MemState} {bs : List Block} (htook : Took s s' bs)
    {base limit : U64} {x : Range} (hle : base.toNat ≤ limit.toNat)
    (hlt : x.base.toNat < base.toNat) {l : List Range}
    (hcov : ∀ a, Covers s.ranges a ↔ Covers l a ∧ ¬ (x.base.toNat ≤ a ∧ a ≤ limit.toNat))
    (node : Nat) : ∃ l', insertRange ⟨node, x.base, base - 1⟩ s'.ranges = .ok l' := by
  have hpred : (base - 1).toNat = base.toNat - 1 := pred_toNat (by omega)
  obtain ⟨l', hins, -⟩ := insertRange_ordered (r := ⟨node, x.base, base - 1⟩) htook.late.ordered
    htook.late.proper (by show x.base.toNat ≤ (base - 1).toNat; omega) fun a ha hc => by
      obtain ⟨h₁, h₂⟩ := ha
      dsimp only at h₁ h₂
      exact ((hcov a).mp ((htook.covers a).mp hc).1).2 ⟨h₁, by omega⟩
  exact ⟨l', hins⟩

section Remove

variable {alloc : MemState → MemRes (Nat × MemState)} {s : MemState} {x : Range}
  {l₁ l₂ : List Range} {base limit : U64} {b : Block}

/-- The visit to the range `x` that the block is inside of: whatever the node allocation takes
meanwhile, the block leaves the list, and nothing else does. -/
theorem removeBody_late (halloc : AllocLate alloc) (hs : s.Late) (h : s.ranges = l₁ ++ x :: l₂)
    (hb : x.base.toNat ≤ base.toNat) (hle : base.toNat < limit.toNat)
    (hl : limit.toNat < x.limit.toNat) (hblock : b.At base limit) :
    Safe (fun s' => ∃ bs, Took s (s'.give b) (bs ++ [b])) (removeBody alloc base limit x s) := by
  have hx : ∀ a, x.Has a → Covers s.ranges a := fun a ha => ⟨x, by rw [h]; simp, ha⟩
  obtain ⟨hs₁, hnodes, hcov⟩ := hs.trim h (hb.trans (Nat.le_of_lt hle)) hl rfl
  rw [removeBody_inside alloc hb (Nat.le_of_lt hle) hl]
  by_cases e : x.base = base
  · -- the block is the left end of the range
    rw [if_pos e]
    rw [e] at hcov
    have htrim : Took s ((setNode x.node (fun r => { r with base := limit + 1 }) s).give b) [b] :=
      Took.trim hs₁ hblock rfl rfl rfl hnodes (fun a h₁ h₂ => hx a ⟨by omega, by omega⟩) hcov
    exact ⟨[], htrim⟩
  · -- the piece on its left is inserted again, after the allocation of its node
    have hne : x.base.toNat ≠ base.toNat := fun h => e (BitVec.eq_of_toNat_eq h)
    have hpred : (base - 1).toNat = base.toNat - 1 := pred_toNat (by omega)
    rw [if_neg e]
    obtain ⟨s₁, hs₁eq⟩ : ∃ s₁, s₁ = setNode x.node (fun r => { r with base := limit + 1 }) s :=
      ⟨_, rfl⟩
    have hblocks : s₁.blocks = s.blocks := by rw [hs₁eq]; rfl
    have hfreed : s₁.freed = s.freed := by rw [hs₁eq]; rfl
    have hallocs : s₁.allocs = s.allocs := by rw [hs₁eq]; rfl
    rw [← hs₁eq] at hs₁ hnodes hcov ⊢
    refine Safe.bind (halloc s₁ hs₁) ?_
    rintro ⟨node, s₂⟩ ⟨hnode, bs, htook⟩
    dsimp only at hnode htook ⊢
    refine Safe.memBugOn fun _ => ?_
    have hdisr : ∀ a, Range.Has ⟨node, x.base, base - 1⟩ a → ¬ Covers s₁.ranges a := by
      rintro a ⟨h₁, h₂⟩ hc
      dsimp only at h₁ h₂
      exact ((hcov a).mp hc).2 ⟨h₁, by omega⟩
    have hfresh : node ∉ nodes s₂.ranges := fun hmem => by
      rcases htook.new node hmem with hold | hnew
      · have := hs₁.fresh node hold
        omega
      · have hnew : s₁.allocs + 1 ≤ node := hnew
        omega
    have hbelow := hs.below x (by rw [h]; simp)
    obtain ⟨l, hins⟩ := htook.insert_ok (Nat.le_of_lt hle) (by omega) hcov node
    have hmono : s₁.allocs + 1 ≤ s₂.allocs := htook.allocs
    obtain ⟨hlate, hln, hlcov⟩ := htook.late.insert (r := ⟨node, x.base, base - 1⟩)
      (by show x.base.toNat ≤ (base - 1).toNat; omega)
      (by show (base - 1).toNat < _; omega) hfresh (by show node < s₂.allocs; omega)
      (fun a ha hc => hdisr a ha ((htook.covers a).mp hc).1) hins
    rw [hins]
    refine ⟨bs, Took.split { s₁ with allocs := s₁.allocs + 1 } hblock htook hblocks hfreed
      (by show s.allocs ≤ s₁.allocs + 1; omega) hnodes (by show s.allocs ≤ node; omega) hlate hln
      hlcov (fun a => ?_) (fun a h₁ h₂ => ⟨fun hc => ?_, ?_⟩) hdisr⟩
    · constructor
      · intro hc
        by_cases hin : x.base.toNat ≤ a ∧ a ≤ limit.toNat
        · refine Or.inr ?_
          show x.base.toNat ≤ a ∧ a ≤ (base - 1).toNat ∨ _
          omega
        · exact Or.inl ((hcov a).mpr ⟨hc, hin⟩)
      · rintro (hc | ⟨h₁, h₂⟩ | ⟨h₁, h₂⟩)
        · exact ((hcov a).mp hc).1
        · have h₂ : a ≤ (base - 1).toNat := h₂
          exact hx a ⟨h₁, by omega⟩
        · exact hx a ⟨by omega, by omega⟩
    · exact ((hcov a).mp hc).2 ⟨by omega, h₂⟩
    · rintro ⟨-, h₃⟩
      have h₃ : a ≤ (base - 1).toNat := h₃
      omega

/-- Once the block has left the list, the loop meets none of the ranges, and goes on at one of
them. -/
theorem Took.rest {s' : MemState} {bs : List Block} (htook : Took s (s'.give b) (bs ++ [b]))
    (h : s.ranges = l₁ ++ x :: l₂) (hle : base.toNat < limit.toNat) (hblock : b.At base limit) :
    (∀ r ∈ s'.ranges, ¬ r.Hit base limit) ∧ (nodes s'.ranges).Nodup ∧
      (first (nodes l₂) = .head ∨ ∃ i ∈ nodes s'.ranges, first (nodes l₂) = .entry i) := by
  refine ⟨?_, htook.late.nodup, (first_nodes l₂).imp id ?_⟩
  · exact not_hit_of_covers htook.late.proper (Nat.le_of_lt hle) fun a h₁ h₂ hc =>
      ((htook.covers a).mp hc).2 b (by simp) ((hblock.hasRa a).mpr ⟨h₁, h₂⟩)
  · rintro ⟨i, hi, e⟩
    refine ⟨i, htook.keeps i ?_, e⟩
    rw [h, nodes_append, nodes_cons]
    exact List.mem_append_right _ (List.mem_cons_of_mem _ hi)

/-- The ranges before `x` end before the block. -/
theorem MemState.Late.miss (hs : s.Late) (h : s.ranges = l₁ ++ x :: l₂)
    (hb : x.base.toNat ≤ base.toNat) : ∀ r ∈ l₁, ¬ r.Hit base limit := by
  have hord := hs.ordered
  rw [h] at hord
  rintro r hr ⟨h₁, h₂⟩
  have := (List.pairwise_append.mp hord).2.2 r hr x List.mem_cons_self
  omega

/-- `range_remove` of a block inside the range `x`: whatever the node allocation takes meanwhile,
the block leaves the list, and nothing else does. -/
theorem rangeRemove_late (halloc : AllocLate alloc) (hs : s.Late) (h : s.ranges = l₁ ++ x :: l₂)
    (hb : x.base.toNat ≤ base.toNat) (hle : base.toNat < limit.toNat)
    (hl : limit.toNat < x.limit.toNat) (hblock : b.At base limit) (fuel : Nat) :
    Safe (fun s' => ∃ bs, Took s (s'.give b) (bs ++ [b]))
      (rangeRemove alloc fuel base limit s) := by
  refine Safe.memBugOn fun _ => ?_
  rw [h]
  refine removeLoop_reach hs.nodup (hs.miss h hb) (fun fuel => ?_) [] fuel h
  refine Safe.bind (removeBody_late halloc hs h hb hle hl hblock) ?_
  rintro s₃ ⟨bs, htook⟩
  obtain ⟨hclear, hnd, hcursor⟩ := htook.rest h hle hblock
  refine (removeLoop_clear alloc hnd hclear fuel hcursor).imp ?_
  rintro s' rfl
  exact ⟨bs, htook⟩

end Remove

/-! ### `mem_get_pages` after `mem_init` -/

theorem length_toNat_mod {length : U64} (h : ¬ length % pageSize ≠ 0) :
    length.toNat % 4096 = 0 := by
  have h := congrArg BitVec.toNat (not_not.mp h)
  rw [BitVec.toNat_umod] at h
  exact h

theorem alignUp_pageSize_toNat {x : U64} (h : x.toNat < hvAspace.toNat) :
    (alignUp x pageSize).toNat = (x.toNat + (2 ^ 12 - 1)) / 2 ^ 12 * 2 ^ 12 := by
  have hhv : hvAspace.toNat = 2 ^ 63 := rfl
  exact alignUp_toNat (k := 12) (by decide) (by omega)

theorem align_pageSize_toNat (x : U64) :
    (align x pageSize).toNat = x.toNat - x.toNat % 2 ^ 12 := by
  rw [align, show pageSize = BitVec.ofNat 64 (2 ^ 12) from rfl,
    sub_one_eq_lowMask (by decide : 12 < 64), Words.and_not_lowMask _ (by decide)]
  omega

/-- The check of `mem_get_pages` in numbers: the block ends before the limit of the range. -/
theorem fits_iff {length : U64} {r : Range} (hp : r.base.toNat ≤ r.limit.toNat)
    (hbelow : r.limit.toNat < hvAspace.toNat) (hpos : 0 < length.toNat)
    (hpage : length.toNat % 4096 = 0) : fits length r = true ↔
      (alignUp r.base pageSize).toNat + length.toNat ≤ r.limit.toNat := by
  have hhv : hvAspace.toNat = 2 ^ 63 := rfl
  have hup := alignUp_pageSize_toNat (x := r.base) (by omega)
  have hdown := align_pageSize_toNat r.limit
  have hlt : alignUp r.base pageSize < align r.limit pageSize ↔
      (alignUp r.base pageSize).toNat < (align r.limit pageSize).toNat := Iff.rfl
  have hge : align r.limit pageSize - alignUp r.base pageSize ≥ length ↔
      length.toNat ≤ (align r.limit pageSize - alignUp r.base pageSize).toNat := Iff.rfl
  unfold fits
  dsimp only
  rw [Bool.and_eq_true, decide_eq_true_eq, decide_eq_true_eq, hlt, hge, BitVec.toNat_sub]
  have := (align r.limit pageSize).isLt
  omega

/-- A range that passes the check of `mem_get_pages` has the block inside it, and an address more on
the right. -/
theorem fits_spec {length : U64} {r : Range} (hp : r.base.toNat ≤ r.limit.toNat)
    (hbelow : r.limit.toNat < hvAspace.toNat) (hpos : 0 < length.toNat)
    (hpage : length.toNat % 4096 = 0) (hfit : fits length r = true) :
    4096 ∣ (alignUp r.base pageSize).toNat ∧ r.base.toNat ≤ (alignUp r.base pageSize).toNat ∧
      (alignUp r.base pageSize + length - 1).toNat + 1 =
        (alignUp r.base pageSize).toNat + length.toNat ∧
      (alignUp r.base pageSize + length - 1).toNat < r.limit.toNat := by
  have hhv : hvAspace.toNat = 2 ^ 63 := rfl
  have hup := alignUp_pageSize_toNat (x := r.base) (by omega)
  have hend := (fits_iff hp hbelow hpos hpage).mp hfit
  have hsum : (alignUp r.base pageSize + length).toNat =
      (alignUp r.base pageSize).toNat + length.toNat := by
    rw [BitVec.toNat_add]
    exact Nat.mod_eq_of_lt (by omega)
  have hpred : (alignUp r.base pageSize + length - 1).toNat =
      (alignUp r.base pageSize + length).toNat - 1 :=
    BitVec.toNat_sub_of_le (show 1 ≤ (alignUp r.base pageSize + length).toNat by omega)
  refine ⟨?_, by omega, by omega, by omega⟩
  rw [hup]
  exact ⟨_, Nat.mul_comm _ _⟩

/-- The block that `mem_get_pages` takes from a range that passes. -/
theorem fits_block {length : U64} {r : Range} (hp : r.base.toNat ≤ r.limit.toNat)
    (hbelow : r.limit.toNat < hvAspace.toNat) (hpos : 0 < length.toNat)
    (hpage : length.toNat % 4096 = 0) (hfit : fits length r = true) :
    r.base.toNat ≤ (alignUp r.base pageSize).toNat ∧
      (alignUp r.base pageSize).toNat < (alignUp r.base pageSize + length - 1).toNat ∧
      (alignUp r.base pageSize + length - 1).toNat < r.limit.toNat ∧
      Block.At ⟨alignUp r.base pageSize ||| hvAspace, length⟩ (alignUp r.base pageSize)
        (alignUp r.base pageSize + length - 1) := by
  obtain ⟨hdvd, hb, hlim, hl⟩ := fits_spec hp hbelow hpos hpage hfit
  have hlt : (alignUp r.base pageSize).toNat < 2 ^ 63 := by
    have : hvAspace.toNat = 2 ^ 63 := rfl
    omega
  have hptr : (alignUp r.base pageSize ||| hvAspace).toNat =
      hvAspace.toNat + (alignUp r.base pageSize).toNat := by
    rw [Words.or_toNat hlt (by decide), Nat.add_comm]
  exact ⟨hb, by omega, hl, hptr, hlim.symm,
    by rw [hptr]; exact (Nat.dvd_add_iff_right (by decide)).mp hdvd⟩

variable {env : MemEnv} {img : Image}

theorem runGets_late {get : U64 → MemState → MemRes (Option U64 × MemState)}
    (hget : ∀ length s, s.Late → Safe (fun r => ∃ bs, Took s r.2 bs) (get length s))
    (lengths : List U64) {s : MemState} (hs : s.Late) :
    Safe (fun s' => ∃ bs, Took s s' bs) (runGets get lengths s) := by
  induction lengths generalizing s with
  | nil => exact ⟨[], Took.refl hs⟩
  | cons length lengths ih =>
    refine Safe.bind (hget length s hs) ?_
    rintro ⟨p, s₁⟩ ⟨bs, htook⟩
    refine (ih htook.late).imp ?_
    rintro s' ⟨bs', htook'⟩
    exact ⟨bs ++ bs', htook.trans htook'⟩

theorem rangeAlloc_late {get : U64 → MemState → MemRes (Option U64 × MemState)}
    (hget : ∀ length s, s.Late → Safe (fun r => ∃ bs, Took s r.2 bs) (get length s)) :
    AllocLate (rangeAlloc env get) := by
  intro s hs
  have hs₁ : { s with allocs := s.allocs + 1 }.Late :=
    ⟨hs.late, hs.ordered, hs.proper, hs.below, hs.nodup, fun i hi =>
      Nat.lt_succ_of_lt (hs.fresh i hi)⟩
  refine Safe.bind (runGets_late hget (env.nest s.allocs) hs₁) fun s' hs' => ?_
  exact Safe.memBugOn fun _ => ⟨rfl, hs'⟩

/-- One call after `mem_init`, with all that is nested in it. -/
theorem memGetPages_late (fuel : Nat) (length : U64) {s : MemState} (hs : s.Late) :
    Safe (fun r => ∃ bs, Took s r.2 bs) (memGetPages env img fuel length s) := by
  induction fuel generalizing length s with
  | zero => nofun
  | succ fuel ih =>
    refine Safe.memBugOn fun hzero => Safe.memBugOn fun hmod => ?_
    have hpos : 0 < length.toNat := BitVec.toNat_pos_of_ne_zero hzero
    have hpage := length_toNat_mod hmod
    rw [if_neg (by rw [hs.late]; exact Bool.false_ne_true)]
    cases hfind : s.ranges.find? (fits length) with
    | none => exact ⟨[], Took.refl hs⟩
    | some r =>
      obtain ⟨hfit, l₁, l₂, hsplit, -⟩ := List.find?_eq_some_iff_append.mp hfind
      have hr : r ∈ s.ranges := by rw [hsplit]; simp
      have hbelow := hs.below r hr
      obtain ⟨hb, hle, hl, hblock⟩ := fits_block (hs.proper r hr) hbelow hpos hpage hfit
      refine Safe.bind (rangeRemove_late (rangeAlloc_late fun length s => ih length) hs hsplit hb
        hle hl hblock fuel) ?_
      rintro s' ⟨bs, htook⟩
      refine Safe.bind (Q := fun p => p = alignUp r.base pageSize ||| hvAspace) ?_ ?_
      · exact Safe.memBugOn fun _ => rfl
      · rintro p rfl
        exact ⟨_, htook⟩

/-! ### `mem_get_pages` before `mem_init` -/

/-- No call makes the sum of `sbrk` and its length wrap. -/
def NoWrap : List U64 → U64 → Prop
  | [], _ => True
  | length :: lengths, sbrk =>
    (alignUp sbrk pageSize).toNat + length.toNat < 2 ^ 64 ∧
      NoWrap lengths (alignUp sbrk pageSize + length)

/-- What holds before `mem_init`: the blocks handed out are below `sbrk`, in `early_memory`. -/
structure MemState.Early (img : Image) (s : MemState) : Prop where
  early : s.early = true
  le_sbrk : img.earlyMemory.toNat ≤ s.sbrk.toNat
  sbrk_le : s.sbrk.toNat ≤ img.earlyMemory.toNat + earlyMemorySize.toNat
  page : ∀ b ∈ s.blocks, 4096 ∣ b.ptr.toNat
  within : ∀ b ∈ s.blocks, img.earlyMemory.toNat ≤ b.ptr.toNat ∧
    b.ptr.toNat + b.length.toNat ≤ s.sbrk.toNat
  apart : s.blocks.Pairwise Block.Apart

theorem earlyGetPages_early {s s' : MemState} (hs : s.Early img) {length : U64} {p : Option U64}
    (hwrap : (alignUp s.sbrk pageSize).toNat + length.toNat < 2 ^ 64)
    (h : earlyGetPages img length s = .ok (p, s')) :
    s'.Early img ∧ s'.sbrk = alignUp s.sbrk pageSize + length := by
  have hin := img.in_hv
  have hend := img.le_end
  have hlow := hs.le_sbrk
  have hhigh := hs.sbrk_le
  have hhv : hvAspace.toNat = 2 ^ 63 := rfl
  have hup : (alignUp s.sbrk pageSize).toNat = (s.sbrk.toNat + (2 ^ 12 - 1)) / 2 ^ 12 * 2 ^ 12 :=
    alignUp_toNat (k := 12) (by decide) (by omega)
  have hsum : (alignUp s.sbrk pageSize + length).toNat =
      (alignUp s.sbrk pageSize).toNat + length.toNat := by
    rw [BitVec.toNat_add]
    exact Nat.mod_eq_of_lt hwrap
  have hptr : alignUp s.sbrk pageSize + length - length = alignUp s.sbrk pageSize :=
    BitVec.add_sub_cancel _ _
  unfold earlyGetPages memBugOn at h
  dsimp only at h
  split at h
  · cases h
  · next hbug =>
    have hroom : (alignUp s.sbrk pageSize + length - img.earlyMemory).toNat ≤
        earlyMemorySize.toNat := Nat.le_of_not_lt hbug
    rw [BitVec.toNat_sub_of_le (show img.earlyMemory.toNat ≤ _ by omega)] at hroom
    cases h
    rw [hptr]
    refine ⟨⟨hs.early, ?_, ?_, fun b hb => ?_, fun b hb => ?_, ?_⟩, rfl⟩
    · show _ ≤ (alignUp s.sbrk pageSize + length).toNat
      omega
    · show (alignUp s.sbrk pageSize + length).toNat ≤ _
      omega
    · rcases List.mem_append.mp hb with hb | hb
      · exact hs.page b hb
      · rw [List.mem_singleton.mp hb]
        show 4096 ∣ (alignUp s.sbrk pageSize).toNat
        rw [hup]
        exact ⟨_, Nat.mul_comm _ _⟩
    · show _ ∧ _ ≤ (alignUp s.sbrk pageSize + length).toNat
      rcases List.mem_append.mp hb with hb | hb
      · have := hs.within b hb
        omega
      · rw [List.mem_singleton.mp hb]
        dsimp only
        omega
    · refine List.pairwise_append.mpr ⟨hs.apart, List.pairwise_singleton _ _, ?_⟩
      rintro b hb b' hb' ea ⟨-, h₁⟩ ⟨h₂, -⟩
      rw [List.mem_singleton.mp hb'] at h₂
      have h₂ : (alignUp s.sbrk pageSize).toNat ≤ ea := h₂
      have := hs.within b hb
      omega

theorem runGets_early {fuel : Nat} {lengths : List U64} {s s' : MemState} (hs : s.Early img)
    (hwrap : NoWrap lengths s.sbrk)
    (h : runGets (memGetPages env img fuel) lengths s = .ok s') : s'.Early img := by
  induction lengths generalizing s with
  | nil =>
    cases h
    exact hs
  | cons length lengths ih =>
    cases hget : memGetPages env img fuel length s with
    | error e =>
      rw [runGets, hget] at h
      cases h
    | ok r =>
      obtain ⟨p, s₁⟩ := r
      rw [runGets, hget] at h
      have hearly : earlyGetPages img length s = .ok (p, s₁) := by
        cases fuel with
        | zero => cases hget
        | succ fuel =>
          unfold memGetPages memBugOn at hget
          split at hget
          · cases hget
          · split at hget
            · cases hget
            · change (if s.early = true then _ else _) = _ at hget
              rwa [if_pos hs.early] at hget
      obtain ⟨hs₁, hsbrk⟩ := earlyGetPages_early hs hwrap.1 hearly
      exact ih hs₁ (hsbrk ▸ hwrap.2) h

/-! ### Blocks are handed out once -/

/-- The real address is in the hypervisor's image. -/
def Image.HasRa (img : Image) (a : Nat) : Prop :=
  img.start.toNat ≤ hvAspace.toNat + a ∧ hvAspace.toNat + a < img.end_.toNat

/-- A free list that `mem_init` may leave behind, with its nodes among the first `allocs`. -/
structure FreeList (img : Image) (l : List Range) (allocs : Nat) : Prop where
  ordered : Ordered l
  proper : Proper l
  below : ∀ r ∈ l, r.limit.toNat < hvAspace.toNat
  nodup : (nodes l).Nodup
  fresh : ∀ i ∈ nodes l, i < allocs
  image : ∀ a, Covers l a → ¬ img.HasRa a

/-- Nothing was handed out twice: `s` is the state after `mem_init`, with the free list `l`, and
`s'` the state after the calls. -/
structure HandedOnce (l : List Range) (s s' : MemState) : Prop where
  page : ∀ b ∈ s'.blocks, 4096 ∣ b.ptr.toNat
  apart : s'.blocks.Pairwise Block.Apart
  ordered : Ordered s'.ranges
  proper : Proper s'.ranges
  freed : s'.freed = s.freed
  keeps : ∀ i ∈ nodes l, i ∈ nodes s'.ranges
  late : ∃ bs, s'.blocks = s.blocks ++ bs ∧
    (∀ b ∈ bs, ∀ ea, b.Has ea → ∃ ra, ea = hvAspace.toNat + ra ∧ Covers l ra) ∧
    ∀ a, Covers s'.ranges a ↔ Covers l a ∧ ∀ b ∈ bs, ¬ b.HasRa a

/-- **Pages are handed out once.**  In a run of `mem_get_pages` calls before `mem_init`, where no
call makes `sbrk` wrap, and then of calls after it with any that the heap nests in them: no loop
meets a freed node, and where no assertion fires the blocks are page aligned and pairwise disjoint,
those after `mem_init` come from the free list, which loses just them and stays in order, and no
node of it is freed. -/
theorem memGetPages_once (env : MemEnv) (img : Image) (fuel : Nat) (early late : List U64)
    {l : List Range} {allocs : Nat} {s : MemState}
    (hrun : runGets (memGetPages env img fuel) early (bootMem img) = .ok s)
    (hwrap : NoWrap early img.earlyMemory) (hl : FreeList img l allocs) :
    Safe (HandedOnce l s) (runGets (memGetPages env img fuel) late (s.ready l allocs)) := by
  have hboot : (bootMem img).Early img :=
    ⟨rfl, le_refl _, Nat.le_add_right _ _, nofun, nofun, List.Pairwise.nil⟩
  have hearly := runGets_early hboot hwrap hrun
  have hready : (s.ready l allocs).Late :=
    ⟨rfl, hl.ordered, hl.proper, hl.below, hl.nodup, hl.fresh⟩
  refine (runGets_late (fun length s => memGetPages_late fuel length) late hready).imp ?_
  rintro s' ⟨bs, htook⟩
  have hblocks : s'.blocks = s.blocks ++ bs := htook.blocks
  refine ⟨fun b hb => ?_, ?_, htook.late.ordered, htook.late.proper, htook.freed, htook.keeps,
    bs, hblocks, htook.inFree, htook.covers⟩
  · rw [hblocks] at hb
    exact (List.mem_append.mp hb).elim (hearly.page b) (htook.page b)
  · rw [hblocks]
    refine List.pairwise_append.mpr ⟨hearly.apart, htook.apart, ?_⟩
    rintro b hb b' hb' ea ⟨h₁, h₂⟩ hea'
    obtain ⟨ra, rfl, hra⟩ := htook.inFree b' hb' ea hea'
    have := hearly.within b hb
    have := hearly.sbrk_le
    have := img.start_le
    have := img.le_end
    exact hl.image ra hra ⟨by omega, by omega⟩

/-- An image of two megabytes. -/
def sampleImage : Image where
  start := 0x8000000020010000
  end_ := 0x8000000020200000
  earlyMemory := 0x8000000020100000
  hv := by decide
  start_le := by decide
  le_end := by decide
  in_hv := by decide

/-- A heap that asks for two pages whenever it is to allocate the first node. -/
def sampleMemEnv : MemEnv where
  nest k := if k = 1 then [0x2000] else []
  null _ := false

theorem memGetPages_once_sample : ∃ s,
    runGets (memGetPages sampleMemEnv sampleImage 8) [0x1000] (bootMem sampleImage) = .ok s ∧
    Safe (HandedOnce [⟨0, 0x100800, 0x1fffff⟩] s)
      (runGets (memGetPages sampleMemEnv sampleImage 8) [0x1000]
        (s.ready [⟨0, 0x100800, 0x1fffff⟩] 1)) := by
  refine ⟨_, rfl, memGetPages_once sampleMemEnv sampleImage 8 [0x1000] [0x1000] rfl
    ⟨by decide, trivial⟩ ?_⟩
  refine ⟨List.pairwise_singleton _ _, ?_, ?_, by decide, by decide, ?_⟩
  · unfold Proper
    decide
  · decide
  · rintro a ⟨r, hr, h₁, h₂⟩ ⟨h₃, h₄⟩
    rw [List.mem_singleton.mp hr] at h₁ h₂
    have h₂ : a ≤ 0x1fffff := h₂
    have h₃ : 0x8000000020010000 ≤ 0x8000000000000000 + a := h₃
    omega

/-- A length that makes `sbrk` wrap passes the check, and the block after it is the first one's. -/
theorem memGetPages_twice : ¬ ∀ env img fuel early s,
    runGets (memGetPages env img fuel) early (bootMem img) = .ok s →
      s.blocks.Pairwise Block.Apart := by
  intro hall
  have h := hall sampleMemEnv sampleImage 8 [0x8000, 0xffffffffffffc000, 0x1000] _ rfl
  have hthird := (List.pairwise_cons.mp h).1 ⟨0x8000000020104000, 0x1000⟩ (by decide)
  exact hthird 0x8000000020104000 ⟨by decide, by decide⟩ ⟨by decide, by decide⟩

end Prephv
