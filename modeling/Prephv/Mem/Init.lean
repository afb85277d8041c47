import Prephv.Fdt.Nodes
import Prephv.Mem.Pages
import Prephv.Mmu.Ea

/-!
# Mem — Init

`mem_init` of `mem.c`, which makes the free list from the device tree: it adds the memory nodes, and
removes the hypervisor's image, the exception vectors, the device tree, the reserve map's entries
and the initrd.

`memInit_covers` says what is free after a run that returns `ERR_NONE`: the bytes added and not
removed, whatever the order of the nodes and wherever the removals cut.  The device tree is removed
by the size of its structure block, not by `totalsize`, so the header, the reserve map and the
strings stay free where nothing else holds them: `memInit_free_iff` is the exact condition on the
tree under which the free list is right.
-/

set_option autoImplicit false

namespace Prephv

/-! ### The source -/

/-- The code of the exception vectors, from `exc_base` to `exc_end`. -/
structure Vectors where
  excBase : U64
  excEnd : U64
  lt : excBase.toNat < excEnd.toNat

/-- A call of a function that has no memory errors. -/
def ofRes {α : Type} (x : Res α) : MemRes α := x.mapError .bug

/-- What `mem_init`'s loop reads of a memory node: its base and size. -/
def memoryReg (fdt : Fdt) (node : FdtInt) : MemRes (U64 × U64) := do
  let (prop, propLen) ← fdt.getprop node "reg"
  memBugOn (prop = none) "node %d has no reg property"
  memBugOn (propLen ≠ 16) "node %d reg has unexpected len %u"
  let prop := prop.getD 0
  .ok (be64 fdt.mem prop, be64 fdt.mem (prop + 8))

/-- The loop of `mem_init` over the memory nodes, from `node` on. -/
def memoryLoop (alloc : MemState → MemRes (Nat × MemState)) (fdt : Fdt) :
    Nat → FdtInt → Err → MemState → MemRes (Err × MemState)
  | 0, _, _, _ => .error .fuel
  | fuel + 1, node, status, s =>
    if node = -1 then .ok (status, s)
    else do
      let (base, size) ← memoryReg fdt node
      let s ← rangeAdd alloc base (base + size - 1) s
      let node ← fdt.nodeOffsetByDtype node "memory"
      memoryLoop alloc fdt fuel node .none s

/-- The loop of `mem_init` over `n` entries of the reserve map from `node` on.  The header's check
in `fdt_get_mem_rsv` is the one that the search for memory nodes has passed. -/
def rsvLoop (alloc : MemState → MemRes (Nat × MemState)) (fuel : Nat) (fdt : Fdt) :
    Nat → Nat → MemState → MemRes MemState
  | 0, _, s => .ok s
  | n + 1, node, s => do
    let base := fdt.rsvAddress node
    let size := fdt.rsvSize node
    let s ← rangeRemove alloc fuel base (base + size - 1) s
    rsvLoop alloc fuel fdt n (node + 1) s

/-- `mem_init`'s reading of the property `name` of `/chosen`: one cell, or two. -/
def initrdProp (fdt : Fdt) (node : FdtInt) (name : String) : MemRes U64 := do
  let (prop, propLen) ← fdt.getprop node name
  memBugOn (prop = none) ("node %d has no " ++ name ++ " property")
  memBugOn (propLen ≠ 4 ∧ propLen ≠ 8) "node %d reg has unexpected len %u"
  let prop := prop.getD 0
  .ok (if propLen = 4 then (be32 fdt.mem prop).setWidth 64 else be64 fdt.mem prop)

/-- The start and the end of the initrd. -/
def initrd (fdt : Fdt) : MemRes (U64 × U64) := do
  let node ← fdt.pathOffset ["chosen"]
  memBugOn (node = -1) "/chosen not found"
  let base ← initrdProp fdt node "linux,initrd-start"
  let end_ ← initrdProp fdt node "linux,initrd-end"
  .ok (base, end_)

/-- `mem_init`, after it found memory nodes. -/
def removeReserved (alloc : MemState → MemRes (Nat × MemState)) (img : Image) (vec : Vectors)
    (fuel : Nat) (fdt : Fdt) (s : MemState) : MemRes MemState := do
  let start ← ofRes (ptr2Ra img.start)
  let end_ ← ofRes (ptr2Ra img.end_)
  let s ← rangeRemove alloc fuel start (end_ - 1) s
  let s ← rangeRemove alloc fuel 0 (vec.excEnd - vec.excBase - 1) s
  let fdtRa ← ofRes (ptr2Ra fdt.ptr)
  let s ← rangeRemove alloc fuel fdtRa (fdtRa + fdt.sizeDtStruct.setWidth 64 - 1) s
  let resvCount ← fdt.numMemRsv
  let s ← rsvLoop alloc fuel fdt resvCount 0 s
  let (base, end_) ← initrd fdt
  let size := end_ - base
  rangeRemove alloc fuel base (base + size - 1) s

/-- `mem_init`. -/
def memInit (env : MemEnv) (img : Image) (vec : Vectors) (fuel : Nat) (fdt : Fdt) (s : MemState) :
    MemRes (Err × MemState) := do
  let alloc := rangeAlloc env (memGetPages env img fuel)
  let s := { s with ranges := [] }
  let node ← fdt.nodeOffsetByDtype (-1) "memory"
  let (status, s) ← memoryLoop alloc fdt fuel node .notFound s
  if status ≠ .none then .ok (status, s)
  else do
    let s ← removeReserved alloc img vec fuel fdt s
    .ok (status, { s with early := false })

/-! ### Bytes of the real address space -/

/-- The byte lies from `base` to `limit`, both included. -/
def Span (base limit : U64) (a : Nat) : Prop := base.toNat ≤ a ∧ a ≤ limit.toNat

/-- A memory node of the tree, with its base and size. -/
structure Fdt.MemoryNode (fdt : Fdt) (node : FdtInt) (base size : U64) : Prop where
  isNode : fdt.IsNode node
  dtype : fdt.HasDtype "memory" node
  reg : memoryReg fdt node = .ok (base, size)

/-- A byte of a memory node. -/
def Fdt.MemoryByte (fdt : Fdt) (a : Nat) : Prop :=
  ∃ node base size, fdt.MemoryNode node base size ∧
    base.toNat ≤ a ∧ a < base.toNat + size.toNat

/-- A byte that a memory node puts into the free list.  These are its own bytes, but for a node
whose base and size are zero: its last byte is `-1`, and it puts every byte. -/
def Fdt.AddsByte (fdt : Fdt) (a : Nat) : Prop :=
  ∃ node base size, fdt.MemoryNode node base size ∧ Span base (base + size - 1) a

/-- No two memory nodes share a byte. -/
def Fdt.MemoryDisjoint (fdt : Fdt) : Prop :=
  ∀ node base size node' base' size', fdt.MemoryNode node base size →
    fdt.MemoryNode node' base' size' → node ≠ node' →
    ∀ a, base.toNat ≤ a ∧ a < base.toNat + size.toNat →
      ¬ (base'.toNat ≤ a ∧ a < base'.toNat + size'.toNat)

/-- The byte lies in the exception vectors, at 0. -/
def Vectors.HasRa (vec : Vectors) (a : Nat) : Prop := a < vec.excEnd.toNat - vec.excBase.toNat

/-- The byte lies in a reservation of the tree. -/
def Fdt.RsvByte (fdt : Fdt) (a : Nat) : Prop :=
  ∃ n, fdt.IsRsv n ∧ (fdt.rsvAddress n).toNat ≤ a ∧
    a < (fdt.rsvAddress n).toNat + (fdt.rsvSize n).toNat

/-- The byte lies in the tree itself: `totalsize` bytes. -/
def Fdt.BlobByte (fdt : Fdt) (a : Nat) : Prop :=
  fdt.ptr.toNat ≤ hvAspace.toNat + a ∧ hvAspace.toNat + a < fdt.ptr.toNat + fdt.totalsize.toNat

/-- The byte lies in the initrd. -/
def Fdt.InitrdByte (fdt : Fdt) (a : Nat) : Prop :=
  ∃ start end_, initrd fdt = .ok (start, end_) ∧ start.toNat ≤ a ∧ a < end_.toNat

/-- The byte is in use, or has to be kept. -/
def Reserved (img : Image) (vec : Vectors) (fdt : Fdt) (a : Nat) : Prop :=
  img.HasRa a ∨ vec.HasRa a ∨ fdt.BlobByte a ∨ fdt.RsvByte a ∨ fdt.InitrdByte a

/-- The free list has no byte that is in use, and every other byte of the memory nodes. -/
def FreeRight (img : Image) (vec : Vectors) (fdt : Fdt) (l : List Range) : Prop :=
  (∀ a, Covers l a → ¬ Reserved img vec fdt a) ∧
    ∀ a, fdt.MemoryByte a → ¬ Reserved img vec fdt a → Covers l a

/-! ### Calls that return -/

section Calls

variable {alloc : MemState → MemRes (Nat × MemState)} {base limit : U64} {s s' : MemState}
  {env : MemEnv} {img : Image} {fuel : Nat}

/-- What is kept while `mem_init` runs. -/
structure MemState.Building (s : MemState) : Prop extends s.Nodes where
  early : s.early = true

theorem Safe.of_ok {α : Type} {Q : α → Prop} {x : MemRes α} {a : α} (h : Safe Q x)
    (hx : x = .ok a) : Q a := by
  rw [hx] at h
  exact h

/-- `mem_get_pages` calls before `mem_init` is through leave the free list alone. -/
theorem runGets_quiet (lengths : List U64) (hearly : s.early = true) :
    Safe (fun s' => s'.allocs = s.allocs ∧ s'.ranges = s.ranges ∧ s'.early = true)
      (runGets (memGetPages env img fuel) lengths s) := by
  induction lengths generalizing s with
  | nil => exact ⟨rfl, rfl, hearly⟩
  | cons length lengths ih =>
    have hget : Safe (fun r => r.2.allocs = s.allocs ∧ r.2.ranges = s.ranges ∧ r.2.early = true)
        (memGetPages env img fuel length s) := by
      cases fuel with
      | zero => nofun
      | succ fuel =>
        refine Safe.memBugOn fun _ => Safe.memBugOn fun _ => ?_
        rw [if_pos hearly]
        refine Safe.memBugOn fun _ => ?_
        exact ⟨rfl, rfl, hearly⟩
    refine Safe.bind hget ?_
    rintro ⟨p, s₁⟩ ⟨hallocs, hranges, hearly₁⟩
    refine (ih hearly₁).imp ?_
    rintro s' ⟨hallocs', hranges', hearly'⟩
    exact ⟨hallocs'.trans hallocs, hranges'.trans hranges, hearly'⟩

/-- `range_alloc` before `mem_init` is through. -/
theorem rangeAlloc_quiet : AllocQuiet (rangeAlloc env (memGetPages env img fuel)) := by
  intro s hearly
  have hnest : Safe (fun s' => s'.allocs = s.allocs + 1 ∧ s'.ranges = s.ranges ∧ s'.early = true)
      (runGets (memGetPages env img fuel) (env.nest s.allocs)
        { s with allocs := s.allocs + 1 }) := runGets_quiet _ hearly
  refine Safe.bind hnest ?_
  rintro s' ⟨hallocs, hranges, hearly'⟩
  refine Safe.memBugOn fun _ => ?_
  exact ⟨rfl, hallocs, hranges, hearly'⟩

theorem rangeAdd_ok (halloc : AllocQuiet alloc) (hs : s.Building)
    (h : rangeAdd alloc base limit s = .ok s') : base.toNat < limit.toNat ∧ s'.Building ∧
      ∀ a, Covers s'.ranges a ↔ Covers s.ranges a ∨ Span base limit a := by
  obtain ⟨hs', hearly, hcov⟩ := (rangeAdd_covers halloc hs.toNodes hs.early).of_ok h
  obtain ⟨l₁, l₂, r, -, -, -, -, hlt, -⟩ := (rangeAdd_split halloc hs.toNodes hs.early).of_ok h
  exact ⟨hlt, ⟨hs', hearly⟩, hcov⟩

theorem rangeRemove_ok (halloc : AllocQuiet alloc) (hs : s.Building)
    (h : rangeRemove alloc fuel base limit s = .ok s') : base.toNat < limit.toNat ∧ s'.Building ∧
      ∀ a, Covers s'.ranges a ↔ Covers s.ranges a ∧ ¬ Span base limit a := by
  obtain ⟨hs', hearly, hcov⟩ := (rangeRemove_covers halloc fuel hs.toNodes hs.early).of_ok h
  exact ⟨Nat.lt_of_not_le (memBugOn_bind_eq_ok.mp h).1, ⟨hs', hearly⟩, hcov⟩

end Calls

/-! ### The memory nodes -/

section Nodes

variable {alloc : MemState → MemRes (Nat × MemState)} {s s' : MemState} {fuel : Nat} {fdt : Fdt}
  {node : FdtInt} {status : Err}

theorem memoryReg_neg (hnode : node.neg = true) {r : U64 × U64} : memoryReg fdt node ≠ .ok r := by
  intro h
  obtain ⟨len, hprop⟩ : ∃ len, fdt.getprop node "reg" = .ok (none, len) :=
    Fdt.getprop_neg hnode "reg"
  obtain ⟨⟨prop, propLen⟩, hget, h⟩ := bind_eq_ok.mp h
  rw [hprop] at hget
  cases hget
  exact (memBugOn_bind_eq_ok.mp h).1 rfl

/-- The loop gets through an error of libfdt only when that is `-1`. -/
theorem memoryLoop_neg {r : Err × MemState} (hnode : node.neg = true)
    (h : memoryLoop alloc fdt fuel node status s = .ok r) : node = -1 := by
  cases fuel with
  | zero => cases h
  | succ fuel =>
    rw [memoryLoop] at h
    by_cases hend : node = -1
    · exact hend
    · rw [if_neg hend, bind_eq_ok] at h
      obtain ⟨reg, hreg, -⟩ := h
      exact absurd hreg (memoryReg_neg hnode)

/-- The loop adds the memory nodes from its node on. -/
theorem memoryLoop_covers (halloc : AllocQuiet alloc) (hs : s.Building) {status' : Err}
    (hnode : node.neg = false → fdt.HasDtype "memory" node)
    (h : memoryLoop alloc fdt fuel node status s = .ok (status', s')) :
    s'.Building ∧
    (∀ q base size, fdt.From node q → fdt.HasDtype "memory" q →
      memoryReg fdt q = .ok (base, size) → base.toNat < (base + size - 1).toNat) ∧
    ∀ a, Covers s'.ranges a ↔ Covers s.ranges a ∨ ∃ q base size, fdt.From node q ∧
      fdt.HasDtype "memory" q ∧ memoryReg fdt q = .ok (base, size) ∧
      Span base (base + size - 1) a := by
  induction fuel generalizing node status s with
  | zero => cases h
  | succ fuel ih =>
    by_cases hneg : node.neg = true
    · have hend := memoryLoop_neg hneg h
      rw [memoryLoop, if_pos hend] at h
      cases h
      refine ⟨hs, fun q _ _ hq => absurd hq (Fdt.not_from_neg hneg), fun a => ?_⟩
      refine ⟨Or.inl, fun hc => hc.resolve_right ?_⟩
      rintro ⟨q, _, _, hq, -⟩
      exact Fdt.not_from_neg hneg hq
    · have hpos : node.neg = false := Bool.eq_false_iff.mpr hneg
      have hne : node ≠ -1 := fun e => hneg (by rw [e]; decide)
      rw [memoryLoop, if_neg hne, bind_eq_ok] at h
      obtain ⟨⟨base, size⟩, hreg, h⟩ := h
      obtain ⟨s₁, hadd, h⟩ := bind_eq_ok.mp h
      obtain ⟨r, hr, h⟩ := bind_eq_ok.mp h
      obtain ⟨hlt, hs₁, hcov₁⟩ := rangeAdd_ok halloc hs hadd
      obtain ⟨-, hafter, hdtype⟩ :=
        Fdt.nodeOffsetByDtype_spec hr fun hrneg => memoryLoop_neg hrneg h
      obtain ⟨hs', hlt', hcov'⟩ := ih hs₁ hdtype h
      -- the memory nodes from here on are this one and those from the next one on
      have hfrom : ∀ q, fdt.HasDtype "memory" q → (fdt.From node q ↔ q = node ∨ fdt.From r q) :=
        fun q hq => by rw [Fdt.from_iff_after hpos, hafter q hq]
      refine ⟨hs', fun q b sz hq hqd hqr => ?_, fun a => ?_⟩
      · rcases (hfrom q hqd).mp hq with rfl | hq
        · rw [hreg] at hqr
          cases hqr
          exact hlt
        · exact hlt' q b sz hq hqd hqr
      · rw [hcov', hcov₁, or_assoc]
        refine or_congr_right ⟨?_, ?_⟩
        · rintro (ha | ⟨q, b, sz, hq, hqd, hqr, ha⟩)
          · exact ⟨node, base, size, .here hpos, hnode hpos, hreg, ha⟩
          · exact ⟨q, b, sz, (hfrom q hqd).mpr (Or.inr hq), hqd, hqr, ha⟩
        · rintro ⟨q, b, sz, hq, hqd, hqr, ha⟩
          rcases (hfrom q hqd).mp hq with rfl | hq
          · rw [hreg] at hqr
            cases hqr
            exact Or.inl ha
          · exact Or.inr ⟨q, b, sz, hq, hqd, hqr, ha⟩

end Nodes

/-! ### The reservations -/

section Reservations

variable {alloc : MemState → MemRes (Nat × MemState)} {s s' : MemState} {fuel : Nat} {fdt : Fdt}

/-- The loop removes its entries. -/
theorem rsvLoop_covers (halloc : AllocQuiet alloc) {n node : Nat} (hs : s.Building)
    (h : rsvLoop alloc fuel fdt n node s = .ok s') :
    s'.Building ∧
    (∀ j, node ≤ j → j < node + n →
      (fdt.rsvAddress j).toNat < (fdt.rsvAddress j + fdt.rsvSize j - 1).toNat) ∧
    ∀ a, Covers s'.ranges a ↔ Covers s.ranges a ∧ ∀ j, node ≤ j → j < node + n →
      ¬ Span (fdt.rsvAddress j) (fdt.rsvAddress j + fdt.rsvSize j - 1) a := by
  induction n generalizing node s with
  | zero =>
    cases h
    refine ⟨hs, fun j h₁ h₂ => by omega, fun a => ?_⟩
    exact ⟨fun hc => ⟨hc, fun j h₁ h₂ => by omega⟩, And.left⟩
  | succ n ih =>
    obtain ⟨s₁, hrm, h⟩ := bind_eq_ok.mp h
    obtain ⟨hlt, hs₁, hcov₁⟩ := rangeRemove_ok halloc hs hrm
    obtain ⟨hs', hlt', hcov'⟩ := ih hs₁ h
    refine ⟨hs', fun j h₁ h₂ => ?_, fun a => ?_⟩
    · rcases Nat.eq_or_lt_of_le h₁ with rfl | h₁
      · exact hlt
      · exact hlt' j h₁ (by omega)
    · rw [hcov', hcov₁, and_assoc]
      refine and_congr_right fun _ => ⟨fun ⟨hno, hall⟩ j h₁ h₂ => ?_, fun hall => ?_⟩
      · rcases Nat.eq_or_lt_of_le h₁ with rfl | h₁
        · exact hno
        · exact hall j h₁ (by omega)
      · exact ⟨hall node (Nat.le_refl _) (by omega), fun j h₁ h₂ => hall j (by omega) (by omega)⟩

/-- The last byte of what starts at `base` and has `size` bytes, where it is beyond `base`. -/
theorem limit_toNat {base size : U64} (hlt : base.toNat < (base + size - 1).toNat)
    (hsize : size ≠ 0) : (base + size - 1).toNat = base.toNat + size.toNat - 1 := by
  have hpos : size.toNat ≠ 0 := fun e => hsize (BitVec.eq_of_toNat_eq e)
  have hb := base.isLt
  have hsz := size.isLt
  simp only [BitVec.toNat_sub, BitVec.toNat_add, BitVec.ofNat_eq_ofNat, BitVec.toNat_ofNat] at hlt ⊢
  omega

/-- The reserve map's entries, by the last bytes that the loop computes. -/
theorem rsv_spans {count : Nat} (hcount : fdt.numMemRsv = .ok count)
    (hlt : ∀ j, 0 ≤ j → j < 0 + count →
      (fdt.rsvAddress j).toNat < (fdt.rsvAddress j + fdt.rsvSize j - 1).toNat) (a : Nat) :
    (∀ j, 0 ≤ j → j < 0 + count →
      ¬ Span (fdt.rsvAddress j) (fdt.rsvAddress j + fdt.rsvSize j - 1) a) ↔ ¬ fdt.RsvByte a := by
  have hspan : ∀ j, j < count → (Span (fdt.rsvAddress j) (fdt.rsvAddress j + fdt.rsvSize j - 1) a ↔
      (fdt.rsvAddress j).toNat ≤ a ∧ a < (fdt.rsvAddress j).toNat + (fdt.rsvSize j).toNat) := by
    intro j hj
    have hsize := (Fdt.numMemRsv_spec hcount).mp hj j (Nat.le_refl j)
    have hj := hlt j (Nat.zero_le j) (by omega)
    have hlimit := limit_toNat hj hsize
    rw [Span, hlimit]
    omega
  constructor
  · rintro hall ⟨j, hj, ha⟩
    have hj := (Fdt.numMemRsv_spec hcount).mpr hj
    exact hall j (Nat.zero_le j) (by omega) ((hspan j hj).mpr ha)
  · intro hno j _ hj ha
    have hj : j < count := by omega
    exact hno ⟨j, (Fdt.numMemRsv_spec hcount).mp hj, (hspan j hj).mp ha⟩

end Reservations

/-! ### The free list after `mem_init` -/

section Init

variable {env : MemEnv} {img : Image} {vec : Vectors} {fuel : Nat} {fdt : Fdt} {s s' : MemState}

/-- The byte lies in what `mem_init` removes for the tree: from its start, as many bytes as its
structure block has. -/
def Fdt.StructByte (fdt : Fdt) (a : Nat) : Prop :=
  Span (fdt.ptr &&& ~~~hvAspace)
    ((fdt.ptr &&& ~~~hvAspace) + fdt.sizeDtStruct.setWidth 64 - 1) a

/-- The byte lies in what `mem_init` removes for the initrd.  These are the initrd's bytes, but
where its end is zero. -/
def Fdt.InitrdSpan (fdt : Fdt) (a : Nat) : Prop :=
  ∃ start end_, initrd fdt = .ok (start, end_) ∧ Span start (end_ - 1) a

theorem ofRes_eq_ok {α : Type} {x : Res α} {a : α} : ofRes x = .ok a ↔ x = .ok a := by
  cases x with
  | error e => simp [ofRes, Except.mapError]
  | ok b => simp [ofRes, Except.mapError]

/-- `ptr_2_ra` of an address in HV space. -/
theorem ofRes_ptr2Ra {ea ra : U64} (h : ofRes (ptr2Ra ea) = .ok ra) :
    ra = ea &&& ~~~hvAspace ∧ hvAspace.toNat + ra.toNat = ea.toNat := by
  obtain ⟨hle, rfl⟩ := ptr2Ra_eq_ok.mp (ofRes_eq_ok.mp h)
  have hle : 0x8000000000000000 ≤ ea.toNat := hle
  have hlt := ea.isLt
  refine ⟨rfl, ?_⟩
  rw [and_not_hvAspace]
  show 0x8000000000000000 + _ = _
  omega

/-- What is removed from the memory nodes' bytes, and that the initrd is not empty. -/
theorem removeReserved_covers {alloc : MemState → MemRes (Nat × MemState)}
    (halloc : AllocQuiet alloc) (hs : s.Building)
    (h : removeReserved alloc img vec fuel fdt s = .ok s') :
    hvAspace.toNat ≤ fdt.ptr.toNat ∧ (∃ start end_, initrd fdt = .ok (start, end_)) ∧
      ∀ a, Covers s'.ranges a ↔ Covers s.ranges a ∧ ¬ img.HasRa a ∧ ¬ vec.HasRa a ∧
        ¬ fdt.StructByte a ∧ ¬ fdt.RsvByte a ∧ ¬ fdt.InitrdSpan a := by
  obtain ⟨start, hstart, h⟩ := bind_eq_ok.mp h
  obtain ⟨end_, hend, h⟩ := bind_eq_ok.mp h
  obtain ⟨s₁, himg, h⟩ := bind_eq_ok.mp h
  obtain ⟨s₂, hvec, h⟩ := bind_eq_ok.mp h
  obtain ⟨fdtRa, hfdt, h⟩ := bind_eq_ok.mp h
  obtain ⟨s₃, htree, h⟩ := bind_eq_ok.mp h
  obtain ⟨count, hcount, h⟩ := bind_eq_ok.mp h
  obtain ⟨s₄, hrsv, h⟩ := bind_eq_ok.mp h
  obtain ⟨⟨istart, iend⟩, hinitrd, h⟩ := bind_eq_ok.mp h
  obtain ⟨hltimg, hs₁, hcov₁⟩ := rangeRemove_ok halloc hs himg
  obtain ⟨hltvec, hs₂, hcov₂⟩ := rangeRemove_ok halloc hs₁ hvec
  obtain ⟨-, hs₃, hcov₃⟩ := rangeRemove_ok halloc hs₂ htree
  obtain ⟨hs₄, hltrsv, hcov₄⟩ := rsvLoop_covers halloc hs₃ hrsv
  obtain ⟨-, -, hcov⟩ := rangeRemove_ok halloc hs₄ h
  obtain ⟨-, hstart⟩ := ofRes_ptr2Ra hstart
  obtain ⟨-, hend⟩ := ofRes_ptr2Ra hend
  obtain ⟨rfl, hfdt⟩ := ofRes_ptr2Ra hfdt
  refine ⟨by omega, ⟨istart, iend, hinitrd⟩, fun a => ?_⟩
  have h₁ : Span start (end_ - 1) a ↔ img.HasRa a := by
    have hle := img.start_le
    have hle' := img.le_end
    have hearly : earlyMemorySize.toNat = 0x40000 := rfl
    have hpred : (end_ - 1).toNat = end_.toNat - 1 := pred_toNat (by omega)
    rw [Span, hpred, Image.HasRa]
    have : earlyMemorySize.toNat = 0x40000 := rfl
    omega
  have h₂ : Span 0 (vec.excEnd - vec.excBase - 1) a ↔ vec.HasRa a := by
    have hlt := vec.lt
    have hsize : (vec.excEnd - vec.excBase).toNat = vec.excEnd.toNat - vec.excBase.toNat :=
      BitVec.toNat_sub_of_le (BitVec.le_def.mpr (Nat.le_of_lt hlt))
    have hpred : (vec.excEnd - vec.excBase - 1).toNat =
        vec.excEnd.toNat - vec.excBase.toNat - 1 := by
      rw [BitVec.toNat_sub_of_le (BitVec.le_def.mpr (by
        show 1 ≤ (vec.excEnd - vec.excBase).toNat
        omega)), hsize]
      rfl
    rw [Span, hpred, Vectors.HasRa]
    show 0 ≤ a ∧ _ ↔ _
    omega
  have h₅ : Span istart (istart + (iend - istart) - 1) a ↔ fdt.InitrdSpan a := by
    have hlimit : istart + (iend - istart) = iend := by
      rw [BitVec.add_comm, BitVec.sub_add_cancel]
    rw [hlimit]
    constructor
    · intro ha
      exact ⟨istart, iend, hinitrd, ha⟩
    · rintro ⟨_, _, h', ha⟩
      rw [hinitrd] at h'
      cases h'
      exact ha
  rw [hcov, hcov₄, hcov₃, hcov₂, hcov₁, rsv_spans hcount hltrsv a, h₁, h₂, h₅]
  simp only [and_assoc]
  rfl

/-- **The free list after `mem_init`.**  Where it returns `ERR_NONE`, the list holds the bytes that
the memory nodes put, without those of the image, the vectors, what is removed for the tree, the
reservations and what is removed for the initrd. -/
theorem memInit_covers (h : memInit env img vec fuel fdt (bootMem img) = .ok (.none, s')) :
    (∀ node base size, fdt.MemoryNode node base size → base.toNat < (base + size - 1).toNat) ∧
    hvAspace.toNat ≤ fdt.ptr.toNat ∧ (∃ start end_, initrd fdt = .ok (start, end_)) ∧
    ∀ a, Covers s'.ranges a ↔ fdt.AddsByte a ∧ ¬ img.HasRa a ∧ ¬ vec.HasRa a ∧
      ¬ fdt.StructByte a ∧ ¬ fdt.RsvByte a ∧ ¬ fdt.InitrdSpan a := by
  obtain ⟨r, hr, h⟩ := bind_eq_ok.mp h
  obtain ⟨⟨status, s₁⟩, hloop, h⟩ := bind_eq_ok.mp h
  have hboot : (bootMem img).Building := ⟨⟨nofun, List.nodup_nil, nofun⟩, rfl⟩
  obtain ⟨-, hafter, hdtype⟩ := Fdt.nodeOffsetByDtype_spec hr fun hneg => memoryLoop_neg hneg hloop
  obtain ⟨hs₁, hlt, hcov₁⟩ := memoryLoop_covers rangeAlloc_quiet hboot hdtype hloop
  dsimp only at h
  by_cases hstatus : status ≠ .none
  · rw [if_pos hstatus] at h
    cases h
    exact absurd rfl hstatus
  rw [if_neg hstatus] at h
  obtain ⟨s₂, hremove, h⟩ := bind_eq_ok.mp h
  cases h
  obtain ⟨hptr, hinitrd, hcov⟩ := removeReserved_covers rangeAlloc_quiet hs₁ hremove
  refine ⟨fun node base size hnode => ?_, hptr, hinitrd, fun a => (hcov a).trans ?_⟩
  · exact hlt node base size ((hafter node hnode.dtype).mp hnode.isNode) hnode.dtype hnode.reg
  · refine and_congr_left fun _ => ?_
    rw [hcov₁]
    constructor
    · rintro (⟨r, hr, -⟩ | ⟨q, base, size, hq, hqd, hqr, ha⟩)
      · cases hr
      · exact ⟨q, base, size, ⟨(hafter q hqd).mpr hq, hqd, hqr⟩, ha⟩
    · rintro ⟨q, base, size, hq, ha⟩
      exact Or.inr ⟨q, base, size, (hafter q hq.dtype).mp hq.isNode, hq.dtype, hq.reg, ha⟩

/-- What `mem_init` gets wrong by its sizes is set right by the rest of the tree.  The first field
is the one a tree can fail: a byte of it past the size of its structure block is held by something
else. The second holds where `size_dt_struct` is not greater than `totalsize`, and the third where
the initrd's end is not zero. -/
structure TreeHeld (img : Image) (vec : Vectors) (fdt : Fdt) : Prop where
  tail : ∀ a, fdt.AddsByte a → fdt.BlobByte a → ¬ fdt.StructByte a →
    img.HasRa a ∨ vec.HasRa a ∨ fdt.RsvByte a ∨ fdt.InitrdSpan a
  struct : ∀ a, fdt.MemoryByte a → fdt.StructByte a → Reserved img vec fdt a
  initrd : ∀ a, fdt.MemoryByte a → fdt.InitrdSpan a → Reserved img vec fdt a

/-- **Where the free list is right.**  After a run that returns `ERR_NONE`, no free byte is reserved
and every other byte of the memory nodes is free just when what `mem_init` gets wrong by its sizes
is set right by the rest of the tree. -/
theorem memInit_free_iff (h : memInit env img vec fuel fdt (bootMem img) = .ok (.none, s')) :
    FreeRight img vec fdt s'.ranges ↔ TreeHeld img vec fdt := by
  obtain ⟨hlt, -, ⟨start, end_, hinitrd⟩, hcov⟩ := memInit_covers h
  have hadds : ∀ a, fdt.MemoryByte a → fdt.AddsByte a := by
    rintro a ⟨node, base, size, hnode, h₁, h₂⟩
    have hsize : size ≠ 0 := by
      rintro rfl
      have h₂ : a < base.toNat + 0 := h₂
      omega
    have hlimit := limit_toNat (hlt node base size hnode) hsize
    exact ⟨node, base, size, hnode, h₁, by omega⟩
  constructor
  · rintro ⟨hno, hall⟩
    refine ⟨fun a hadd hblob hstruct => ?_, fun a hmem hstruct => ?_, fun a hmem hspan => ?_⟩
    · by_contra hnot
      simp only [not_or] at hnot
      obtain ⟨himg, hvec, hrsv, hspan⟩ := hnot
      exact hno a ((hcov a).mpr ⟨hadd, himg, hvec, hstruct, hrsv, hspan⟩)
        (Or.inr (Or.inr (Or.inl hblob)))
    · by_contra hnot
      obtain ⟨-, -, -, hnstruct, -⟩ := (hcov a).mp (hall a hmem hnot)
      exact hnstruct hstruct
    · by_contra hnot
      obtain ⟨-, -, -, -, -, hnspan⟩ := (hcov a).mp (hall a hmem hnot)
      exact hnspan hspan
  · rintro ⟨htail, hstruct, hspan⟩
    refine ⟨fun a ha hres => ?_, fun a hmem hnot => ?_⟩
    · obtain ⟨hadd, himg, hvec, hnstruct, hrsv, hnspan⟩ := (hcov a).mp ha
      rcases hres with hres | hres | hres | hres | ⟨st, en, hi, h₁, h₂⟩
      · exact himg hres
      · exact hvec hres
      · rcases htail a hadd hres hnstruct with hres | hres | hres | hres
        · exact himg hres
        · exact hvec hres
        · exact hrsv hres
        · exact hnspan hres
      · exact hrsv hres
      · refine hnspan ⟨st, en, hi, h₁, ?_⟩
        rw [BitVec.toNat_sub_of_le (BitVec.le_def.mpr (by show 1 ≤ en.toNat; omega))]
        show a ≤ en.toNat - 1
        omega
    · refine (hcov a).mpr ⟨hadds a hmem, fun hx => ?_, fun hx => ?_, fun hx => ?_, fun hx => ?_,
        fun hx => ?_⟩
      · exact hnot (Or.inl hx)
      · exact hnot (Or.inr (Or.inl hx))
      · exact hnot (hstruct a hmem hx)
      · exact hnot (Or.inr (Or.inr (Or.inr (Or.inl hx))))
      · exact hnot (hspan a hmem hx)

/-- Of a tree whose structure block is not empty and not larger than the tree, and an initrd whose
end is not zero, only the first field of `TreeHeld` asks anything. -/
theorem treeHeld_iff (hptr : hvAspace.toNat ≤ fdt.ptr.toNat) (hpos : 0 < fdt.sizeDtStruct.toNat)
    (hle : fdt.sizeDtStruct.toNat ≤ fdt.totalsize.toNat)
    (hend : ∀ start end_, initrd fdt = .ok (start, end_) → end_ ≠ 0) :
    TreeHeld img vec fdt ↔ ∀ a, fdt.AddsByte a → fdt.BlobByte a → ¬ fdt.StructByte a →
      img.HasRa a ∨ vec.HasRa a ∨ fdt.RsvByte a ∨ fdt.InitrdSpan a := by
  refine ⟨TreeHeld.tail, fun htail => ⟨htail, fun a _ ha => ?_, fun a _ ha => ?_⟩⟩
  · refine Or.inr (Or.inr (Or.inl ?_))
    obtain ⟨h₁, h₂⟩ := ha
    have hptr : 0x8000000000000000 ≤ fdt.ptr.toNat := hptr
    have hsize := fdt.sizeDtStruct.isLt
    have hlt := fdt.ptr.isLt
    have hra := and_not_hvAspace fdt.ptr
    have hlimit : ((fdt.ptr &&& ~~~hvAspace) + fdt.sizeDtStruct.setWidth 64 - 1).toNat =
        (fdt.ptr &&& ~~~hvAspace).toNat + fdt.sizeDtStruct.toNat - 1 := by
      rw [BitVec.toNat_sub, BitVec.toNat_add, BitVec.toNat_setWidth]
      show (2 ^ 64 - 1 + _) % 2 ^ 64 = _
      omega
    show fdt.ptr.toNat ≤ 0x8000000000000000 + a ∧ 0x8000000000000000 + a < _
    omega
  · obtain ⟨start, end_, hinitrd, h₁, h₂⟩ := ha
    have hne := hend start end_ hinitrd
    have hpos : end_.toNat ≠ 0 := fun e => hne (BitVec.eq_of_toNat_eq e)
    refine Or.inr (Or.inr (Or.inr (Or.inr ⟨start, end_, hinitrd, h₁, ?_⟩)))
    rw [BitVec.toNat_sub_of_le (BitVec.le_def.mpr (by show 1 ≤ end_.toNat; omega))] at h₂
    have h₂ : a ≤ end_.toNat - 1 := h₂
    omega

/-! ### A tree whose strings stay free -/

/-- A tree of 236 bytes with a memory node of a gigabyte and an initrd: the header, an empty reserve
map, the 128 bytes of the structure block, and the strings. -/
def sampleBlob : List (BitVec 8) :=
  wordBytes [
    0xd00dfeed, 236, 56, 184, 40, 17, 16, 0, 52, 128,
    0, 0, 0, 0,
    1, 0,
    1, 0x6d656d6f, 0x72790000, 3, 7, 0, 0x6d656d6f, 0x72790000, 3, 16, 12, 0, 0, 0, 0x40000000, 2,
    1, 0x63686f73, 0x656e0000, 3, 4, 16, 0x10000000, 3, 4, 35, 0x11000000, 2,
    2, 9] ++
  ascii "device_type" ++ [0] ++ ascii "reg" ++ [0] ++ ascii "linux,initrd-start" ++ [0] ++
    ascii "linux,initrd-end" ++ [0]

/-- The tree at the real address `0x30000000`. -/
def sampleTree : Fdt where
  mem p := sampleBlob.getD (p - 0x8000000030000000).toNat 0
  ptr := 0x8000000030000000

def sampleVectors : Vectors where
  excBase := 0x8000000020010000
  excEnd := 0x8000000020012000
  lt := by decide

/-- The tree has one memory node. -/
theorem sampleTree_memoryNode {node : FdtInt} {base size : U64}
    (h : sampleTree.MemoryNode node base size) : node = 8 := by
  have hfirst : sampleTree.nodeOffsetByDtype (-1) "memory" = .ok 8 := rfl
  have hlast : sampleTree.nodeOffsetByDtype 8 "memory" = .ok (-1) := rfl
  obtain ⟨-, hafter, -⟩ := Fdt.nodeOffsetByDtype_spec hfirst fun h => by cases h
  obtain ⟨-, hafter', -⟩ := Fdt.nodeOffsetByDtype_spec hlast fun _ => rfl
  have hfrom := (hafter node h.dtype).mp h.isNode
  rcases (Fdt.from_iff_after rfl).mp hfrom with rfl | hfrom
  · rfl
  · exact absurd ((hafter' node h.dtype).mp hfrom) (Fdt.not_from_neg rfl)

/-- What `mem_init` makes of the tree. -/
def sampleReady : MemState where
  early := false
  sbrk := 0x8000000020102000
  ranges := [⟨3, 0x2000, 0xfffffff⟩, ⟨1, 0x11000000, 0x2000ffff⟩, ⟨2, 0x20200000, 0x2fffffff⟩,
    ⟨0, 0x30000080, 0x3fffffff⟩]
  allocs := 4
  freed := []
  blocks := [⟨0x8000000020100000, 0x2000⟩]

theorem sampleRun :
    memInit sampleMemEnv sampleImage sampleVectors 16 sampleTree (bootMem sampleImage) =
      .ok (.none, sampleReady) := by decide +kernel

theorem memInit_free_iff_sample :
    FreeRight sampleImage sampleVectors sampleTree sampleReady.ranges ↔
      TreeHeld sampleImage sampleVectors sampleTree :=
  memInit_free_iff sampleRun

/-- After `mem_init` the strings of the tree are free memory. -/
theorem memInit_frees_strings : ¬ ∀ env img vec fuel fdt s',
    memInit env img vec fuel fdt (bootMem img) = .ok (.none, s') → fdt.MemoryDisjoint →
      FreeRight img vec fdt s'.ranges := by
  intro hall
  have hdis : sampleTree.MemoryDisjoint := by
    intro node base size node' base' size' hnode hnode' hne
    rw [sampleTree_memoryNode hnode, sampleTree_memoryNode hnode'] at hne
    exact absurd rfl hne
  have h := hall sampleMemEnv sampleImage sampleVectors 16 sampleTree sampleReady sampleRun hdis
  -- a byte of the strings, in the last free range
  have hfree : Covers sampleReady.ranges 0x300000e0 :=
    ⟨⟨0, 0x30000080, 0x3fffffff⟩, by decide, by decide, by decide⟩
  have htotal : sampleTree.totalsize = 236 := rfl
  refine h.1 0x300000e0 hfree (Or.inr (Or.inr (Or.inl ⟨by decide, ?_⟩)))
  rw [htotal]
  decide

end Init

end Prephv
