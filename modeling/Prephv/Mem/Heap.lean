import Prephv.Mem.Fit

/-!
# Mem — Heap

`mmap_alloc` and `sys_alloc` of `lib/malloc.c`, which get their memory from `mem_get_pages`, and
what they do when it has none.

The heap takes the pointer of all ones, `MFAIL`, for a failure.  `mem_get_pages` returns `NULL`,
after an assertion on `NULL` that never fires, and both functions go on with a region at address 0
(`memGetPages_unreported`).

`malloc.c` is built without `MORECORE`, `FOOTERS`, `DEBUG` and locks, and with one heap.  The stores
are those to the chunks of the region.  `sys_alloc` of a heap that has a top chunk joins the region
to the segments it has; the model stops there, with the region.
-/

set_option autoImplicit false

namespace Prephv

/-! ### The source -/

/-- `MFAIL`. -/
def mfail : U64 := -1

/-- A pointer that `mem_get_pages` returns. -/
def getPtr : Option U64 → U64
  | none => 0
  | some ptr => ptr

/-- `MALLOC_ALIGNMENT` and `CHUNK_ALIGN_MASK`. -/
def mallocAlignment : U64 := 16
def chunkAlignMask : U64 := mallocAlignment - 1

/-- `SIX_SIZE_T_SIZES`, `MMAP_FOOT_PAD` and `FENCEPOST_HEAD`. -/
def sixSizeTSizes : U64 := 48
def mmapFootPad : U64 := 32
def fencepostHead : U64 := 11

/-- `chunk2mem`. -/
def chunk2mem (p : U64) : U64 := p + 16

/-- `align_offset`. -/
def alignOffset (a : U64) : U64 :=
  if a &&& chunkAlignMask = 0 then 0
  else (mallocAlignment - (a &&& chunkAlignMask)) &&& chunkAlignMask

/-- `pad_request`. -/
def padRequest (req : U64) : U64 := (req + 8 + chunkAlignMask) &&& ~~~chunkAlignMask

/-- `MIN_CHUNK_SIZE`, of the four words of `malloc_chunk`. -/
def minChunkSize : U64 := (32 + chunkAlignMask) &&& ~~~chunkAlignMask

/-- `TOP_FOOT_SIZE`, with the four words of `malloc_segment`, and `SYS_ALLOC_PADDING`. -/
def topFootSize : U64 := alignOffset (chunk2mem 0) + padRequest 32 + minChunkSize
def sysAllocPadding : U64 := topFootSize + mallocAlignment

/-- `mparams`. -/
structure MallocParams where
  pageSize : U64
  granularity : U64
  mmapThreshold : U64
  trimThreshold : U64
  deriving DecidableEq, Repr

/-- The `mparams` of `init_mparams`. -/
def initMparams : MallocParams where
  pageSize := 4096
  granularity := 0x10000
  mmapThreshold := 0x40000
  trimThreshold := 0x200000

/-- `malloc_state`: what the two functions use of it. -/
structure MallocState where
  useMmap : Bool
  top : U64
  topsize : U64
  leastAddr : U64
  trimCheck : U64
  footprint : U64
  maxFootprint : U64
  footprintLimit : U64
  deriving DecidableEq, Repr

/-- Memory that the heap returns: its address, and the words stored to the chunks. -/
structure Chunk where
  mem : U64
  stores : List (U64 × U64)
  deriving DecidableEq, Repr

/-- `mmap_align`, which is `page_align`, and `granularity_align`. -/
def mmapAlign (mparams : MallocParams) (s : U64) : U64 :=
  (s + (mparams.pageSize - 1)) &&& ~~~(mparams.pageSize - 1)
def granularityAlign (mparams : MallocParams) (s : U64) : U64 :=
  (s + (mparams.granularity - 1)) &&& ~~~(mparams.granularity - 1)

/-- The check of `footprint_limit`. -/
def MallocState.overLimit (m : MallocState) (size : U64) : Bool :=
  let fp := m.footprint + size
  decide (m.footprintLimit ≠ 0) &&
    (decide (fp ≤ m.footprint) || decide (fp > m.footprintLimit))

/-- `m->footprint += size`, and `max_footprint` with it. -/
def MallocState.grow (m : MallocState) (size : U64) : MallocState :=
  let fp := m.footprint + size
  { m with
    footprint := fp
    maxFootprint := if fp > m.maxFootprint then fp else m.maxFootprint }

def MallocState.least (m : MallocState) (addr : U64) : MallocState :=
  if m.leastAddr = 0 ∨ addr < m.leastAddr then { m with leastAddr := addr } else m

/-- `mmsize` in `mmap_alloc`. -/
def mmapSize (mparams : MallocParams) (nb : U64) : U64 :=
  mmapAlign mparams (nb + sixSizeTSizes + chunkAlignMask)

/-- The chunk that `mmap_alloc` sets up in the region at `mm`. -/
def mmapChunk (mm mmsize : U64) : Chunk :=
  let offset := alignOffset (chunk2mem mm)
  let psize := mmsize - offset - mmapFootPad
  let p := mm + offset
  ⟨chunk2mem p, [(p, offset), (p + 8, psize), (p + psize + 8, fencepostHead),
    (p + (psize + 8) + 8, 0)]⟩

/-- `mmap_alloc`: `none` where it returns 0. -/
def mmapAlloc (get : U64 → MemState → MemRes (Option U64 × MemState)) (mparams : MallocParams)
    (m : MallocState) (nb : U64) (s : MemState) :
    MemRes (Option Chunk × MallocState × MemState) := do
  let mmsize := mmapSize mparams nb
  if m.overLimit mmsize then .ok (none, m, s)
  else if mmsize > nb then
    let (mm, s) ← get mmsize s
    -- the only check on `mm`: `NULL` passes it
    if getPtr mm ≠ mfail then
      .ok (some (mmapChunk (getPtr mm) mmsize), (m.least (getPtr mm)).grow mmsize, s)
    else .ok (none, m, s)
  else .ok (none, m, s)

/-- `init_top`, with its stores. -/
def initTop (mparams : MallocParams) (m : MallocState) (p psize : U64) :
    MallocState × List (U64 × U64) :=
  let offset := alignOffset (chunk2mem p)
  let p := p + offset
  let psize := psize - offset
  ({ m with top := p, topsize := psize, trimCheck := mparams.trimThreshold },
    [(p + 8, psize ||| 1), (p + psize + 8, topFootSize)])

/-- What `sys_alloc` comes to: it returns 0, or memory, or it has a region for a heap that has
segments already. -/
inductive SysAlloc where
  | fail
  | chunk (c : Chunk)
  | segment (tbase tsize : U64)
  deriving DecidableEq, Repr

/-- `sys_alloc` from where it has a region. -/
def sysAllocRegion (mparams : MallocParams) (m : MallocState) (nb tbase tsize : U64) :
    SysAlloc × MallocState :=
  let m := m.grow tsize
  if m.top = 0 then
    -- `! is_initialized(m)`
    let (m, stores) := initTop mparams (m.least tbase) tbase (tsize - topFootSize)
    if nb < m.topsize then
      -- the memory is the lower end of the new top chunk
      let rsize := m.topsize - nb
      let p := m.top
      let r := p + nb
      (.chunk ⟨chunk2mem p, stores ++ [(r + 8, rsize ||| 1), (p + 8, nb ||| 3)]⟩,
        { m with top := r, topsize := rsize })
    else (.fail, m)
  else (.segment tbase tsize, m)

/-- `asize` in `sys_alloc`. -/
def sysAllocSize (mparams : MallocParams) (nb : U64) : U64 :=
  granularityAlign mparams (nb + sysAllocPadding)

/-- `sys_alloc` after its attempt to map the chunk directly. -/
def sysAllocMap (get : U64 → MemState → MemRes (Option U64 × MemState)) (mparams : MallocParams)
    (m : MallocState) (nb : U64) (s : MemState) : MemRes (SysAlloc × MallocState × MemState) := do
  let asize := sysAllocSize mparams nb
  if asize ≤ nb then .ok (.fail, m, s)
  else if m.overLimit asize then .ok (.fail, m, s)
  else
    let (mp, s) ← get asize s
    if getPtr mp ≠ mfail then
      let (r, m) := sysAllocRegion mparams m nb (getPtr mp) asize
      .ok (r, m, s)
    else .ok (.fail, m, s)

/-- `sys_alloc` first tries to map the chunk directly. -/
def MapsDirectly (mparams : MallocParams) (m : MallocState) (nb : U64) : Prop :=
  m.useMmap = true ∧ nb ≥ mparams.mmapThreshold ∧ m.topsize ≠ 0

instance (mparams : MallocParams) (m : MallocState) (nb : U64) :
    Decidable (MapsDirectly mparams m nb) := inferInstanceAs (Decidable (_ ∧ _ ∧ _))

/-- `sys_alloc`. -/
def sysAlloc (get : U64 → MemState → MemRes (Option U64 × MemState)) (mparams : MallocParams)
    (m : MallocState) (nb : U64) (s : MemState) : MemRes (SysAlloc × MallocState × MemState) := do
  if MapsDirectly mparams m nb then
    let (mem, m, s) ← mmapAlloc get mparams m nb s
    match mem with
    | some c => .ok (.chunk c, m, s)
    | none => sysAllocMap get mparams m nb s
  else sysAllocMap get mparams m nb s

/-! ### No more free memory -/

/-- A call says that there is no memory: it stops at an assertion, or it returns `MFAIL`. -/
def Reported (x : MemRes (Option U64 × MemState)) : Prop :=
  (∃ b, x = .error (.bug b)) ∨ ∃ p s', x = .ok (p, s') ∧ getPtr p = mfail

/-- `NULL` is not `MFAIL`. -/
theorem not_reported_null (s : MemState) : ¬ Reported (.ok (none, s)) := by
  rintro (⟨b, hbug⟩ | ⟨p, s', hret, hfail⟩)
  · cases hbug
  · cases hret
    exact absurd hfail (by decide)

section Heap

variable {get : U64 → MemState → MemRes (Option U64 × MemState)} {mparams : MallocParams}
  {m : MallocState} {nb : U64} {s s' : MemState}

/-- `mmap_alloc` sets up a chunk at address 0 when it gets `NULL`. -/
theorem mmapAlloc_null (hget : get (mmapSize mparams nb) s = .ok (none, s'))
    (hlimit : m.overLimit (mmapSize mparams nb) = false) (hwrap : mmapSize mparams nb > nb) :
    mmapAlloc get mparams m nb s = .ok (some (mmapChunk 0 (mmapSize mparams nb)),
      (m.least 0).grow (mmapSize mparams nb), s') := by
  have hnull : (0 : U64) ≠ mfail := by decide
  simp only [mmapAlloc, hlimit, Bool.false_eq_true, if_false, if_pos hwrap, hget, ok_bind,
    getPtr]
  exact if_pos hnull

/-- `sys_alloc` has a region at address 0 when it gets `NULL`. -/
theorem sysAlloc_null (hdirect : ¬ MapsDirectly mparams m nb)
    (hget : get (sysAllocSize mparams nb) s = .ok (none, s'))
    (hlimit : m.overLimit (sysAllocSize mparams nb) = false)
    (hwrap : sysAllocSize mparams nb > nb) :
    sysAlloc get mparams m nb s = .ok ((sysAllocRegion mparams m nb 0 (sysAllocSize mparams nb)).1,
      (sysAllocRegion mparams m nb 0 (sysAllocSize mparams nb)).2, s') := by
  have hnull : (0 : U64) ≠ mfail := by decide
  have hle : ¬ sysAllocSize mparams nb ≤ nb := BitVec.not_le.2 hwrap
  simp only [sysAlloc, if_neg hdirect, sysAllocMap, if_neg hle, hlimit, Bool.false_eq_true,
    if_false, hget, ok_bind, getPtr]
  exact if_pos hnull

end Heap

section Exhausted

variable (env : MemEnv) (img : Image) (fuel : Nat) {s : MemState} {length : U64}
  (hlate : s.early = false) (hpos : length ≠ 0) (hpage : length % pageSize = 0)
  (hnone : ∀ r ∈ s.ranges, fits length r = false)

include hlate hpos hpage hnone

/-- Where no range passes the check, `mem_get_pages` returns `NULL` and leaves the list alone. -/
theorem memGetPages_none : memGetPages env img (fuel + 1) length s = .ok (none, s) := by
  have hfind : s.ranges.find? (fits length) = none :=
    List.find?_eq_none.mpr fun r hr => by rw [hnone r hr]; exact Bool.false_ne_true
  rw [memGetPages_succ hlate hpos hpage, hfind]

/-- **Exhaustion is not reported.**  Where no range passes the check, `mem_get_pages` neither stops
nor returns `MFAIL`; and for a request of that length, `mmap_alloc` returns a chunk at address 0,
and `sys_alloc` goes on with a region there, when nothing was taken from the free list. -/
theorem memGetPages_unreported :
    ¬ Reported (memGetPages env img (fuel + 1) length s) ∧
    (∀ mparams m nb, mmapSize mparams nb = length → length > nb → m.overLimit length = false →
      mmapAlloc (memGetPages env img (fuel + 1)) mparams m nb s =
        .ok (some (mmapChunk 0 length), (m.least 0).grow length, s)) ∧
    (∀ mparams m nb, ¬ MapsDirectly mparams m nb → sysAllocSize mparams nb = length → length > nb →
      m.overLimit length = false →
      sysAlloc (memGetPages env img (fuel + 1)) mparams m nb s =
        .ok ((sysAllocRegion mparams m nb 0 length).1, (sysAllocRegion mparams m nb 0 length).2,
          s)) := by
  have hget := memGetPages_none env img fuel hlate hpos hpage hnone
  refine ⟨?_, ?_, ?_⟩
  · rw [hget]
    exact not_reported_null s
  · rintro mparams m nb rfl hwrap hlimit
    exact mmapAlloc_null hget hlimit hwrap
  · rintro mparams m nb hdirect rfl hwrap hlimit
    exact sysAlloc_null hdirect hget hlimit hwrap

end Exhausted

/-- A heap with a top chunk at `0x8000000020100000`. -/
def heapSample : MallocState where
  useMmap := true
  top := 0x8000000020100010
  topsize := 0x1000
  leastAddr := 0x8000000020100000
  trimCheck := 0x200000
  footprint := 0x10000
  maxFootprint := 0x10000
  footprintLimit := 0

/-- 256 kilobytes are asked for, and the free list has 252. -/
theorem memGetPages_unreported_sample :
    ¬ Reported (memGetPages sampleMemEnv sampleImage 1 0x41000 (oneRange 0x1000 0x3ffff)) ∧
    mmapAlloc (memGetPages sampleMemEnv sampleImage 1) initMparams heapSample 0x40000
      (oneRange 0x1000 0x3ffff) = .ok (some (mmapChunk 0 0x41000),
        (heapSample.least 0).grow 0x41000, oneRange 0x1000 0x3ffff) := by
  have hlate : (oneRange 0x1000 0x3ffff).early = false := rfl
  have hpos : (0x41000 : U64) ≠ 0 := by decide
  have h := memGetPages_unreported sampleMemEnv sampleImage 0 hlate hpos (by decide) (by decide)
  exact ⟨h.1, h.2.1 initMparams heapSample 0x40000 (by decide) (by decide) (by decide)⟩

/-- The heap then returns memory at 16, and has stored to the words from 0 on. -/
theorem memGetPages_null :
    ¬ Reported (memGetPages sampleMemEnv sampleImage 1 0x41000 (oneRange 0x1000 0x3ffff)) ∧
    ∃ m s', mmapAlloc (memGetPages sampleMemEnv sampleImage 1) initMparams heapSample 0x40000
      (oneRange 0x1000 0x3ffff) = .ok (some ⟨16, [(0, 0), (8, 0x40fe0), (0x40fe8, 11),
        (0x40ff0, 0)]⟩, m, s') ∧ s'.blocks = [] := by
  refine ⟨not_reported_null _, _, _, rfl, rfl⟩

end Prephv
