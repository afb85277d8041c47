import Prephv.Mem.Difference
import Prephv.Mmu.Boot

/-!
# Rom — Claims

`rom_claim`: guest memory is claimed at an address, or from the arena at the end of guest RAM, by a
pointer that only goes up.  Either way the claim's pages are taken from `guest_mem_avail_ranges`,
which the `available` property of the memory node reads; a claim never looks there itself.

The list is kept in a `MemState` of its own, whose allocations are those of its nodes.

A run is `rom_init`'s first list and then any claims that return.  While the claims end at or below
4 GiB, the list holds exactly the pages of RAM that no claim touched, in order and in whole pages
(`ClaimRun.bookkeeping`).  The regions of arena claims meet no earlier region, as long as no claim
at an address reaches into what is left of the arena (`ClaimRun.noCollision`).
-/

set_option autoImplicit false

namespace Prephv

open Words Intervals

/-! ### `rom_claim` -/

/-- The arguments of a claim. -/
structure ClaimReq where
  addr : U32
  size : U32
  align : U32
  deriving DecidableEq, Repr

/-- `guest->rom` and `guest_mem_avail_ranges`. -/
structure ClaimState where
  rom : Rom
  avail : MemState
  deriving DecidableEq, Repr

/-- The first part of `rom_claim`: where the region is. -/
def claimOut (rom : Rom) (req : ClaimReq) : MemRes (U32 × Rom) :=
  if req.align ≠ 0 then do
    let ptr := alignUp rom.claimArenaPtr (req.align.setWidth 64)
    memBugOn (ptr ≥ rom.claimArenaEnd) "claim arena overflow"
    let out : U32 := ptr.setWidth 32
    let ptr := ptr + req.size.setWidth 64
    memBugOn (ptr > rom.claimArenaEnd) "claim arena overflow"
    return (out, { rom with claimArenaPtr := ptr })
  else
    return (req.addr, rom)

/-- Where the pages of a region begin. -/
def claimBase (out : U32) : U64 := (align out 4096).setWidth 64

/-- Where they end. -/
def claimLimit (out size : U32) : U64 := (alignUp (out + size) 4096 - 1).setWidth 64

/-- `rom_claim`. -/
def romClaim (alloc : MemState → MemRes (Nat × MemState)) (st : ClaimState) (req : ClaimReq) :
    MemRes (U32 × ClaimState) := do
  let (out, rom) ← claimOut st.rom req
  let avail ← rangeRemove alloc (st.avail.ranges.length + 1) (claimBase out)
    (claimLimit out req.size) st.avail
  return (out, ⟨rom, avail⟩)

/-- What `rom_init` does before its claims: the arena, and a list of all RAM.  It sets the other
fields of `guest->rom` between its claims, which do not read them. -/
def claimInit (alloc : MemState → MemRes (Nat × MemState)) (guest : Guest) (mem : MemState) :
    MemRes ClaimState :=
  match romInit (some guest) with
  | .error b => .error (.bug b)
  | .ok guest => do
    let avail ← rangeAdd alloc 0 (guest.ramSize - 1) { mem with ranges := [] }
    return ⟨guest.rom, avail⟩

/-- The claims of `rom_init`: the veneer, the trampoline and the stack. -/
def initClaims (guest : Guest) (veneerLen : U32) : List ClaimReq :=
  [⟨0x50000, veneerLen, 0⟩, ⟨0x4, 4, 0⟩,
    ⟨(guest.ramSize - MB 16 - MB 1).setWidth 32, (MB 1).setWidth 32, 0⟩]

/-- One claim after the other, with the addresses returned. -/
def romClaims (alloc : MemState → MemRes (Nat × MemState)) :
    List ClaimReq → ClaimState → MemRes (List U32 × ClaimState)
  | [], st => .ok ([], st)
  | req :: reqs, st => do
    let (out, st) ← romClaim alloc st req
    let (outs, st) ← romClaims alloc reqs st
    return (out :: outs, st)

/-! ### `rom_memory_getprop` -/

/-- `min` of `defs.h`. -/
def minU32 (x y : U32) : U32 := if x < y then x else y

/-- `rom_memory_getprop`'s loop over `guest_mem_avail_ranges`, with `len` bytes left: the words
stored, and the assertion that stopped it. -/
def availStores : List Range → BitVec 32 → List U32 × Option Bug
  | [], _ => ([], none)
  | r :: l, len =>
    let b : U32 := r.base.setWidth 32
    let bs : U32 := (r.limit - r.base + 1).setWidth 32
    -- the assertions come before the length is looked at
    if b % 4096 ≠ 0 then ([], some ⟨"unexpected avail range 0x%x-0x%x"⟩)
    else if bs % 4096 ≠ 0 then ([], some ⟨"unexpected avail range 0x%x-0x%x"⟩)
    else if len.toInt ≤ 0 then ([], none)
    else if (len - 4).toInt ≤ 0 then ([b], none)
    else
      let (ws, bug) := availStores l (len - 4 - 4)
      (b :: bs :: ws, bug)

/-- The length of a list's property, as an `int`. -/
def rangesLen (l : List Range) : BitVec 32 := BitVec.ofNat 32 (l.length * 4 * 2)

/-- What `rom_memory_getprop` reports for a property of `len` bytes. -/
def memoryDestLen (len maxData : U32) : U32 := if maxData = 0 then len else minU32 len maxData

/-- The range gets past the assertions of that loop. -/
def Range.Paged (r : Range) : Prop :=
  (r.base.setWidth 32 : U32) % 4096 = 0 ∧ ((r.limit - r.base + 1).setWidth 32 : U32) % 4096 = 0

instance (r : Range) : Decidable r.Paged := instDecidableAnd

/-- `rom_memory_getprop` of `available`: the length it reports, and the words it stores when there
is a destination, before they are swapped. -/
def romMemoryAvailable (ranges : List Range) (maxData : U32) (dest : Bool) :
    MemRes (U32 × List U32) :=
  let len := rangesLen ranges
  match if dest then availStores ranges len else ([], none) with
  | (ws, none) => .ok (memoryDestLen len maxData, ws)
  | (_, some bug) => .error (.bug bug)

/-! ### Runs -/

/-- A claim that returned. -/
structure Claimed where
  req : ClaimReq
  out : U32
  deriving DecidableEq, Repr

/-- The address lies in the claimed region. -/
def Claimed.Has (c : Claimed) (a : Nat) : Prop :=
  c.out.toNat ≤ a ∧ a < c.out.toNat + c.req.size.toNat

/-- The claimed region touches the page. -/
def Claimed.Touches (c : Claimed) (page : Nat) : Prop := ∃ a, c.Has a ∧ a / 4096 = page

/-- `rom_init`'s list and arena, and then claims that return, each of which meets `C` in the state
it is made in. -/
inductive ClaimRun (alloc : MemState → MemRes (Nat × MemState)) (guest : Guest) (mem : MemState)
    (C : ClaimState → Claimed → Prop) : List Claimed → ClaimState → Prop where
  | init {st : ClaimState} (h : claimInit alloc guest mem = .ok st) :
      ClaimRun alloc guest mem C [] st
  | claim {cs : List Claimed} {st st' : ClaimState} {c : Claimed}
      (h : ClaimRun alloc guest mem C cs st) (hc : C st c)
      (hs : romClaim alloc st c.req = .ok (c.out, st')) :
      ClaimRun alloc guest mem C (cs ++ [c]) st'

/-! ### The steps -/

section Steps

variable {alloc : MemState → MemRes (Nat × MemState)} {rom rom' : Rom} {req : ClaimReq} {out : U32}
  {st st' : ClaimState} {guest : Guest} {mem : MemState}

/-- What a claim that returns did. -/
theorem romClaim_eq_ok (h : romClaim alloc st req = .ok (out, st')) :
    claimOut st.rom req = .ok (out, st'.rom) ∧
      rangeRemove alloc (st.avail.ranges.length + 1) (claimBase out) (claimLimit out req.size)
        st.avail = .ok st'.avail := by
  obtain ⟨⟨out', rom⟩, hout, h⟩ := bind_eq_ok.mp h
  obtain ⟨avail, havail, h⟩ := bind_eq_ok.mp h
  cases h
  exact ⟨hout, havail⟩

/-- Where a claim's region is, and what becomes of the arena's pointer. -/
theorem claimOut_eq_ok (h : claimOut rom req = .ok (out, rom')) :
    (req.align = 0 ∧ out = req.addr ∧ rom' = rom) ∨
      (req.align ≠ 0 ∧ ∃ ptr, ptr = alignUp rom.claimArenaPtr (req.align.setWidth 64) ∧
        ptr < rom.claimArenaEnd ∧ ptr + req.size.setWidth 64 ≤ rom.claimArenaEnd ∧
        out = ptr.setWidth 32 ∧
        rom' = { rom with claimArenaPtr := ptr + req.size.setWidth 64 }) := by
  unfold claimOut at h
  split at h
  · next halign =>
    obtain ⟨hlt, h⟩ := memBugOn_bind_eq_ok.mp h
    obtain ⟨hle, h⟩ := memBugOn_bind_eq_ok.mp h
    cases h
    exact Or.inr ⟨halign, _, rfl, by simpa using hlt, by simpa using hle, rfl, rfl⟩
  · next halign =>
    cases h
    exact Or.inl ⟨not_not.mp halign, rfl, rfl⟩

/-- What `rom_init` begins with. -/
theorem claimInit_eq_ok (h : claimInit alloc guest mem = .ok st) :
    MB 16 < guest.ramSize ∧ st.rom.claimArenaStart = guest.ramSize - MB 16 ∧
      st.rom.claimArenaPtr = guest.ramSize - MB 16 ∧ st.rom.claimArenaEnd = guest.ramSize ∧
      rangeAdd alloc 0 (guest.ramSize - 1) { mem with ranges := [] } = .ok st.avail := by
  unfold claimInit at h
  split at h
  · cases h
  next g hinit =>
    obtain ⟨hsize, hinit⟩ := bugOn_bind_eq_ok.mp hinit
    cases hinit
    obtain ⟨avail, havail, h⟩ := bind_eq_ok.mp h
    cases h
    exact ⟨by simpa using hsize, rfl, rfl, rfl, havail⟩

end Steps

/-! ### Whole pages -/

/-- A claim of at least a byte that ends at or below 4 GiB. -/
def Claimed.Fits (c : Claimed) : Prop :=
  1 ≤ c.req.size.toNat ∧ c.out.toNat + c.req.size.toNat ≤ 2 ^ 32

section Pages

variable {out size : U32}

theorem claimBase_toNat (out : U32) : (claimBase out).toNat = out.toNat / 2 ^ 12 * 2 ^ 12 := by
  have hmask : (4096 : U32) - 1 = lowMask 32 12 := by decide
  have hlt := out.isLt
  rw [claimBase, BitVec.toNat_setWidth, align, hmask, and_not_lowMask _ (by decide)]
  omega

/-- Aligning up to a page, where the sum may wrap. -/
theorem alignUp_page_toNat (x : U32) :
    (alignUp x 4096).toNat = (x.toNat + 4095) / 2 ^ 12 * 2 ^ 12 % 2 ^ 32 := by
  have hmask : (4096 : U32) - 1 = lowMask 32 12 := by decide
  have hx := x.isLt
  have hlow : x &&& (4096 - 1) = 0 ↔ x.toNat % 2 ^ 12 = 0 := by
    rw [hmask, ← and_lowMask x (show 12 ≤ 32 by decide)]
    exact eq_zero_iff
  unfold alignUp
  split
  · next h =>
    rw [hlow] at h
    omega
  · next h =>
    rw [hlow] at h
    rw [hmask, and_not_lowMask _ (by decide), BitVec.toNat_add, lowMask_toNat (by decide)]
    omega

/-- The last address of the request, for any address and size. -/
theorem claimLimit_mod (out size : U32) : (claimLimit out size).toNat =
    (((out.toNat + size.toNat) % 2 ^ 32 + 4095) / 2 ^ 12 * 2 ^ 12 + (2 ^ 32 - 1)) % 2 ^ 32 := by
  have hone : ∀ x : U32, (x - 1).toNat = (x.toNat + (2 ^ 32 - 1)) % 2 ^ 32 := by
    intro x
    rw [BitVec.toNat_sub, Nat.add_comm]
    rfl
  have hsum : (out + size).toNat = (out.toNat + size.toNat) % 2 ^ 32 := BitVec.toNat_add ..
  rw [claimLimit, BitVec.toNat_setWidth, hone, alignUp_page_toNat, hsum]
  omega

theorem claim_dvd (out size : U32) :
    4096 ∣ (request (claimBase out) (claimLimit out size)).1 ∧
      4096 ∣ (request (claimBase out) (claimLimit out size)).2 + 1 := by
  have hbase := claimBase_toNat out
  have hlimit := claimLimit_mod out size
  constructor
  · show 4096 ∣ (claimBase out).toNat
    omega
  · show 4096 ∣ (claimLimit out size).toNat + 1
    omega

/-- The last address of the pages of a claim that fits. -/
theorem claimLimit_toNat (hsize : 1 ≤ size.toNat) (hend : out.toNat + size.toNat ≤ 2 ^ 32) :
    (claimLimit out size).toNat = (out.toNat + size.toNat + 4095) / 2 ^ 12 * 2 ^ 12 - 1 := by
  rw [claimLimit_mod]
  omega

/-- The pages taken are those the region touches. -/
theorem claim_pages {c : Claimed} (h : c.Fits) (a : Nat) :
    ((claimBase c.out).toNat ≤ a ∧ a ≤ (claimLimit c.out c.req.size).toNat) ↔
      c.Touches (a / 4096) := by
  obtain ⟨hsize, hend⟩ := h
  rw [claimBase_toNat, claimLimit_toNat hsize hend]
  constructor
  · rintro ⟨hlo, hhi⟩
    refine ⟨max c.out.toNat (a / 4096 * 4096), ⟨by omega, by omega⟩, by omega⟩
  · rintro ⟨b, ⟨hlo, hhi⟩, hpage⟩
    omega

/-- A request of whole pages. -/
theorem claim_aligned {c : Claimed} (h : c.Fits) :
    (claimBase c.out).toNat < (claimLimit c.out c.req.size).toNat ∧
      4096 ∣ (request (claimBase c.out) (claimLimit c.out c.req.size)).1 ∧
      4096 ∣ (request (claimBase c.out) (claimLimit c.out c.req.size)).2 + 1 := by
  obtain ⟨hsize, hend⟩ := h
  refine ⟨?_, claim_dvd c.out c.req.size⟩
  rw [claimBase_toNat, claimLimit_toNat hsize hend]
  omega

end Pages

/-! ### The bookkeeping -/

/-- What holds of the list after the claims: it is in order, in whole pages, and holds the addresses
of RAM whose page no claim touched. -/
structure ClaimState.Books (st : ClaimState) (ramSize : Nat) (cs : List Claimed) : Prop where
  inOrder : InOrder st.avail.ranges
  aligned : Intervals.Aligned 4096 (ends st.avail.ranges)
  covers : ∀ a, Prephv.Covers st.avail.ranges a ↔
    a < ramSize ∧ ∀ c ∈ cs, ¬ c.Touches (a / 4096)

section Bookkeeping

variable {alloc : MemState → MemRes (Nat × MemState)} {guest : Guest} {mem : MemState}
  {st st' : ClaimState} {cs : List Claimed} {c : Claimed}

/-- `range_add` on the empty list. -/
theorem rangeAdd_nil (halloc : AllocTotal alloc) {base limit : U64} {s : MemState}
    (hs : s.ranges = []) (hlt : base.toNat < limit.toNat) :
    ∃ s' node, rangeAdd alloc base limit s = .ok s' ∧ s'.ranges = [⟨node, base, limit⟩] := by
  obtain ⟨⟨node, s₁⟩, hal⟩ := halloc.total s
  obtain ⟨-, hs₁⟩ := (halloc.allocLocal s).of_ok hal
  dsimp only at hs₁
  have hbug : ¬ base ≥ limit := fun h => Nat.not_le_of_lt hlt h
  refine ⟨{ s₁ with ranges := [⟨node, base, limit⟩] }, node, ?_, rfl⟩
  rw [rangeAdd, hal]
  show (memBugOn (base ≥ limit) _ >>= fun _ => _) = _
  rw [memBugOn, if_neg hbug, hs₁, hs]
  rfl

theorem claimInit_books (halloc : AllocTotal alloc) (h : claimInit alloc guest mem = .ok st)
    (hpage : 4096 ∣ guest.ramSize.toNat) : st.Books guest.ramSize.toNat [] := by
  obtain ⟨hsize, -, -, -, hadd⟩ := claimInit_eq_ok h
  have hsize : 16 * 2 ^ 20 < guest.ramSize.toNat := hsize
  have hlast : (guest.ramSize - 1).toNat = guest.ramSize.toNat - 1 := pred_toNat (by omega)
  have hz : (0 : U64).toNat = 0 := rfl
  obtain ⟨s', node, hadd', hranges⟩ := rangeAdd_nil halloc
    (s := { mem with ranges := [] }) rfl (show (0 : U64).toNat < (guest.ramSize - 1).toNat by omega)
  obtain rfl : s' = st.avail := Except.ok.inj (hadd'.symm.trans hadd)
  refine ⟨?_, ?_, fun a => ?_⟩
  · rw [hranges]
    refine ⟨List.pairwise_singleton _ _, ?_, List.nodup_singleton _⟩
    rintro r hr
    obtain rfl := List.mem_singleton.mp hr
    exact Nat.zero_le _
  · rw [hranges]
    rintro i hi
    obtain rfl := List.mem_singleton.mp hi
    refine ⟨Nat.dvd_zero _, ?_⟩
    show 4096 ∣ (guest.ramSize - 1).toNat + 1
    rw [hlast, Nat.sub_add_cancel (by omega)]
    exact hpage
  · rw [hranges, Prephv.covers_cons]
    have hnone : ¬ Prephv.Covers [] a := by
      rintro ⟨r, hr, -⟩
      cases hr
    show ((0 : U64).toNat ≤ a ∧ a ≤ (guest.ramSize - 1).toNat) ∨ _ ↔ _
    rw [or_iff_left hnone]
    simp only [List.not_mem_nil, false_implies, implies_true, and_true]
    omega

/-- A claim leaves no single address, as ranges and request are whole pages. -/
theorem ClaimState.Books.not_leavesOne {ramSize : Nat} (h : st.Books ramSize cs) :
    ∀ r ∈ st.avail.ranges, ¬ r.LeavesOne (claimBase c.out) (claimLimit c.out c.req.size) := by
  rintro r hr ⟨hone, -⟩
  have hbase : 4096 ∣ r.base.toNat := (h.aligned r.ends (List.mem_map_of_mem hr)).1
  have hpage := claimBase_toNat c.out
  omega

/-- **A claim keeps the books.** -/
theorem ClaimState.Books.step (halloc : AllocTotal alloc) {ramSize : Nat} (h : st.Books ramSize cs)
    (hfits : c.Fits) (hs : romClaim alloc st c.req = .ok (c.out, st')) :
    st'.Books ramSize (cs ++ [c]) := by
  obtain ⟨-, hremove⟩ := romClaim_eq_ok hs
  obtain ⟨hlt, haligned⟩ := claim_aligned hfits
  obtain ⟨-, hinOrder, hends⟩ :=
    (rangeRemove_diff halloc.allocLocal h.inOrder (Nat.lt_succ_self _)).of_ok hremove
  refine ⟨hinOrder, ?_, fun a => ?_⟩
  · rw [hends]
    exact h.aligned.diff haligned
  · have hq : (request (claimBase c.out) (claimLimit c.out c.req.size)).1 ≤
        (request (claimBase c.out) (claimLimit c.out c.req.size)).2 := Nat.le_of_lt hlt
    rw [← covers_ends, hends, covers_diff hq, covers_ends, h.covers, and_assoc]
    refine and_congr_right fun _ => ?_
    simp only [List.mem_append, List.mem_singleton, or_imp, forall_and, forall_eq]
    exact and_congr_right fun _ => not_congr (claim_pages hfits a)

/-- A claim that fits and gets past the arena's assertions returns. -/
theorem ClaimState.Books.returns (halloc : AllocTotal alloc) {ramSize : Nat}
    (h : st.Books ramSize cs) (hfits : c.Fits) {rom : Rom}
    (hout : claimOut st.rom c.req = .ok (c.out, rom)) :
    ∃ st', romClaim alloc st c.req = .ok (c.out, st') := by
  obtain ⟨hlt, -⟩ := claim_aligned hfits
  obtain ⟨avail, havail⟩ := (rangeRemove_returns_iff halloc h.inOrder (Nat.lt_succ_self _) hlt).mpr
    h.not_leavesOne
  exact ⟨⟨rom, avail⟩, bind_eq_ok.mpr ⟨_, hout, bind_eq_ok.mpr ⟨_, havail, rfl⟩⟩⟩

/-- A range of whole pages gets past the assertions of the property's loop. -/
theorem paged_of_aligned {r : Range} (hbase : 4096 ∣ r.base.toNat)
    (hlimit : 4096 ∣ r.limit.toNat + 1) : r.Paged := by
  have hlt := r.base.isLt
  constructor
  · apply BitVec.eq_of_toNat_eq
    rw [BitVec.toNat_umod, BitVec.toNat_setWidth]
    show r.base.toNat % 2 ^ 32 % 4096 = 0
    omega
  · apply BitVec.eq_of_toNat_eq
    rw [BitVec.toNat_umod, BitVec.toNat_setWidth, BitVec.toNat_add, BitVec.toNat_sub]
    show ((2 ^ 64 - r.base.toNat + r.limit.toNat) % 2 ^ 64 + 1) % 2 ^ 64 % 2 ^ 32 % 4096 = 0
    omega

theorem paged_of_ends {l : List Range} (haligned : Intervals.Aligned 4096 (ends l)) :
    ∀ r ∈ l, r.Paged := fun r hr => by
  obtain ⟨hbase, hlimit⟩ := haligned r.ends (List.mem_map_of_mem hr)
  exact paged_of_aligned hbase hlimit

/-- The property's loop gets past its assertions on a list of whole pages. -/
theorem availStores_returns {l : List Range} (hl : ∀ r ∈ l, r.Paged) (len : BitVec 32) :
    (availStores l len).2 = none := by
  induction l generalizing len with
  | nil => rfl
  | cons r l ih =>
    obtain ⟨hb, hbs⟩ := hl r List.mem_cons_self
    have hrest := ih (fun r hr => hl r (List.mem_cons_of_mem _ hr)) (len - 4 - 4)
    rw [availStores]
    dsimp only
    rw [if_neg (not_not.mpr hb), if_neg (not_not.mpr hbs)]
    by_cases h₁ : len.toInt ≤ 0
    · rw [if_pos h₁]
    · by_cases h₂ : (len - 4).toInt ≤ 0
      · rw [if_neg h₁, if_pos h₂]
      · rw [if_neg h₁, if_neg h₂]
        exact hrest

theorem romMemoryAvailable_returns {l : List Range} (haligned : Intervals.Aligned 4096 (ends l))
    (maxData : U32) (dest : Bool) : ∃ r, romMemoryAvailable l maxData dest = .ok r := by
  unfold romMemoryAvailable
  cases dest with
  | false => exact ⟨_, rfl⟩
  | true =>
    have hnone := availStores_returns (paged_of_ends haligned) (rangesLen l)
    dsimp only
    rw [if_pos rfl]
    rcases h : availStores l (rangesLen l) with ⟨ws, bug⟩
    rw [h] at hnone
    subst hnone
    exact ⟨_, rfl⟩

theorem ClaimRun.books (halloc : AllocTotal alloc) (hpage : 4096 ∣ guest.ramSize.toNat)
    (h : ClaimRun alloc guest mem (fun _ c => c.Fits) cs st) :
    st.Books guest.ramSize.toNat cs := by
  induction h with
  | init h => exact claimInit_books halloc h hpage
  | claim h hc hs ih => exact ih.step halloc hc hs

/-- **The bookkeeping of guest memory.**  In a run of claims that fit, the list of available ranges
is in order, in whole pages, and holds the RAM that no claim touched.  `rom_init`'s `range_add`
returned, the next claim that fits stops at the arena's assertions only, and `available` can be
read. -/
theorem ClaimRun.bookkeeping (halloc : AllocTotal alloc) (h16 : 2 ^ 24 ∣ guest.ramSize.toNat)
    (hmin : 2 ^ 25 ≤ guest.ramSize.toNat) (hmax : guest.ramSize.toNat < 2 ^ 32) :
    (∃ st, claimInit alloc guest mem = .ok st) ∧
    ∀ cs st, ClaimRun alloc guest mem (fun _ c => c.Fits) cs st →
      InOrder st.avail.ranges ∧
      (∀ r ∈ st.avail.ranges, 4096 ∣ r.base.toNat ∧ 4096 ∣ r.limit.toNat + 1) ∧
      (∀ a, Prephv.Covers st.avail.ranges a ↔
        a < guest.ramSize.toNat ∧ ∀ c ∈ cs, ¬ c.Touches (a / 4096)) ∧
      (∀ (c : Claimed) rom, c.Fits → claimOut st.rom c.req = .ok (c.out, rom) →
        ∃ st', romClaim alloc st c.req = .ok (c.out, st')) ∧
      ∀ maxData dest, ∃ r, romMemoryAvailable st.avail.ranges maxData dest = .ok r := by
  have hpage : 4096 ∣ guest.ramSize.toNat := Nat.dvd_trans (by decide) h16
  constructor
  · have hsize : ¬ guest.ramSize ≤ MB 16 := by
      intro hle
      have hle : guest.ramSize.toNat ≤ 16 * 2 ^ 20 := hle
      omega
    have hlast : (guest.ramSize - 1).toNat = guest.ramSize.toNat - 1 := pred_toNat (by omega)
    have hz : (0 : U64).toNat = 0 := rfl
    obtain ⟨s', node, hadd, -⟩ := rangeAdd_nil halloc (s := { mem with ranges := [] }) rfl
      (show (0 : U64).toNat < (guest.ramSize - 1).toNat by omega)
    unfold claimInit romInit
    dsimp only
    rw [bugOn, if_neg hsize]
    dsimp only [bind, Except.bind, pure, Except.pure]
    rw [hadd]
    exact ⟨_, rfl⟩
  · intro cs st h
    have hbooks := h.books halloc hpage
    refine ⟨hbooks.inOrder, fun r hr => hbooks.aligned r.ends (List.mem_map_of_mem hr),
      hbooks.covers, fun c rom hfits hout => hbooks.returns halloc hfits hout,
      romMemoryAvailable_returns hbooks.aligned⟩

end Bookkeeping

/-- A guest of 32 MiB, after a claim of the page at 0x50000. -/
theorem ClaimRun.bookkeeping_sample : ∃ st,
    ClaimRun freshNode (guestOn 0x2000000 0x8000000040000000) (rangeState []) (fun _ c => c.Fits)
      [⟨⟨0x50000, 0x1000, 0⟩, 0x50000⟩] st ∧
      InOrder st.avail.ranges ∧ ¬ Prephv.Covers st.avail.ranges 0x50000 := by
  obtain ⟨⟨st, hst⟩, hrun⟩ := @ClaimRun.bookkeeping freshNode
    (guestOn 0x2000000 0x8000000040000000) (rangeState []) freshNode_total (by decide) (by decide)
    (by decide)
  have hfits : Claimed.Fits ⟨⟨0x50000, 0x1000, 0⟩, 0x50000⟩ := ⟨by decide, by decide⟩
  obtain ⟨-, -, -, hnext, -⟩ := hrun [] st (.init hst)
  obtain ⟨st', hst'⟩ := hnext _ st.rom hfits rfl
  have hclaimed := (ClaimRun.init (C := fun _ c => c.Fits) hst).claim hfits hst'
  obtain ⟨hinOrder, -, hcovers, -⟩ := hrun _ st' hclaimed
  refine ⟨st', hclaimed, hinOrder, fun hc => ?_⟩
  exact ((hcovers _).mp hc).2 _ List.mem_cons_self ⟨0x50000, ⟨by decide, by decide⟩, rfl⟩

/-! ### The arena -/

/-- The region lies in the arena, and begins at a multiple of its alignment where that is a power
of two. -/
structure Claimed.InArena (ramSize : Nat) (c : Claimed) : Prop where
  start : ramSize - 2 ^ 24 ≤ c.out.toNat
  stop : c.out.toNat < ramSize ∧ c.out.toNat + c.req.size.toNat ≤ ramSize
  aligned : ∀ k, c.req.align.toNat = 2 ^ k → 2 ^ k ∣ c.out.toNat

/-- A claim at an address does not reach into what is left of the arena. -/
def ClaimReq.Clear (st : ClaimState) (req : ClaimReq) : Prop :=
  req.align = 0 → ∀ a, req.addr.toNat ≤ a → a < req.addr.toNat + req.size.toNat →
    ¬ (st.rom.claimArenaPtr.toNat ≤ a ∧ a < st.rom.claimArenaEnd.toNat)

/-- The arena's pointer is within the arena, which is the last 16 MiB of RAM. -/
structure Rom.Arena (rom : Rom) (ramSize : Nat) : Prop where
  size : 2 ^ 24 < ramSize ∧ ramSize ≤ 2 ^ 32
  stop : rom.claimArenaEnd.toNat = ramSize
  ptr : ramSize - 2 ^ 24 ≤ rom.claimArenaPtr.toNat ∧ rom.claimArenaPtr.toNat ≤ ramSize

section Arena

variable {alloc : MemState → MemRes (Nat × MemState)} {guest : Guest} {mem : MemState}
  {C : ClaimState → Claimed → Prop} {rom rom' : Rom} {st : ClaimState} {cs : List Claimed}
  {c : Claimed} {ramSize : Nat}

theorem claimInit_arena (hmax : guest.ramSize.toNat ≤ 2 ^ 32)
    (h : claimInit alloc guest mem = .ok st) : st.rom.Arena guest.ramSize.toNat := by
  obtain ⟨hsize, -, hptr, hstop, -⟩ := claimInit_eq_ok h
  have hmb : (MB 16).toNat = 2 ^ 24 := rfl
  have hsize : (MB 16).toNat < guest.ramSize.toNat := hsize
  have hsub : (guest.ramSize - MB 16).toNat = guest.ramSize.toNat - (MB 16).toNat :=
    BitVec.toNat_sub_of_le (Nat.le_of_lt hsize)
  rw [hmb] at hsize hsub
  refine ⟨⟨hsize, hmax⟩, by rw [hstop], ?_⟩
  rw [hptr, hsub]
  omega

/-- Where an arena claim's region is, and where the pointer goes. -/
theorem claimOut_arena (h : rom.Arena ramSize) (halign : c.req.align ≠ 0)
    (hout : claimOut rom c.req = .ok (c.out, rom')) :
    c.InArena ramSize ∧ rom.claimArenaPtr.toNat ≤ c.out.toNat ∧
      rom'.claimArenaPtr.toNat = c.out.toNat + c.req.size.toNat ∧ rom'.Arena ramSize := by
  obtain ⟨⟨hmin, hmax⟩, hstop, hlo, hhi⟩ := h
  rcases claimOut_eq_ok hout with ⟨h0, -⟩ | ⟨-, ptr, hptr, hlt, hle, houteq, rfl⟩
  · exact absurd h0 halign
  have hpos : 0 < c.req.align.toNat := by
    rw [Nat.pos_iff_ne_zero]
    intro hz
    exact halign (BitVec.eq_of_toNat_eq hz)
  have halignLt := c.req.align.isLt
  have hsizeLt := c.req.size.isLt
  have hwide : (c.req.align.setWidth 64 : U64).toNat = c.req.align.toNat := by
    rw [BitVec.toNat_setWidth]
    omega
  have hsize : (c.req.size.setWidth 64 : U64).toNat = c.req.size.toNat := by
    rw [BitVec.toNat_setWidth]
    omega
  have hmask : ((c.req.align.setWidth 64 : U64) - 1).toNat = c.req.align.toNat - 1 := by
    rw [pred_toNat (by omega), hwide]
  have hup : rom.claimArenaPtr.toNat ≤ ptr.toNat := by
    rw [hptr]
    exact le_alignUp (by rw [hmask]; omega)
  have hlt : ptr.toNat < rom.claimArenaEnd.toNat := hlt
  have hle : (ptr + c.req.size.setWidth 64).toNat ≤ rom.claimArenaEnd.toNat := hle
  have hsum : (ptr + c.req.size.setWidth 64).toNat = ptr.toNat + c.req.size.toNat := by
    rw [BitVec.toNat_add, hsize]
    exact Nat.mod_eq_of_lt (by omega)
  have hout32 : c.out.toNat = ptr.toNat := by
    rw [houteq, BitVec.toNat_setWidth]
    exact Nat.mod_eq_of_lt (by omega)
  refine ⟨⟨by omega, ⟨by omega, by omega⟩, ?_⟩, by omega, ?_, ⟨hmin, hmax⟩, hstop, ?_⟩
  · intro k hk
    have hk32 : k < 32 := (Nat.pow_lt_pow_iff_right (by decide)).mp (hk ▸ halignLt)
    have hpow : (c.req.align.setWidth 64 : U64) = BitVec.ofNat 64 (2 ^ k) := by
      apply BitVec.eq_of_toNat_eq
      have hlt : 2 ^ k < 2 ^ 64 := Nat.pow_lt_pow_right (by decide) (by omega)
      rw [hwide, hk, BitVec.toNat_ofNat, Nat.mod_eq_of_lt hlt]
    rw [hout32, hptr, hpow, alignUp_toNat (by omega)]
    · exact Dvd.intro_left _ rfl
    · rw [← hk]
      omega
  · show (ptr + c.req.size.setWidth 64).toNat = _
    omega
  · show ramSize - 2 ^ 24 ≤ (ptr + c.req.size.setWidth 64).toNat ∧
      (ptr + c.req.size.setWidth 64).toNat ≤ ramSize
    omega

/-- A claim leaves the arena well formed, and its pointer no lower. -/
theorem claimOut_keeps (h : rom.Arena ramSize) (hout : claimOut rom c.req = .ok (c.out, rom')) :
    rom'.Arena ramSize ∧ rom.claimArenaPtr.toNat ≤ rom'.claimArenaPtr.toNat := by
  by_cases halign : c.req.align = 0
  · rcases claimOut_eq_ok hout with ⟨-, -, rfl⟩ | ⟨hne, -⟩
    · exact ⟨h, Nat.le_refl _⟩
    · exact absurd halign hne
  · obtain ⟨-, hlo, hptr, harena⟩ := claimOut_arena h halign hout
    exact ⟨harena, by omega⟩

theorem ClaimRun.arena (hmax : guest.ramSize.toNat ≤ 2 ^ 32)
    (h : ClaimRun alloc guest mem C cs st) :
    st.rom.Arena guest.ramSize.toNat := by
  induction h with
  | init h => exact claimInit_arena hmax h
  | claim h hc hs ih => exact (claimOut_keeps ih (romClaim_eq_ok hs).1).1

/-- In any run, arena claims are in the arena, and aligned. -/
theorem ClaimRun.inArena (hmax : guest.ramSize.toNat ≤ 2 ^ 32)
    (h : ClaimRun alloc guest mem C cs st) :
    ∀ c ∈ cs, c.req.align ≠ 0 → c.InArena guest.ramSize.toNat := by
  induction h with
  | init h => nofun
  | claim h hc hs ih =>
    intro c hmem halign
    rcases List.mem_append.mp hmem with hmem | hmem
    · exact ih c hmem halign
    · obtain rfl := List.mem_singleton.mp hmem
      exact (claimOut_arena (h.arena hmax) halign (romClaim_eq_ok hs).1).1

/-- What is left of the arena is free of every region. -/
theorem ClaimRun.left_free (hmax : guest.ramSize.toNat ≤ 2 ^ 32)
    (h : ClaimRun alloc guest mem (fun st c => c.req.Clear st) cs st) :
    ∀ c ∈ cs, ∀ a, c.Has a →
      ¬ (st.rom.claimArenaPtr.toNat ≤ a ∧ a < guest.ramSize.toNat) := by
  induction h with
  | init h => nofun
  | @claim cs st st' c h hc hs ih =>
    intro c' hmem a ha
    have harena := h.arena hmax
    obtain ⟨hout, -⟩ := romClaim_eq_ok hs
    obtain ⟨-, hup⟩ := claimOut_keeps harena hout
    rcases List.mem_append.mp hmem with hmem | hmem
    · have := ih c' hmem a ha
      omega
    · obtain rfl := List.mem_singleton.mp hmem
      by_cases halign : c'.req.align = 0
      · rcases claimOut_eq_ok hout with ⟨-, haddr, -⟩ | ⟨hne, -⟩
        · obtain ⟨hlo, hhi⟩ := ha
          rw [haddr] at hlo hhi
          have hclear := hc halign a hlo hhi
          rw [harena.stop] at hclear
          omega
        · exact absurd halign hne
      · obtain ⟨-, -, hptr, -⟩ := claimOut_arena harena halign hout
        have := ha.2
        omega

/-- **Arena claims collide with nothing before them**, in a run whose claims at addresses do not
reach into what is left of the arena. -/
theorem ClaimRun.noCollision (hmax : guest.ramSize.toNat ≤ 2 ^ 32)
    (h : ClaimRun alloc guest mem (fun st c => c.req.Clear st) cs st) :
    (∀ c ∈ cs, c.req.align ≠ 0 → c.InArena guest.ramSize.toNat) ∧
      cs.Pairwise fun c c' => c'.req.align ≠ 0 → ∀ a, ¬ (c.Has a ∧ c'.Has a) := by
  refine ⟨h.inArena hmax, ?_⟩
  induction h with
  | init h => exact List.Pairwise.nil
  | @claim cs st st' c h hc hs ih =>
    refine List.pairwise_append.mpr ⟨ih, List.pairwise_singleton _ _, ?_⟩
    intro c₁ hmem c₂ hlast halign a ha
    obtain rfl := List.mem_singleton.mp hlast
    have harena := h.arena hmax
    obtain ⟨hin, hlo, -⟩ := claimOut_arena harena halign (romClaim_eq_ok hs).1
    have hfree := h.left_free hmax c₁ hmem a ha.1
    have h₁ := ha.2.1
    have h₂ := ha.2.2
    have h₃ := hin.stop.2
    omega

end Arena

/-- The state of a guest of 32 MiB with these ranges, before anything is claimed from the arena. -/
def stateOf (ranges : List Range) : ClaimState :=
  ⟨⟨4, 0x1000000, 0x1000000, 0x2000000, 0xf00000, 0x1000000⟩, ⟨true, 0, ranges, 0, [], []⟩⟩

/-- In a guest of 32 MiB, a page below the arena by address and then a page of the arena. -/
theorem ClaimRun.noCollision_sample : ∃ st,
    ClaimRun freshNode (guestOn 0x2000000 0x8000000040000000) (rangeState [])
      (fun st c => c.req.Clear st)
      [⟨⟨0x50000, 0x1000, 0⟩, 0x50000⟩, ⟨⟨0, 0x1000, 0x1000⟩, 0x1000000⟩] st ∧
    Claimed.InArena 0x2000000 ⟨⟨0, 0x1000, 0x1000⟩, 0x1000000⟩ := by
  have h₀ : claimInit freshNode (guestOn 0x2000000 0x8000000040000000) (rangeState []) =
      .ok (stateOf [⟨1, 0, 0x1ffffff⟩]) := by decide +kernel
  have h₁ : romClaim freshNode (stateOf [⟨1, 0, 0x1ffffff⟩]) ⟨0x50000, 0x1000, 0⟩ =
      .ok (0x50000, stateOf [⟨2, 0, 0x4ffff⟩, ⟨1, 0x51000, 0x1ffffff⟩]) := by decide +kernel
  obtain ⟨st, h₂⟩ : ∃ st, romClaim freshNode
      (stateOf [⟨2, 0, 0x4ffff⟩, ⟨1, 0x51000, 0x1ffffff⟩]) ⟨0, 0x1000, 0x1000⟩ =
        .ok (0x1000000, st) := ⟨_, by rfl⟩
  have hclear : ClaimReq.Clear (stateOf [⟨1, 0, 0x1ffffff⟩]) ⟨0x50000, 0x1000, 0⟩ := by
    intro _ a _ hend hin
    have hlast : a < 0x50000 + 0x1000 := hend
    have hfirst : 0x1000000 ≤ a := hin.1
    omega
  have hclear' : ClaimReq.Clear (stateOf [⟨2, 0, 0x4ffff⟩, ⟨1, 0x51000, 0x1ffffff⟩])
      ⟨0, 0x1000, 0x1000⟩ := fun h => absurd h (by decide)
  have hrun := ((ClaimRun.init (C := fun st c => c.req.Clear st) h₀).claim
    (c := ⟨⟨0x50000, 0x1000, 0⟩, 0x50000⟩) hclear h₁).claim
    (c := ⟨⟨0, 0x1000, 0x1000⟩, 0x1000000⟩) hclear' h₂
  obtain ⟨hin, -⟩ := ClaimRun.noCollision (by decide) hrun
  exact ⟨st, hrun, hin _ (by simp) (by decide)⟩

/-- The claims of `romClaims` are a run. -/
theorem ClaimRun.claims {alloc : MemState → MemRes (Nat × MemState)} {guest : Guest}
    {mem : MemState} {reqs : List ClaimReq} {outs : List U32} {cs : List Claimed}
    {st st' : ClaimState}
    (h : ClaimRun alloc guest mem (fun _ _ => True) cs st)
    (hs : romClaims alloc reqs st = .ok (outs, st')) :
    ClaimRun alloc guest mem (fun _ _ => True) (cs ++ List.zipWith Claimed.mk reqs outs) st' := by
  induction reqs generalizing cs outs st with
  | nil =>
    cases hs
    simpa using h
  | cons req reqs ih =>
    obtain ⟨⟨out, st₁⟩, h₁, hs⟩ := bind_eq_ok.mp hs
    obtain ⟨⟨outs, st₂⟩, h₂, hs⟩ := bind_eq_ok.mp hs
    cases hs
    have hrun := ih (h.claim (c := ⟨req, out⟩) trivial h₁) h₂
    rwa [List.append_assoc] at hrun

/-- In a guest of 32 MiB, `rom_init`'s claims for a veneer of a page, and then the first page of the
arena, by address and from the arena: it is given out twice. -/
theorem ClaimRun.collision : ∃ cs st,
    ClaimRun freshNode (guestOn 0x2000000 0x8000000040000000) (rangeState []) (fun _ _ => True)
        cs st ∧
      cs.drop 3 = [⟨⟨0x1000000, 0x1000, 0⟩, 0x1000000⟩, ⟨⟨0, 0x1000, 0x1000⟩, 0x1000000⟩] ∧
      ¬ cs.Pairwise fun c c' => c'.req.align ≠ 0 → ∀ a, ¬ (c.Has a ∧ c'.Has a) := by
  have h₀ : claimInit freshNode (guestOn 0x2000000 0x8000000040000000) (rangeState []) =
      .ok (stateOf [⟨1, 0, 0x1ffffff⟩]) := by decide +kernel
  obtain ⟨st, hs⟩ : ∃ st, romClaims freshNode
      (initClaims (guestOn 0x2000000 0x8000000040000000) 0x1000 ++
        [⟨0x1000000, 0x1000, 0⟩, ⟨0, 0x1000, 0x1000⟩]) (stateOf [⟨1, 0, 0x1ffffff⟩]) =
      .ok ([0x50000, 4, 0xf00000, 0x1000000, 0x1000000], st) := ⟨_, by rfl⟩
  refine ⟨_, st, (ClaimRun.init h₀).claims hs, rfl, fun hapart => ?_⟩
  have hpair := hapart.sublist (List.drop_sublist 3 _)
  exact List.pairwise_pair.mp hpair (by decide) 0x1000000
    ⟨⟨by decide, by decide⟩, by decide, by decide⟩

end Prephv
