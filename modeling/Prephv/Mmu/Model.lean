import Prephv.Guest.State
import Prephv.Lib.GroupTable

/-!
# Mmu — Model

The hashed page table code of `mmu.c`: the virtual page number of an effective address, the hash
and the two PTE words, and `mmu_map`, `mmu_unmap` and `mmu_map_range`.

The table is the array of PTEs at `htab`, indexed as the code indexes it.  A PTE is kept in CPU
order: the code passes every access through `be64_to_cpu` and `cpu_to_be64`.  The TLB is not
modelled, so `tlbie` and the barriers are absent.
-/

set_option autoImplicit false

namespace Prephv

/-- `seg_size_t`. -/
inductive SegSize where
  | seg256M | seg1T
  deriving DecidableEq, Repr

/-- `page_size_t`. -/
inductive PageSize where
  | page4K | page16M
  deriving DecidableEq, Repr

/-- `PAGE_SHIFT` or `PAGE_SHIFT_16M`. -/
def PageSize.shift : PageSize → Nat
  | .page4K => pageShift
  | .page16M => pageShift16M

/-- `PAGE_SIZE` or `PAGE_SIZE_16M`. -/
def PageSize.size (p : PageSize) : U64 := 1#64 <<< p.shift

/-- `SID_SHIFT_256MB` or `SID_SHIFT_1T`. -/
def SegSize.shift : SegSize → Nat
  | .seg256M => sidShift256MB
  | .seg1T => sidShift1T

def vpnShift : Nat := 12
def hvVsid : U64 := 0x876543210#64
def ailVsid : U64 := 0x876543210123#64
def grmVsid : U64 := 0x555555555#64

/-! ### Effective addresses -/

/-- `ptr_2_ra`. -/
def ptr2Ra (addr : U64) : Res U64 := do
  bugOn (addr < hvAspace) "ea 0x%x is not an HV address"
  return addr &&& ~~~hvAspace

theorem ptr2Ra_eq_ok {ea ra : U64} :
    ptr2Ra ea = .ok ra ↔ hvAspace ≤ ea ∧ ra = ea &&& ~~~hvAspace := by
  rw [ptr2Ra, bugOn_bind_eq_ok]
  refine and_congr (by simp) ?_
  simp [pure, Except.pure, eq_comm]

/-- `ea >= AIL_ASPACE_START && ea <= AIL_ASPACE_END`. -/
def isAil (ea : U64) : Prop := ailAspaceStart ≤ ea ∧ ea ≤ ailAspaceEnd

instance (ea : U64) : Decidable (isAil ea) := inferInstanceAs (Decidable (_ ∧ _))

/-- The checks every `ea_2_*` function makes on an address outside AIL and HV space. -/
def vmEaMmuOff (guest : Option Guest) (ea : U64) (fmt : String) : Res Bool := do
  bugOn (layoutVmEnd ≤ ea) fmt
  bugOn (guest.isNone = true) "VM EA access too early"
  guestIsMmuOff guest

/-- `ea_2_seg_size`. -/
def ea2SegSize (guest : Option Guest) (ea : U64) : Res SegSize :=
  if isAil ea then .ok .seg256M
  else if ea &&& hvAspace ≠ 0 then .ok .seg1T
  else do
    if ← vmEaMmuOff guest ea "unknown EA" then return .seg1T else return .seg256M

/-- `ea_2_base_size`. -/
def ea2BaseSize (guest : Option Guest) (ea : U64) : Res PageSize :=
  if isAil ea then .ok .page4K
  else if hvAspace ≤ ea then .ok .page16M
  else do
    if ← vmEaMmuOff guest ea "unknown EA" then return .page16M else return .page4K

/-- `SR_INDEX(ea)`. -/
def srIndex (ea : U64) : Nat := (ea >>> 28).toNat

/-- `ea_2_vpn`.  The segment register is shifted as a 32-bit value. -/
def ea2Vpn (guest : Option Guest) (ea : U64) : Res U64 := do
  let sidShift := (← ea2SegSize guest ea).shift
  if isAil ea then
    return ((ea - ailAspaceStart) >>> vpnShift) ||| (ailVsid <<< (sidShift - vpnShift))
  else if ea &&& hvAspace ≠ 0 then
    return ((ea &&& ~~~hvAspace) >>> vpnShift) ||| (hvVsid <<< (sidShift - vpnShift))
  else if ← vmEaMmuOff guest ea "unexpected EA" then
    return ((ea - layoutVmStart) >>> vpnShift) ||| (grmVsid <<< (sidShift - vpnShift))
  else
    let sr := (guest.map (·.srAt (srIndex ea))).getD 0
    return ((ea - layoutVmStart) >>> vpnShift) ||| (sr <<< (sidShift - vpnShift)).setWidth 64

/-! ### Hash and PTE words -/

/-- `vpn_hash`. -/
def vpnHash (vpn : U64) (segSize : SegSize) (base : PageSize) : U64 :=
  let mask := (1#64 <<< (segSize.shift - vpnShift)) - 1
  let vsid := vpn >>> (segSize.shift - vpnShift)
  let hash := vsid ^^^ (vsid <<< 25) ^^^ ((vpn &&& mask) >>> (base.shift - vpnShift))
  hash &&& 0x7fffffffff#64

/-- The LP bits and the RPN mask `rpn_encode` selects. -/
def rpnFields (base actual : PageSize) : U64 × U64 :=
  match actual, base with
  | .page16M, .page4K => (pteRLp4K16M, pteRRpn16M)
  | .page16M, .page16M => (pteRLp16M16M, pteRRpn16M)
  | .page4K, _ => (pteRLp4K4K, pteRRpn4K)

/-- `rpn_encode`. -/
def rpnEncode (ra : U64) (base actual : PageSize) : Res U64 := do
  let (lp, mask) := rpnFields base actual
  bugOn (ra &&& mask ≠ ra) "RA 0x%x does not match mask 0x%x"
  return (ra &&& mask) ||| (lp <<< pteRLpShift)

/-- `avpn_encode`.  The actual page size is only checked there. -/
def avpnEncode (vpn : U64) (base : PageSize) : U64 :=
  let v := vpn >>> (23 - vpnShift)
  let v := if base = .page16M then v &&& ~~~1#64 else v
  v <<< pteVAvpnShift

/-- `pte_t`, in CPU order. -/
structure Pte where
  v : U64
  r : U64
  deriving DecidableEq, Repr

/-- `be64_to_cpu(pte->v) & PTE_V_VALID`. -/
def Pte.valid (p : Pte) : Bool := p.v &&& pteVValid ≠ 0

@[simp] theorem Pte.valid_zero (r : U64) : (Pte.mk 0 r).valid = false := by simp [Pte.valid]

/-- `PTE_V_COMPARE(x, y)`. -/
def pteVCompare (x y : U64) : Bool := (x ^^^ y) &&& pteVAvpn = 0

/-- The first doubleword's flags of `mmu_map_vpn`. -/
def mapVflags (segSize : SegSize) (actual : PageSize) : U64 :=
  let vflags := pteRM ||| pteVValid ||| (if actual ≠ .page4K then pteVLarge else 0)
  if segSize = .seg1T then vflags ||| pteV1TBSeg else vflags

/-! ### Mapping and unmapping -/

/-- The table: `htab`'s PTEs and the hash mask that goes with its size. -/
structure Htab where
  pte : Nat → Pte
  hashMask : U64

/-- Writes a PTE. -/
def Htab.setPte (t : Htab) (i : Nat) (p : Pte) : Htab :=
  { t with pte := Function.update t.pte i p }

@[simp] theorem Htab.setPte_hashMask (t : Htab) (i : Nat) (p : Pte) :
    (t.setPte i p).hashMask = t.hashMask := rfl

@[simp] theorem Htab.setPte_self (t : Htab) (i : Nat) (p : Pte) : (t.setPte i p).pte i = p :=
  Function.update_self ..

theorem Htab.setPte_of_ne (t : Htab) {i j : Nat} (p : Pte) (h : j ≠ i) :
    (t.setPte i p).pte j = t.pte j := Function.update_of_ne h ..

/-- `((hash & htab_hash_mask) * PTES_PER_GROUP)`: the index of a page's first PTE. -/
def ptegIndex (hashMask vpn : U64) (segSize : SegSize) (base : PageSize) : U64 :=
  (vpnHash vpn segSize base &&& hashMask) * BitVec.ofNat 64 ptesPerGroup

/-- The loop of `mmu_map_vpn`, with `n` base pages left to map. -/
def mapVpnLoop (pp : U64) (segSize : SegSize) (base actual : PageSize) (ra : U64) :
    Nat → U64 → Htab → Res (Int × Htab)
  | 0, _, t => .ok (0, t)
  | n + 1, vpn, t =>
    let pteg := ptegIndex t.hashMask vpn segSize base
    match GroupTable.findSlot ptesPerGroup (fun p => !p.valid) t.pte pteg.toNat with
    | none => .ok (-1, t)
    | some i => do
      let v := avpnEncode vpn base ||| mapVflags segSize actual
      let r := (← rpnEncode ra base actual) ||| (pp ||| pteRM)
      mapVpnLoop pp segSize base actual ra n (vpn + (base.size >>> vpnShift))
        (t.setPte i ⟨v, r⟩)

/-- `mmu_map_vpn`. -/
def mmuMapVpn (t : Htab) (vpn ra pp : U64) (segSize : SegSize) (base actual : PageSize) :
    Res (Int × Htab) := do
  bugOn (actual.size < base.size) "actual size 0x%x cannot be less than base 0x%x"
  bugOn (ra &&& ~~~(actual.size - 1) ≠ ra) "RA 0x%x not aligned to 0x%x"
  mapVpnLoop pp segSize base actual ra (actual.size.toNat / base.size.toNat) vpn t

/-- The loop of `mmu_unmap_vpn`, with `n` base pages left to unmap. -/
def unmapVpnLoop (segSize : SegSize) (base : PageSize) : Nat → U64 → Htab → Int × Htab
  | 0, _, t => (0, t)
  | n + 1, vpn, t =>
    let pteg := ptegIndex t.hashMask vpn segSize base
    match GroupTable.findSlot ptesPerGroup
        (fun p => p.valid && pteVCompare p.v (avpnEncode vpn base)) t.pte pteg.toNat with
    | none => (-1, t)
    | some i =>
      unmapVpnLoop segSize base n (vpn + (base.size >>> vpnShift))
        (t.setPte i ⟨0, (t.pte i).r⟩)

/-- `mmu_unmap_vpn`. -/
def mmuUnmapVpn (t : Htab) (vpn : U64) (segSize : SegSize) (base actual : PageSize) :
    Res (Int × Htab) := do
  bugOn (actual.size < base.size) "actual size cannot be less than base"
  return unmapVpnLoop segSize base (actual.size.toNat / base.size.toNat) vpn t

/-- `mmu_map`. -/
def mmuMap (guest : Option Guest) (t : Htab) (ea ra pp : U64) (actual : PageSize) : Res Htab := do
  bugOn (ea &&& ~~~(actual.size - 1) ≠ ea) "EA 0x%x not aligned to 0x%x"
  let vpn ← ea2Vpn guest ea
  let segSize ← ea2SegSize guest ea
  let base ← ea2BaseSize guest ea
  let (ret, t) ← mmuMapVpn t vpn ra pp segSize base actual
  bugOn (ret ≠ 0) "PTEG spill for EA 0x%x"
  return t

/-- `mmu_unmap`. -/
def mmuUnmap (guest : Option Guest) (t : Htab) (ea : U64) (actual : PageSize) : Res Htab := do
  bugOn (ea &&& ~~~(actual.size - 1) ≠ ea) "ea 0x%x not aligned to 0x%x"
  let vpn ← ea2Vpn guest ea
  let segSize ← ea2SegSize guest ea
  let base ← ea2BaseSize guest ea
  let (ret, t) ← mmuUnmapVpn t vpn segSize base actual
  bugOn (ret ≠ 0) "EA 0x%x not mapped"
  return t

/-- The loop of `mmu_map_range`, with `n` pages left to map. -/
def mapRangeLoop (guest : Option Guest) (prot : U64) (actual : PageSize) :
    Nat → U64 → U64 → Htab → Res Htab
  | 0, _, _, t => .ok t
  | n + 1, addr, ra, t => do
    let t ← mmuMap guest t addr ra prot actual
    mapRangeLoop guest prot actual n (addr + actual.size) (ra + actual.size) t

/-- `mmu_map_range`.  The range is a multiple of the page size, so `addr < ea_end` holds once for
each page of it, and never when `ea_end ≤ ea_start`. -/
def mmuMapRange (guest : Option Guest) (t : Htab) (eaStart eaEnd raStart prot : U64)
    (actual : PageSize) : Res Htab := do
  bugOn ((eaEnd - eaStart) % actual.size ≠ 0) "range [0x%lx, 0x%lx) not 0x%x aligned"
  mapRangeLoop guest prot actual ((eaEnd.toNat - eaStart.toNat) / actual.size.toNat) eaStart
    raStart t

end Prephv
