import Prephv.Mmu.Model

/-!
# Mmu — SLB

The segment lookaside buffer and the code of `mmu.c` that writes it: `slb_init`,
`mmu_guest_update` and `mmu_guest_fault_seg`.

An entry keeps the two words it was written with: the ESID word with its valid bit, and the VSID
word.  `slbmte` writes the slot its index field names, `slbie` takes the valid bit of the entries
whose segment size and ESID match, `slbmfee` reads a slot's ESID word, and `slbia` spares slot 0.
-/

set_option autoImplicit false

namespace Prephv

open Words

/-! ### The buffer -/

/-- An SLB entry: the ESID word, without the slot, and the VSID word. -/
structure SlbEntry where
  esid : U64
  vsid : U64
  deriving DecidableEq, Repr

namespace SlbEntry

def valid (e : SlbEntry) : Bool := e.esid &&& slbEsidV ≠ 0

/-- The B field. -/
def seg (e : SlbEntry) : SegSize := if e.vsid >>> 62 = 1 then .seg1T else .seg256M

/-- The ESID, of 24 or 36 bits. -/
def esidVal (e : SlbEntry) : U64 := e.esid >>> e.seg.shift

/-- The VSID field. -/
def vsidVal (e : SlbEntry) : U64 :=
  match e.seg with
  | .seg1T => (e.vsid >>> slbVsidShift1T) &&& lowMask 64 38
  | .seg256M => (e.vsid >>> slbVsidShift256MB) &&& lowMask 64 50

/-- The entry translates an effective address. -/
def Matches (e : SlbEntry) (ea : U64) : Prop :=
  e.valid = true ∧ e.esidVal = ea >>> e.seg.shift

instance (e : SlbEntry) (ea : U64) : Decidable (e.Matches ea) := inferInstanceAs (Decidable (_ ∧ _))

/-- The entry without its valid bit. -/
def clear (e : SlbEntry) : SlbEntry := { e with esid := e.esid &&& ~~~slbEsidV }

/-- The segment size an `slbie` operand selects. -/
def slbieSeg (rb : U64) : SegSize := if rb &&& slbieB1T ≠ 0 then .seg1T else .seg256M

/-- The entry after an `slbie`. -/
def slbie (e : SlbEntry) (rb : U64) : SlbEntry :=
  if e.seg = slbieSeg rb ∧ e.esidVal = rb >>> e.seg.shift then e.clear else e

end SlbEntry

/-- The SLB, by slot. -/
abbrev Slb := Nat → SlbEntry

namespace Slb

/-- `slbmte RS, RB`. -/
def slbmte (slb : Slb) (rs rb : U64) : Slb :=
  Function.update slb (rb &&& 0xfff).toNat ⟨rb &&& ~~~0xfff#64, rs⟩

/-- `slbie RB`. -/
def slbie (slb : Slb) (rb : U64) : Slb := fun i => (slb i).slbie rb

/-- `slbia`. -/
def slbia (slb : Slb) : Slb := fun i => if i = 0 then slb i else (slb i).clear

end Slb

/-! ### `mmu.c` -/

def hvSlot : U64 := 0
def ailSlot : U64 := 1
def grmSlot : U64 := 2
/-- `SR_INDEX_TO_SLB_SLOT(x)`, of an `unsigned` index. -/
def srIndexToSlbSlot (x : U32) : U32 := x + 3
/-- `SR_INDEX_TO_EA(index)`. -/
def srIndexToEa (index : Nat) : U64 := BitVec.ofNat 64 index <<< 28

/-- `ESID_MASK_1T` or `ESID_MASK_256MB`. -/
def SegSize.esidMask : SegSize → U64
  | .seg1T => esidMask1T
  | .seg256M => esidMask256MB

/-- `slb_make_esid`. -/
def slbMakeEsid (ea : U64) (segSize : SegSize) (slot : U64) : U64 :=
  (ea &&& segSize.esidMask) ||| slbEsidV ||| slot

/-- `slb_make_vsid`. -/
def slbMakeVsid (vsid : U64) (segSize : SegSize) (base : PageSize) : U64 :=
  let v := slbVsidKP
  let v := if segSize = .seg1T then v ||| ((vsid <<< slbVsidShift1T) ||| slbVsidB1T)
    else v ||| (vsid <<< slbVsidShift256MB)
  let (v, lp) := if base = .page16M then (v ||| slbVsidL, slbVsidLp16M) else (v, slbVsidLp4K)
  v ||| (lp <<< slbVsidLpShift)

/-- `slb_init`. -/
def slbInit (slb : Slb) : Slb :=
  let slb := slb.slbia
  let slb := slb.slbmte (slbMakeVsid hvVsid .seg1T .page16M) (slbMakeEsid hvAspace .seg1T hvSlot)
  slb.slbmte (slbMakeVsid ailVsid .seg256M .page4K) (slbMakeEsid ailAspaceStart .seg256M ailSlot)

/-- The operand `slb_invalidate` gives to `slbie`. -/
def slbieOperand (ea : U64) (segSize : SegSize) : U64 :=
  let v := if segSize = .seg1T then slbieB1T else 0
  v ||| (ea &&& segSize.esidMask)

/-- `slb_invalidate`. -/
def slbInvalidate (slb : Slb) (ea : U64) (segSize : SegSize) : Slb :=
  slb.slbie (slbieOperand ea segSize)

/-- `mmu_guest_fault_seg`. -/
def mmuGuestFaultSeg (guest : Option Guest) (slb : Slb) (ea : U64) : Res (Err × Slb) := do
  let srIndex : U32 := (ea >>> 28).setWidth 32
  let slbSlot := srIndexToSlbSlot srIndex
  bugOn (BitVec.ofNat 32 srCount ≤ srIndex) "invalid SR index, bad EA 0x%lx"
  if (slb slbSlot.toNat).esid &&& slbEsidV ≠ 0 then
    return (.unsupported, slb)
  else
    let off ← guestIsMmuOff guest
    bugOn (off = true) "SLB miss should only happen with guest MMU off"
    let esid := slbMakeEsid ea .seg256M (slbSlot.setWidth 64)
    let sr := (guest.map (·.srAt srIndex.toNat)).getD 0
    let vsid := slbMakeVsid ((sr &&& srVsidMask).setWidth 64) .seg256M .page4K
    return (.none, slb.slbmte vsid esid)

/-- `mmu_guest_update`. -/
def mmuGuestUpdate (slb : Slb) (mmuTurningOn : Bool) : Slb :=
  if mmuTurningOn then
    slbInvalidate slb layoutVmStart .seg1T
  else
    let slb := (List.range srCount).foldl
      (fun slb i => slbInvalidate slb (srIndexToEa i) .seg256M) slb
    slb.slbmte (slbMakeVsid grmVsid .seg1T .page16M) (slbMakeEsid layoutVmStart .seg1T grmSlot)

/-! ### The entries the code writes -/

/-- Slot 0: hypervisor space. -/
def hvEntry : SlbEntry := ⟨0x8000000008000000#64, slbMakeVsid hvVsid .seg1T .page16M⟩

/-- Slot 1: the AIL vectors. -/
def ailEntry : SlbEntry := ⟨0xc000000008000000#64, slbMakeVsid ailVsid .seg256M .page4K⟩

/-- Slot 2: guest RAM, with the guest MMU off. -/
def grmEntry : SlbEntry := ⟨0x0000000008000000#64, slbMakeVsid grmVsid .seg1T .page16M⟩

/-- Slot `3 + k`: guest segment `k`, with the guest MMU on. -/
def srEntry (guest : Guest) (k : Nat) : SlbEntry :=
  ⟨(BitVec.ofNat 64 k <<< 28) ||| slbEsidV,
    slbMakeVsid ((guest.srAt k &&& srVsidMask).setWidth 64) .seg256M .page4K⟩

end Prephv
