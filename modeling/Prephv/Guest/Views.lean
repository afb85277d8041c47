import Prephv.Guest.Segments
import Prephv.Mmu.Slots
import Prephv.Mmu.Unique

/-!
# Guest — Views

The virtual page number the processor forms for a guest address, against the one under which the
code puts the address's page in the table.

With the guest MMU on, `mmu_guest_fault_seg` takes 24 bits of the segment register for the VSID.
`ea_2_vpn` shifts the register as a 32-bit value, which leaves 16 bits, and puts the whole address
over them, with its segment number.  `ea2Vpn_eq_slb_iff` says for which registers the two are the
same; the registers of `guest_init`, which hold their own numbers, are among them.

`guest_init` maps guest RAM for both views, with the guest MMU off and on, and both translate an
address to the same byte (`guestInit_views`).
-/

set_option autoImplicit false

namespace Prephv

open Words

/-! ### The processor's page number -/

/-- The VPN the processor forms from an SLB entry for an address. -/
def SlbEntry.vpn (e : SlbEntry) (ea : U64) : U64 :=
  (e.vsidVal <<< (e.seg.shift - vpnShift)) ||| ((ea &&& lowMask 64 e.seg.shift) >>> vpnShift)

section Segment

variable {ea : U64}

/-- The part of an address within its 256M segment. -/
theorem segOffset_toNat (ea : U64) :
    ((ea &&& lowMask 64 28) >>> 12).toNat = ea.toNat % 2 ^ 28 / 2 ^ 12 := by
  rw [BitVec.toNat_ushiftRight, Nat.shiftRight_eq_div_pow, and_lowMask _ (by decide)]

theorem srEntry_vpn (guest : Guest) (k : Nat) : (srEntry guest k).vpn ea =
    ((guest.srAt k &&& srVsidMask).setWidth 64 <<< 16) ||| ((ea &&& 0x0fffffff#64) >>> 12) := by
  rw [SlbEntry.vpn, srEntry_vsidVal, srEntry_seg]
  rfl

/-- A VSID of 32 bits over the part of an address within its segment. -/
theorem vpn_toNat (vsid : U32) : ((vsid.setWidth 64 <<< 16) ||| ((ea &&& lowMask 64 28) >>> 12) :
    U64).toNat = vsid.toNat * 2 ^ 16 + ea.toNat % 2 ^ 28 / 2 ^ 12 := by
  have hlt := vsid.isLt
  have hvsid : (vsid.setWidth 64 <<< 16 : U64).toNat = vsid.toNat * 2 ^ 16 := by
    rw [BitVec.toNat_shiftLeft, Nat.shiftLeft_eq, BitVec.toNat_setWidth]
    omega
  have hoff := segOffset_toNat ea
  rw [BitVec.or_comm, or_toNat (k := 16) (by omega) (by rw [hvsid]; exact Dvd.intro_left _ rfl),
    hvsid, hoff]

/-- `ea_2_vpn` puts the segment's number over the low 16 bits of the register. -/
theorem vmOn_vpn_eq (hea : ea < layoutVmEnd) (sr : U32) :
    ((ea >>> 12) ||| (sr <<< 16).setWidth 64 : U64) =
      (((sr &&& lowMask 32 16) ||| (ea >>> 28).setWidth 32).setWidth 64 <<< 16) |||
        ((ea &&& lowMask 64 28) >>> 12) := by
  have hlt : ea.toNat < 2 ^ 32 := hea
  have hoff := segOffset_toNat ea
  have hnum : ((ea >>> 28).setWidth 32 : U32).toNat = ea.toNat / 2 ^ 28 := by
    rw [BitVec.toNat_setWidth, BitVec.toNat_ushiftRight, Nat.shiftRight_eq_div_pow]
    omega
  -- the address is its segment's number over its offset
  have hsplit : ea >>> 12 = (((ea >>> 28).setWidth 32 : U32).setWidth 64 <<< 16) |||
      ((ea &&& lowMask 64 28) >>> 12) := by
    apply BitVec.eq_of_toNat_eq
    rw [vpn_toNat, hnum, BitVec.toNat_ushiftRight, Nat.shiftRight_eq_div_pow]
    omega
  have hsr : ((sr <<< 16).setWidth 64 : U64) = (sr &&& lowMask 32 16).setWidth 64 <<< 16 := by
    apply BitVec.eq_of_toNat_eq
    rw [BitVec.toNat_setWidth, BitVec.toNat_shiftLeft, Nat.shiftLeft_eq, BitVec.toNat_shiftLeft,
      Nat.shiftLeft_eq, BitVec.toNat_setWidth, and_lowMask _ (by decide)]
    omega
  rw [hsr, BitVec.setWidth_or, BitVec.shiftLeft_or_distrib]
  conv_lhs => rw [hsplit]
  rw [BitVec.or_comm, BitVec.or_assoc]

end Segment

/-- **When software and hardware agree on a guest address.**  With the guest MMU on and the slot of
the address's segment free, `mmu_guest_fault_seg` fills the slot; the VPN the processor forms from
it is the one `ea_2_vpn` gives, just when the register has no VSID bit above the low 16 and all the
bits of the segment's number. -/
theorem ea2Vpn_eq_slb_iff {guest : Guest} {slb : Slb} {ea : U64} (hmmu : guest.MmuIs true)
    (hea : ea < layoutVmEnd) (hfree : (slb (3 + srIndex ea)).valid = false) :
    ∃ vpn slb', ea2Vpn (some guest) ea = .ok vpn ∧
      mmuGuestFaultSeg (some guest) slb ea = .ok (.none, slb') ∧
      (slb' (3 + srIndex ea)).Matches ea ∧
      (slb' (3 + srIndex ea)).vpn ea = ((guest.srAt (srIndex ea) &&& srVsidMask).setWidth 64 <<< 16)
        ||| ((ea &&& 0x0fffffff#64) >>> 12) ∧
      (vpn = (slb' (3 + srIndex ea)).vpn ea ↔
        guest.srAt (srIndex ea) &&& 0xff0000#32 = 0 ∧
          (ea >>> 28).setWidth 32 &&& ~~~guest.srAt (srIndex ea) = 0) := by
  have hlt : ea.toNat < 2 ^ 32 := hea
  have h16 : srCount = 16 := rfl
  have hidx : srIndex ea = ea.toNat / 2 ^ 28 := by
    rw [srIndex, BitVec.toNat_ushiftRight, Nat.shiftRight_eq_div_pow]
  have hk : srIndex ea < srCount := by omega
  obtain ⟨-, -, hvpn⟩ := ea2_vmOn hea rfl hmmu
  set sr := guest.srAt (srIndex ea) with hsr
  refine ⟨_, _, hvpn, mmuGuestFaultSeg_fill hk hidx.symm hmmu hfree, ?_⟩
  rw [Function.update_self]
  refine ⟨(srEntry_matches hk).mpr hidx.symm, srEntry_vpn guest _, ?_⟩
  rw [srEntry_vpn, vmOn_vpn_eq hea]
  have hnum : ((ea >>> 28).setWidth 32 : U32).toNat = ea.toNat / 2 ^ 28 := by
    rw [BitVec.toNat_setWidth, BitVec.toNat_ushiftRight, Nat.shiftRight_eq_div_pow]
    omega
  have hlow : ((ea >>> 28).setWidth 32 : U32) &&& lowMask 32 16 = (ea >>> 28).setWidth 32 := by
    apply BitVec.eq_of_toNat_eq
    rw [and_lowMask _ (by decide), hnum]
    omega
  have hmask : srVsidMask = lowMask 32 16 ||| 0xff0000#32 := by decide
  have hinj : ∀ a b : U32, ((a.setWidth 64 <<< 16) ||| ((ea &&& lowMask 64 28) >>> 12) : U64) =
      (b.setWidth 64 <<< 16) ||| ((ea &&& lowMask 64 28) >>> 12) ↔ a = b := by
    intro a b
    constructor
    · intro h
      have h := congrArg BitVec.toNat h
      rw [vpn_toNat, vpn_toNat] at h
      exact BitVec.eq_of_toNat_eq (by omega)
    · rintro rfl
      rfl
  rw [hmask, ← hsr]
  exact (hinj _ _).trans (and_or_eq_and_or_iff hlow (by decide))

/-- The registers `guest_init` leaves. -/
theorem ea2Vpn_eq_slb_iff_sample :
    let guest := guestOn 0x2000000 0x8000000040000000
    ∃ vpn slb', ea2Vpn (some guest) 0x1234 = .ok vpn ∧
      mmuGuestFaultSeg (some guest) (fun _ => ⟨0, 0⟩) 0x1234 = .ok (.none, slb') ∧
      vpn = (slb' 3).vpn 0x1234 := by
  set slb : Slb := fun _ => ⟨0, 0⟩
  have hfree : (slb (3 + srIndex 0x1234)).valid = false := by decide
  obtain ⟨vpn, slb', hvpn, hfault, -, -, hiff⟩ := ea2Vpn_eq_slb_iff
    (guestOn_mmuIs 0x2000000 0x8000000040000000) (show (0x1234 : U64) < layoutVmEnd by decide) hfree
  exact ⟨vpn, slb', hvpn, hfault, hiff.mpr ⟨by decide +kernel, by decide +kernel⟩⟩

/-- A guest whose segment registers hold a VSID of 17 bits. -/
def wideGuest : Guest :=
  { guestOn 0x2000000 0x8000000040000000 with sr := Vector.replicate srCount 0x10000 }

/-- The page at 0 is put in the table under VPN 0, and looked for under another. -/
theorem ea2Vpn_ne_slb : wideGuest.MmuIs true ∧ ∃ slb',
    ea2Vpn (some wideGuest) 0 = .ok 0 ∧
      mmuGuestFaultSeg (some wideGuest) (fun _ => ⟨0, 0⟩) 0 = .ok (.none, slb') ∧
      (slb' 3).Matches 0 ∧ (slb' 3).vpn 0 = 0x100000000 := by
  refine ⟨guestOn_mmuIs 0x2000000 0x8000000040000000, _, by decide +kernel, rfl, ?_, ?_⟩
  · decide +kernel
  · decide +kernel

/-! ### Both views of guest RAM -/

/-- Where a PTE for a page of the size takes an effective address. -/
def Pte.translate (q : Pte) (actual : PageSize) (ea : U64) : U64 :=
  q.ra actual ||| (ea &&& (actual.size - 1))

/-- The search for a VPN takes one PTE only; it is for a page of the segment size and the page
sizes, and takes the address to `ra`. -/
def Htab.Translates (t : Htab) (vpn : U64) (seg : SegSize) (base : PageSize) (ea ra : U64) : Prop :=
  ∃ i, t.Accepts i ⟨vpn, seg⟩ ∧ (t.pte i).seg = some seg ∧ (t.pte i).sizes = some (base, base) ∧
    (t.pte i).translate base ea = ra ∧ ∀ j, t.Accepts j ⟨vpn, seg⟩ → j = i

/-- The one PTE of a page of a range takes every address of the page to the range's real memory. -/
theorem translates_of_sole {t : Htab} {vpn ea ra prot : U64} {actual : PageSize} {seg : SegSize}
    (hactual : actual = seg.base)
    (he : Mapping.Ok seg ⟨actual, actual,
      ra + BitVec.ofNat 64 (ea.toNat / actual.size.toNat) * actual.size, prot⟩)
    (hsole : t.Sole (Page.start ⟨vpn, seg⟩) (encodePte (Page.start ⟨vpn, seg⟩) ⟨actual, actual,
      ra + BitVec.ofNat 64 (ea.toNat / actual.size.toNat) * actual.size, prot⟩)) :
    t.Translates vpn seg seg.base ea (ra + ea) := by
  subst hactual
  obtain ⟨i, hi, hpte, hone⟩ := Htab.sole_start.mp hsole
  refine ⟨i, hi, ?_, ?_, ?_, hone⟩
  · rw [hpte]
    exact encodePte_seg _ _
  · rw [hpte]
    exact encodePte_sizes he
  · -- the low bits of the address go where the page's real address has none
    have hra := encodePte_ra (p := Page.start ⟨vpn, seg⟩) he
    rw [hpte, Pte.translate, hra]
    dsimp only
    obtain ⟨hdvd, -⟩ := ra_of_rpnFields he.ra
    dsimp only at hdvd
    have hsize : seg.base.size.toNat = 2 ^ seg.base.shift := by cases seg <;> rfl
    have hmask : seg.base.size - 1 = lowMask 64 seg.base.shift := by cases seg <;> rfl
    have hle : seg.base.shift ≤ 64 := by cases seg <;> decide
    have hlow : (ea &&& lowMask 64 seg.base.shift).toNat = ea.toNat % 2 ^ seg.base.shift :=
      and_lowMask ea hle
    have hsplit : BitVec.ofNat 64 (ea.toNat / seg.base.size.toNat) * seg.base.size +
        (ea &&& lowMask 64 seg.base.shift) = ea := by
      have hlt := ea.isLt
      have hdiv := Nat.div_add_mod ea.toNat (2 ^ seg.base.shift)
      apply BitVec.eq_of_toNat_eq
      rw [BitVec.toNat_add, BitVec.toNat_mul, hlow, hsize, BitVec.toNat_ofNat,
        Nat.mod_eq_of_lt (Nat.lt_of_le_of_lt (Nat.div_le_self _ _) hlt), Nat.mul_comm,
        Nat.mod_add_mod, hdiv, Nat.mod_eq_of_lt hlt]
    have hsum := or_toNat (x := ea &&& lowMask 64 seg.base.shift) (k := seg.base.shift)
      (by rw [hlow]; exact Nat.mod_lt _ (Nat.two_pow_pos _)) hdvd
    rw [hmask, BitVec.or_comm]
    calc _ = (ra + BitVec.ofNat 64 (ea.toNat / seg.base.size.toNat) * seg.base.size) +
          (ea &&& lowMask 64 seg.base.shift) := ?_
      _ = ra + ea := by rw [BitVec.add_assoc, hsplit]
    apply BitVec.eq_of_toNat_eq
    rw [hsum, BitVec.toNat_add (_ + _), ← hsum]
    rw [Nat.mod_eq_of_lt]
    exact BitVec.isLt _

/-- The address of the `j`-th page of a size. -/
def pageEa (actual : PageSize) (j : Nat) : U64 := BitVec.ofNat 64 j * actual.size

theorem pageEa_toNat {actual : PageSize} {j : Nat} (hj : j * 2 ^ actual.shift < 2 ^ 64) :
    (pageEa actual j).toNat = j * 2 ^ actual.shift := by
  have hsize : actual.size.toNat = 2 ^ actual.shift := by cases actual <;> rfl
  have hle : j ≤ j * 2 ^ actual.shift := Nat.le_mul_of_pos_right _ (Nat.two_pow_pos _)
  rw [pageEa, BitVec.toNat_mul, BitVec.toNat_ofNat, hsize, Nat.mod_eq_of_lt (a := j) (by omega),
    Nat.mod_eq_of_lt hj]

/-- With the guest MMU off, the base page of an address is the GRM page of its 16M page. -/
theorem grmEntry_start {ea : U64} (hea : ea < layoutVmEnd) :
    Page.start ⟨grmEntry.vpn ea, .seg1T⟩ = grmPage (pageEa .page16M (ea.toNat / 2 ^ 24)) := by
  have hlt : ea.toNat < 2 ^ 32 := hea
  have hpage : (pageEa .page16M (ea.toNat / 2 ^ 24)).toNat = ea.toNat / 2 ^ 24 * 2 ^ 24 :=
    pageEa_toNat (show ea.toNat / 2 ^ 24 * 2 ^ 24 < 2 ^ 64 by omega)
  have hentry : grmEntry.vpn ea = ((ea &&& lowMask 64 40) >>> 12) ||| 0x5555555550000000#64 :=
    BitVec.or_comm _ _
  have hlow : (ea &&& lowMask 64 40).toNat = ea.toNat := by
    rw [and_lowMask ea (by decide)]
    omega
  have hsid : (0x5555555550000000#64).toNat = 0x5555555550000000 := rfl
  have hvpn : (grmEntry.vpn ea).toNat = 0x5555555550000000 + ea.toNat / 2 ^ 12 := by
    rw [hentry, vpn_or _ 28 0x5555555550000000#64 (by omega) (by decide), hlow, hsid]
  have hstart := Page.start_vpn ⟨grmEntry.vpn ea, .seg1T⟩
  rw [show Page.offsetBits ⟨_, .seg1T⟩ = 12 from rfl, hvpn] at hstart
  have hgrm : (grmPage (pageEa .page16M (ea.toNat / 2 ^ 24))).vpn.toNat =
      0x5555555550000000 + ea.toNat / 2 ^ 24 * 2 ^ 24 / 4096 := by
    rw [grmPage_vpn (show (pageEa .page16M (ea.toNat / 2 ^ 24)).toNat < 2 ^ 32 by omega), hpage]
  refine Page.mk.injEq .. ▸ ⟨BitVec.eq_of_toNat_eq (hstart.trans (Eq.trans ?_ hgrm.symm)), rfl⟩
  omega

/-- With the guest MMU on and the registers of `guest_init`, the base page of an address is the
guest page of its number. -/
theorem srEntry_start {ea ramSize ram : U64} (hea : ea < layoutVmEnd) :
    Page.start ⟨(srEntry (guestOn ramSize ram) (srIndex ea)).vpn ea, .seg256M⟩ =
      vmPage (pageEa .page4K (ea.toNat / 2 ^ 12)) := by
  have hlt : ea.toNat < 2 ^ 32 := hea
  have h16 : srCount = 16 := rfl
  have hidx : srIndex ea = ea.toNat / 2 ^ 28 := by
    rw [srIndex, BitVec.toNat_ushiftRight, Nat.shiftRight_eq_div_pow]
  have hpage : (pageEa .page4K (ea.toNat / 2 ^ 12)).toNat = ea.toNat / 2 ^ 12 * 2 ^ 12 :=
    pageEa_toNat (show ea.toNat / 2 ^ 12 * 2 ^ 12 < 2 ^ 64 by omega)
  have hvsid : ((guestOn ramSize ram).srAt (srIndex ea) &&& srVsidMask).toNat = srIndex ea := by
    have hmask : srVsidMask = lowMask 32 24 := rfl
    rw [guestOn_srAt _ _ _ (by omega), hmask, and_lowMask _ (by decide), BitVec.toNat_ofNat]
    omega
  have hvpn : ((srEntry (guestOn ramSize ram) (srIndex ea)).vpn ea).toNat = ea.toNat / 2 ^ 12 := by
    have h := @vpn_toNat ea ((guestOn ramSize ram).srAt (srIndex ea) &&& srVsidMask)
    rw [hvsid, hidx] at h
    rw [srEntry_vpn, hidx]
    refine h.trans ?_
    omega
  have hstart := Page.start_vpn ⟨(srEntry (guestOn ramSize ram) (srIndex ea)).vpn ea, .seg256M⟩
  rw [show Page.offsetBits ⟨_, .seg256M⟩ = 0 from rfl, hvpn] at hstart
  have hvm : (vmPage (pageEa .page4K (ea.toNat / 2 ^ 12))).vpn.toNat =
      ea.toNat / 2 ^ 12 * 2 ^ 12 / 4096 := by
    rw [vmPage_vpn, hpage]
  refine Page.mk.injEq .. ▸ ⟨BitVec.eq_of_toNat_eq (hstart.trans (Eq.trans ?_ hvm.symm)), rfl⟩
  omega

theorem zero_add_pageEa (actual : PageSize) (j : Nat) :
    (0 : U64) + BitVec.ofNat 64 j * actual.size = pageEa actual j := BitVec.zero_add _

theorem grmPage_ne_vmPage (x y : U64) : grmPage x ≠ vmPage y := by
  intro hsame
  cases congrArg Page.seg hsame

section Ram

variable {t t' : Htab} {ramSize ram ra : U64}

/-- The loop that maps guest RAM from 0 on, in pages of a size. -/
theorem ramRange_loop {guest : Option Guest} {actual : PageSize}
    (h : mmuMapRange guest t 0 ramSize ra ppRWRW actual = .ok t') :
    ramSize.toNat / 2 ^ actual.shift * 2 ^ actual.shift = ramSize.toNat ∧
      mapRangeLoop guest ppRWRW actual (ramSize.toNat / 2 ^ actual.shift) 0 ra t = .ok t' := by
  have hz : (0 : U64).toNat = 0 := rfl
  have hsize : actual.size.toNat = 2 ^ actual.shift := by cases actual <;> rfl
  have hcount := mmuMapRange_pages h
  obtain ⟨-, hloop⟩ := bugOn_bind_eq_ok.mp h
  rw [hz, Nat.sub_zero, hsize] at hcount hloop
  exact ⟨hcount, hloop⟩

/-- Guest RAM that is mapped ends below 4 GiB: its last page has an address there. -/
theorem ramSize_le {guest : Option Guest} (hmin : 2 ^ 25 ≤ ramSize.toNat)
    (h : mmuMapRange guest t 0 ramSize ra ppRWRW .page16M = .ok t') : ramSize.toNat ≤ 2 ^ 32 := by
  obtain ⟨hcount, hloop⟩ := ramRange_loop h
  rw [show PageSize.page16M.shift = 24 from rfl] at hcount hloop
  set n := ramSize.toNat / 2 ^ 24 with hn
  have hra := mapRangeLoop_ra (by omega) hloop
  rw [show PageSize.page16M.size.toNat = 2 ^ 24 from rfl] at hra
  obtain ⟨r, hr⟩ := mapRangeLoop_pages n 0 _ hloop (n - 1) (by omega)
  rw [zero_add_pageEa] at hr
  have hlast : (pageEa .page16M (n - 1)).toNat = (n - 1) * 2 ^ 24 :=
    pageEa_toNat (show (n - 1) * 2 ^ 24 < 2 ^ 64 by omega)
  have hlt : (pageEa .page16M (n - 1)).toNat < 2 ^ 32 :=
    vm_of_eaPages (show (pageEa .page16M (n - 1)).toNat < 2 ^ 63 by omega) hr
  omega

/-- The pages of guest RAM, of a size. -/
theorem pageEa_ram {actual : PageSize} (hram : ramSize.toNat ≤ 2 ^ 32) {j : Nat}
    (hj : j < ramSize.toNat / 2 ^ actual.shift) :
    (pageEa actual j).toNat = j * 2 ^ actual.shift ∧ pageEa actual j < layoutVmEnd := by
  have hmul : j * 2 ^ actual.shift < ramSize.toNat :=
    Nat.lt_of_lt_of_le (Nat.mul_lt_mul_of_pos_right hj (Nat.two_pow_pos _))
      (Nat.div_mul_le_self _ _)
  have hpage : (pageEa actual j).toNat = j * 2 ^ actual.shift := pageEa_toNat (by omega)
  refine ⟨hpage, ?_⟩
  show (pageEa actual j).toNat < 2 ^ 32
  omega

/-- Mapping guest RAM with the guest MMU off. -/
theorem grmRange_sole (hm : KeepsLow t.hashMask) (hram : ramSize.toNat ≤ 2 ^ 32)
    (h : mmuMapRange (some (guestFresh ramSize ram)) t 0 ramSize ra ppRWRW .page16M = .ok t') :
    t'.hashMask = t.hashMask ∧
    (∀ x, (vmPage x).Ok → t.Lacks (vmPage x) → t'.Lacks (vmPage x)) ∧
    ∀ j < ramSize.toNat / 2 ^ 24, t.Lacks (grmPage (pageEa .page16M j)) →
      (grmPage (pageEa .page16M j)).Ok ∧
      Mapping.Ok .seg1T ⟨.page16M, .page16M, ra + pageEa .page16M j, ppRWRW⟩ ∧
      t'.Sole (grmPage (pageEa .page16M j)) (encodePte (grmPage (pageEa .page16M j))
        ⟨.page16M, .page16M, ra + pageEa .page16M j, ppRWRW⟩) := by
  obtain ⟨-, hloop⟩ := ramRange_loop h
  rw [show PageSize.page16M.shift = 24 from rfl] at hloop
  have hpage : ∀ j < ramSize.toNat / 2 ^ 24, (pageEa .page16M j).toNat = j * 2 ^ 24 ∧
      pageEa .page16M j < layoutVmEnd := fun j hj => pageEa_ram hram hj
  have hok : ∀ j < ramSize.toNat / 2 ^ 24, (grmPage (pageEa .page16M j)).Ok := fun j hj =>
    grmPage_ok (hpage j hj).2 (by rw [(hpage j hj).1]; exact Dvd.intro_left _ rfl)
  obtain ⟨hmask, hother, hnew⟩ := mapRangeLoop_sole (by decide) _ 0 _
    (fun j => grmPage (pageEa .page16M j))
    (fun j hj => by
      rw [zero_add_pageEa]
      exact eaPages_vmOff (hpage j hj).2 rfl (guestFresh_mmuIs ramSize ram))
    hok
    (fun j hj j' hj' hsame => by
      have hvpn := congrArg (fun p : Page => p.vpn.toNat) hsame
      rw [grmPage_vpn (hpage j hj).2, grmPage_vpn (hpage j' hj').2, (hpage j hj).1,
        (hpage j' hj').1] at hvpn
      omega) hm hloop
  refine ⟨hmask, fun x hx => (hother _ hx fun j hj => (grmPage_ne_vmPage _ x).symm).1, ?_⟩
  intro j hj hlacks
  obtain ⟨-, he, hsole⟩ := hnew j hj hlacks
  exact ⟨hok j hj, he, hsole⟩

/-- Mapping guest RAM with the guest MMU on. -/
theorem vmRange_sole (hm : KeepsLow t.hashMask) (hram : ramSize.toNat ≤ 2 ^ 32)
    (h : mmuMapRange (some (guestOn ramSize ram)) t 0 ramSize ra ppRWRW .page4K = .ok t') :
    (∀ x, (grmPage x).Ok → ∀ c, t.Sole (grmPage x) c → t'.Sole (grmPage x) c) ∧
    ∀ j < ramSize.toNat / 2 ^ 12, t.Lacks (vmPage (pageEa .page4K j)) →
      Mapping.Ok .seg256M ⟨.page4K, .page4K, ra + pageEa .page4K j, ppRWRW⟩ ∧
      t'.Sole (vmPage (pageEa .page4K j)) (encodePte (vmPage (pageEa .page4K j))
        ⟨.page4K, .page4K, ra + pageEa .page4K j, ppRWRW⟩) := by
  obtain ⟨-, hloop⟩ := ramRange_loop h
  rw [show PageSize.page4K.shift = 12 from rfl] at hloop
  have hpage : ∀ j < ramSize.toNat / 2 ^ 12, (pageEa .page4K j).toNat = j * 2 ^ 12 ∧
      pageEa .page4K j < layoutVmEnd := fun j hj => pageEa_ram hram hj
  obtain ⟨-, hother, hnew⟩ := mapRangeLoop_sole (by decide) _ 0 _
    (fun j => vmPage (pageEa .page4K j))
    (fun j hj => by
      rw [zero_add_pageEa]
      exact eaPages_vmOn (hpage j hj).2 rfl (guestOn_mmuIs ramSize ram) (guestOn_srAt ramSize ram))
    (fun j hj => vmPage_ok (hpage j hj).2)
    (fun j hj j' hj' hsame => by
      have hvpn := congrArg (fun p : Page => p.vpn.toNat) hsame
      rw [vmPage_vpn, vmPage_vpn, (hpage j hj).1, (hpage j' hj').1] at hvpn
      omega) hm hloop
  refine ⟨fun x hx => (hother _ hx fun j hj => grmPage_ne_vmPage x _).2, ?_⟩
  intro j hj hlacks
  obtain ⟨-, he, hsole⟩ := hnew j hj hlacks
  exact ⟨he, hsole⟩

end Ram

/-- **Both views show the same RAM.**  After `mmu_init` and `guest_init`, every address of guest RAM
has one PTE with the guest MMU off and one with it on, and both take it to its byte of
`guest->ram`. -/
theorem guestInit_views {p : Placement} {slb : Slb} {mmu mmu' : Mmu} {ramSize ram : U64}
    {guest : Guest} (hcount : (ptegCount p.ramSize).toNat = 2 ^ 19)
    (hinit : mmuInit p slb = .ok mmu) (h : guestInit mmu ramSize ram = .ok (guest, mmu'))
    {ea : U64} (hea : ea < ramSize) :
    mmu'.htab.Translates (grmEntry.vpn ea) .seg1T .page16M ea ((ram &&& ~~~hvAspace) + ea) ∧
      mmu'.htab.Translates ((srEntry guest (srIndex ea)).vpn ea) .seg256M .page4K ea
        ((ram &&& ~~~hvAspace) + ea) := by
  obtain ⟨t₁, hmin, hmul, -, rfl, h₁, -, h₂⟩ := guestInit_eq_ok h
  obtain ⟨hhigh, hmask⟩ := mmuInit_high hinit
  have hm : KeepsLow mmu.htab.hashMask := by
    rw [hmask]
    exact keepsLow_sub_one (by rw [hcount]; exact Nat.pow_dvd_pow 2 (by decide)) (ptegCount_pos _)
  have hmin' : MB 32 ≤ ramSize := by simpa using hmin
  have hram := ramSize_le hmin' h₁
  have hea' : ea.toNat < ramSize.toNat := hea
  have hea32 : ea < layoutVmEnd := show ea.toNat < 2 ^ 32 by omega
  obtain ⟨hcount₁, -⟩ := ramRange_loop h₁
  obtain ⟨hcount₂, -⟩ := ramRange_loop h₂
  rw [show PageSize.page16M.shift = 24 from rfl] at hcount₁
  rw [show PageSize.page4K.shift = 12 from rfl] at hcount₂
  obtain ⟨hmask₁, hlacks₁, hnew₁⟩ := grmRange_sole hm hram h₁
  obtain ⟨hkeep₂, hnew₂⟩ := vmRange_sole (hmask₁ ▸ hm) hram h₂
  constructor
  · have hk : ea.toNat / 2 ^ 24 < ramSize.toNat / 2 ^ 24 := by omega
    obtain ⟨hpage, hvm⟩ := @pageEa_ram ramSize .page16M hram _ hk
    have hlacks : mmu.htab.Lacks (grmPage (pageEa .page16M (ea.toNat / 2 ^ 24))) := by
      refine hhigh.lacks ?_
      have hvpn := grmPage_vpn hvm
      have hlt : (pageEa .page16M (ea.toNat / 2 ^ 24)).toNat < 2 ^ 32 := hvm
      show (avpnEncode (grmPage (pageEa .page16M (ea.toNat / 2 ^ 24))).vpn .page16M).toNat < 2 ^ 59
      rw [avpnEncode_16M]
      omega
    obtain ⟨hok, he, hsole⟩ := hnew₁ _ hk hlacks
    refine translates_of_sole rfl he ?_
    rw [grmEntry_start hea32]
    exact hkeep₂ _ hok _ hsole
  · have hk : ea.toNat / 2 ^ 12 < ramSize.toNat / 2 ^ 12 := by omega
    obtain ⟨hpage, hvm⟩ := @pageEa_ram ramSize .page4K hram _ hk
    have hlacks : mmu.htab.Lacks (vmPage (pageEa .page4K (ea.toNat / 2 ^ 12))) := by
      refine hhigh.lacks ?_
      have hvpn := vmPage_vpn (pageEa .page4K (ea.toNat / 2 ^ 12))
      have hlt : (pageEa .page4K (ea.toNat / 2 ^ 12)).toNat < 2 ^ 32 := hvm
      show (avpnEncode (vmPage (pageEa .page4K (ea.toNat / 2 ^ 12))).vpn .page4K).toNat < 2 ^ 59
      rw [avpnEncode_4K]
      omega
    obtain ⟨he, hsole⟩ := hnew₂ _ hk (hlacks₁ _ (vmPage_ok hvm) hlacks)
    refine translates_of_sole rfl he ?_
    rw [srEntry_start hea32]
    exact hsole

/-- The machine of 4 GiB: the last byte of its guest's RAM of 32 MiB. -/
theorem guestInit_views_sample : ∃ mmu mmu' guest,
    mmuInit samplePlacement (fun _ => ⟨0, 0⟩) = .ok mmu ∧
      guestInit mmu sampleRamSize sampleRam = .ok (guest, mmu') ∧
      mmu'.htab.Translates (grmEntry.vpn 0x1ffffff) .seg1T .page16M 0x1ffffff 0x41ffffff ∧
      mmu'.htab.Translates ((srEntry guest 0).vpn 0x1ffffff) .seg256M .page4K 0x1ffffff
        0x41ffffff := by
  obtain ⟨mmu, hinit, hmask, hused, -⟩ := mmuInit_sample fun _ => ⟨0, 0⟩
  obtain ⟨mmu', hguest, -⟩ := guestInit_sample mmu hmask hused
  obtain ⟨hoff, hon⟩ := guestInit_views (by decide) hinit hguest
    (show (0x1ffffff : U64) < sampleRamSize by decide)
  exact ⟨mmu, mmu', _, hinit, hguest, hoff, hon⟩

end Prephv
