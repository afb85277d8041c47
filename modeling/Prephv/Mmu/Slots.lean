import Prephv.Mmu.Room

/-!
# Mmu — Slots

What a search of a PTEG can take for what.  The search looks at the AVPN alone, at any byte of a
page and with any segment registers; `slot_identifies_page` says that it never takes a page of one
of the four regions for another page, nor for a page of another region.

A virtual page number need not be the first of its base page: the bits below it are in neither the
hash nor the AVPN (`Page.pteg_start`, `Page.avpn_start`), so `pteg_avpn_inj` applies to the first.

`Htab.Sole` says that the search for a page takes one PTE only.  A range of pages that no search
took anything for is mapped to PTEs that are each the only one for their page, whatever else the
table holds (`mapRangeLoop_sole`).
-/

set_option autoImplicit false

namespace Prephv

open Words

/-! ### Regions -/

/-- The regions the code maps: hypervisor space, the AIL vectors, and guest RAM with the guest MMU
off and on. -/
inductive Region where
  | hv | ail | grm | vm
  deriving DecidableEq, Repr

/-- The region of an address, by the tests of the `ea_2_*` functions. -/
def eaRegion (guest : Option Guest) (ea : U64) : Res Region :=
  if isAil ea then .ok .ail
  else if ea &&& hvAspace ≠ 0 then .ok .hv
  else do
    if ← vmEaMmuOff guest ea "unknown EA" then return .grm else return .vm

/-- The page is one of the region. -/
def Region.Holds : Region → Page → Prop
  | .hv, p => p.IsHv
  | .ail, p => p.IsAil
  | .grm, p => p.IsGrm
  | .vm, p => p.IsVm

theorem Region.Holds.ok {region : Region} {p : Page} (h : region.Holds p) : p.Ok := by
  cases region with
  | hv => exact Or.inl h
  | ail => exact Or.inr (Or.inl h)
  | grm => exact Or.inr (Or.inr (Or.inl h))
  | vm => exact Or.inr (Or.inr (Or.inr h))

/-- The regions have no page in common. -/
theorem Region.Holds.unique {region region' : Region} {p : Page} (h : region.Holds p)
    (h' : region'.Holds p) : region = region' := by
  cases region <;> cases region' <;> first | rfl | exfalso
  all_goals
    simp only [Region.Holds, Page.IsHv, Page.IsAil, Page.IsGrm, Page.IsVm] at h h'
    obtain ⟨hseg, h⟩ := h
    obtain ⟨hseg', h'⟩ := h'
    first | omega | cases hseg.symm.trans hseg'

/-! ### The first VPN of a base page -/

namespace Page

/-- The number of VPN bits within a base page. -/
def offsetBits (p : Page) : Nat := p.seg.base.shift - vpnShift

/-- The base page, by its first VPN. -/
def start (p : Page) : Page := ⟨p.vpn &&& ~~~(lowMask 64 p.offsetBits), p.seg⟩

theorem start_vpn (p : Page) :
    p.start.vpn.toNat = p.vpn.toNat / 2 ^ p.offsetBits * 2 ^ p.offsetBits := by
  have hbits : p.offsetBits ≤ 64 := by
    rw [offsetBits]
    cases p.seg <;> decide
  exact and_not_lowMask p.vpn hbits

theorem start_eq_iff {p q : Page} (h : p.start = q.start) :
    p.seg = q.seg ∧ p.vpn >>> p.offsetBits = q.vpn >>> q.offsetBits := by
  have hseg : p.start.seg = q.start.seg := by rw [h]
  have hseg : p.seg = q.seg := hseg
  have hbits : p.offsetBits = q.offsetBits := by rw [offsetBits, hseg, offsetBits]
  have hvpn : p.start.vpn.toNat = q.start.vpn.toNat := by rw [h]
  rw [start_vpn, start_vpn, ← hbits] at hvpn
  refine ⟨hseg, BitVec.eq_of_toNat_eq ?_⟩
  rw [BitVec.toNat_ushiftRight, BitVec.toNat_ushiftRight, Nat.shiftRight_eq_div_pow,
    Nat.shiftRight_eq_div_pow, ← hbits]
  exact Nat.eq_of_mul_eq_mul_right (Nat.two_pow_pos _) hvpn

/-- The hash does not depend on the bits within the base page. -/
theorem pteg_start (hashMask : U64) (p : Page) : p.start.pteg hashMask = p.pteg hashMask := by
  have hvpn := p.start_vpn
  obtain ⟨vpn, seg⟩ := p
  cases seg with
  | seg256M =>
    have hsame : start ⟨vpn, .seg256M⟩ = ⟨vpn, .seg256M⟩ := by
      rw [start, Page.mk.injEq]
      refine ⟨BitVec.eq_of_toNat_eq (hvpn.trans ?_), rfl⟩
      rw [show offsetBits ⟨vpn, .seg256M⟩ = 0 from rfl, Nat.pow_zero, Nat.mul_one, Nat.div_one]
    rw [hsame]
  | seg1T =>
    rw [show offsetBits ⟨vpn, .seg1T⟩ = 12 from rfl] at hvpn
    set vpn' := (start ⟨vpn, .seg1T⟩).vpn with hvpn'
    have hsid : vpn' >>> 28 = vpn >>> 28 := by
      apply BitVec.eq_of_toNat_eq
      rw [BitVec.toNat_ushiftRight, BitVec.toNat_ushiftRight, Nat.shiftRight_eq_div_pow,
        Nat.shiftRight_eq_div_pow, hvpn]
      dsimp only
      omega
    have hidx : (vpn' &&& lowMask 64 28) >>> 12 = (vpn &&& lowMask 64 28) >>> 12 := by
      apply BitVec.eq_of_toNat_eq
      rw [BitVec.toNat_ushiftRight, BitVec.toNat_ushiftRight, Nat.shiftRight_eq_div_pow,
        Nat.shiftRight_eq_div_pow, and_lowMask _ (by decide), and_lowMask _ (by decide), hvpn]
      dsimp only
      omega
    have hhash : vpnHash vpn' .seg1T .page16M = vpnHash vpn .seg1T .page16M := by
      show ((vpn' >>> 28) ^^^ ((vpn' >>> 28) <<< 25) ^^^ ((vpn' &&& lowMask 64 28) >>> 12)) &&& _ =
        ((vpn >>> 28) ^^^ ((vpn >>> 28) <<< 25) ^^^ ((vpn &&& lowMask 64 28) >>> 12)) &&& _
      rw [hsid, hidx]
    exact congrArg (fun hash : U64 => (hash &&& hashMask).toNat) hhash

/-- Nor does the AVPN. -/
theorem avpn_start (p : Page) : p.start.avpn = p.avpn := by
  have hvpn := p.start_vpn
  obtain ⟨vpn, seg⟩ := p
  apply BitVec.eq_of_toNat_eq
  cases seg with
  | seg256M =>
    rw [show offsetBits ⟨vpn, .seg256M⟩ = 0 from rfl] at hvpn
    rw [avpn, avpn]
    show (avpnEncode _ .page4K).toNat = (avpnEncode vpn .page4K).toNat
    rw [avpnEncode_4K, avpnEncode_4K, hvpn, Nat.pow_zero, Nat.mul_one, Nat.div_one]
  | seg1T =>
    rw [show offsetBits ⟨vpn, .seg1T⟩ = 12 from rfl] at hvpn
    rw [avpn, avpn]
    show (avpnEncode _ .page16M).toNat = (avpnEncode vpn .page16M).toNat
    rw [avpnEncode_16M, avpnEncode_16M, hvpn, Nat.mul_div_cancel _ (Nat.two_pow_pos 12)]

end Page

/-! ### The page of an address -/

/-- The base page of an address is one of its region. -/
theorem eaRegion_holds {guest : Option Guest} {ea vpn : U64} {actual : PageSize} {seg : SegSize}
    (h : EaOk guest ea actual) (hvpn : ea2Vpn guest ea = .ok vpn)
    (hseg : ea2SegSize guest ea = .ok seg) :
    ∃ region, eaRegion guest ea = .ok region ∧ region.Holds (Page.start ⟨vpn, seg⟩) := by
  have hstart := Page.start_vpn ⟨vpn, seg⟩
  cases h with
  | hv h _ =>
    obtain ⟨hs, -, hv⟩ := @ea2_hv guest ea h
    cases hs.symm.trans hseg
    cases hv.symm.trans hvpn
    obtain ⟨hlo, hhi⟩ := h
    have hail : ¬ isAil ea := by rw [isAil_iff]; omega
    have hhv : ea &&& hvAspace ≠ 0 := mt (and_hvAspace ea).mp (by omega)
    have hoff := and_not_hvAspace ea
    have hv := vpn_or (ea &&& ~~~hvAspace) 28 0x8765432100000000#64 (by omega) (by decide)
    have hsid : (0x8765432100000000#64).toNat = 0x8765432100000000 := rfl
    rw [hv, show Page.offsetBits ⟨_, .seg1T⟩ = 12 from rfl] at hstart
    refine ⟨.hv, by rw [eaRegion, if_neg hail, if_pos hhv], rfl, ?_⟩
    omega
  | ail h _ =>
    obtain ⟨hs, -, hv⟩ := @ea2_ail guest ea h
    cases hs.symm.trans hseg
    cases hv.symm.trans hvpn
    obtain ⟨hlo, hhi⟩ := (isAil_iff ea).mp h
    have hoff : (ea - ailAspaceStart).toNat = ea.toNat - 0xc000000000000000 :=
      BitVec.toNat_sub_of_le h.1
    have hv := vpn_or (ea - ailAspaceStart) 16 0x8765432101230000#64 (by omega) (by decide)
    have hsid : (0x8765432101230000#64).toNat = 0x8765432101230000 := rfl
    rw [hv, show Page.offsetBits ⟨_, .seg256M⟩ = 0 from rfl] at hstart
    refine ⟨.ail, by rw [eaRegion, if_pos h], rfl, ?_⟩
    omega
  | vmOff hea hg hmmu _ =>
    obtain ⟨hs, -, hv⟩ := ea2_vmOff hea hg hmmu
    cases hs.symm.trans hseg
    cases hv.symm.trans hvpn
    obtain ⟨hail, hhv, -⟩ := vm_not_hv hea
    have hlt : ea.toNat < 2 ^ 32 := hea
    have hv := vpn_or ea 28 0x5555555550000000#64 (by omega) (by decide)
    have hsid : (0x5555555550000000#64).toNat = 0x5555555550000000 := rfl
    rw [hv, show Page.offsetBits ⟨_, .seg1T⟩ = 12 from rfl] at hstart
    refine ⟨.grm, ?_, rfl, ?_⟩
    · rw [eaRegion, if_neg hail, if_neg hhv, vmEaMmuOff_eq hea hg hmmu]
      rfl
    · omega
  | @vmOn g hea hg hmmu =>
    obtain ⟨hs, -, hv⟩ := ea2_vmOn hea hg hmmu
    cases hs.symm.trans hseg
    cases hv.symm.trans hvpn
    obtain ⟨hail, hhv, -⟩ := vm_not_hv hea
    obtain ⟨hlt, -⟩ := vmOn_vpn hea (g.srAt (srIndex ea))
    rw [show Page.offsetBits ⟨_, .seg256M⟩ = 0 from rfl] at hstart
    dsimp only at hstart
    refine ⟨.vm, ?_, rfl, ?_⟩
    · rw [eaRegion, if_neg hail, if_neg hhv, vmEaMmuOff_eq hea hg hmmu]
      rfl
    · omega

/-! ### The search -/

/-- **A PTEG slot identifies its page.**  Where the VPNs of two addresses select one PTEG and the
search for the second accepts the PTE of the first, both are in the same base page of the same
segment size and region. -/
theorem slot_identifies_page {k : Nat} (hk : 11 ≤ k) {ptegs : U64} (hptegs : ptegs.toNat = 2 ^ k)
    {guest guest' : Option Guest} {ea ea' vpn vpn' : U64} {actual actual' : PageSize}
    {seg seg' : SegSize} {base base' : PageSize}
    (h : EaOk guest ea actual) (h' : EaOk guest' ea' actual')
    (hvpn : ea2Vpn guest ea = .ok vpn) (hvpn' : ea2Vpn guest' ea' = .ok vpn')
    (hseg : ea2SegSize guest ea = .ok seg) (hseg' : ea2SegSize guest' ea' = .ok seg')
    (hbase : ea2BaseSize guest ea = .ok base) (hbase' : ea2BaseSize guest' ea' = .ok base')
    (hpteg : ptegIndex (ptegs - 1) vpn seg base = ptegIndex (ptegs - 1) vpn' seg' base')
    (hcompare : pteVCompare (avpnEncode vpn base ||| mapVflags seg actual)
      (avpnEncode vpn' base') = true) :
    seg = seg' ∧ base = base' ∧
      vpn >>> (base.shift - vpnShift) = vpn' >>> (base'.shift - vpnShift) ∧
      eaRegion guest ea = eaRegion guest' ea' := by
  obtain rfl := ea2_base hseg hbase
  obtain rfl := ea2_base hseg' hbase'
  set p : Page := ⟨vpn, seg⟩ with hp
  set q : Page := ⟨vpn', seg'⟩ with hq
  have hm : KeepsLow (ptegs - 1) := by
    refine keepsLow_sub_one ?_ ?_
    · rw [hptegs]
      exact Nat.pow_dvd_pow 2 hk
    · rw [hptegs]
      exact Nat.two_pow_pos k
  have hgroup : p.pteg (ptegs - 1) = q.pteg (ptegs - 1) := by
    have hidx := congrArg BitVec.toNat hpteg
    rw [ptegIndex_toNat, ptegIndex_toNat] at hidx
    exact Nat.eq_of_mul_eq_mul_right (show 0 < ptesPerGroup by decide) hidx
  have havpn : p.avpn = q.avpn :=
    (pteVCompare_encodePte p ⟨seg.base, actual, 0, 0⟩ vpn' seg'.base).mp hcompare
  obtain ⟨region, hregion, hholds⟩ := eaRegion_holds h hvpn hseg
  obtain ⟨region', hregion', hholds'⟩ := eaRegion_holds h' hvpn' hseg'
  have hstart : p.start = q.start := by
    refine pteg_avpn_inj hm hholds.ok hholds'.ok ?_ ?_
    · rw [Page.pteg_start, Page.pteg_start, hgroup]
    · rw [Page.avpn_start, Page.avpn_start, havpn]
  obtain ⟨hs, hsame⟩ := Page.start_eq_iff hstart
  have hs : seg = seg' := hs
  refine ⟨hs, by rw [hs], hsame, ?_⟩
  rw [hregion, hregion', hholds.unique (hstart ▸ hholds')]

/-- Two addresses of the first hypervisor page, with the least number of PTEGs. -/
theorem slot_identifies_page_sample : ∃ vpn vpn',
    ea2Vpn none 0x8000000000000000 = .ok vpn ∧ ea2Vpn none 0x8000000000001000 = .ok vpn' ∧
      vpn ≠ vpn' ∧ vpn >>> (24 - 12) = vpn' >>> (24 - 12) := by
  refine ⟨0x8765432100000000, 0x8765432100000001, by decide, by decide, by decide, ?_⟩
  have hptegs : minPtegs.toNat = 2 ^ 11 := rfl
  have hsame := slot_identifies_page (Nat.le_refl _) hptegs
    (.hv (show InHv 0x8000000000000000 from ⟨by decide, by decide⟩) rfl)
    (.hv (show InHv 0x8000000000001000 from ⟨by decide, by decide⟩) rfl)
    (show ea2Vpn none 0x8000000000000000 = .ok 0x8765432100000000 by decide)
    (show ea2Vpn none 0x8000000000001000 = .ok 0x8765432100000001 by decide)
    (show ea2SegSize none 0x8000000000000000 = .ok .seg1T by decide)
    (show ea2SegSize none 0x8000000000001000 = .ok .seg1T by decide)
    (show ea2BaseSize none 0x8000000000000000 = .ok .page16M by decide)
    (show ea2BaseSize none 0x8000000000001000 = .ok .page16M by decide)
    (by decide) (by decide)
  exact hsame.2.2.1

/-! ### What a search takes -/

/-- The search for a page takes the PTE in slot `i`: it is valid, in the page's PTEG, and has its
AVPN. -/
structure Htab.Accepts (t : Htab) (i : Nat) (p : Page) : Prop where
  group : i / ptesPerGroup = p.pteg t.hashMask
  valid : (t.pte i).valid = true
  compare : pteVCompare (t.pte i).v p.avpn = true

/-- The search for a page takes nothing. -/
def Htab.Lacks (t : Htab) (p : Page) : Prop := ∀ i, ¬ t.Accepts i p

/-- The search for a page takes one PTE only, which is `q`. -/
def Htab.Sole (t : Htab) (p : Page) (q : Pte) : Prop :=
  ∃ i, t.Accepts i p ∧ t.pte i = q ∧ ∀ j, t.Accepts j p → j = i

theorem Htab.accepts_start {t : Htab} {i : Nat} {p : Page} :
    t.Accepts i p.start ↔ t.Accepts i p := by
  constructor
  · rintro ⟨hg, hv, hc⟩
    exact ⟨by rw [hg, Page.pteg_start], hv, by rwa [Page.avpn_start] at hc⟩
  · rintro ⟨hg, hv, hc⟩
    exact ⟨by rw [hg, Page.pteg_start], hv, by rwa [Page.avpn_start]⟩

theorem Htab.sole_start {t : Htab} {p : Page} {q : Pte} : t.Sole p.start q ↔ t.Sole p q := by
  simp only [Htab.Sole, Htab.accepts_start]

/-- The AVPN field of a PTE that a search takes. -/
theorem Htab.Accepts.avpn {t : Htab} {i : Nat} {p : Page} (h : t.Accepts i p) :
    (t.pte i).v &&& pteVAvpn = p.avpn := by
  have hx := xor_and_eq_zero_iff (t.pte i).v p.avpn pteVAvpn
  rw [show p.avpn &&& pteVAvpn = p.avpn from avpnEncode_and_avpn _ _] at hx
  exact hx.mp (decide_eq_true_iff.mp h.compare)

section Write

variable {t : Htab} {p q : Page} {e : Mapping} {i j : Nat}

/-- After a page's PTE is written, the search for that page takes it, and no other search does. -/
theorem Htab.accepts_setPte (hm : KeepsLow t.hashMask) (hp : p.Ok) (hq : q.Ok)
    (hbase : e.base = q.seg.base) (hi : i / ptesPerGroup = q.pteg t.hashMask) :
    (t.setPte i (encodePte q e)).Accepts j p ↔ (j = i ∧ p = q) ∨ (j ≠ i ∧ t.Accepts j p) := by
  by_cases hj : j = i
  · subst hj
    have hcompare := pteVCompare_encodePte q e p.vpn p.seg.base
    rw [hbase] at hcompare
    constructor
    · rintro ⟨hg, -, hc⟩
      rw [Htab.setPte_self] at hc
      refine Or.inl ⟨rfl, pteg_avpn_inj hm hp hq ?_ (hcompare.mp hc).symm⟩
      rw [← hi, hg, Htab.setPte_hashMask]
    · rintro (⟨-, rfl⟩ | ⟨hne, -⟩)
      · refine ⟨hi, ?_, ?_⟩
        · rw [Htab.setPte_self]
          exact encodePte_valid p e
        · rw [Htab.setPte_self]
          exact hcompare.mpr rfl
      · exact absurd rfl hne
  · constructor
    · rintro ⟨hg, hv, hc⟩
      rw [Htab.setPte_of_ne t _ hj] at hv hc
      exact Or.inr ⟨hj, hg, hv, hc⟩
    · rintro (⟨e, -⟩ | ⟨-, hg, hv, hc⟩)
      · exact absurd e hj
      · refine ⟨hg, ?_, ?_⟩
        · rwa [Htab.setPte_of_ne t _ hj]
        · rwa [Htab.setPte_of_ne t _ hj]

/-- A search for another page takes what it took. -/
theorem Htab.other_setPte (hm : KeepsLow t.hashMask) (hp : p.Ok) (hq : q.Ok)
    (hbase : e.base = q.seg.base) (hi : i / ptesPerGroup = q.pteg t.hashMask)
    (hfree : (t.pte i).valid = false) (hne : p ≠ q) :
    (t.Lacks p → (t.setPte i (encodePte q e)).Lacks p) ∧
      ∀ c, t.Sole p c → (t.setPte i (encodePte q e)).Sole p c := by
  have hiff : ∀ j, (t.setPte i (encodePte q e)).Accepts j p ↔ t.Accepts j p := by
    intro j
    rw [Htab.accepts_setPte hm hp hq hbase hi]
    constructor
    · rintro (⟨-, he⟩ | ⟨-, h⟩)
      · exact absurd he hne
      · exact h
    · intro h
      refine Or.inr ⟨?_, h⟩
      rintro rfl
      rw [h.valid] at hfree
      cases hfree
  refine ⟨fun h j hj => h j ((hiff j).mp hj), ?_⟩
  rintro c ⟨k, hk, rfl, hone⟩
  refine ⟨k, (hiff k).mpr hk, Htab.setPte_of_ne t _ ?_, fun j hj => hone j ((hiff j).mp hj)⟩
  rintro rfl
  rw [hk.valid] at hfree
  cases hfree

/-- The search for a page that took nothing takes the page's PTE alone once it is written. -/
theorem Htab.sole_setPte (hm : KeepsLow t.hashMask) (hq : q.Ok) (hbase : e.base = q.seg.base)
    (hi : i / ptesPerGroup = q.pteg t.hashMask) (h : t.Lacks q) :
    (t.setPte i (encodePte q e)).Sole q (encodePte q e) := by
  refine ⟨i, (Htab.accepts_setPte hm hq hq hbase hi).mpr (Or.inl ⟨rfl, rfl⟩),
    Htab.setPte_self .., ?_⟩
  intro j hj
  rcases (Htab.accepts_setPte hm hq hq hbase hi).mp hj with ⟨rfl, -⟩ | ⟨-, hj⟩
  · rfl
  · exact absurd hj (h j)

end Write

/-! ### Ranges -/

section Range

variable {guest : Option Guest} {prot : U64} {actual : PageSize}

/-- An `mmu_map` of one base page that returns writes its PTE over an invalid one of its PTEG. -/
theorem mmuMap_writes (hpp : prot ∈ ppValues) {t t' : Htab} {ea ra : U64} {q : Page}
    (hpages : eaPages guest ea actual = .ok (actual, [q]))
    (h : mmuMap guest t ea ra prot actual = .ok t') :
    actual = q.seg.base ∧ Mapping.Ok q.seg ⟨actual, actual, ra, prot⟩ ∧
      ∃ i, i / ptesPerGroup = q.pteg t.hashMask ∧ (t.pte i).valid = false ∧
        t' = t.setPte i (encodePte q ⟨actual, actual, ra, prot⟩) := by
  obtain ⟨vpn, seg, hea, -, -, hloop⟩ := mmuMap_eq_ok h
  rw [hpages] at hea
  obtain ⟨rfl, hps⟩ := Prod.mk.inj (Except.ok.inj hea)
  have hone : seg.base.size.toNat / seg.base.size.toNat = 1 := by cases seg <;> decide
  rw [hone, pagesFrom, pagesFrom, List.cons.injEq] at hps
  obtain ⟨rfl, -⟩ := hps
  rw [hone, mapVpnLoop] at hloop
  dsimp only at hloop
  rw [ptegIndex_toNat] at hloop
  split at hloop
  · cases hloop
  next i hfind =>
    obtain ⟨r, hr, hloop⟩ := bind_eq_ok.mp hloop
    obtain ⟨hra, rfl⟩ := rpnEncode_eq_ok.mp hr
    obtain ⟨hgroup, hfree⟩ := GroupTable.findSlot_some hfind
    cases hloop
    exact ⟨rfl, ⟨rfl, id, hra, hpp⟩, i, hgroup, by simpa using hfree, rfl⟩

/-- Every page of a range that is mapped has an aligned address with base pages. -/
theorem mapRangeLoop_pages : ∀ (n : Nat) (addr ra : U64) {t t' : Htab},
    mapRangeLoop guest prot actual n addr ra t = .ok t' → ∀ j < n, ∃ r,
      eaPages guest (addr + BitVec.ofNat 64 j * actual.size) actual = .ok r
  | 0, _, _, _, _, _ => nofun
  | n + 1, addr, ra, t, t', h => by
    intro j hj
    obtain ⟨t₁, hmap, h⟩ := bind_eq_ok.mp h
    cases j with
    | zero =>
      obtain ⟨vpn, seg, hea, -⟩ := mmuMap_eq_ok hmap
      rw [BitVec.zero_mul, BitVec.add_zero]
      exact ⟨_, hea⟩
    | succ j =>
      have := mapRangeLoop_pages n (addr + actual.size) _ h j (by omega)
      rwa [BitVec.ofNat_add, BitVec.add_mul, BitVec.one_mul, BitVec.add_comm _ actual.size,
        ← BitVec.add_assoc]

/-- **Mapping a range of pages.**  A page of the range that no search took anything for has one PTE,
its own; searches for other pages take what they took. -/
theorem mapRangeLoop_sole (hpp : prot ∈ ppValues) : ∀ (n : Nat) (addr ra : U64) {t t' : Htab}
    (pg : Nat → Page),
    (∀ j < n, eaPages guest (addr + BitVec.ofNat 64 j * actual.size) actual =
      .ok (actual, [pg j])) →
    (∀ j < n, (pg j).Ok) → (∀ j < n, ∀ j' < n, pg j = pg j' → j = j') → KeepsLow t.hashMask →
    mapRangeLoop guest prot actual n addr ra t = .ok t' →
    t'.hashMask = t.hashMask ∧
    (∀ p, p.Ok → (∀ j < n, p ≠ pg j) → (t.Lacks p → t'.Lacks p) ∧ ∀ c, t.Sole p c → t'.Sole p c) ∧
    ∀ j < n, t.Lacks (pg j) →
      actual = (pg j).seg.base ∧
      Mapping.Ok (pg j).seg ⟨actual, actual, ra + BitVec.ofNat 64 j * actual.size, prot⟩ ∧
      t'.Sole (pg j)
        (encodePte (pg j) ⟨actual, actual, ra + BitVec.ofNat 64 j * actual.size, prot⟩)
  | 0, addr, ra, t, t', pg, _, _, _, _, h => by
    cases h
    exact ⟨rfl, fun p _ _ => ⟨id, fun _ => id⟩, nofun⟩
  | n + 1, addr, ra, t, t', pg, hpages, hok, hdist, hm, h => by
    obtain ⟨t₁, hmap, h⟩ := bind_eq_ok.mp h
    have hp₀ := hpages 0 (by omega)
    rw [BitVec.zero_mul, BitVec.add_zero] at hp₀
    obtain ⟨hbase, he, i, hi, hfree, rfl⟩ := mmuMap_writes hpp hp₀ hmap
    have hok₀ := hok 0 (by omega)
    set e : Mapping := ⟨actual, actual, ra, prot⟩ with hedef
    have hbase' : e.base = (pg 0).seg.base := hbase
    have hshift : ∀ (x : U64) (j : Nat), x + BitVec.ofNat 64 (j + 1) * actual.size =
        x + actual.size + BitVec.ofNat 64 j * actual.size := by
      intro x j
      rw [BitVec.ofNat_add, BitVec.add_mul, BitVec.one_mul, BitVec.add_comm _ actual.size,
        ← BitVec.add_assoc]
    obtain ⟨hmask, hother, hnew⟩ := mapRangeLoop_sole hpp n (addr + actual.size)
      (ra + actual.size) (fun j => pg (j + 1))
      (fun j hj => by rw [← hshift]; exact hpages (j + 1) (by omega))
      (fun j hj => hok (j + 1) (by omega))
      (fun j hj j' hj' hsame => by
        have := hdist (j + 1) (by omega) (j' + 1) (by omega) hsame
        omega)
      (by rwa [Htab.setPte_hashMask]) h
    refine ⟨hmask, fun p hp hne => ?_, fun j hj hlacks => ?_⟩
    · obtain ⟨h₁, h₂⟩ := Htab.other_setPte hm hp hok₀ hbase' hi hfree (hne 0 (by omega))
      obtain ⟨h₁', h₂'⟩ := hother p hp fun j hj => hne (j + 1) (by omega)
      exact ⟨fun hl => h₁' (h₁ hl), fun c hs => h₂' c (h₂ c hs)⟩
    · cases j with
      | zero =>
        rw [BitVec.zero_mul, BitVec.add_zero]
        refine ⟨hbase, he, ?_⟩
        refine (hother (pg 0) hok₀ fun j hj hsame => ?_).2 _
          (Htab.sole_setPte hm hok₀ hbase' hi hlacks)
        have := hdist 0 (by omega) (j + 1) (by omega) hsame
        omega
      | succ j =>
        rw [hshift]
        refine hnew j (by omega) ?_
        refine (Htab.other_setPte hm (hok (j + 1) (by omega)) hok₀ hbase' hi hfree ?_).1 hlacks
        intro hsame
        have := hdist (j + 1) (by omega) 0 (by omega) hsame
        omega

end Range

/-! ### What `mmu_init` maps -/

/-- Every valid PTE has an AVPN of hypervisor or AIL space: the top bit is set. -/
def Htab.High (t : Htab) : Prop :=
  ∀ i, (t.pte i).valid = true → 2 ^ 59 ≤ ((t.pte i).v &&& pteVAvpn).toNat

/-- The AVPN of a VPN with its top bit set. -/
theorem avpnEncode_high {vpn : U64} (h : 2 ^ 63 ≤ vpn.toNat) (base : PageSize) :
    2 ^ 59 ≤ (avpnEncode vpn base).toNat := by
  cases base with
  | page4K => rw [avpnEncode_4K]; omega
  | page16M => rw [avpnEncode_16M]; omega

/-- Without a guest, every base page has a VPN with its top bit set. -/
theorem eaPages_high {ea : U64} {actual base : PageSize} {ps : List Page}
    (h : eaPages none ea actual = .ok (base, ps)) : ∀ p ∈ ps, 2 ^ 63 ≤ p.vpn.toNat := by
  intro p hp
  by_cases hail : isAil ea
  · rw [eaPages_eq (ea2_ail hail)] at h
    cases h
    obtain ⟨i, hi, rfl⟩ := mem_pagesFrom.mp hp
    obtain ⟨hlo, hhi⟩ := (isAil_iff ea).mp hail
    have hoff : (ea - ailAspaceStart).toNat = ea.toNat - 0xc000000000000000 :=
      BitVec.toNat_sub_of_le hail.1
    have hv := vpn_or (ea - ailAspaceStart) 16 0x8765432101230000#64 (by omega) (by decide)
    have hsid : (0x8765432101230000#64).toNat = 0x8765432101230000 := rfl
    have hi' : i < 2 ^ 12 := Nat.lt_of_lt_of_le hi (by cases actual <;> decide)
    have hstep : PageSize.page4K.size >>> vpnShift = 1#64 := rfl
    simp only [hstep, BitVec.mul_one]
    rw [BitVec.toNat_add, BitVec.toNat_ofNat, hv]
    omega
  · by_cases hhv : ea &&& hvAspace ≠ 0
    · have hseg : ea2SegSize none ea = .ok .seg1T := by
        rw [ea2SegSize, if_neg hail, if_pos hhv]
      obtain ⟨vpn, seg, hvpn, hseg', -, -, rfl⟩ := eaPages_inv h
      cases hseg.symm.trans hseg'
      simp only [ea2Vpn, hseg, bind, Except.bind] at hvpn
      rw [if_neg hail, if_pos hhv] at hvpn
      obtain rfl : ((ea &&& ~~~hvAspace) >>> vpnShift) ||| 0x8765432100000000#64 = vpn :=
        Except.ok.inj hvpn
      obtain ⟨i, hi, rfl⟩ := mem_pagesFrom.mp hp
      have hi' : i < 1 := Nat.lt_of_lt_of_le hi (by cases actual <;> decide)
      obtain rfl : i = 0 := by omega
      rw [BitVec.zero_mul, BitVec.add_zero, BitVec.toNat_or]
      exact Nat.le_trans (by decide) Nat.right_le_or
    · obtain ⟨vpn, seg, -, hseg, -⟩ := eaPages_inv h
      rw [ea2SegSize, if_neg hail, if_neg hhv] at hseg
      obtain ⟨off, hoff, -⟩ := bind_eq_ok.mp hseg
      obtain ⟨-, hoff⟩ := bugOn_bind_eq_ok.mp hoff
      obtain ⟨hnone, -⟩ := bugOn_bind_eq_ok.mp hoff
      exact absurd rfl hnone

theorem mapVpnLoop_high {pp ra : U64} {seg : SegSize} {base actual : PageSize} {ret : Int} :
    ∀ {n : Nat} {vpn : U64} {t t' : Htab},
      (∀ p ∈ pagesFrom seg base n vpn, 2 ^ 63 ≤ p.vpn.toNat) → t.High →
      mapVpnLoop pp seg base actual ra n vpn t = .ok (ret, t') →
      t'.High ∧ t'.hashMask = t.hashMask
  | 0, vpn, t, t', _, ht, h => by
    cases h
    exact ⟨ht, rfl⟩
  | n + 1, vpn, t, t', hhigh, ht, h => by
    rw [mapVpnLoop] at h
    dsimp only at h
    split at h
    · cases h
      exact ⟨ht, rfl⟩
    next i hfind =>
      obtain ⟨r, -, h⟩ := bind_eq_ok.mp h
      rw [pagesFrom, List.forall_mem_cons] at hhigh
      refine mapVpnLoop_high (t := t.setPte i _) hhigh.2 (fun j hj => ?_) h
      by_cases e : j = i
      · rw [e, Htab.setPte_self]
        dsimp only
        rw [or_and_distrib, mapVflags_and_avpn, avpnEncode_and_avpn, BitVec.or_zero]
        exact avpnEncode_high hhigh.1 base
      · rw [Htab.setPte_of_ne t _ e] at hj ⊢
        exact ht j hj

theorem mmuMapRange_high {prot eaStart eaEnd ra : U64} {actual : PageSize} {t t' : Htab}
    (ht : t.High) (h : mmuMapRange none t eaStart eaEnd ra prot actual = .ok t') :
    t'.High ∧ t'.hashMask = t.hashMask := by
  refine mmuMapRange_rule (I := fun _ t' => t'.High ∧ t'.hashMask = t.hashMask) ?_ ⟨ht, rfl⟩ h
  rintro ea t₁ t₂ - - hmap ⟨ht₁, hmask₁⟩
  obtain ⟨vpn, seg, hea, -, -, hloop⟩ := mmuMap_eq_ok hmap
  obtain ⟨ht₂, hmask₂⟩ := mapVpnLoop_high (eaPages_high hea) ht₁ hloop
  exact ⟨ht₂, hmask₂.trans hmask₁⟩

/-- Whatever its placement, `mmu_init` maps hypervisor and AIL pages only. -/
theorem mmuInit_high {p : Placement} {slb : Slb} {mmu : Mmu} (h : mmuInit p slb = .ok mmu) :
    mmu.htab.High ∧ mmu.htab.hashMask = ptegCount p.ramSize - 1 := by
  obtain ⟨-, -, -, t₁, t₂, t₃, h₁, h₂, h₃, rfl⟩ := mmuInit_eq_ok.mp h
  have ht₀ : (Htab.zeroed (ptegCount p.ramSize)).High := by
    intro i hi
    rw [Htab.zeroed, Pte.valid_zero] at hi
    cases hi
  obtain ⟨ht₁, hmask₁⟩ := mmuMapRange_high ht₀ h₁
  obtain ⟨ht₂, hmask₂⟩ := mmuMapRange_high ht₁ h₂
  obtain ⟨ht₃, hmask₃⟩ := mmuMapRange_high ht₂ h₃
  exact ⟨ht₃, hmask₃.trans (hmask₂.trans hmask₁)⟩

/-- A search for a page below takes nothing there. -/
theorem Htab.High.lacks {t : Htab} (h : t.High) {p : Page} (hp : p.avpn.toNat < 2 ^ 59) :
    t.Lacks p := by
  intro i hi
  have hhigh := h i hi.valid
  rw [hi.avpn] at hhigh
  omega

end Prephv
