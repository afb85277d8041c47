import Prephv.Mmu.Leaves
import Mathlib.Data.Nat.Count

/-!
# Mmu — Room

When a mapping call returns.  A range of base pages is mapped, or it spills because some PTEG would
have more PTEs than slots (`mmuMapRange_load`).  So a range whose pages have PTEGs of their own,
with no valid PTE in them, is mapped (`mmuMapRange_ok`); from that a machine of 4 GiB boots.
-/

set_option autoImplicit false

namespace Prephv

open Words

/-- The real addresses `rpn_encode` accepts. -/
theorem rpnFields_eq_self {ra : U64} (base : PageSize) {actual : PageSize}
    (hd : 2 ^ actual.shift ∣ ra.toNat)
    (hlt : ra.toNat < 2 ^ 60) : ra &&& (rpnFields base actual).2 = ra := by
  have hmask : (rpnFields base actual).2 = ~~~(lowMask 64 actual.shift) &&& lowMask 64 60 := by
    cases base <;> cases actual <;> decide
  have hle : actual.shift ≤ 64 := by cases actual <;> decide
  apply BitVec.eq_of_toNat_eq
  rw [hmask, ← BitVec.and_assoc, (and_not_lowMask_eq_self ra hle).mpr hd,
    and_lowMask _ (by decide), Nat.mod_eq_of_lt hlt]

/-- What decided the pages of an address. -/
theorem eaPages_inv {guest : Option Guest} {ea : U64} {actual base : PageSize} {ps : List Page}
    (h : eaPages guest ea actual = .ok (base, ps)) : ∃ vpn seg, ea2Vpn guest ea = .ok vpn ∧
      ea2SegSize guest ea = .ok seg ∧ ea2BaseSize guest ea = .ok seg.base ∧ base = seg.base ∧
      ps = pagesFrom seg seg.base (actual.size.toNat / seg.base.size.toNat) vpn := by
  obtain ⟨vpn, hvpn, h⟩ := bind_eq_ok.mp h
  obtain ⟨seg, hseg, h⟩ := bind_eq_ok.mp h
  obtain ⟨b, hb, h⟩ := bind_eq_ok.mp h
  obtain rfl := ea2_base hseg hb
  cases h
  exact ⟨vpn, seg, hvpn, hseg, hb, rfl, rfl⟩

section
variable {guest : Option Guest} {t : Htab} {prot : U64} {actual : PageSize}

/-- What `mmu_map` says when a page's PTEG is full. -/
def ptegSpill : Bug := ⟨"PTEG spill for EA 0x%x"⟩

variable (prot) in
/-- `mmu_map` of one base page. -/
theorem mmuMap_page {ea ra : U64} {p : Page}
    (hpages : eaPages guest ea actual = .ok (actual, [p])) (hea : 2 ^ actual.shift ∣ ea.toNat)
    (hra : 2 ^ actual.shift ∣ ra.toNat) (hlt : ra.toNat < 2 ^ 60) :
    mmuMap guest t ea ra prot actual =
      match GroupTable.findSlot ptesPerGroup (fun p => !p.valid) t.pte
        (p.pteg t.hashMask * ptesPerGroup) with
      | none => .error ptegSpill
      | some i => .ok (t.setPte i (encodePte p ⟨actual, actual, ra, prot⟩)) := by
  obtain ⟨vpn, seg, hvpn, hseg, hbase, rfl, hps⟩ := eaPages_inv hpages
  have hone : seg.base.size.toNat / seg.base.size.toNat = 1 := by cases seg <;> decide
  rw [hone, pagesFrom, pagesFrom, List.cons.injEq] at hps
  obtain ⟨rfl, -⟩ := hps
  have hrpn := rpnEncode_eq_ok.mpr ⟨rpnFields_eq_self seg.base hra hlt, rfl⟩
  have haligned := not_not.mpr ((aligned_iff ea seg.base).mpr hea)
  have hraligned := not_not.mpr ((aligned_iff ra seg.base).mpr hra)
  simp only [mmuMap, bugOn_neg haligned, hvpn, hseg, hbase, ok_bind, mmuMapVpn,
    bugOn_neg (BitVec.lt_irrefl _), bugOn_neg hraligned, hone, mapVpnLoop, ptegIndex_toNat]
  cases GroupTable.findSlot ptesPerGroup (fun p => !p.valid) t.pte
      (Page.pteg t.hashMask ⟨vpn, seg⟩ * ptesPerGroup) with
  | none => rfl
  | some i =>
    dsimp only
    rw [hrpn]
    rfl

/-- The number of valid PTEs in a PTEG. -/
def Htab.load (t : Htab) (g : Nat) : Nat := GroupTable.load ptesPerGroup Pte.valid t.pte g

variable (prot) in
/-- A page is mapped where its PTEG has room. -/
theorem mmuMap_ok {ea ra : U64} {p : Page}
    (hpages : eaPages guest ea actual = .ok (actual, [p])) (hea : 2 ^ actual.shift ∣ ea.toNat)
    (hra : 2 ^ actual.shift ∣ ra.toNat) (hlt : ra.toNat < 2 ^ 60)
    (hroom : t.load (p.pteg t.hashMask) ≠ ptesPerGroup) :
    ∃ t', mmuMap guest t ea ra prot actual = .ok t' ∧ t'.hashMask = t.hashMask ∧
      ∀ g, t'.load g = t.load g + if p.pteg t.hashMask = g then 1 else 0 := by
  rw [mmuMap_page prot hpages hea hra hlt]
  cases hfind : GroupTable.findSlot ptesPerGroup (fun p => !p.valid) t.pte
      (p.pteg t.hashMask * ptesPerGroup) with
  | none => exact absurd ((GroupTable.findSlot_dead (by decide)).mp hfind) hroom
  | some i =>
    obtain ⟨hgroup, hdead⟩ := GroupTable.findSlot_some hfind
    refine ⟨_, rfl, rfl, fun g => ?_⟩
    rw [← hgroup]
    exact GroupTable.load_update (by decide) (by simpa using hdead) (encodePte_valid _ _)

variable (prot) in
/-- It spills where there is none. -/
theorem mmuMap_spill {ea ra : U64} {p : Page}
    (hpages : eaPages guest ea actual = .ok (actual, [p])) (hea : 2 ^ actual.shift ∣ ea.toNat)
    (hra : 2 ^ actual.shift ∣ ra.toNat) (hlt : ra.toNat < 2 ^ 60)
    (hfull : t.load (p.pteg t.hashMask) = ptesPerGroup) :
    mmuMap guest t ea ra prot actual = .error ptegSpill := by
  rw [mmuMap_page prot hpages hea hra hlt, (GroupTable.findSlot_dead (by decide)).mpr hfull]

variable (prot) in
/-- Mapping a range of base pages returns, and then each PTEG has as many valid PTEs more as it has
pages in the range; or it spills, and then a PTEG would have more than it has slots. -/
theorem mapRangeLoop_load : ∀ (n : Nat) (addr ra : U64) {t : Htab} (pg : Nat → Page),
    (∀ j < n, eaPages guest (addr + BitVec.ofNat 64 j * actual.size) actual =
      .ok (actual, [pg j])) →
    addr.toNat + n * actual.size.toNat < 2 ^ 64 → 2 ^ actual.shift ∣ addr.toNat →
    2 ^ actual.shift ∣ ra.toNat → ra.toNat + n * actual.size.toNat ≤ 2 ^ 60 →
    (∃ t', mapRangeLoop guest prot actual n addr ra t = .ok t' ∧ t'.hashMask = t.hashMask ∧
      ∀ g, t'.load g = t.load g + Nat.count (fun j => (pg j).pteg t.hashMask = g) n) ∨
    mapRangeLoop guest prot actual n addr ra t = .error ptegSpill ∧
      ∃ g, ptesPerGroup < t.load g + Nat.count (fun j => (pg j).pteg t.hashMask = g) n
  | 0, addr, ra, t, pg, _, _, _, _, _ => Or.inl ⟨t, rfl, rfl, fun g => by rw [Nat.count_zero]; rfl⟩
  | n + 1, addr, ra, t, pg, hpages, haddr, hd, hra, hlt => by
    have hsize : actual.size.toNat = 2 ^ actual.shift := by cases actual <;> rfl
    have hpos : 0 < actual.size.toNat := by cases actual <;> decide
    rw [Nat.succ_mul] at haddr hlt
    have hadd : (addr + actual.size).toNat = addr.toNat + actual.size.toNat := by
      rw [BitVec.toNat_add]; exact Nat.mod_eq_of_lt (by omega)
    have hradd : (ra + actual.size).toNat = ra.toNat + actual.size.toNat := by
      rw [BitVec.toNat_add]; exact Nat.mod_eq_of_lt (by omega)
    have hp₀ := hpages 0 (by omega)
    rw [BitVec.zero_mul, BitVec.add_zero] at hp₀
    simp only [Nat.count_succ']
    by_cases hfull : t.load ((pg 0).pteg t.hashMask) = ptesPerGroup
    · refine Or.inr ⟨?_, (pg 0).pteg t.hashMask, ?_⟩
      · rw [mapRangeLoop, mmuMap_spill prot hp₀ hd hra (by omega) hfull]
        rfl
      · rw [hfull, if_pos rfl]
        omega
    · obtain ⟨t₁, hmap, hmask, hload⟩ := mmuMap_ok prot hp₀ hd hra (by omega) hfull
      have hrest := mapRangeLoop_load n (addr + actual.size) (ra + actual.size) (t := t₁)
        (fun j => pg (j + 1))
        (fun j hj => by
          have := hpages (j + 1) (by omega)
          rwa [BitVec.ofNat_add, BitVec.add_mul, BitVec.one_mul, BitVec.add_comm _ actual.size,
            ← BitVec.add_assoc] at this)
        (by omega) (by rw [hadd, hsize]; exact Nat.dvd_add hd (Nat.dvd_refl _))
        (by rw [hradd, hsize]; exact Nat.dvd_add hra (Nat.dvd_refl _)) (by omega)
      simp only [hmask, hload] at hrest
      rw [mapRangeLoop, hmap]
      refine hrest.imp ?_ ?_
      · rintro ⟨t', hrun, hmask', hload'⟩
        exact ⟨t', hrun, hmask', fun g => by rw [hload']; omega⟩
      · rintro ⟨hrun, g, hg⟩
        exact ⟨hrun, g, by omega⟩

/-- Every valid PTE sits in a PTEG of the set. -/
def Htab.Used (t : Htab) (P : Nat → Prop) : Prop :=
  ∀ i, (t.pte i).valid = true → P (i / ptesPerGroup)

theorem Htab.Used.mono {P Q : Nat → Prop} (h : t.Used P) (hPQ : ∀ g, P g → Q g) : t.Used Q :=
  fun i hi => hPQ _ (h i hi)

theorem Htab.used_iff {P : Nat → Prop} : t.Used P ↔ ∀ g, ¬ P g → t.load g = 0 := by
  constructor
  · intro h g hg
    refine GroupTable.load_eq_zero (by decide) fun i hi => ?_
    by_contra hv
    rw [← hi] at hg
    exact hg (h i (Bool.eq_true_of_not_eq_false hv))
  · intro h i hi
    by_contra hP
    exact Nat.ne_of_gt (GroupTable.load_pos (by decide) rfl hi) (h _ hP)

variable (guest prot actual) in
/-- Mapping a range of `n` pages, the PTEGs of which are `f`. -/
theorem mmuMapRange_load (n : Nat) (f : Nat → Nat) (eaStart eaEnd ra : U64) (page : U64 → Page)
    (hend : eaEnd.toNat = eaStart.toNat + n * actual.size.toNat)
    (hpages : ∀ ea, eaStart ≤ ea → ea < eaEnd → eaPages guest ea actual = .ok (actual, [page ea]))
    (hpteg : ∀ ea j, ea.toNat = eaStart.toNat + j * actual.size.toNat → j < n →
      (page ea).pteg t.hashMask = f j)
    (hd : 2 ^ actual.shift ∣ eaStart.toNat) (hra : 2 ^ actual.shift ∣ ra.toNat)
    (hlt : ra.toNat + n * actual.size.toNat ≤ 2 ^ 60) :
    (∃ t', mmuMapRange guest t eaStart eaEnd ra prot actual = .ok t' ∧
      t'.hashMask = t.hashMask ∧ ∀ g, t'.load g = t.load g + Nat.count (fun j => f j = g) n) ∨
    mmuMapRange guest t eaStart eaEnd ra prot actual = .error ptegSpill ∧
      ∃ g, ptesPerGroup < t.load g + Nat.count (fun j => f j = g) n := by
  have hpos : 0 < actual.size.toNat := by cases actual <;> decide
  have hlast := eaEnd.isLt
  have hcount : (eaEnd.toNat - eaStart.toNat) / actual.size.toNat = n := by
    rw [hend, Nat.add_sub_cancel_left, Nat.mul_div_cancel n hpos]
  have hmod : (eaEnd - eaStart) % actual.size = 0 := by
    apply BitVec.eq_of_toNat_eq
    rw [BitVec.toNat_umod, BitVec.toNat_sub_of_le (show eaStart ≤ eaEnd from by
      show eaStart.toNat ≤ eaEnd.toNat; omega), hend, Nat.add_sub_cancel_left]
    exact Nat.mul_mod_left ..
  have haddr : ∀ j < n, (eaStart + BitVec.ofNat 64 j * actual.size).toNat =
      eaStart.toNat + j * actual.size.toNat ∧
        eaStart.toNat + j * actual.size.toNat < eaEnd.toNat := by
    intro j hj
    have hle : (j + 1) * actual.size.toNat ≤ n * actual.size.toNat := Nat.mul_le_mul_right _ hj
    rw [Nat.succ_mul] at hle
    have hj64 : j < 2 ^ 64 := by
      have := Nat.le_mul_of_pos_right j hpos
      omega
    have hmul : (BitVec.ofNat 64 j * actual.size).toNat = j * actual.size.toNat := by
      rw [BitVec.toNat_mul, BitVec.toNat_ofNat, Nat.mod_eq_of_lt hj64]
      exact Nat.mod_eq_of_lt (by omega)
    rw [BitVec.toNat_add, hmul]
    exact ⟨Nat.mod_eq_of_lt (by omega), by omega⟩
  have hrun := mapRangeLoop_load prot n eaStart ra (t := t)
    (fun j => page (eaStart + BitVec.ofNat 64 j * actual.size))
    (fun j hj => by
      obtain ⟨he, hbelow⟩ := haddr j hj
      refine hpages _ ?_ ?_
      · show eaStart.toNat ≤ _
        omega
      · show _ < eaEnd.toNat
        omega)
    (by omega) hd hra hlt
  have hcounts : ∀ g, Nat.count (fun j => (page (eaStart + BitVec.ofNat 64 j *
      actual.size)).pteg t.hashMask = g) n = Nat.count (fun j => f j = g) n := by
    intro g
    rw [Nat.count_eq_card_filter_range, Nat.count_eq_card_filter_range]
    congr 1
    refine Finset.filter_congr fun j hj => ?_
    have hj' := Finset.mem_range.mp hj
    rw [hpteg _ j (haddr j hj').1 hj']
  simp only [hcounts] at hrun
  rwa [mmuMapRange, bugOn_neg (not_not.mpr hmod), ok_bind, hcount]

variable (guest prot actual) in
/-- A range whose pages have consecutive indices under one VSID, and so PTEGs that differ, is mapped
when these PTEGs are unused. -/
theorem mmuMapRange_ok (c lo n : Nat) (eaStart eaEnd ra : U64) (page : U64 → Page)
    {P : Nat → Prop} (hend : eaEnd.toNat = eaStart.toNat + n * actual.size.toNat)
    (hpages : ∀ ea, eaStart ≤ ea → ea < eaEnd → eaPages guest ea actual = .ok (actual, [page ea]))
    (hpteg : ∀ ea j, ea.toNat = eaStart.toNat + j * actual.size.toNat → j < n →
      (page ea).pteg t.hashMask = c ^^^ (lo + j))
    (hd : 2 ^ actual.shift ∣ eaStart.toNat) (hra : 2 ^ actual.shift ∣ ra.toNat)
    (hlt : ra.toNat + n * actual.size.toNat ≤ 2 ^ 60) (hused : t.Used P)
    (hnew : ∀ j < n, ¬ P (c ^^^ (lo + j))) :
    ∃ t', mmuMapRange guest t eaStart eaEnd ra prot actual = .ok t' ∧
      t'.hashMask = t.hashMask ∧ t'.Used fun g => P g ∨ ∃ j < n, g = c ^^^ (lo + j) := by
  have hone : ∀ g, Nat.count (fun j => c ^^^ (lo + j) = g) n ≤ 1 := by
    intro g
    rw [Nat.count_eq_card_filter_range, Finset.card_le_one]
    intro j hj j' hj'
    rw [Finset.mem_filter] at hj hj'
    have := xor_left_cancel (hj.2.trans hj'.2.symm)
    omega
  have hzero : ∀ g, (¬ ∃ j < n, g = c ^^^ (lo + j)) →
      Nat.count (fun j => c ^^^ (lo + j) = g) n = 0 := by
    intro g hg
    rw [Nat.count_eq_card_filter_range, Finset.card_eq_zero, Finset.filter_eq_empty_iff]
    exact fun j hj he => hg ⟨j, Finset.mem_range.mp hj, he.symm⟩
  rcases mmuMapRange_load guest prot actual n (fun j => c ^^^ (lo + j)) eaStart eaEnd ra page hend
    hpages hpteg hd hra hlt with ⟨t', hrun, hmask, hload⟩ | ⟨-, g, hg⟩
  · refine ⟨t', hrun, hmask, Htab.used_iff.mpr fun g hg => ?_⟩
    obtain ⟨hP, hno⟩ := not_or.mp hg
    rw [hload, Htab.used_iff.mp hused g hP, hzero g hno]
  · exfalso
    by_cases hex : ∃ j < n, g = c ^^^ (lo + j)
    · obtain ⟨j, hj, rfl⟩ := hex
      have hfree := Htab.used_iff.mp hused _ (hnew j hj)
      have hcount := hone (c ^^^ (lo + j))
      have hslots : ptesPerGroup = 8 := rfl
      omega
    · have hle : t.load g ≤ ptesPerGroup := GroupTable.load_le
      rw [hzero g hex] at hg
      omega

end

/-! ### PTEG numbers -/

/-- The PTEG of a page in a table of `2 ^ k` PTEGs, for a small table. -/
theorem pteg_lowMask {k : Nat} (hk : k ≤ 25) (p : Page) : p.pteg (lowMask 64 k) =
    (p.vpn.toNat / 2 ^ (p.seg.shift - 12) % 2 ^ k) ^^^
      (p.vpn.toNat % 2 ^ (p.seg.shift - 12) / 2 ^ (p.seg.base.shift - 12) % 2 ^ k) := by
  rw [Page.pteg, and_lowMask _ (by omega), vpnHash_mod _ _ hk]

theorem pteg_hvPage {ea : U64} (h : InHv ea) : (hvPage ea).pteg (lowMask 64 19) =
    0x43210 ^^^ ((ea.toNat - 0x8000000000000000) / 2 ^ 24) := by
  obtain ⟨hlo, hhi⟩ := h
  rw [pteg_lowMask (by decide)]
  simp only [hvPage, SegSize.shift, SegSize.base, PageSize.shift, sidShift1T, pageShift16M,
    BitVec.toNat_ofNat]
  congr 1 <;> omega

theorem pteg_ailPage {ea : U64} (h : isAil ea) : (ailPage ea).pteg (lowMask 64 19) =
    0x10123 ^^^ ((ea.toNat - 0xc000000000000000) / 2 ^ 12) := by
  obtain ⟨hlo, hhi⟩ := (isAil_iff ea).mp h
  rw [pteg_lowMask (by decide)]
  simp only [ailPage, SegSize.shift, SegSize.base, PageSize.shift, sidShift256MB, pageShift,
    BitVec.toNat_ofNat]
  congr 1 <;> omega

theorem pteg_grmPage {ea : U64} (h : ea < layoutVmEnd) : (grmPage ea).pteg (lowMask 64 19) =
    0x55555 ^^^ (ea.toNat / 2 ^ 24) := by
  have hlt : ea.toNat < 2 ^ 32 := h
  rw [pteg_lowMask (by decide)]
  simp only [grmPage, SegSize.shift, SegSize.base, PageSize.shift, sidShift1T, pageShift16M,
    BitVec.toNat_ofNat]
  congr 1 <;> omega

/-- In segment 0 the VSID is 0. -/
theorem pteg_vmPage {ea : U64} (h : ea.toNat < 2 ^ 28) : (vmPage ea).pteg (lowMask 64 19) =
    0 ^^^ (ea.toNat / 2 ^ 12) := by
  rw [pteg_lowMask (by decide)]
  simp only [vmPage, SegSize.shift, SegSize.base, PageSize.shift, sidShift256MB, pageShift,
    BitVec.toNat_ofNat]
  congr 1 <;> omega

/-- Small indices stay in the block of PTEGs of their VSID. -/
theorem xor_block {c x s : Nat} (hx : x < 2 ^ s) : (c ^^^ x) / 2 ^ s = c / 2 ^ s := by
  rw [Nat.xor_div_two_pow, Nat.div_eq_of_lt hx, Nat.xor_zero]

/-! ### A machine of 4 GiB -/

/-- A machine of 4 GiB, with `2 ^ 19` PTEGs of its table at 64 MiB, and the image at 512 MiB. -/
def samplePlacement : Placement where
  ramSize := 0x100000000
  htab := 0x8000000004000000
  imageStart := 0x8000000020000000
  imageEnd := 0x8000000020200000

/-- The PTEGs `mmu_init` uses there: those of the table, the image and the AIL vectors. -/
def samplePtegs (g : Nat) : Prop := g / 2 ^ 4 = 0x4321 ∨ g / 2 ^ 4 = 0x4323 ∨ g / 2 ^ 13 = 8

theorem mmuInit_sample (slb : Slb) : ∃ mmu, mmuInit samplePlacement slb = .ok mmu ∧
    mmu.htab.hashMask = lowMask 64 19 ∧ mmu.htab.Used samplePtegs ∧ mmu.slb = slbInit slb := by
  have hhv : ∀ {ea start stop : U64}, 0x8000000000000000#64 ≤ start →
      stop ≤ 0x8000010000000000#64 → start ≤ ea → ea < stop → InHv ea := by
    intro ea start stop h₁ h₂ h₃ h₄
    exact ⟨Nat.le_trans h₁ h₃, Nat.lt_of_lt_of_le h₄ h₂⟩
  have hmask₀ : (Htab.zeroed (ptegCount samplePlacement.ramSize)).hashMask = lowMask 64 19 := by
    decide
  have hused₀ : (Htab.zeroed (ptegCount samplePlacement.ramSize)).Used fun _ => False := by
    intro i hi
    rw [Htab.zeroed, Pte.valid_zero] at hi
    cases hi
  obtain ⟨t₁, h₁, hmask₁, hused₁⟩ :=
    mmuMapRange_ok none ppRWXX .page16M 0x43210 4 4 0x8000000004000000 0x8000000008000000
      0x4000000 hvPage (by decide)
    (fun ea h h' => eaPages_hv (hhv (by decide) (by decide) h h'))
    (fun ea j he hj => by
      have he' : ea.toNat = 0x8000000004000000 + j * 2 ^ 24 := he
      rw [hmask₀, pteg_hvPage ⟨by omega, by omega⟩]
      congr 1
      omega)
    (by decide) (by decide) (by decide) hused₀ (fun _ _ h => h)
  have hmask₁' : t₁.hashMask = lowMask 64 19 := hmask₁.trans hmask₀
  have hused₁' : t₁.Used fun g => g / 2 ^ 4 = 0x4321 := hused₁.mono fun g hg => by
    rcases hg with hg | ⟨j, hj, rfl⟩
    · exact hg.elim
    · exact xor_block (by omega)
  obtain ⟨t₂, h₂, hmask₂, hused₂⟩ :=
    mmuMapRange_ok none ppRWXX .page16M 0x43210 32 1 0x8000000020000000 0x8000000021000000
      0x20000000 hvPage (by decide)
    (fun ea h h' => eaPages_hv (hhv (by decide) (by decide) h h'))
    (fun ea j he hj => by
      have he' : ea.toNat = 0x8000000020000000 + j * 2 ^ 24 := he
      rw [hmask₁', pteg_hvPage ⟨by omega, by omega⟩]
      congr 1
      omega)
    (by decide) (by decide) (by decide) hused₁' (fun j hj => by
      obtain rfl : j = 0 := by omega
      decide)
  have hmask₂' : t₂.hashMask = lowMask 64 19 := hmask₂.trans hmask₁'
  have hused₂' : t₂.Used fun g => g / 2 ^ 4 = 0x4321 ∨ g / 2 ^ 4 = 0x4323 :=
    hused₂.mono fun g hg => by
      rcases hg with hg | ⟨j, hj, rfl⟩
      · exact Or.inl hg
      · obtain rfl : j = 0 := by omega
        exact Or.inr (by decide)
  obtain ⟨t₃, h₃, hmask₃, hused₃⟩ :=
    mmuMapRange_ok none ppRWXX .page4K 0x10123 4 252 ailVectors ailAspaceEnd 0 ailPage (by decide)
    (fun ea h h' => eaPages_ail ⟨BitVec.le_trans (by decide) h, BitVec.le_of_lt h'⟩)
    (fun ea j he hj => by
      have he' : ea.toNat = 0xc000000000004000 + j * 2 ^ 12 := he
      rw [hmask₂', pteg_ailPage ((isAil_iff ea).mpr ⟨by omega, by omega⟩)]
      congr 1
      omega)
    (by decide) (by decide) (by decide) hused₂' (fun j hj => by
      have hblock : (0x10123 ^^^ (4 + j)) / 2 ^ 13 = 8 := xor_block (by omega)
      omega)
  refine ⟨⟨t₃, slbInit slb⟩, ?_, hmask₃.trans hmask₂', hused₃.mono fun g hg => ?_, rfl⟩
  · exact mmuInit_eq_ok.mpr ⟨by decide, by decide, by decide, t₁, t₂, t₃, h₁, h₂, h₃, rfl⟩
  · rcases hg with hg | ⟨j, hj, rfl⟩
    · exact hg.imp_right Or.inl
    · have hblock : (0x10123 ^^^ (4 + j)) / 2 ^ 13 = 8 := xor_block (by omega)
      exact Or.inr (Or.inr hblock)

/-- Its guest has 32 MiB, at 1 GiB. -/
def sampleRamSize : U64 := 0x2000000
def sampleRam : U64 := 0x8000000040000000

/-- The PTEGs in use after `guest_init`. -/
def sampleVmPtegs (g : Nat) : Prop := samplePtegs g ∨ g / 2 ^ 13 = 0x2a ∨ g / 2 ^ 13 = 0

theorem guestInit_sample (mmu : Mmu) (hmask : mmu.htab.hashMask = lowMask 64 19)
    (hused : mmu.htab.Used samplePtegs) : ∃ mmu', guestInit mmu sampleRamSize sampleRam =
        .ok (guestOn sampleRamSize sampleRam, mmu') ∧
      mmu'.htab.hashMask = lowMask 64 19 ∧ mmu'.htab.Used sampleVmPtegs := by
  have hvm : ∀ {ea : U64}, ea < sampleRamSize → ea < layoutVmEnd :=
    fun h => Nat.lt_of_lt_of_le (m := sampleRamSize.toNat) h (by decide)
  obtain ⟨t₁, h₁, hmask₁, hused₁⟩ :=
    mmuMapRange_ok (some (guestFresh sampleRamSize sampleRam)) ppRWRW .page16M 0x55555 0 2 0
      sampleRamSize (sampleRam &&& ~~~hvAspace) grmPage (by decide)
    (fun ea _ h => eaPages_vmOff (hvm h) rfl (guestFresh_mmuIs _ _))
    (fun ea j he hj => by
      have he' : ea.toNat = 0 + j * 2 ^ 24 := he
      rw [hmask, pteg_grmPage (show ea.toNat < 2 ^ 32 by omega)]
      congr 1
      omega)
    (by decide) (by decide) (by decide) hused (fun j hj hP => by
      have hblock : (0x55555 ^^^ (0 + j)) / 2 ^ 4 = 0x5555 := xor_block (by omega)
      unfold samplePtegs at hP
      omega)
  have hmask₁' : t₁.hashMask = lowMask 64 19 := hmask₁.trans hmask
  have hused₁' : t₁.Used fun g => samplePtegs g ∨ g / 2 ^ 13 = 0x2a :=
    hused₁.mono fun g hg => by
      rcases hg with hg | ⟨j, hj, rfl⟩
      · exact Or.inl hg
      · have hblock : (0x55555 ^^^ (0 + j)) / 2 ^ 13 = 0x2a := xor_block (by omega)
        exact Or.inr hblock
  obtain ⟨t₂, h₂, hmask₂, hused₂⟩ :=
    mmuMapRange_ok (some (guestOn sampleRamSize sampleRam)) ppRWRW .page4K 0 0 8192 0
      sampleRamSize (sampleRam &&& ~~~hvAspace) vmPage (by decide)
    (fun ea _ h => eaPages_vmOn (hvm h) rfl (guestOn_mmuIs _ _) (guestOn_srAt _ _))
    (fun ea j he hj => by
      have he' : ea.toNat = 0 + j * 2 ^ 12 := he
      rw [hmask₁', pteg_vmPage (by omega)]
      congr 1
      omega)
    (by decide) (by decide) (by decide) hused₁' (fun j hj hP => by
      rw [Nat.zero_xor, Nat.zero_add] at hP
      unfold samplePtegs at hP
      omega)
  refine ⟨_, guestInit_ok (by decide) (by decide) (by decide) h₁ h₂, hmask₂.trans hmask₁',
    hused₂.mono fun g hg => ?_⟩
  rcases hg with (hg | hg) | ⟨j, hj, rfl⟩
  · exact Or.inl hg
  · exact Or.inr (Or.inl hg)
  · have hblock : (0 ^^^ (0 + j)) / 2 ^ 13 = 0 := xor_block (by omega)
    exact Or.inr (Or.inr hblock)

/-- A `map` call for the page after guest RAM, to any other physical page. -/
theorem romMap_sample {g : Guest} {t : Htab} {phys : U32} (hram : g.ram = sampleRam)
    (hmmu : g.MmuIs true) (hsr : ∀ i < srCount, g.srAt i = BitVec.ofNat 32 i)
    (hmask : t.hashMask = lowMask 64 19) (hused : t.Used sampleVmPtegs)
    (hphys : phys ≠ 0x2000000) (hd : 2 ^ 12 ∣ phys.toNat) :
    ∃ t', romMap g t 0x2000000 phys 0x1000 = .ok t' := by
  have hlt := phys.isLt
  have hsum : (phys.setWidth 64 + sampleRam).toNat = phys.toNat + 0x8000000040000000 := by
    rw [BitVec.toNat_add, BitVec.toNat_setWidth]
    have : sampleRam.toNat = 0x8000000040000000 := rfl
    omega
  have hra : ((phys.setWidth 64 + sampleRam) &&& ~~~hvAspace).toNat =
      phys.toNat + 0x40000000 := by
    rw [and_not_hvAspace, hsum]
    omega
  obtain ⟨t', h, -⟩ :=
    mmuMapRange_ok (some g) ppRWRW .page4K 0 0x2000 1 0x2000000 0x2001000
      ((phys.setWidth 64 + sampleRam) &&& ~~~hvAspace) vmPage
    (by decide)
    (fun ea _ h => eaPages_vmOn (Nat.lt_of_lt_of_le (m := 0x2001000) h (by decide)) rfl
      hmmu hsr)
    (fun ea j he hj => by
      have he' : ea.toNat = 0x2000000 + j * 2 ^ 12 := he
      have hidx : ea.toNat / 2 ^ 12 = 0x2000 + j := by omega
      rw [hmask, pteg_vmPage (by omega), hidx])
    (by decide) (by
      show 2 ^ 12 ∣ _
      rw [hra]
      omega)
    (by
      show _ + 1 * 2 ^ 12 ≤ _
      rw [hra]
      omega)
    hused (fun j hj hP => by
      rw [Nat.zero_xor] at hP
      unfold sampleVmPtegs samplePtegs at hP
      omega)
  refine ⟨t', ?_⟩
  have hge : hvAspace ≤ phys.setWidth 64 + sampleRam := by
    show 2 ^ 63 ≤ (phys.setWidth 64 + sampleRam).toNat
    rw [hsum]
    omega
  rw [romMap, if_neg hphys, hram]
  exact bind_eq_ok.mpr ⟨_, ptr2Ra_eq_ok.mpr ⟨hge, rfl⟩, h⟩

/-- The machine boots. -/
theorem bootRun_init_sample : ∃ s g, BootRun samplePlacement
    [.guestInit sampleRamSize sampleRam, .romInit] s ∧ s.guest = some g ∧
      g.ramSize = sampleRamSize ∧ ∀ phys : U32, phys ≠ 0x2000000 → 2 ^ 12 ∣ phys.toNat →
        ∃ t, romMap g s.mmu.htab 0x2000000 phys 0x1000 = .ok t := by
  obtain ⟨mmu, hinit, hmask, hused, -⟩ := mmuInit_sample fun _ => ⟨0, 0⟩
  obtain ⟨mmu', hguest, hmask', hused'⟩ := guestInit_sample mmu hmask hused
  have hon := guestOn_mmuIs sampleRamSize sampleRam
  have hsr := guestOn_srAt sampleRamSize sampleRam
  have h₁ : BootRun samplePlacement [.guestInit sampleRamSize sampleRam]
      ⟨mmu', some (guestOn sampleRamSize sampleRam)⟩ :=
    @BootRun.step _ [] _ _ _ (.init hinit) rfl (bind_eq_ok.mpr ⟨_, hguest, rfl⟩)
  exact ⟨_, _, h₁.step (e := .romInit) trivial rfl, rfl, rfl, fun phys hphys hd =>
    romMap_sample rfl hon hsr hmask' hused' hphys hd⟩

/-- Its guest maps the page after its RAM. -/
theorem bootRun_sample (phys : U32) (hphys : phys ≠ 0x2000000) (hd : 2 ^ 12 ∣ phys.toNat) :
    ∃ s g, BootRun samplePlacement
        [.guestInit sampleRamSize sampleRam, .romInit, .map 0x2000000 phys 0x1000] s ∧
      s.guest = some g ∧ g.ramSize = sampleRamSize := by
  obtain ⟨s, g, h, hg, hsize, hmap⟩ := bootRun_init_sample
  obtain ⟨t, ht⟩ := hmap phys hphys hd
  refine ⟨{ s with mmu := { s.mmu with htab := t } }, g,
    h.step (e := .map 0x2000000 phys 0x1000) trivial ?_, hg, hsize⟩
  simp only [BootEvent.exec, hg]
  exact bind_eq_ok.mpr ⟨t, ht, rfl⟩

end Prephv
