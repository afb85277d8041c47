import Prephv.Mmu.MapsTo

/-!
# Mmu — Spill

When guest RAM fits the table of a machine of 4 GiB.  `guest_init` maps RAM twice.  The GRM pages of
16M have PTEGs of their own.  The 4K pages do not: each 256M segment of the guest has as many of
them as `2 ^ 16` PTEGs, the same for all the segments, in an order of its own (`vmPtegs`).  So eight
segments fill the slots of these PTEGs, and a ninth spills (`guestInit_iff`).
-/

set_option autoImplicit false

namespace Prephv

open Words

/-! ### The PTEGs `mmu_init` uses -/

section

variable {guest : Option Guest} {prot ra : U64} {actual : PageSize} {t t' : Htab} {P : Nat → Prop}

/-- A range uses the PTEGs of its pages. -/
theorem mmuMapRange_used (page : U64 → Page) {eaStart eaEnd : U64} (hpp : prot ∈ ppValues)
    (hle : eaStart.toNat ≤ eaEnd.toNat)
    (hpages : ∀ ea r, eaStart.toNat ≤ ea.toNat → ea.toNat < eaEnd.toNat →
      2 ^ actual.shift ∣ ea.toNat → eaPages guest ea actual = .ok r →
      OnePage actual (page ea) r)
    (hin : ∀ ea, eaStart.toNat ≤ ea.toNat → ea.toNat < eaEnd.toNat → P ((page ea).pteg t.hashMask))
    (hused : t.Used P) (h : mmuMapRange guest t eaStart eaEnd ra prot actual = .ok t') :
    t'.Used P ∧ t'.hashMask = t.hashMask := by
  refine mmuMapRange_writes (I := fun _ t' => t'.Used P ∧ t'.hashMask = t.hashMask) hpp hle hpages
    ?_ ⟨hused, rfl⟩ h
  rintro ea t₁ i h₁ h₂ - - - hi - ⟨hused₁, hmask⟩
  refine ⟨fun j hj => ?_, hmask⟩
  by_cases e : j = i
  · rw [e, hi, hmask]
    exact hin ea h₁ h₂
  · rw [Htab.setPte_of_ne t₁ _ e] at hj
    exact hused₁ j hj

/-- A range of hypervisor space uses PTEGs of the block of its VSID. -/
theorem hvRange_used {x stop : U64} (hx : hvAspace ≤ x) (hstop : stop.toNat ≤ 0x8000010000000000)
    (hmask : t.hashMask = lowMask 64 19) (hblock : ∀ g, g / 2 ^ 16 = 4 → P g) (hused : t.Used P)
    (h : mmuMapRange none t (x &&& pageMask16M) (alignUp stop (MB 16)) ra ppRWXX .page16M =
      .ok t') : t'.Used P ∧ t'.hashMask = lowMask 64 19 := by
  have hx' : 0x8000000000000000 ≤ x.toNat := hx
  have hlo := pageMask16M_toNat x
  have hhi := alignUp_16M hstop
  have hin : ∀ ea : U64, (x &&& pageMask16M).toNat ≤ ea.toNat →
      ea.toNat < (alignUp stop (MB 16)).toNat → InHv ea := fun ea h₁ h₂ => ⟨by omega, by omega⟩
  by_cases hle : (x &&& pageMask16M).toNat ≤ (alignUp stop (MB 16)).toNat
  · rw [← hmask]
    refine mmuMapRange_used hvPage (by decide) hle (fun ea r h₁ h₂ hd hr => ?_)
      (fun ea h₁ h₂ => hblock _ ?_) hused h
    · rw [eaPages_hv (hin ea h₁ h₂)] at hr
      exact ⟨hvPage_ok (hin ea h₁ h₂) hd, (Except.ok.inj hr).symm⟩
    · obtain ⟨h₃, h₄⟩ := hin ea h₁ h₂
      rw [hmask, pteg_hvPage ⟨h₃, h₄⟩]
      exact (xor_block (by omega)).trans (by decide)
  · obtain rfl := mmuMapRange_empty (Nat.le_of_not_le hle) h
    exact ⟨hused, hmask⟩

end

/-- The PTEGs of hypervisor space and of the AIL vectors. -/
def HvPtegs (g : Nat) : Prop := g / 2 ^ 16 = 4 ∨ g / 2 ^ 16 = 1

/-- With `2 ^ 19` PTEGs, `mmu_init` uses none of the other six blocks of them. -/
theorem mmuInit_used {p : Placement} {slb : Slb} {mmu : Mmu} (hbelow : p.Below)
    (hcount : (ptegCount p.ramSize).toNat = 2 ^ 19) (h : mmuInit p slb = .ok mmu) :
    mmu.htab.Used HvPtegs ∧ mmu.htab.hashMask = lowMask 64 19 := by
  obtain ⟨hhtab, -, himage, t₁, t₂, t₃, h₁, h₂, h₃, rfl⟩ := mmuInit_eq_ok.mp h
  have hmask₀ : (Htab.zeroed (ptegCount p.ramSize)).hashMask = lowMask 64 19 := by
    have hn : ptegCount p.ramSize = BitVec.ofNat 64 (2 ^ 19) := BitVec.eq_of_toNat_eq hcount
    rw [Htab.zeroed, hn]
    exact sub_one_eq_lowMask (by decide)
  have hused₀ : (Htab.zeroed (ptegCount p.ramSize)).Used HvPtegs := by
    intro i hi
    rw [Htab.zeroed, Pte.valid_zero] at hi
    cases hi
  have hhtabEnd : (p.htab + p.htabSize).toNat ≤ 0x8000010000000000 := by
    have := hbelow.htab
    rw [BitVec.toNat_add]
    exact Nat.le_trans (Nat.mod_le _ _) this
  obtain ⟨hused₁, hmask₁⟩ := hvRange_used hhtab hhtabEnd hmask₀ (fun _ => Or.inl) hused₀ h₁
  obtain ⟨hused₂, hmask₂⟩ := hvRange_used himage hbelow.image hmask₁ (fun _ => Or.inl) hused₁ h₂
  have hail : ∀ ea : U64, ailVectors.toNat ≤ ea.toNat → ea.toNat < ailAspaceEnd.toNat → isAil ea :=
    fun ea h h' => ⟨Nat.le_trans (by decide) h, Nat.le_of_lt h'⟩
  rw [← hmask₂]
  refine mmuMapRange_used ailPage (by decide) (by decide) (fun ea r h h' _ hr => ?_)
    (fun ea h h' => Or.inr ?_) hused₂ h₃
  · rw [eaPages_ail (hail ea h h')] at hr
    exact ⟨ailPage_ok (hail ea h h'), (Except.ok.inj hr).symm⟩
  · have hea := (isAil_iff ea).mp (hail ea h h')
    rw [hmask₂, pteg_ailPage (hail ea h h')]
    exact (xor_block (by omega)).trans (by decide)

/-! ### The PTEGs of guest RAM -/

/-- The PTEG of the 4K page `j` of guest RAM: its index in its segment, in the order of the
segment. -/
def vmPtegs (j : Nat) : Nat := j / 2 ^ 16 ^^^ j % 2 ^ 16

/-- The segments' pages have the PTEGs of one block. -/
theorem vmPtegs_lt {j : Nat} (hj : j < 2 ^ 20) : vmPtegs j < 2 ^ 16 :=
  Nat.xor_lt_two_pow (by omega) (Nat.mod_lt _ (by decide))

theorem pteg_vmPage_eq {ea : U64} (h : ea.toNat < 2 ^ 32) :
    (vmPage ea).pteg (lowMask 64 19) = vmPtegs (ea.toNat / 2 ^ 12) := by
  rw [pteg_lowMask (by decide), vmPtegs]
  simp only [vmPage, SegSize.shift, SegSize.base, PageSize.shift, sidShift256MB, pageShift,
    BitVec.toNat_ofNat]
  congr 1 <;> omega

theorem count_vmPtegs_zero {n g : Nat} (hn : n ≤ 2 ^ 20) (hg : 2 ^ 16 ≤ g) :
    Nat.count (fun j => vmPtegs j = g) n = 0 := by
  rw [Nat.count_eq_card_filter_range, Finset.card_eq_zero, Finset.filter_eq_empty_iff]
  intro j hj he
  have hlt := vmPtegs_lt (Nat.lt_of_lt_of_le (Finset.mem_range.mp hj) hn)
  omega

/-- A segment has one page for each PTEG of the block, so eight segments have eight at most. -/
theorem count_vmPtegs_le {n : Nat} (hn : n ≤ 2 ^ 19) (g : Nat) :
    Nat.count (fun j => vmPtegs j = g) n ≤ 8 := by
  rw [Nat.count_eq_card_filter_range]
  have hmaps : ∀ j ∈ (Finset.range n).filter (fun j => vmPtegs j = g),
      j / 2 ^ 16 ∈ Finset.range 8 := by
    intro j hj
    have hlt := Finset.mem_range.mp (Finset.mem_filter.mp hj).1
    exact Finset.mem_range.mpr (by omega)
  refine (Finset.card_le_card_of_injOn _ hmaps ?_).trans (Finset.card_range 8).le
  intro j hj j' hj' he
  have he' : j / 2 ^ 16 = j' / 2 ^ 16 := he
  have hg : vmPtegs j = vmPtegs j' :=
    (Finset.mem_filter.mp hj).2.trans (Finset.mem_filter.mp hj').2.symm
  rw [vmPtegs, vmPtegs, he'] at hg
  have hidx := xor_left_cancel hg
  omega

/-- The first page of the ninth segment is the ninth page of its PTEG. -/
theorem count_vmPtegs_gt {n : Nat} (hn : 2 ^ 19 < n) :
    8 < Nat.count (fun j => vmPtegs j = 8) n := by
  rw [Nat.count_eq_card_filter_range]
  have hmaps : ∀ i ∈ Finset.range 9,
      2 ^ 16 * i + (i ^^^ 8) ∈ (Finset.range n).filter (fun j => vmPtegs j = 8) := by
    intro i hi
    have hi' := Finset.mem_range.mp hi
    have hx : i ^^^ 8 < 2 ^ 4 := Nat.xor_lt_two_pow (by omega) (by decide)
    have hend : i = 8 → i ^^^ 8 = 0 := by
      rintro rfl
      rfl
    refine Finset.mem_filter.mpr ⟨Finset.mem_range.mpr (by omega), ?_⟩
    have hdiv : (2 ^ 16 * i + (i ^^^ 8)) / 2 ^ 16 = i := by omega
    have hmod : (2 ^ 16 * i + (i ^^^ 8)) % 2 ^ 16 = i ^^^ 8 := by omega
    rw [vmPtegs, hdiv, hmod, ← Nat.xor_assoc, Nat.xor_self, Nat.zero_xor]
  have hcard := Finset.card_le_card_of_injOn _ hmaps (by
    intro i hi i' hi' he
    have hx : ∀ i < 9, i ^^^ 8 < 2 ^ 4 := fun i hi => Nat.xor_lt_two_pow (by omega) (by decide)
    have h₁ := hx i (Finset.mem_range.mp hi)
    have h₂ := hx i' (Finset.mem_range.mp hi')
    have he' : 2 ^ 16 * i + (i ^^^ 8) = 2 ^ 16 * i' + (i' ^^^ 8) := he
    omega)
  rw [Finset.card_range] at hcard
  exact hcard

/-! ### `guest_init` -/

section

variable {mmu : Mmu} {ramSize ram : U64}

/-- Guest RAM that `guest_init` is asked for and given: whole 16M pages below 4 GiB, with real
addresses that `rpn_encode` takes. -/
structure GuestRam (ramSize ram : U64) : Prop where
  min : MB 32 ≤ ramSize
  mul : ramSize % MB 16 = 0
  max : ramSize.toNat ≤ 2 ^ 32
  hv : hvAspace ≤ ram
  aligned : 2 ^ 24 ∣ ram.toNat
  real : (ram &&& ~~~hvAspace).toNat + ramSize.toNat ≤ 2 ^ 60

theorem GuestRam.dvd (h : GuestRam ramSize ram) : 2 ^ 24 ∣ ramSize.toNat := by
  have hmod := congrArg BitVec.toNat h.mul
  rw [BitVec.toNat_umod] at hmod
  exact Nat.dvd_of_mod_eq_zero hmod

/-- The GRM pages have PTEGs of their own. -/
theorem guestInit_grm (h : GuestRam ramSize ram) (hmask : mmu.htab.hashMask = lowMask 64 19)
    (hused : mmu.htab.Used HvPtegs) : ∃ t,
      mmuMapRange (some (guestFresh ramSize ram)) mmu.htab 0 ramSize (ram &&& ~~~hvAspace) ppRWRW
        .page16M = .ok t ∧ t.hashMask = lowMask 64 19 ∧ t.Used fun g => 2 ^ 16 ≤ g := by
  have hdvd := h.dvd
  obtain ⟨-, -, hmax, -, haligned, hreal⟩ := h
  have hsize : PageSize.page16M.size.toNat = 2 ^ 24 := rfl
  have hz : (0 : U64).toNat = 0 := rfl
  have hbase := and_not_hvAspace ram
  have hpages : ramSize.toNat / 2 ^ 24 * 2 ^ 24 = ramSize.toNat := Nat.div_mul_cancel hdvd
  obtain ⟨t, hrun, hmask', hused'⟩ :=
    mmuMapRange_ok (some (guestFresh ramSize ram)) ppRWRW .page16M 0x55555 0
      (ramSize.toNat / 2 ^ 24) 0 ramSize (ram &&& ~~~hvAspace) grmPage
    (by rw [hsize, hpages, hz, Nat.zero_add])
    (fun ea _ h => eaPages_vmOff (Nat.lt_of_lt_of_le h hmax) rfl (guestFresh_mmuIs _ _))
    (fun ea j he hj => by
      rw [hsize, hz] at he
      rw [hmask, pteg_grmPage (show ea.toNat < 2 ^ 32 by omega)]
      congr 1
      omega)
    (Nat.dvd_zero _) (by
      show 2 ^ 24 ∣ _
      omega)
    (by rw [hsize, hpages]; exact hreal) hused (fun j hj hP => by
      have hblock : (0x55555 ^^^ (0 + j)) / 2 ^ 16 = 5 := xor_block (by omega)
      unfold HvPtegs at hP
      omega)
  refine ⟨t, hrun, hmask'.trans hmask, hused'.mono fun g hg => ?_⟩
  rcases hg with hg | ⟨j, hj, rfl⟩
  · unfold HvPtegs at hg
    omega
  · have hblock : (0x55555 ^^^ (0 + j)) / 2 ^ 16 = 5 := xor_block (by omega)
    omega

/-- The 4K pages of RAM are mapped, or they spill. -/
theorem guestInit_vm (h : GuestRam ramSize ram) {t : Htab} (hmask : t.hashMask = lowMask 64 19)
    (hused : t.Used fun g => 2 ^ 16 ≤ g) :
    (∃ t', mmuMapRange (some (guestOn ramSize ram)) t 0 ramSize (ram &&& ~~~hvAspace) ppRWRW
      .page4K = .ok t' ∧ ramSize.toNat ≤ 2 ^ 31) ∨
    mmuMapRange (some (guestOn ramSize ram)) t 0 ramSize (ram &&& ~~~hvAspace) ppRWRW
      .page4K = .error ptegSpill ∧ 2 ^ 31 < ramSize.toNat := by
  have hdvd := h.dvd
  obtain ⟨-, -, hmax, -, haligned, hreal⟩ := h
  have hsize : PageSize.page4K.size.toNat = 2 ^ 12 := rfl
  have hz : (0 : U64).toNat = 0 := rfl
  have hbase := and_not_hvAspace ram
  have hpages : ramSize.toNat / 2 ^ 12 * 2 ^ 12 = ramSize.toNat :=
    Nat.div_mul_cancel (Nat.dvd_trans (by decide) hdvd)
  have hrun := mmuMapRange_load (some (guestOn ramSize ram)) ppRWRW .page4K (t := t)
    (ramSize.toNat / 2 ^ 12) vmPtegs 0 ramSize (ram &&& ~~~hvAspace) vmPage
    (by rw [hsize, hpages, hz, Nat.zero_add])
    (fun ea _ h => eaPages_vmOn (Nat.lt_of_lt_of_le h hmax) rfl (guestOn_mmuIs _ _)
      (guestOn_srAt _ _))
    (fun ea j he hj => by
      rw [hsize, hz] at he
      rw [hmask, pteg_vmPage_eq (by omega)]
      congr 1
      omega)
    (Nat.dvd_zero _) (by
      show 2 ^ 12 ∣ _
      omega)
    (by rw [hsize, hpages]; exact hreal)
  have hslots : ptesPerGroup = 8 := rfl
  rcases hrun with ⟨t', hrun, -, hload⟩ | ⟨hrun, g, hg⟩
  · refine Or.inl ⟨t', hrun, Nat.le_of_not_lt fun hlt => ?_⟩
    have hmany := count_vmPtegs_gt (n := ramSize.toNat / 2 ^ 12) (by omega)
    have hle : t'.load 8 ≤ ptesPerGroup := GroupTable.load_le
    rw [hload] at hle
    omega
  · refine Or.inr ⟨hrun, Nat.lt_of_not_le fun hle => ?_⟩
    have hfew := count_vmPtegs_le (n := ramSize.toNat / 2 ^ 12) (by omega) g
    by_cases hlow : 2 ^ 16 ≤ g
    · have hle' : t.load g ≤ ptesPerGroup := GroupTable.load_le
      rw [count_vmPtegs_zero (by omega) hlow] at hg
      omega
    · rw [Htab.used_iff.mp hused g hlow] at hg
      omega

/-- `guest_init` returns, or it spills. -/
theorem guestInit_returns (h : GuestRam ramSize ram) (hmask : mmu.htab.hashMask = lowMask 64 19)
    (hused : mmu.htab.Used HvPtegs) :
    (∃ r, guestInit mmu ramSize ram = .ok r) ∧ ramSize.toNat ≤ 2 ^ 31 ∨
      guestInit mmu ramSize ram = .error ptegSpill ∧ 2 ^ 31 < ramSize.toNat := by
  obtain ⟨t, hgrm, hmask', hused'⟩ := guestInit_grm h hmask hused
  have hmin : ¬ ramSize < MB 32 := BitVec.not_lt.mpr h.min
  rw [guestInit_eq hmin h.mul h.hv hgrm]
  rcases guestInit_vm h hmask' hused' with ⟨t', hvm, hle⟩ | ⟨hvm, hlt⟩
  · rw [hvm]
    exact Or.inl ⟨⟨_, rfl⟩, hle⟩
  · rw [hvm]
    exact Or.inr ⟨rfl, hlt⟩

end

/-- **Guest RAM fits the table** of `2 ^ 19` PTEGs when it is 2 GiB at most.  If it is more,
`guest_init` stops at the assertion that no PTEG spills. -/
theorem guestInit_iff {p : Placement} {slb : Slb} {mmu : Mmu} {ramSize ram : U64}
    (hbelow : p.Below) (hcount : (ptegCount p.ramSize).toNat = 2 ^ 19)
    (hinit : mmuInit p slb = .ok mmu) (h : GuestRam ramSize ram) :
    ((∃ r, guestInit mmu ramSize ram = .ok r) ↔ ramSize.toNat ≤ 2 ^ 31) ∧
      (guestInit mmu ramSize ram = .error ptegSpill ↔ 2 ^ 31 < ramSize.toNat) := by
  obtain ⟨hused, hmask⟩ := mmuInit_used hbelow hcount hinit
  rcases guestInit_returns h hmask hused with ⟨⟨r, hr⟩, hle⟩ | ⟨hspill, hlt⟩
  · rw [hr]
    exact ⟨iff_of_true ⟨r, rfl⟩ hle, iff_of_false (fun h => nomatch h) (Nat.not_lt.mpr hle)⟩
  · rw [hspill]
    exact ⟨iff_of_false (fun h => nomatch h) (Nat.not_le.mpr hlt), iff_of_true rfl hlt⟩

/-- A guest of 2 GiB, on the machine of 4 GiB. -/
theorem guestInit_iff_sample : ∃ mmu r, mmuInit samplePlacement (fun _ => ⟨0, 0⟩) = .ok mmu ∧
    guestInit mmu 0x80000000 sampleRam = .ok r := by
  obtain ⟨mmu, hinit, -⟩ := mmuInit_sample fun _ => ⟨0, 0⟩
  have hram : GuestRam 0x80000000 sampleRam :=
    ⟨by decide, by decide, by decide, by decide, by decide, by decide⟩
  obtain ⟨r, hr⟩ := (guestInit_iff ⟨by decide, by decide⟩ (by decide) hinit hram).1.mpr (by decide)
  exact ⟨mmu, r, hinit, hr⟩

/-- A guest of 2 GiB and 16 MiB spills there. -/
theorem guestInit_spills : ¬ ∀ (p : Placement) (slb : Slb) (mmu : Mmu) (ramSize ram : U64),
    p.Below → (ptegCount p.ramSize).toNat = 2 ^ 19 → mmuInit p slb = .ok mmu →
    GuestRam ramSize ram → guestInit mmu ramSize ram ≠ .error ptegSpill := by
  intro hall
  have hbelow : samplePlacement.Below := ⟨by decide, by decide⟩
  have hram : GuestRam 0x81000000 sampleRam :=
    ⟨by decide, by decide, by decide, by decide, by decide, by decide⟩
  obtain ⟨mmu, hinit, -⟩ := mmuInit_sample fun _ => ⟨0, 0⟩
  obtain ⟨hused, hmask⟩ := mmuInit_used hbelow (by decide) hinit
  rcases guestInit_returns hram hmask hused with ⟨-, hle⟩ | ⟨hspill, -⟩
  · exact absurd hle (by decide)
  · exact hall _ _ mmu _ _ hbelow (by decide) hinit hram hspill

end Prephv
