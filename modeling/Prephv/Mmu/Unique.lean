import Prephv.Mmu.Room

/-!
# Mmu — Unique

When no page has two valid PTEs.  `mmu_map_vpn` takes the first free slot of a page's PTEG without
looking for the page, so this rests on the ranges its callers map (`BootRun.noDuplicates`): the
16M spans of the table and of the image, which `mmu_init` maps one after the other, and the ranges
of guest addresses, which are guest RAM and those of the `map` calls.  A storage fault is only
taken for a page that has no PTE.

The invariant is `Htab.Rep` for some map of pages, with where its guest pages may be.
-/

set_option autoImplicit false

namespace Prephv

open Words

/-- No page has two valid PTEs. -/
def Htab.NoDuplicates (t : Htab) : Prop :=
  ∀ i j p e e', t.Slot i p e → t.Slot j p e' → i = j

/-! ### Mapping new pages -/

section
variable {guest : Option Guest} {prot : U64} {actual : PageSize} {page : U64 → Page}

variable (page) in
/-- Mapping a range of pages, one for each address, that are not mapped and differ. -/
theorem mmuMapRange_new {eaStart eaEnd ra : U64} {t t' : Htab} {m : PageMap}
    (hpp : prot ∈ ppValues)
    (hpages : ∀ ea r, eaStart.toNat ≤ ea.toNat → ea.toNat < eaEnd.toNat →
      eaPages guest ea actual = .ok r → EaOk guest ea actual ∧ r = (actual, [page ea]))
    (hnew : ∀ ea, eaStart.toNat ≤ ea.toNat → ea.toNat < eaEnd.toNat →
      2 ^ actual.shift ∣ ea.toNat → m (page ea) = none)
    (hdist : ∀ ea ea', eaStart.toNat ≤ ea.toNat → ea'.toNat < eaEnd.toNat →
      ea.toNat + actual.size.toNat ≤ ea'.toNat → page ea' ≠ page ea)
    (hrep : t.Rep m) (h : mmuMapRange guest t eaStart eaEnd ra prot actual = .ok t') :
    ∃ m', t'.Rep m' ∧ ∀ p e, m' p = some e → m p = some e ∨
      ∃ ea, eaStart.toNat ≤ ea.toNat ∧ ea.toNat < eaEnd.toNat ∧ 2 ^ actual.shift ∣ ea.toNat ∧
        p = page ea := by
  -- the pages added so far are those of addresses a page or more before the one to come
  suffices hI : ∃ m', t'.Rep m' ∧ ∀ p e, m' p = some e → m p = some e ∨
      ∃ ea, eaStart.toNat ≤ ea.toNat ∧ ea.toNat < eaEnd.toNat ∧ 2 ^ actual.shift ∣ ea.toNat ∧
        ea.toNat + actual.size.toNat ≤ eaStart.toNat + (eaEnd.toNat - eaStart.toNat) ∧
        p = page ea by
    obtain ⟨m', hrep', hm'⟩ := hI
    refine ⟨m', hrep', fun p e hp => (hm' p e hp).imp_right ?_⟩
    rintro ⟨ea, h₁, h₂, hd, -, he⟩
    exact ⟨ea, h₁, h₂, hd, he⟩
  refine mmuMapRange_rule (I := fun stop t => ∃ m', t.Rep m' ∧ ∀ p e, m' p = some e →
    m p = some e ∨ ∃ ea, eaStart.toNat ≤ ea.toNat ∧ ea.toNat < eaEnd.toNat ∧
      2 ^ actual.shift ∣ ea.toNat ∧ ea.toNat + actual.size.toNat ≤ stop ∧ p = page ea)
    ?_ ⟨m, hrep, fun p e => Or.inl⟩ h
  rintro ea t t' h₁ h₂ hmap ⟨m₁, hrep₁, hm₁⟩
  obtain ⟨vpn, seg, hea, halign, -, -⟩ := mmuMap_eq_ok hmap
  have hd := (aligned_iff ea actual).mp halign
  obtain ⟨hok, hr⟩ := hpages ea _ h₁ h₂ hea
  rw [hr] at hea
  have hnone : m₁ (page ea) = none := by
    cases hm : m₁ (page ea) with
    | none => rfl
    | some e =>
      rcases hm₁ _ _ hm with hm | ⟨ea', h₁', -, -, hstop, he⟩
      · rw [hnew ea h₁ h₂ hd] at hm
        cases hm
      · exact absurd he (hdist ea' ea h₁' h₂ hstop)
  have hspec : specMap guest ea (ea + (ra - eaStart)) prot actual m₁ = some
      (Function.update m₁ (page ea) (some ⟨actual, actual, ea + (ra - eaStart), prot⟩)) := by
    rw [specMap, hea]
    simp only [PageMap.map, hnone]
  refine ⟨_, mmuMap_rep hok hpp hrep₁ hmap hspec, fun p e hp => ?_⟩
  by_cases hpa : p = page ea
  · exact Or.inr ⟨ea, h₁, h₂, hd, Nat.le_refl _, hpa⟩
  · rw [Function.update_of_ne hpa] at hp
    refine (hm₁ p e hp).imp_right ?_
    rintro ⟨ea', h₁', h₂', hd', hstop, he⟩
    exact ⟨ea', h₁', h₂', hd', by omega, he⟩

end

/-! ### `mmu_init` -/

/-- The table and the image lie in hypervisor space, below offset 1 TB. -/
structure Placement.Below (p : Placement) : Prop where
  htab : p.htab.toNat + p.htabSize.toNat ≤ 0x8000010000000000
  image : p.imageEnd.toNat ≤ 0x8000010000000000

/-- The 16M pages of the table and of the image are not the same. -/
def Placement.SpansDisjoint (p : Placement) : Prop :=
  alignUp (p.htab + p.htabSize) (MB 16) ≤ p.imageStart &&& pageMask16M ∨
    alignUp p.imageEnd (MB 16) ≤ p.htab &&& pageMask16M

theorem pageMask16M_toNat (x : U64) : (x &&& pageMask16M).toNat = x.toNat / 2 ^ 24 * 2 ^ 24 := by
  have hm : pageMask16M = ~~~(lowMask 64 24) := by decide
  rw [hm, and_not_lowMask x (by decide)]

theorem alignUp_16M {x : U64} (hx : x.toNat ≤ 0x8000010000000000) :
    (alignUp x (MB 16)).toNat = (x.toNat + (2 ^ 24 - 1)) / 2 ^ 24 * 2 ^ 24 := by
  have hmb : MB 16 = BitVec.ofNat 64 (2 ^ 24) := by decide
  rw [hmb, alignUp_toNat (by decide) (by omega)]

theorem ptegCount_pos (ramSize : U64) : 0 < (ptegCount ramSize).toNat := by
  have hmin : minPtegs.toNat = 2 ^ 11 := by decide
  have hmax : maxPtegs.toNat = 2 ^ 39 := by decide
  rw [ptegCount]
  generalize hn : (if minPtegs < ramSize >>> (pageShift + 1) then ramSize >>> (pageShift + 1)
    else minPtegs) = n
  have hpos : 0 < n.toNat := by
    by_cases h : minPtegs < ramSize >>> (pageShift + 1)
    · have h' : minPtegs.toNat < (ramSize >>> (pageShift + 1)).toNat := h
      rw [← hn, if_pos h]
      omega
    · rw [← hn, if_neg h]
      omega
  by_cases h : n < maxPtegs
  · rwa [if_pos h]
  · rw [if_neg h]
    omega

/-- The pages of a hypervisor range in 16M pages. -/
theorem hvRange_new {t t' : Htab} {m : PageMap} {x stop ra : U64} (hx : hvAspace ≤ x)
    (hstop : stop.toNat ≤ 0x8000010000000000)
    (hnew : ∀ ea, (x &&& pageMask16M).toNat ≤ ea.toNat → ea.toNat < (alignUp stop (MB 16)).toNat →
      m (hvPage ea) = none) (hrep : t.Rep m)
    (h : mmuMapRange none t (x &&& pageMask16M) (alignUp stop (MB 16)) ra ppRWXX .page16M =
      .ok t') :
    ∃ m', t'.Rep m' ∧ ∀ p e, m' p = some e → m p = some e ∨
      ∃ ea, (x &&& pageMask16M).toNat ≤ ea.toNat ∧ ea.toNat < (alignUp stop (MB 16)).toNat ∧
        InHv ea ∧ 2 ^ 24 ∣ ea.toNat ∧ p = hvPage ea := by
  have hx' : 0x8000000000000000 ≤ x.toNat := hx
  have hlo := pageMask16M_toNat x
  have hhi := alignUp_16M hstop
  have hin : ∀ ea : U64, (x &&& pageMask16M).toNat ≤ ea.toNat →
      ea.toNat < (alignUp stop (MB 16)).toNat → InHv ea := fun ea h₁ h₂ => ⟨by omega, by omega⟩
  obtain ⟨m', hrep', hm'⟩ := mmuMapRange_new hvPage (by decide)
    (fun ea r h₁ h₂ hr => by
      rw [eaPages_hv (hin ea h₁ h₂)] at hr
      exact ⟨.hv (hin ea h₁ h₂) rfl, (Except.ok.inj hr).symm⟩)
    (fun ea h₁ h₂ _ => hnew ea h₁ h₂)
    (fun ea ea' h₁ h₂ hd he => by
      have hs : PageSize.page16M.size.toNat = 2 ^ 24 := rfl
      have hv : (hvPage ea').vpn.toNat = (hvPage ea).vpn.toNat := by rw [he]
      rw [hvPage_vpn (hin ea' (by omega) h₂), hvPage_vpn (hin ea h₁ (by omega))] at hv
      omega) hrep h
  refine ⟨m', hrep', fun p e hp => (hm' p e hp).imp_right ?_⟩
  rintro ⟨ea, h₁, h₂, hd, rfl⟩
  exact ⟨ea, h₁, h₂, hin ea h₁ h₂, hd, rfl⟩

/-- `mmu_init` maps hypervisor and AIL pages, each once. -/
theorem mmuInit_rep {p : Placement} {slb : Slb} {mmu : Mmu} (hbelow : p.Below)
    (hcount : 2 ^ 11 ∣ (ptegCount p.ramSize).toNat) (hspans : p.SpansDisjoint)
    (h : mmuInit p slb = .ok mmu) :
    ∃ m, mmu.htab.Rep m ∧ ∀ pg e, m pg = some e → pg.IsHv ∨ pg.IsAil := by
  obtain ⟨hhtab, -, himage, t₁, t₂, t₃, h₁, h₂, h₃, rfl⟩ := mmuInit_eq_ok.mp h
  have hend : (p.htab + p.htabSize).toNat = p.htab.toNat + p.htabSize.toNat := by
    have := hbelow.htab
    rw [BitVec.toNat_add]
    exact Nat.mod_eq_of_lt (by omega)
  have hhtabEnd : (p.htab + p.htabSize).toNat ≤ 0x8000010000000000 := by
    rw [hend]
    exact hbelow.htab
  obtain ⟨m₁, hrep₁, hm₁⟩ := hvRange_new hhtab hhtabEnd (fun _ _ _ => rfl)
    (Htab.rep_zeroed hcount (ptegCount_pos _)) h₁
  have hlo := pageMask16M_toNat p.htab
  have hhi := alignUp_16M hhtabEnd
  have hlo' := pageMask16M_toNat p.imageStart
  have hhi' := alignUp_16M hbelow.image
  have hspans' : (alignUp (p.htab + p.htabSize) (MB 16)).toNat ≤
        (p.imageStart &&& pageMask16M).toNat ∨
      (alignUp p.imageEnd (MB 16)).toNat ≤ (p.htab &&& pageMask16M).toNat := hspans
  have himage' : 0x8000000000000000 ≤ p.imageStart.toNat := himage
  have himageEnd := hbelow.image
  obtain ⟨m₂, hrep₂, hm₂⟩ := hvRange_new himage hbelow.image (fun ea hea hea' => by
    cases hm : m₁ (hvPage ea) with
    | none => rfl
    | some e =>
      rcases hm₁ _ _ hm with hm | ⟨ea', hlo₁, hhi₁, hin, -, he⟩
      · cases hm
      · have hv : (hvPage ea).vpn.toNat = (hvPage ea').vpn.toNat := by rw [he]
        rw [hvPage_vpn hin, hvPage_vpn ⟨by omega, by omega⟩] at hv
        have hin' : 0x8000000000000000 ≤ ea'.toNat := hin.1
        omega) hrep₁ h₂
  have hkind : ∀ pg e, m₂ pg = some e → pg.IsHv := by
    intro pg e hm
    have hhv : ∀ ea, InHv ea → 2 ^ 24 ∣ ea.toNat → (hvPage ea).IsHv := fun ea hin hd => by
      have hvpn := hvPage_vpn hin
      obtain ⟨hlo, hhi⟩ := hin
      exact ⟨rfl, by omega, by omega, by omega⟩
    rcases hm₂ pg e hm with hm | ⟨ea, -, -, hin, hd, rfl⟩
    · rcases hm₁ pg e hm with hm | ⟨ea, -, -, hin, hd, rfl⟩
      · cases hm
      · exact hhv ea hin hd
    · exact hhv ea hin hd
  have hail : ∀ ea : U64, ailVectors.toNat ≤ ea.toNat → ea.toNat < ailAspaceEnd.toNat → isAil ea :=
    fun ea h h' => ⟨Nat.le_trans (by decide) h, Nat.le_of_lt h'⟩
  obtain ⟨m₃, hrep₃, hm₃⟩ := mmuMapRange_new ailPage (by decide)
    (fun ea r h h' hr => by
      rw [eaPages_ail (hail ea h h')] at hr
      exact ⟨.ail (hail ea h h') rfl, (Except.ok.inj hr).symm⟩)
    (fun ea h h' _ => by
      cases hm : m₂ (ailPage ea) with
      | none => rfl
      | some e => cases (hkind _ _ hm).1)
    (fun ea ea' h h' hd he => by
      have hs : PageSize.page4K.size.toNat = 2 ^ 12 := rfl
      have hv : (ailPage ea').vpn.toNat = (ailPage ea).vpn.toNat := by rw [he]
      rw [ailPage_vpn (hail ea' (by omega) h'), ailPage_vpn (hail ea h (by omega))] at hv
      have := (isAil_iff ea).mp (hail ea h (by omega))
      omega) hrep₂ h₃
  refine ⟨m₃, hrep₃, fun pg e hm => ?_⟩
  rcases hm₃ pg e hm with hm | ⟨ea, h, h', -, rfl⟩
  · exact Or.inl (hkind pg e hm)
  · have hvpn := ailPage_vpn (hail ea h h')
    have hea := (isAil_iff ea).mp (hail ea h h')
    exact Or.inr ⟨rfl, by omega, by omega⟩

/-! ### Faults -/

/-- A storage fault that returns is one of hypervisor space: `rpn_encode` stops at the real address
of an AIL page. -/
theorem excMapFault_inHv {s : BootState} {t' : Htab} {ea : U64}
    (hocc : (BootEvent.fault ea).Occurs s) (h : excMapFault s.guest s.mmu.htab ea = .ok t') :
    InHv (ea &&& pageMask16M) ∧
      (∀ i e, ¬ s.mmu.htab.Slot i (hvPage (ea &&& pageMask16M)) e) ∧
      mmuMap s.guest s.mmu.htab (ea &&& pageMask16M) ((ea &&& pageMask16M) &&& ~~~hvAspace) ppRWXX
        .page16M = .ok t' := by
  obtain ⟨ra, hra, h⟩ := bind_eq_ok.mp h
  obtain ⟨-, rfl⟩ := ptr2Ra_eq_ok.mp hra
  have hmask := pageMask16M_toNat ea
  rcases hocc with ⟨⟨hlo, hhi⟩, hno⟩ | ⟨hail, -⟩
  · exact ⟨⟨by omega, by omega⟩, hno, h⟩
  · have hra' := mmuMap_ra h
    have hail' : ea.toNat / 2 ^ 28 = 0xc00000000 := by
      have := congrArg BitVec.toNat hail
      rw [BitVec.toNat_ushiftRight, Nat.shiftRight_eq_div_pow] at this
      exact this
    rw [and_not_hvAspace, hmask] at hra'
    have hs : PageSize.page16M.size.toNat = 2 ^ 24 := rfl
    omega

/-- It maps a hypervisor page. -/
theorem excMapFault_rep {s : BootState} {t' : Htab} {m : PageMap} {ea : U64}
    (hocc : (BootEvent.fault ea).Occurs s) (hrep : s.mmu.htab.Rep m)
    (h : excMapFault s.guest s.mmu.htab ea = .ok t') :
    ∃ m', t'.Rep m' ∧ ∀ p e, m' p = some e → m p = some e ∨ p.IsHv := by
  obtain ⟨hin, hno, h⟩ := excMapFault_inHv hocc h
  have hnone : m (hvPage (ea &&& pageMask16M)) = none := by
    cases hm : m (hvPage (ea &&& pageMask16M)) with
    | none => rfl
    | some e =>
      obtain ⟨i, ⟨e', hs⟩, -⟩ := hrep.represents.mapped _ _ hm
      exact absurd hs (hno i e')
  have hspec : specMap s.guest (ea &&& pageMask16M) ((ea &&& pageMask16M) &&& ~~~hvAspace) ppRWXX
      .page16M m = some (Function.update m (hvPage (ea &&& pageMask16M))
        (some ⟨.page16M, .page16M, (ea &&& pageMask16M) &&& ~~~hvAspace, ppRWXX⟩)) := by
    rw [specMap, eaPages_hv hin]
    simp only [PageMap.map, hnone]
  refine ⟨_, mmuMap_rep (.hv hin rfl) (by decide) hrep h hspec, fun p e hp => ?_⟩
  by_cases e₁ : p = hvPage (ea &&& pageMask16M)
  · have hvpn := hvPage_vpn hin
    have hmask := pageMask16M_toNat ea
    obtain ⟨hlo, hhi⟩ := hin
    rw [e₁]
    exact Or.inr ⟨rfl, by omega, by omega, by omega⟩
  · rw [Function.update_of_ne e₁] at hp
    exact Or.inl hp

/-! ### Guest ranges -/

/-- An address outside hypervisor and AIL space that has pages is below 4 GiB. -/
theorem vm_of_eaPages {guest : Option Guest} {ea : U64} {actual : PageSize}
    {r : PageSize × List Page} (hlt : ea.toNat < 2 ^ 63) (h : eaPages guest ea actual = .ok r) :
    ea < layoutVmEnd := by
  obtain ⟨base, ps⟩ := r
  obtain ⟨vpn, seg, -, hseg, -⟩ := eaPages_inv h
  have hail : ¬ isAil ea := by rw [isAil_iff]; omega
  have hhv : ¬ ea &&& hvAspace ≠ 0 := not_not.mpr ((and_hvAspace ea).mpr hlt)
  rw [ea2SegSize, if_neg hail, if_neg hhv] at hseg
  obtain ⟨off, hoff, -⟩ := bind_eq_ok.mp hseg
  simpa using (bugOn_bind_eq_ok.mp hoff).1

/-- The range of guest addresses an event maps. -/
def guestRange : BootEvent → Option (Nat × Nat)
  | .guestInit ramSize _ => some (0, ramSize.toNat)
  | .map virt phys size =>
    if phys = virt ∨ (romMapEnd virt size).toNat ≤ virt.toNat then none
    else some (virt.toNat, (romMapEnd virt size).toNat)
  | _ => none

def guestRanges (es : List BootEvent) : List (Nat × Nat) := es.filterMap guestRange

def RangesDisjoint (r r' : Nat × Nat) : Prop := r.2 ≤ r'.1 ∨ r'.2 ≤ r.1

/-- The guest pages of a map lie in the ranges. -/
def PageMap.VmIn (m : PageMap) (rs : List (Nat × Nat)) : Prop :=
  ∀ p e, m p = some e → p.IsVm →
    ∃ r ∈ rs, r.1 ≤ p.vpn.toNat * 4096 ∧ p.vpn.toNat * 4096 < r.2

section
variable {g : Guest} {t t' : Htab} {m : PageMap} {eaStart eaEnd ra : U64}

/-- A new range of guest pages, with the guest MMU on. -/
theorem vmRange_new (hmmu : g.MmuIs true) (hsr : ∀ i < srCount, g.srAt i = BitVec.ofNat 32 i)
    (hlt : eaEnd.toNat ≤ 2 ^ 63) {rs : List (Nat × Nat)} (hin : m.VmIn rs)
    (hdisj : eaStart.toNat < eaEnd.toNat →
      ∀ r ∈ rs, RangesDisjoint r (eaStart.toNat, eaEnd.toNat)) (hrep : t.Rep m)
    (h : mmuMapRange (some g) t eaStart eaEnd ra ppRWRW .page4K = .ok t') :
    ∃ m', t'.Rep m' ∧ m'.VmIn (rs ++ [(eaStart.toNat, eaEnd.toNat)]) := by
  have hvm : ∀ ea, (vmPage ea).IsVm ↔ ea.toNat / 4096 < 2 ^ 32 := fun ea => by
    rw [Page.IsVm, vmPage_vpn]
    exact and_iff_right rfl
  obtain ⟨m', hrep', hm'⟩ := mmuMapRange_new vmPage (by decide)
    (fun ea r h₁ h₂ hr => by
      have hea := vm_of_eaPages (by omega) hr
      rw [eaPages_vmOn hea rfl hmmu hsr] at hr
      exact ⟨.vmOn hea rfl hmmu, (Except.ok.inj hr).symm⟩)
    (fun ea h₁ h₂ hd => by
      cases hm : m (vmPage ea) with
      | none => rfl
      | some e =>
        have hd' : 2 ^ 12 ∣ ea.toNat := hd
        obtain ⟨r, hr, hlo, hhi⟩ := hin _ _ hm (by
          rw [hvm]
          have := (hrep.ok hm).1
          simp only [Page.Ok, Page.IsHv, Page.IsAil, Page.IsGrm, Page.IsVm, vmPage_vpn] at this
          omega)
        rw [vmPage_vpn] at hlo hhi
        have := hdisj (by omega) r hr
        simp only [RangesDisjoint] at this
        omega)
    (fun ea ea' h₁ h₂ hd he => by
      have hs : PageSize.page4K.size.toNat = 2 ^ 12 := rfl
      have hv : (vmPage ea').vpn.toNat = (vmPage ea).vpn.toNat := by rw [he]
      rw [vmPage_vpn, vmPage_vpn] at hv
      omega) hrep h
  refine ⟨m', hrep', fun p e hp hpvm => ?_⟩
  rcases hm' p e hp with hp | ⟨ea, h₁, h₂, hd, rfl⟩
  · obtain ⟨r, hr, hb⟩ := hin p e hp hpvm
    exact ⟨r, List.mem_append_left _ hr, hb⟩
  · refine ⟨_, List.mem_append_right _ (List.mem_singleton.mpr rfl), ?_⟩
    have hd' : 2 ^ 12 ∣ ea.toNat := hd
    rw [vmPage_vpn]
    dsimp only
    omega

/-- `guest_init` maps guest RAM twice, as GRM pages and as guest pages. -/
theorem guestInit_rep {mmu mmu' : Mmu} {ramSize ram : U64} (hrep : mmu.htab.Rep m)
    (hkind : ∀ p e, m p = some e → p.IsHv ∨ p.IsAil)
    (h : guestInit mmu ramSize ram = .ok (g, mmu')) : g = guestOn ramSize ram ∧
      ∃ m', mmu'.htab.Rep m' ∧ m'.VmIn [(0, ramSize.toNat)] := by
  obtain ⟨t₁, hmin, -, -, rfl, h₁, -, h₂⟩ := guestInit_eq_ok h
  refine ⟨rfl, ?_⟩
  have hz : (0 : U64).toNat = 0 := rfl
  have hsize : PageSize.page16M.size.toNat = 2 ^ 24 := rfl
  have hle : 2 ^ 25 ≤ ramSize.toNat := Nat.le_of_not_lt hmin
  have hram := mmuMapRange_ra (by omega) h₁
  obtain ⟨m₁, hrep₁, hm₁⟩ := mmuMapRange_new grmPage (by decide)
    (fun ea r h h' hr => by
      have hea := vm_of_eaPages (by omega) hr
      rw [eaPages_vmOff hea rfl (guestFresh_mmuIs ramSize ram)] at hr
      exact ⟨.vmOff hea rfl (guestFresh_mmuIs ramSize ram) rfl, (Except.ok.inj hr).symm⟩)
    (fun ea h h' hd => by
      cases hm : m (grmPage ea) with
      | none => rfl
      | some e =>
        have hvpn : (grmPage ea).vpn.toNat = (0x5555555550000000 + ea.toNat / 4096) % 2 ^ 64 :=
          BitVec.toNat_ofNat ..
        rcases hkind _ _ hm with ⟨-, -, hv, -⟩ | ⟨hv, -⟩
        · omega
        · cases hv)
    (fun ea ea' h h' hd he => by
      have hv : (grmPage ea').vpn.toNat = (grmPage ea).vpn.toNat := by rw [he]
      simp only [grmPage, BitVec.toNat_ofNat] at hv
      omega) hrep h₁
  have hnovm : m₁.VmIn [] := by
    intro p e hp hvm
    exfalso
    rcases hm₁ p e hp with hp | ⟨ea, -, h', -, rfl⟩
    · rcases hkind p e hp with hk | hk
      · cases hk.1.symm.trans hvm.1
      · obtain ⟨-, hk, -⟩ := hk
        have := hvm.2
        omega
    · cases hvm.1
  exact vmRange_new (guestOn_mmuIs ramSize ram) (guestOn_srAt ramSize ram) (by omega) hnovm
    (fun _ r hr => by cases hr) hrep₁ h₂

/-- A `map` call whose range is new. -/
theorem romMap_rep {virt phys size : U32} (hmmu : g.MmuIs true)
    (hsr : ∀ i < srCount, g.srAt i = BitVec.ofNat 32 i) {rs : List (Nat × Nat)} (hin : m.VmIn rs)
    (hdisj : ∀ r ∈ rs, ∀ r' ∈ (guestRange (.map virt phys size)).toList, RangesDisjoint r r')
    (hrep : t.Rep m) (h : romMap g t virt phys size = .ok t') :
    ∃ m', t'.Rep m' ∧ m'.VmIn (rs ++ (guestRange (.map virt phys size)).toList) := by
  have h32 : ∀ x : U32, (x.setWidth 64 : U64).toNat = x.toNat := fun x => by
    have := x.isLt
    rw [BitVec.toNat_setWidth]
    omega
  rw [romMap] at h
  by_cases e : phys = virt
  · rw [if_pos e] at h
    cases h
    rw [guestRange, if_pos (Or.inl e)]
    exact ⟨m, hrep, by rwa [Option.toList_none, List.append_nil]⟩
  · rw [if_neg e] at h
    obtain ⟨ra, -, h⟩ := bind_eq_ok.mp h
    have hend := (romMapEnd virt size).isLt
    by_cases hle : (romMapEnd virt size).toNat ≤ virt.toNat
    · obtain rfl := mmuMapRange_empty (by rwa [h32, h32]) h
      rw [guestRange, if_pos (Or.inr hle)]
      exact ⟨m, hrep, by rwa [Option.toList_none, List.append_nil]⟩
    · have hrange : guestRange (.map virt phys size) =
          some (virt.toNat, (romMapEnd virt size).toNat) := by
        rw [guestRange, if_neg (not_or.mpr ⟨e, hle⟩)]
      rw [hrange] at hdisj ⊢
      obtain ⟨m', hrep', hin'⟩ := vmRange_new hmmu hsr (by rw [h32]; omega) hin
        (fun _ r hr => by
          rw [h32, h32]
          exact hdisj r hr _ (List.mem_singleton.mpr rfl)) hrep h
      rw [h32, h32] at hin'
      exact ⟨m', hrep', hin'⟩

end

/-! ### Runs -/

/-- What holds after the events. -/
structure BootState.Unique (s : BootState) (es : List BootEvent) (m : PageMap) : Prop where
  rep : s.mmu.htab.Rep m
  hvOnly : s.guest = none → guestRanges es = [] ∧ ∀ p e, m p = some e → p.IsHv ∨ p.IsAil
  vm : ∀ g, s.guest = some g → g.MmuIs true ∧ (∀ i < srCount, g.srAt i = BitVec.ofNat 32 i) ∧
    m.VmIn (guestRanges es)

theorem guestRanges_snoc (es : List BootEvent) (e : BootEvent) :
    guestRanges (es ++ [e]) = guestRanges es ++ (guestRange e).toList := by
  rw [guestRanges, List.filterMap_append, guestRanges]
  cases h : guestRange e <;> simp [h]

/-- An event keeps the invariant when its range is disjoint from the ranges before it. -/
theorem BootState.Unique.step {s s' : BootState} {es : List BootEvent} {e : BootEvent}
    {m : PageMap} (h : s.Unique es m) (he : e.Occurs s) (hs : e.exec s = .ok s')
    (hdisj : ∀ r ∈ guestRanges es, ∀ r' ∈ (guestRange e).toList, RangesDisjoint r r') :
    ∃ m', s'.Unique (es ++ [e]) m' := by
  cases e with
  | fault ea =>
    obtain ⟨t, hmap, hs⟩ := bind_eq_ok.mp hs
    cases hs
    obtain ⟨m', hrep', hm'⟩ := excMapFault_rep he h.rep hmap
    have hes : guestRanges (es ++ [.fault ea]) = guestRanges es := by
      rw [guestRanges_snoc]
      exact List.append_nil _
    refine ⟨m', hrep', fun hnone => ?_, fun g hg => ?_⟩
    · obtain ⟨hnil, hkind⟩ := h.hvOnly hnone
      refine ⟨hes.trans hnil, fun p e hp => ?_⟩
      rcases hm' p e hp with hp | hp
      · exact hkind p e hp
      · exact Or.inl hp
    · obtain ⟨hmmu, hsr, hin⟩ := h.vm g hg
      refine ⟨hmmu, hsr, fun p e hp hvm => ?_⟩
      rw [hes]
      rcases hm' p e hp with hp | hp
      · exact hin p e hp hvm
      · cases hp.1.symm.trans hvm.1
  | guestInit ramSize ram =>
    obtain ⟨⟨g, mmu⟩, hinit, hs⟩ := bind_eq_ok.mp hs
    cases hs
    obtain ⟨hnil, hkind⟩ := h.hvOnly he
    obtain ⟨rfl, m', hrep', hin'⟩ := guestInit_rep h.rep hkind hinit
    refine ⟨m', hrep', nofun, fun g hg => ?_⟩
    cases hg
    refine ⟨guestOn_mmuIs ramSize ram, guestOn_srAt ramSize ram, ?_⟩
    rw [guestRanges_snoc, hnil]
    exact hin'
  | romInit =>
    obtain ⟨g', hinit, hs⟩ := bind_eq_ok.mp hs
    cases hs
    obtain ⟨g, rom, hg, rfl⟩ := romInit_eq_ok hinit
    obtain ⟨hmmu, hsr, hin⟩ := h.vm g hg
    refine ⟨m, h.rep, nofun, fun g' hg' => ?_⟩
    cases hg'
    refine ⟨hmmu, hsr, ?_⟩
    rw [guestRanges_snoc]
    exact (List.append_nil _).symm ▸ hin
  | map virt phys size =>
    simp only [BootEvent.exec] at hs
    split at hs
    · cases hs
    next g hg =>
      obtain ⟨t, hmap, hs⟩ := bind_eq_ok.mp hs
      cases hs
      obtain ⟨hmmu, hsr, hin⟩ := h.vm g hg
      obtain ⟨m', hrep', hin'⟩ := romMap_rep hmmu hsr hin hdisj h.rep hmap
      refine ⟨m', hrep', fun hnone => (by rw [hg] at hnone; cases hnone), fun g' hg' => ?_⟩
      obtain rfl : g = g' := Option.some.inj (hg.symm.trans hg')
      rw [guestRanges_snoc]
      exact ⟨hmmu, hsr, hin'⟩

theorem BootRun.unique {p : Placement} {es : List BootEvent} {s : BootState} (hbelow : p.Below)
    (hcount : 2 ^ 11 ∣ (ptegCount p.ramSize).toNat) (hspans : p.SpansDisjoint)
    (h : BootRun p es s) :
    (guestRanges es).Pairwise RangesDisjoint → ∃ m, s.Unique es m := by
  induction h with
  | init h =>
    intro _
    obtain ⟨m, hrep, hkind⟩ := mmuInit_rep hbelow hcount hspans h
    exact ⟨m, hrep, fun _ => ⟨rfl, hkind⟩, nofun⟩
  | step h he hs ih =>
    intro hfresh
    rw [guestRanges_snoc, List.pairwise_append] at hfresh
    obtain ⟨m, hm⟩ := ih hfresh.1
    exact hm.step he hs hfresh.2.2

/-- **No duplicate translations.**  With a PTEG count that is a multiple of the least, the 16M spans
of the table and of the image disjoint, and every range of guest addresses disjoint from those
mapped before it, no page has two valid PTEs after any events that return. -/
theorem BootRun.noDuplicates {p : Placement} {es : List BootEvent} {s : BootState}
    (hbelow : p.Below) (hcount : 2 ^ 11 ∣ (ptegCount p.ramSize).toNat) (hspans : p.SpansDisjoint)
    (hfresh : (guestRanges es).Pairwise RangesDisjoint) (h : BootRun p es s) :
    s.mmu.htab.NoDuplicates := by
  obtain ⟨m, hm⟩ := h.unique hbelow hcount hspans hfresh
  exact fun i j pg e e' => hm.rep.slot_inj

/-- A table that starts in the 16M page of the image. -/
def sharedPlacement : Placement := { samplePlacement with htab := 0x8000000020400000 }

/-- The slots `mmu_init` leaves for the page both spans cover. -/
def sharedSlots : Bool :=
  match mmuInit sharedPlacement fun _ => ⟨0, 0⟩ with
  | .error _ => false
  | .ok mmu =>
    let e : Mapping := ⟨.page16M, .page16M, 0x20000000, ppRWXX⟩
    decide ((mmu.htab.pte (8 * 0x43230)).decode 0x43230 =
        some (hvPage 0x8000000020000000, e)) &&
      decide ((mmu.htab.pte (8 * 0x43230 + 1)).decode 0x43230 =
        some (hvPage 0x8000000020000000, e))

/-- With the table at 512 MiB + 4 MiB and the image at 512 MiB, `mmu_init` maps one page twice. -/
theorem BootRun.duplicates : ¬ ∀ p es s, p.Below → 2 ^ 18 ∣ p.htab.toNat → BootRun p es s →
    s.mmu.htab.NoDuplicates := by
  intro hall
  have hslots : sharedSlots = true := by decide +kernel
  unfold sharedSlots at hslots
  split at hslots
  · cases hslots
  next mmu hinit =>
    simp only [Bool.and_eq_true, decide_eq_true_eq] at hslots
    have := hall sharedPlacement [] ⟨mmu, none⟩ ⟨by decide, by decide⟩ (by decide) (.init hinit)
      (8 * 0x43230) (8 * 0x43230 + 1) _ _ _ hslots.1 hslots.2
    omega

/-- The machine of 4 GiB, after its guest mapped the page past its RAM. -/
theorem BootRun.noDuplicates_sample : ∃ s, BootRun samplePlacement
    [.guestInit sampleRamSize sampleRam, .romInit, .map 0x2000000 0x1000000 0x1000] s ∧
      s.mmu.htab.NoDuplicates := by
  obtain ⟨s, g, h, -, -⟩ := bootRun_sample 0x1000000 (by decide) (by decide)
  have hfresh : (guestRanges [.guestInit sampleRamSize sampleRam, .romInit,
      .map 0x2000000 0x1000000 0x1000]).Pairwise RangesDisjoint := by
    have hranges : guestRanges [.guestInit sampleRamSize sampleRam, .romInit,
        .map 0x2000000 0x1000000 0x1000] = [(0, 0x2000000), (0x2000000, 0x2001000)] := by decide
    rw [hranges]
    simp [RangesDisjoint]
  exact ⟨s, h, h.noDuplicates ⟨by decide, by decide⟩ (by decide) (Or.inl (by decide)) hfresh⟩

end Prephv
