import Prephv.Mmu.MapsTo
import Prephv.Rom.Confine

/-!
# Rom — Map

What the table translates a guest address to, after any events (`BootRun.mapsTo_iff`): an address
of guest RAM to itself in RAM, by `guest_init`, and an address inside the range of a `map` call to
the physical address in RAM that the call gave it, for each such call.

So a `map` call maps what it was asked to (`BootRun.map_maps_iff`), but for two kinds of calls that
map nothing: those whose physical address is the virtual one, which `guest_init` has mapped as far
as RAM goes, and those whose range ends at 4 GiB, where the end is 0.
-/

set_option autoImplicit false

namespace Prephv

open Words

/-! ### The events -/

/-- The real address of a page of a range, as its distance from the start. -/
theorem range_ra_iff (x ea r s : U64) (hle : s.toNat ≤ ea.toNat)
    (hlt : r.toNat + (ea.toNat - s.toNat) < 2 ^ 64) :
    x = ea + (r - s) ↔ x.toNat = r.toNat + (ea.toNat - s.toNat) := by
  have hsum : (ea + (r - s)).toNat = r.toNat + (ea.toNat - s.toNat) := by
    rw [BitVec.toNat_add, BitVec.toNat_sub]
    have hs := s.isLt
    omega
  rw [← hsum]
  exact BitVec.toNat_inj.symm

/-- What `guest_init` and the `map` calls gave a guest address. -/
def Guest.Given (g : Guest) (es : List BootEvent) (ea ra : U64) : Prop :=
  ea.toNat < g.ramSize.toNat ∧ ra.toNat = g.ramRa + ea.toNat ∨
    ∃ virt phys size, .map virt phys size ∈ es ∧ phys ≠ virt ∧ virt.toNat ≤ ea.toNat ∧
      ea.toNat < (romMapEnd virt size).toNat ∧
      ra.toNat = g.ramRa + phys.toNat + (ea.toNat - virt.toNat)

/-- What holds after the events. -/
structure BootState.Translating (s : BootState) (es : List BootEvent) : Prop where
  keepsLow : KeepsLow s.mmu.htab.hashMask
  early : s.guest = none → (∀ virt phys size, .map virt phys size ∉ es) ∧
    ∀ ea : U64, ea.toNat < 2 ^ 32 → ∀ ra, ¬ s.mmu.htab.MapsTo (vmPage ea) ra
  late : ∀ g, s.guest = some g → (g.MmuIs true ∧ (∀ i < srCount, g.srAt i = BitVec.ofNat 32 i) ∧
    hvAspace ≤ g.ram ∧ 2 ^ 24 ∣ g.ramSize.toNat) ∧
    ∀ ea : U64, ea.toNat < 2 ^ 32 → 2 ^ 12 ∣ ea.toNat → ∀ ra,
      s.mmu.htab.MapsTo (vmPage ea) ra ↔ g.Given es ea ra

/-- `mmu_init` translates no guest address. -/
theorem mmuInit_mapsTo {p : Placement} {slb : Slb} {mmu : Mmu} (h : mmuInit p slb = .ok mmu)
    {ea : U64} (hea : ea.toNat < 2 ^ 32) (ra : U64) : ¬ mmu.htab.MapsTo (vmPage ea) ra := by
  rintro ⟨i, hi, -⟩
  refine (mmuInit_high h).1.lacks ?_ i hi
  rw [Page.avpn, vmPage, SegSize.base, avpnEncode_4K, BitVec.toNat_ofNat]
  omega

/-- Nor does a storage fault. -/
theorem excMapFault_mapsTo {s : BootState} {t' : Htab} {ea : U64}
    (hm : KeepsLow s.mmu.htab.hashMask) (hocc : (BootEvent.fault ea).Occurs s)
    (h : excMapFault s.guest s.mmu.htab ea = .ok t') :
    t'.hashMask = s.mmu.htab.hashMask ∧ ∀ ea' : U64, ea'.toNat < 2 ^ 32 → ∀ ra,
      t'.MapsTo (vmPage ea') ra ↔ s.mmu.htab.MapsTo (vmPage ea') ra := by
  obtain ⟨hin, -, h⟩ := excMapFault_inHv hocc h
  obtain ⟨-, he, i, hi, hfree, rfl⟩ := mmuMap_writes (by decide) (eaPages_hv hin) h
  have hq : (hvPage (ea &&& pageMask16M)).Ok := by
    have hvpn := hvPage_vpn hin
    have hmask := pageMask16M_toNat ea
    obtain ⟨hlo, hhi⟩ := hin
    exact Or.inl ⟨rfl, by omega, by omega, by omega⟩
  refine ⟨rfl, fun ea' hea' ra => ?_⟩
  rw [Htab.mapsTo_setPte hm (vmPage_ok hea') hq he rfl hi hfree]
  exact or_iff_left fun h => nomatch congrArg Page.seg h.1

/-- `guest_init` translates guest RAM. -/
theorem guestInit_mapsTo {mmu mmu' : Mmu} {ramSize ram : U64} {g : Guest}
    (hm : KeepsLow mmu.htab.hashMask) (h : guestInit mmu ramSize ram = .ok (g, mmu')) :
    mmu'.htab.hashMask = mmu.htab.hashMask ∧ g = guestOn ramSize ram ∧ hvAspace ≤ ram ∧
      2 ^ 24 ∣ ramSize.toNat ∧
      ∀ ea : U64, ea.toNat < 2 ^ 32 → 2 ^ 12 ∣ ea.toNat → ∀ ra,
        mmu'.htab.MapsTo (vmPage ea) ra ↔ mmu.htab.MapsTo (vmPage ea) ra ∨
          ea.toNat < ramSize.toNat ∧ ra.toNat = g.ramRa + ea.toNat := by
  obtain ⟨t₁, hmin, hmul, hle, rfl, h₁, -, h₂⟩ := guestInit_eq_ok h
  have hz : (0 : U64).toNat = 0 := rfl
  have hdvd : 2 ^ 24 ∣ ramSize.toNat := by
    have hmod := congrArg BitVec.toNat hmul
    rw [BitVec.toNat_umod] at hmod
    exact Nat.dvd_of_mod_eq_zero hmod
  have hmin' : 2 ^ 25 ≤ ramSize.toNat := Nat.le_of_not_lt hmin
  have hram := mmuMapRange_ra (by omega) h₁
  obtain ⟨hmask₁, hgrm⟩ := other_mapsTo grmPage (by decide) hm (Nat.zero_le _)
    (fun ea r _ h₂ hd hr => by
      have hea := vm_of_eaPages (by omega) hr
      rw [eaPages_vmOff hea rfl (guestFresh_mmuIs ramSize ram)] at hr
      exact ⟨grmPage_ok hea hd, (Except.ok.inj hr).symm⟩)
    (fun _ => rfl) h₁
  obtain ⟨hmask₂, hvm⟩ := vmRange_mapsTo (guestOn_mmuIs ramSize ram)
    (guestOn_srAt ramSize ram) (by rwa [hmask₁]) (Nat.zero_le _) (by omega) h₂
  refine ⟨hmask₂.trans hmask₁, rfl, hle, hdvd, fun ea hea hd ra => ?_⟩
  rw [hvm ea hea hd, hgrm ea hea]
  have hbase := and_not_hvAspace ram
  have hra : (ram &&& ~~~hvAspace).toNat = (guestOn ramSize ram).ramRa := rfl
  have hx := range_ra_iff ra ea (ram &&& ~~~hvAspace) 0 (Nat.zero_le _) (by omega)
  rw [hz, Nat.sub_zero, hra] at hx
  rw [hx, hz, and_iff_right (Nat.zero_le _)]

/-- A `map` call that maps translates its range. -/
theorem romMap_mapsTo {g : Guest} {t t' : Htab} {virt phys size : U32} (hmmu : g.MmuIs true)
    (hsr : ∀ i < srCount, g.srAt i = BitVec.ofNat 32 i) (hram : hvAspace ≤ g.ram)
    (hm : KeepsLow t.hashMask) (h : romMap g t virt phys size = .ok t') :
    t'.hashMask = t.hashMask ∧
      ∀ ea : U64, ea.toNat < 2 ^ 32 → 2 ^ 12 ∣ ea.toNat → ∀ ra,
        t'.MapsTo (vmPage ea) ra ↔ t.MapsTo (vmPage ea) ra ∨
          phys ≠ virt ∧ virt.toNat ≤ ea.toNat ∧ ea.toNat < (romMapEnd virt size).toNat ∧
            ra.toNat = g.ramRa + phys.toNat + (ea.toNat - virt.toNat) := by
  have h32 : ∀ x : U32, (x.setWidth 64 : U64).toNat = x.toNat := fun x => by
    have := x.isLt
    rw [BitVec.toNat_setWidth]
    omega
  rw [romMap] at h
  by_cases e : phys = virt
  · rw [if_pos e] at h
    cases h
    exact ⟨rfl, fun ea _ _ ra => (or_iff_left fun hne => hne.1 e).symm⟩
  rw [if_neg e] at h
  obtain ⟨ra₀, hra₀, h⟩ := bind_eq_ok.mp h
  obtain ⟨hge, rfl⟩ := ptr2Ra_eq_ok.mp hra₀
  have hend := (romMapEnd virt size).isLt
  have hoff := g.ramRa_add hram hge
  by_cases hle : virt.toNat ≤ (romMapEnd virt size).toNat
  · obtain ⟨hmask, hiff⟩ := vmRange_mapsTo hmmu hsr hm (by rwa [h32, h32])
      (by rw [h32]; omega) h
    refine ⟨hmask, fun ea hea hd ra => ?_⟩
    rw [hiff ea hea hd, h32, h32]
    refine or_congr_right ?_
    rw [and_iff_right e]
    refine and_congr_right fun h₁ => and_congr_right fun _ => ?_
    have hbase := and_not_hvAspace (phys.setWidth 64 + g.ram)
    have hx := range_ra_iff ra ea ((phys.setWidth 64 + g.ram) &&& ~~~hvAspace)
      (virt.setWidth 64) (by rwa [h32]) (by omega)
    rwa [hoff, h32] at hx
  · obtain rfl := mmuMapRange_empty (by rw [h32, h32]; exact Nat.le_of_not_le hle) h
    exact ⟨rfl, fun ea _ _ ra => (or_iff_left fun hne => by omega).symm⟩

/-! ### Runs -/

/-- What the last event gave. -/
theorem Guest.given_snoc {g : Guest} {es : List BootEvent} {e : BootEvent} {ea ra : U64} :
    g.Given (es ++ [e]) ea ra ↔ g.Given es ea ra ∨ ∃ virt phys size, e = .map virt phys size ∧
      phys ≠ virt ∧ virt.toNat ≤ ea.toNat ∧ ea.toNat < (romMapEnd virt size).toNat ∧
        ra.toNat = g.ramRa + phys.toNat + (ea.toNat - virt.toNat) := by
  simp only [Guest.Given, List.mem_append, List.mem_singleton, or_and_right, exists_or, or_assoc,
    eq_comm]

/-- An event that is not a `map` call gives nothing. -/
theorem Guest.given_other {g : Guest} {es : List BootEvent} {e : BootEvent} {ea ra : U64}
    (he : ∀ virt phys size, e ≠ .map virt phys size) :
    g.Given (es ++ [e]) ea ra ↔ g.Given es ea ra := by
  rw [Guest.given_snoc]
  exact or_iff_left fun ⟨virt, phys, size, h, _⟩ => he virt phys size h

theorem BootState.Translating.step {s s' : BootState} {es : List BootEvent} {e : BootEvent}
    (h : s.Translating es) (he : e.Occurs s) (hs : e.exec s = .ok s') :
    s'.Translating (es ++ [e]) := by
  have hmem : (∀ virt phys size, e ≠ .map virt phys size) → ∀ virt phys size,
      BootEvent.map virt phys size ∈ es ++ [e] ↔ .map virt phys size ∈ es := by
    intro hne virt phys size
    rw [List.mem_append, List.mem_singleton]
    exact or_iff_left fun e' => hne virt phys size e'.symm
  cases e with
  | fault ea =>
    obtain ⟨t, hmap, hs⟩ := bind_eq_ok.mp hs
    cases hs
    obtain ⟨hmask, hiff⟩ := excMapFault_mapsTo h.keepsLow he hmap
    refine ⟨by rw [hmask]; exact h.keepsLow, fun hnone => ?_, fun g hg => ?_⟩
    · simp only [hmem nofun]
      obtain ⟨hno, htr⟩ := h.early hnone
      exact ⟨hno, fun ea hea ra htrans => htr ea hea ra ((hiff ea hea ra).mp htrans)⟩
    · obtain ⟨hguest, htr⟩ := h.late g hg
      refine ⟨hguest, fun ea hea hd ra => ?_⟩
      rw [hiff ea hea, htr ea hea hd, Guest.given_other (e := .fault _) nofun]
  | guestInit ramSize ram =>
    obtain ⟨⟨g, mmu⟩, hinit, hs⟩ := bind_eq_ok.mp hs
    cases hs
    obtain ⟨hmask, rfl, hram, hdvd, hiff⟩ := guestInit_mapsTo h.keepsLow hinit
    obtain ⟨hno, htr⟩ := h.early he
    refine ⟨by rw [hmask]; exact h.keepsLow, nofun, fun g hg => ?_⟩
    cases hg
    refine ⟨⟨guestOn_mmuIs ramSize ram, guestOn_srAt ramSize ram, hram, hdvd⟩,
      fun ea hea hd ra => ?_⟩
    rw [hiff ea hea hd, or_iff_right (htr ea hea ra),
      Guest.given_other (e := .guestInit _ _) nofun]
    exact (or_iff_left fun ⟨virt, phys, size, hin, _⟩ => hno virt phys size hin).symm
  | romInit =>
    obtain ⟨g', hinit, hs⟩ := bind_eq_ok.mp hs
    cases hs
    obtain ⟨g, rom, hg, rfl⟩ := romInit_eq_ok hinit
    obtain ⟨hguest, htr⟩ := h.late g hg
    refine ⟨h.keepsLow, nofun, fun g' hg' => ?_⟩
    cases hg'
    refine ⟨hguest, fun ea hea hd ra => ?_⟩
    rw [Guest.given_other (e := .romInit) nofun]
    exact htr ea hea hd ra
  | map virt phys size =>
    simp only [BootEvent.exec] at hs
    split at hs
    · cases hs
    next g hg =>
      obtain ⟨t, hmap, hs⟩ := bind_eq_ok.mp hs
      cases hs
      obtain ⟨⟨hmmu, hsr, hram, hdvd⟩, htr⟩ := h.late g hg
      obtain ⟨hmask, hiff⟩ := romMap_mapsTo hmmu hsr hram h.keepsLow hmap
      refine ⟨by rw [hmask]; exact h.keepsLow, fun hnone => (by rw [hg] at hnone; cases hnone),
        fun g' hg' => ?_⟩
      obtain rfl : g = g' := Option.some.inj (hg.symm.trans hg')
      refine ⟨⟨hmmu, hsr, hram, hdvd⟩, fun ea hea hd ra => ?_⟩
      rw [hiff ea hea hd, htr ea hea hd, Guest.given_snoc]
      refine or_congr_right ⟨fun hnew => ⟨virt, phys, size, rfl, hnew⟩, ?_⟩
      rintro ⟨virt', phys', size', hsame, hnew⟩
      cases hsame
      exact hnew

theorem BootRun.translating {p : Placement} {es : List BootEvent} {s : BootState}
    (hcount : 2 ^ 11 ∣ (ptegCount p.ramSize).toNat) (h : BootRun p es s) : s.Translating es := by
  induction h with
  | init h =>
    have hkeeps : KeepsLow (ptegCount p.ramSize - 1) :=
      keepsLow_sub_one hcount (ptegCount_pos p.ramSize)
    rw [← (mmuInit_high h).2] at hkeeps
    exact ⟨hkeeps, fun _ => ⟨nofun, fun ea hea ra => mmuInit_mapsTo h hea ra⟩, nofun⟩
  | step _ he hs ih => exact ih.step he hs

/-- After any events that return, a guest address is translated to what `guest_init` and the `map`
calls gave it, and to nothing else. -/
theorem BootRun.mapsTo_iff {p : Placement} {es : List BootEvent} {s : BootState} {g : Guest}
    (hcount : 2 ^ 11 ∣ (ptegCount p.ramSize).toNat) (h : BootRun p es s) (hg : s.guest = some g)
    {ea : U64} (hea : ea.toNat < 2 ^ 32) (hd : 2 ^ 12 ∣ ea.toNat) (ra : U64) :
    s.mmu.htab.MapsTo (vmPage ea) ra ↔ g.Given es ea ra :=
  ((h.translating hcount).late g hg).2 ea hea hd ra

/-! ### The `map` method -/

theorem romMapEnd_eq (virt size : U32) : romMapEnd virt size =
    if virt + size &&& lowMask 32 12 = 0 then virt + size
    else (virt + size + lowMask 32 12) &&& ~~~(lowMask 32 12) := by
  have hpage : (4096 : U32) - 1 = lowMask 32 12 := by decide
  rw [romMapEnd, alignUp, hpage]

/-- A range ends on a page. -/
theorem romMapEnd_dvd (virt size : U32) : 2 ^ 12 ∣ (romMapEnd virt size).toNat := by
  rw [romMapEnd_eq]
  split
  · next hz =>
    have hmod := congrArg BitVec.toNat hz
    rw [and_lowMask _ (by decide)] at hmod
    exact Nat.dvd_of_mod_eq_zero hmod
  · rw [and_not_lowMask _ (by decide)]
    exact Nat.dvd_mul_left ..

/-- A range of whole pages ends where it should, in 32 bits. -/
theorem romMapEnd_toNat {virt size : U32} (hvirt : 2 ^ 12 ∣ virt.toNat)
    (hsize : 2 ^ 12 ∣ size.toNat) :
    (romMapEnd virt size).toNat = (virt.toNat + size.toNat) % 2 ^ 32 := by
  have hz : virt + size &&& lowMask 32 12 = 0 := by
    apply BitVec.eq_of_toNat_eq
    rw [and_lowMask _ (by decide), BitVec.toNat_add]
    show _ = 0
    omega
  rw [romMapEnd_eq, if_pos hz, BitVec.toNat_add]

/-- **A `map` call that returns maps its range** just when its physical address is not the virtual
one and the range ends below 4 GiB, or it is and the range lies in guest RAM. -/
theorem BootRun.map_maps_iff {p : Placement} {es : List BootEvent} {s : BootState} {g : Guest}
    {t : Htab} {virt phys size : U32} (hcount : 2 ^ 11 ∣ (ptegCount p.ramSize).toNat)
    (h : BootRun p es s) (hg : s.guest = some g) (hvirt : 2 ^ 12 ∣ virt.toNat)
    (hsize : 2 ^ 12 ∣ size.toNat) (hpos : size ≠ 0) (hend : virt.toNat + size.toNat ≤ 2 ^ 32)
    (hmap : romMap g s.mmu.htab virt phys size = .ok t) :
    (∀ page : U64, 2 ^ 12 ∣ page.toNat → virt.toNat ≤ page.toNat →
      page.toNat < virt.toNat + size.toNat → t.MapsTo (vmPage page)
        (BitVec.ofNat 64 (g.ramRa + phys.toNat + (page.toNat - virt.toNat)))) ↔
    phys ≠ virt ∧ virt.toNat + size.toNat < 2 ^ 32 ∨
      phys = virt ∧ virt.toNat + size.toNat ≤ g.ramSize.toNat := by
  have hrun : BootRun p (es ++ [.map virt phys size])
      { s with mmu := { s.mmu with htab := t } } := by
    refine h.step trivial ?_
    simp only [BootEvent.exec, hg]
    exact bind_eq_ok.mpr ⟨t, hmap, rfl⟩
  have hbase := and_not_hvAspace g.ram
  have hra : g.ramRa = (g.ram &&& ~~~hvAspace).toNat := rfl
  have hp := phys.isLt
  have hne : phys = virt ↔ phys.toNat = virt.toNat := BitVec.toNat_inj.symm
  have hpos' : 0 < size.toNat := Nat.pos_of_ne_zero fun hz => hpos (BitVec.eq_of_toNat_eq hz)
  have hend' := romMapEnd_toNat hvirt hsize
  obtain ⟨⟨-, -, -, hram⟩, -⟩ := (hrun.translating hcount).late g hg
  have hgiven : ∀ page : U64, 2 ^ 12 ∣ page.toNat → virt.toNat ≤ page.toNat →
      page.toNat < virt.toNat + size.toNat →
      (t.MapsTo (vmPage page)
          (BitVec.ofNat 64 (g.ramRa + phys.toNat + (page.toNat - virt.toNat))) ↔
        page.toNat < g.ramSize.toNat ∧ phys = virt ∨ ∃ virt' phys' size',
          .map virt' phys' size' ∈ es ++ [.map virt phys size] ∧ phys' ≠ virt' ∧
          virt'.toNat ≤ page.toNat ∧ page.toNat < (romMapEnd virt' size').toNat ∧
          phys.toNat + (page.toNat - virt.toNat) = phys'.toNat + (page.toNat - virt'.toNat)) := by
    intro page hd h₁ h₂
    refine (hrun.mapsTo_iff hcount hg (by omega) hd _).trans ?_
    rw [Guest.Given, BitVec.toNat_ofNat, Nat.mod_eq_of_lt (by omega)]
    refine or_congr (and_congr_right fun _ => ?_) ?_
    · rw [hne]
      omega
    · refine exists_congr fun virt' => exists_congr fun phys' => exists_congr fun size' => ?_
      simp only [Nat.add_assoc, Nat.add_left_cancel_iff]
  -- the last page of the range is the one that may not be mapped
  have hlast : (BitVec.ofNat 64 (virt.toNat + size.toNat - 4096)).toNat =
      virt.toNat + size.toNat - 4096 := by
    rw [BitVec.toNat_ofNat]
    exact Nat.mod_eq_of_lt (by omega)
  constructor
  · intro hall
    have hpage := (hgiven (BitVec.ofNat 64 (virt.toNat + size.toNat - 4096)) (by omega) (by omega)
      (by omega)).mp (hall _ (by omega) (by omega) (by omega))
    rw [hlast] at hpage
    by_cases e : phys = virt
    · refine Or.inr ⟨e, ?_⟩
      rcases hpage with ⟨hlt, -⟩ | ⟨virt', phys', size', -, hne', h₁, -, hsame⟩
      · omega
      · rw [hne.mp e] at hsame
        exact absurd (BitVec.eq_of_toNat_eq (by omega)) hne'
    · refine Or.inl ⟨e, ?_⟩
      rcases hpage with ⟨-, he⟩ | ⟨virt', phys', size', -, -, -, h₂, -⟩
      · exact absurd he e
      · have hdvd := romMapEnd_dvd virt' size'
        have hlt := (romMapEnd virt' size').isLt
        omega
  · rintro (⟨e, hlt⟩ | ⟨e, hle⟩) page hd h₁ h₂
    · refine (hgiven page hd h₁ h₂).mpr (Or.inr ⟨virt, phys, size, ?_, e, h₁, ?_, rfl⟩)
      · exact List.mem_append_right _ (List.mem_singleton.mpr rfl)
      · rw [hend', Nat.mod_eq_of_lt hlt]
        exact h₂
    · exact (hgiven page hd h₁ h₂).mpr (Or.inl ⟨by omega, e⟩)

/-- The page after guest RAM, mapped to the physical page at 16 MiB. -/
theorem BootRun.map_maps_iff_sample : ∃ s g t, BootRun samplePlacement
    [.guestInit sampleRamSize sampleRam, .romInit] s ∧ s.guest = some g ∧
      romMap g s.mmu.htab 0x2000000 0x1000000 0x1000 = .ok t ∧
      t.MapsTo (vmPage 0x2000000) (BitVec.ofNat 64 (g.ramRa + 0x1000000)) := by
  obtain ⟨s, g, h, hg, -, hmap⟩ := bootRun_init_sample
  obtain ⟨t, ht⟩ := hmap 0x1000000 (by decide) (by decide)
  have hall := (h.map_maps_iff (by decide) hg (by decide) (by decide) (by decide) (by decide)
    ht).mpr (Or.inl ⟨by decide, by decide⟩)
  exact ⟨s, g, t, h, hg, ht, hall 0x2000000 (by decide) (by decide) (by decide)⟩

/-- A call with the physical address 48 MiB for the address 48 MiB, beyond the 32 MiB of guest RAM,
maps nothing. -/
theorem BootRun.map_misses : ¬ ∀ (p : Placement) (es : List BootEvent) (s : BootState) (g : Guest)
    (t : Htab) (virt phys size : U32), BootRun p es s → s.guest = some g →
    2 ^ 12 ∣ virt.toNat → 2 ^ 12 ∣ phys.toNat → 2 ^ 12 ∣ size.toNat → size ≠ 0 →
    virt.toNat + size.toNat ≤ 2 ^ 32 → romMap g s.mmu.htab virt phys size = .ok t →
    ∀ page : U64, 2 ^ 12 ∣ page.toNat → virt.toNat ≤ page.toNat →
      page.toNat < virt.toNat + size.toNat → t.MapsTo (vmPage page)
        (BitVec.ofNat 64 (g.ramRa + phys.toNat + (page.toNat - virt.toNat))) := by
  intro hall
  obtain ⟨s, g, h, hg, hsize, -⟩ := bootRun_init_sample
  have hpage := hall _ _ s g s.mmu.htab 0x3000000 0x3000000 0x1000 h hg (by decide) (by decide)
    (by decide) (by decide) (by decide) rfl 0x3000000 (by decide) (by decide) (by decide)
  rcases (h.mapsTo_iff (by decide) hg (by decide) (by decide) _).mp hpage with
    ⟨hlt, -⟩ | ⟨virt, phys, size, hmem, -⟩
  · rw [hsize] at hlt
    exact absurd hlt (by decide)
  · simp at hmem

end Prephv
