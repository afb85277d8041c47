import Prephv.Mmu.Pages

/-!
# Mmu — Effective addresses

The base pages an effective address and a page size name, and that they are pages of the four
kinds (`eaPages_ok`): hypervisor addresses below offset 1 TB, the AIL range, and guest addresses
below 4 GiB with the guest MMU on or off.

The segment registers are arbitrary: `ea_2_vpn` shifts them as 32-bit values, so a guest VPN stays
below `2 ^ 32` whatever they hold.
-/

set_option autoImplicit false

namespace Prephv

open Words

/-- The `n` base pages from a VPN on. -/
def pagesFrom (seg : SegSize) (base : PageSize) : Nat → U64 → List Page
  | 0, _ => []
  | n + 1, vpn => ⟨vpn, seg⟩ :: pagesFrom seg base n (vpn + (base.size >>> vpnShift))

/-- The base page size of an address, and the base pages of the page of size `actual` there. -/
def eaPages (guest : Option Guest) (ea : U64) (actual : PageSize) :
    Res (PageSize × List Page) := do
  let vpn ← ea2Vpn guest ea
  let segSize ← ea2SegSize guest ea
  let base ← ea2BaseSize guest ea
  return (base, pagesFrom segSize base (actual.size.toNat / base.size.toNat) vpn)

/-! ### The regions -/

/-- A hypervisor address below offset 1 TB. -/
def InHv (ea : U64) : Prop := 0x8000000000000000 ≤ ea.toNat ∧ ea.toNat < 0x8000010000000000

/-- The addresses the code maps, each with the page sizes it may have there. -/
inductive EaOk (guest : Option Guest) (ea : U64) (actual : PageSize) : Prop where
  | hv : InHv ea → actual = .page16M → EaOk guest ea actual
  | ail : isAil ea → actual = .page4K → EaOk guest ea actual
  | vmOn {g : Guest} : ea < layoutVmEnd → guest = some g → g.MmuIs true → EaOk guest ea actual
  | vmOff {g : Guest} : ea < layoutVmEnd → guest = some g → g.MmuIs false → actual = .page16M →
      EaOk guest ea actual

theorem isAil_iff (ea : U64) :
    isAil ea ↔ 0xc000000000000000 ≤ ea.toNat ∧ ea.toNat ≤ 0xc000000000100000 := Iff.rfl

theorem hvAspace_eq : hvAspace = ~~~(lowMask 64 63) := rfl

theorem and_hvAspace (ea : U64) : ea &&& hvAspace = 0#64 ↔ ea.toNat < 2 ^ 63 := by
  have hlt := ea.isLt
  have h := and_not_lowMask ea (k := 63) (by decide)
  rw [hvAspace_eq]
  constructor
  · intro e
    rw [e, BitVec.toNat_zero] at h
    omega
  · intro e
    apply BitVec.eq_of_toNat_eq
    rw [h, BitVec.toNat_zero, Nat.div_eq_of_lt e, Nat.zero_mul]

theorem and_not_hvAspace (ea : U64) : (ea &&& ~~~hvAspace).toNat = ea.toNat % 2 ^ 63 := by
  rw [hvAspace_eq, BitVec.not_not, and_lowMask ea (by decide)]

theorem vmEaMmuOff_eq {guest : Option Guest} {g : Guest} {ea : U64} {fmt : String} {on : Bool}
    (hea : ea < layoutVmEnd) (hg : guest = some g) (hmmu : g.MmuIs on) :
    vmEaMmuOff guest ea fmt = .ok (!on) := by
  subst hg
  have hoff : guestIsMmuOff (some g) = .ok (!on) :=
    guestIsMmuOff_eq_ok.mpr ⟨g, rfl, by rwa [Bool.not_not]⟩
  rw [vmEaMmuOff, bugOn_bind_eq_ok]
  refine ⟨by simpa using hea, ?_⟩
  rw [bugOn_bind_eq_ok]
  exact ⟨by simp, hoff⟩

/-! ### The functions of an address, by region -/

section
variable {guest : Option Guest} {ea : U64}

theorem ea2_hv (h : InHv ea) : ea2SegSize guest ea = .ok .seg1T ∧
    ea2BaseSize guest ea = .ok .page16M ∧
    ea2Vpn guest ea = .ok (((ea &&& ~~~hvAspace) >>> 12) ||| 0x8765432100000000#64) := by
  obtain ⟨h₁, h₂⟩ := h
  have hail : ¬ isAil ea := by rw [isAil_iff]; omega
  have hhv : ea &&& hvAspace ≠ 0 := mt (and_hvAspace ea).mp (by omega)
  have hle : hvAspace ≤ ea := h₁
  have hseg : ea2SegSize guest ea = .ok .seg1T := by
    rw [ea2SegSize, if_neg hail, if_pos hhv]
  refine ⟨hseg, by rw [ea2BaseSize, if_neg hail, if_pos hle], ?_⟩
  simp only [ea2Vpn, hseg, bind, Except.bind]
  rw [if_neg hail, if_pos hhv]
  rfl

theorem ea2_ail (h : isAil ea) : ea2SegSize guest ea = .ok .seg256M ∧
    ea2BaseSize guest ea = .ok .page4K ∧
    ea2Vpn guest ea = .ok (((ea - ailAspaceStart) >>> 12) ||| 0x8765432101230000#64) := by
  have hseg : ea2SegSize guest ea = .ok .seg256M := by rw [ea2SegSize, if_pos h]
  refine ⟨hseg, by rw [ea2BaseSize, if_pos h], ?_⟩
  simp only [ea2Vpn, hseg, bind, Except.bind]
  rw [if_pos h]
  rfl

/-- An address below 4 GiB is neither an AIL nor a hypervisor address. -/
theorem vm_not_hv (h : ea < layoutVmEnd) :
    ¬ isAil ea ∧ ¬ ea &&& hvAspace ≠ 0 ∧ ¬ hvAspace ≤ ea := by
  have hlt : ea.toNat < 2 ^ 32 := h
  refine ⟨by rw [isAil_iff]; omega, not_not.mpr ((and_hvAspace ea).mpr (by omega)), ?_⟩
  intro hle
  have : 0x8000000000000000 ≤ ea.toNat := hle
  omega

theorem ea2_vmOn {g : Guest} (h : ea < layoutVmEnd) (hg : guest = some g) (hmmu : g.MmuIs true) :
    ea2SegSize guest ea = .ok .seg256M ∧ ea2BaseSize guest ea = .ok .page4K ∧
    ea2Vpn guest ea =
      .ok ((ea >>> 12) ||| (g.srAt (srIndex ea) <<< 16).setWidth 64) := by
  obtain ⟨h₁, h₂, h₃⟩ := vm_not_hv h
  have hoff : ∀ fmt, vmEaMmuOff guest ea fmt = .ok false := fun fmt => vmEaMmuOff_eq h hg hmmu
  have hseg : ea2SegSize guest ea = .ok .seg256M := by
    rw [ea2SegSize, if_neg h₁, if_neg h₂, hoff]; rfl
  refine ⟨hseg, by rw [ea2BaseSize, if_neg h₁, if_neg h₃, hoff]; rfl, ?_⟩
  simp only [ea2Vpn, hseg, bind, Except.bind]
  rw [if_neg h₁, if_neg h₂, hoff, hg]
  simp only [layoutVmStart, BitVec.sub_zero]
  rfl

theorem ea2_vmOff {g : Guest} (h : ea < layoutVmEnd) (hg : guest = some g)
    (hmmu : g.MmuIs false) :
    ea2SegSize guest ea = .ok .seg1T ∧ ea2BaseSize guest ea = .ok .page16M ∧
    ea2Vpn guest ea = .ok ((ea >>> 12) ||| 0x5555555550000000#64) := by
  obtain ⟨h₁, h₂, h₃⟩ := vm_not_hv h
  have hoff : ∀ fmt, vmEaMmuOff guest ea fmt = .ok true := fun fmt => vmEaMmuOff_eq h hg hmmu
  have hseg : ea2SegSize guest ea = .ok .seg1T := by
    rw [ea2SegSize, if_neg h₁, if_neg h₂, hoff]; rfl
  refine ⟨hseg, by rw [ea2BaseSize, if_neg h₁, if_neg h₃, hoff]; rfl, ?_⟩
  simp only [ea2Vpn, hseg, bind, Except.bind]
  rw [if_neg h₁, if_neg h₂, hoff]
  simp only [layoutVmStart, BitVec.sub_zero]
  rfl

end

/-- The base page size of an address is that of its segment. -/
theorem ea2_base {guest : Option Guest} {ea : U64} {seg : SegSize} {base : PageSize}
    (hs : ea2SegSize guest ea = .ok seg) (hb : ea2BaseSize guest ea = .ok base) :
    base = seg.base := by
  rw [ea2SegSize] at hs
  rw [ea2BaseSize] at hb
  by_cases ha : isAil ea
  · rw [if_pos ha] at hs hb
    cases hs; cases hb; rfl
  · have hiff : ea &&& hvAspace ≠ 0 ↔ hvAspace ≤ ea :=
      (not_congr (and_hvAspace ea)).trans Nat.not_lt
    rw [if_neg ha] at hs hb
    by_cases hv : hvAspace ≤ ea
    · rw [if_pos (hiff.mpr hv)] at hs
      rw [if_pos hv] at hb
      cases hs; cases hb; rfl
    · rw [if_neg (mt hiff.mp hv)] at hs
      rw [if_neg hv] at hb
      obtain ⟨off, hoff, hs⟩ := bind_eq_ok.mp hs
      rw [hoff] at hb
      cases off <;> cases hs <;> cases hb <;> rfl

/-- What a call of `mmu_map` that returns did: the pages of its address, mapped in turn. -/
theorem mmuMap_eq_ok {guest : Option Guest} {t t' : Htab} {ea ra pp : U64} {actual : PageSize}
    (h : mmuMap guest t ea ra pp actual = .ok t') : ∃ vpn seg,
      eaPages guest ea actual =
        .ok (seg.base, pagesFrom seg seg.base (actual.size.toNat / seg.base.size.toNat) vpn) ∧
      ea &&& ~~~(actual.size - 1) = ea ∧ ¬ actual.size < seg.base.size ∧
      mapVpnLoop pp seg seg.base actual ra (actual.size.toNat / seg.base.size.toNat) vpn t =
        .ok (0, t') := by
  rw [mmuMap, bugOn_bind_eq_ok, not_not] at h
  obtain ⟨halign, h⟩ := h
  obtain ⟨vpn, hvpn, h⟩ := bind_eq_ok.mp h
  obtain ⟨seg, hseg, h⟩ := bind_eq_ok.mp h
  obtain ⟨base, hbase, h⟩ := bind_eq_ok.mp h
  obtain ⟨⟨ret, t₁⟩, hmap, h⟩ := bind_eq_ok.mp h
  dsimp only at h
  rw [bugOn_bind_eq_ok, not_not] at h
  obtain ⟨rfl, h⟩ := h
  cases h
  rw [mmuMapVpn, bugOn_bind_eq_ok, bugOn_bind_eq_ok] at hmap
  obtain ⟨hsize, -, hloop⟩ := hmap
  obtain rfl := ea2_base hseg hbase
  refine ⟨vpn, seg, ?_, halign, hsize, hloop⟩
  simp only [eaPages, hvpn, hseg, hbase, bind, Except.bind, pure, Except.pure]

/-- What a call of `mmu_unmap` that returns did: the pages of its address, unmapped in turn. -/
theorem mmuUnmap_eq_ok {guest : Option Guest} {t t' : Htab} {ea : U64} {actual : PageSize}
    (h : mmuUnmap guest t ea actual = .ok t') : ∃ vpn seg,
      eaPages guest ea actual =
        .ok (seg.base, pagesFrom seg seg.base (actual.size.toNat / seg.base.size.toNat) vpn) ∧
      ea &&& ~~~(actual.size - 1) = ea ∧ ¬ actual.size < seg.base.size ∧
      unmapVpnLoop seg seg.base (actual.size.toNat / seg.base.size.toNat) vpn t = (0, t') := by
  rw [mmuUnmap, bugOn_bind_eq_ok, not_not] at h
  obtain ⟨halign, h⟩ := h
  obtain ⟨vpn, hvpn, h⟩ := bind_eq_ok.mp h
  obtain ⟨seg, hseg, h⟩ := bind_eq_ok.mp h
  obtain ⟨base, hbase, h⟩ := bind_eq_ok.mp h
  obtain ⟨⟨ret, t₁⟩, hunmap, h⟩ := bind_eq_ok.mp h
  dsimp only at h
  rw [bugOn_bind_eq_ok, not_not] at h
  obtain ⟨rfl, h⟩ := h
  cases h
  rw [mmuUnmapVpn, bugOn_bind_eq_ok] at hunmap
  obtain ⟨hsize, hloop⟩ := hunmap
  obtain rfl := ea2_base hseg hbase
  refine ⟨vpn, seg, ?_, halign, hsize, Except.ok.inj hloop⟩
  simp only [eaPages, hvpn, hseg, hbase, bind, Except.bind, pure, Except.pure]

/-! ### The pages of an address -/

theorem mem_pagesFrom {seg : SegSize} {base : PageSize} {p : Page} :
    ∀ {n : Nat} {vpn : U64}, p ∈ pagesFrom seg base n vpn ↔
      ∃ i < n, p = ⟨vpn + BitVec.ofNat 64 i * (base.size >>> vpnShift), seg⟩
  | 0, vpn => by simp [pagesFrom]
  | n + 1, vpn => by
    rw [pagesFrom, List.mem_cons, mem_pagesFrom]
    constructor
    · rintro (rfl | ⟨i, hi, rfl⟩)
      · exact ⟨0, by omega, by simp⟩
      · refine ⟨i + 1, by omega, ?_⟩
        rw [BitVec.add_assoc, BitVec.ofNat_add, BitVec.add_mul, BitVec.one_mul,
          BitVec.add_comm (base.size >>> vpnShift)]
    · rintro ⟨i, hi, rfl⟩
      cases i with
      | zero => left; simp
      | succ i =>
        refine Or.inr ⟨i, by omega, ?_⟩
        rw [BitVec.add_assoc, BitVec.ofNat_add, BitVec.add_mul, BitVec.one_mul,
          BitVec.add_comm (base.size >>> vpnShift)]

/-- An address aligned to a page size. -/
theorem aligned_iff (x : U64) (p : PageSize) :
    x &&& ~~~(p.size - 1) = x ↔ 2 ^ p.shift ∣ x.toNat := by
  have hm : p.size - 1 = lowMask 64 p.shift := by cases p <;> rfl
  rw [hm, and_not_lowMask_eq_self x (by cases p <;> decide)]

/-- A guest VPN seen with the MMU on lies below `2 ^ 32`, and is a multiple of 4096 at a 16M
boundary. -/
theorem vmOn_vpn {ea : U64} (hea : ea < layoutVmEnd) (sr : U32) :
    ((ea >>> 12) ||| (sr <<< 16).setWidth 64).toNat < 2 ^ 32 ∧
      (2 ^ 24 ∣ ea.toNat → ((ea >>> 12) ||| (sr <<< 16).setWidth 64).toNat % 2 ^ 12 = 0) := by
  have hlt : ea.toNat < 2 ^ 32 := hea
  have hsr := (sr <<< 16).isLt
  have hea' : (ea >>> 12).toNat = ea.toNat / 2 ^ 12 := by
    rw [BitVec.toNat_ushiftRight, Nat.shiftRight_eq_div_pow]
  have hsid : ((sr <<< 16).setWidth 64).toNat = sr.toNat * 2 ^ 16 % 2 ^ 32 := by
    rw [BitVec.toNat_setWidth, BitVec.toNat_shiftLeft, Nat.shiftLeft_eq]
    omega
  rw [BitVec.toNat_or, hea', hsid]
  refine ⟨Nat.or_lt_two_pow (by omega) (by omega), fun hd => ?_⟩
  rw [Nat.or_mod_two_pow]
  have h₁ : ea.toNat / 2 ^ 12 % 2 ^ 12 = 0 := by omega
  have h₂ : sr.toNat * 2 ^ 16 % 2 ^ 32 % 2 ^ 12 = 0 := by omega
  rw [h₁, h₂, Nat.or_zero]

/-- An `or` of a shifted address with a VSID that has no bit in common with it. -/
theorem vpn_or (x : U64) (k : Nat) (sid : U64) (hx : x.toNat < 2 ^ (12 + k))
    (hs : 2 ^ k ∣ sid.toNat) : ((x >>> 12) ||| sid).toNat = sid.toNat + x.toNat / 2 ^ 12 := by
  have hdiv : (x >>> 12).toNat = x.toNat / 2 ^ 12 := by
    rw [BitVec.toNat_ushiftRight, Nat.shiftRight_eq_div_pow]
  rw [or_toNat (k := k) _ hs, hdiv]
  rw [hdiv]
  exact Nat.div_lt_of_lt_mul (by rwa [← Nat.pow_add])

/-- The functions of an address decide its pages. -/
theorem eaPages_eq {guest : Option Guest} {ea vpn : U64} {seg : SegSize} {base : PageSize}
    (h : ea2SegSize guest ea = .ok seg ∧ ea2BaseSize guest ea = .ok base ∧
      ea2Vpn guest ea = .ok vpn) (actual : PageSize) :
    eaPages guest ea actual =
      .ok (base, pagesFrom seg base (actual.size.toNat / base.size.toNat) vpn) := by
  obtain ⟨hseg, hbase, hvpn⟩ := h
  simp only [eaPages, hseg, hbase, hvpn, bind, Except.bind, pure, Except.pure]

/-- The page of a hypervisor address. -/
def hvPage (ea : U64) : Page :=
  ⟨BitVec.ofNat 64 (0x8765432100000000 + (ea.toNat - 0x8000000000000000) / 4096), .seg1T⟩

/-- The page of an AIL address. -/
def ailPage (ea : U64) : Page :=
  ⟨BitVec.ofNat 64 (0x8765432101230000 + (ea.toNat - 0xc000000000000000) / 4096), .seg256M⟩

/-- The page of a guest address, with the guest MMU off. -/
def grmPage (ea : U64) : Page := ⟨BitVec.ofNat 64 (0x5555555550000000 + ea.toNat / 4096), .seg1T⟩

/-- The page of a guest address with the guest MMU on, where each segment register holds its own
number. -/
def vmPage (ea : U64) : Page := ⟨BitVec.ofNat 64 (ea.toNat / 4096), .seg256M⟩

section
variable {guest : Option Guest} {ea : U64}

theorem eaPages_hv (h : InHv ea) : eaPages guest ea .page16M = .ok (.page16M, [hvPage ea]) := by
  rw [eaPages_eq (ea2_hv h)]
  obtain ⟨hlo, hhi⟩ := h
  have hoff := and_not_hvAspace ea
  have hv := vpn_or (ea &&& ~~~hvAspace) 28 0x8765432100000000#64
    (by omega) (by decide)
  have hvpn : ((ea &&& ~~~hvAspace) >>> 12) ||| 0x8765432100000000#64 =
      BitVec.ofNat 64 (0x8765432100000000 + (ea.toNat - 0x8000000000000000) / 4096) := by
    apply BitVec.eq_of_toNat_eq
    rw [hv, BitVec.toNat_ofNat, BitVec.toNat_ofNat]
    omega
  rw [hvpn]
  rfl

theorem eaPages_ail (h : isAil ea) : eaPages guest ea .page4K = .ok (.page4K, [ailPage ea]) := by
  rw [eaPages_eq (ea2_ail h)]
  obtain ⟨hlo, hhi⟩ := (isAil_iff ea).mp h
  have hoff : (ea - ailAspaceStart).toNat = ea.toNat - 0xc000000000000000 :=
    BitVec.toNat_sub_of_le h.1
  have hv := vpn_or (ea - ailAspaceStart) 16 0x8765432101230000#64
    (by omega) (by decide)
  have hvpn : ((ea - ailAspaceStart) >>> 12) ||| 0x8765432101230000#64 =
      BitVec.ofNat 64 (0x8765432101230000 + (ea.toNat - 0xc000000000000000) / 4096) := by
    apply BitVec.eq_of_toNat_eq
    rw [hv, BitVec.toNat_ofNat, BitVec.toNat_ofNat]
    omega
  rw [hvpn]
  rfl

theorem eaPages_vmOff {g : Guest} (h : ea < layoutVmEnd) (hg : guest = some g)
    (hmmu : g.MmuIs false) : eaPages guest ea .page16M = .ok (.page16M, [grmPage ea]) := by
  rw [eaPages_eq (ea2_vmOff h hg hmmu)]
  have hlt : ea.toNat < 2 ^ 32 := h
  have hv := vpn_or ea 28 0x5555555550000000#64 (by omega) (by decide)
  have hvpn : (ea >>> 12) ||| 0x5555555550000000#64 =
      BitVec.ofNat 64 (0x5555555550000000 + ea.toNat / 4096) := by
    apply BitVec.eq_of_toNat_eq
    rw [hv, BitVec.toNat_ofNat, BitVec.toNat_ofNat]
    omega
  rw [hvpn]
  rfl

theorem eaPages_vmOn {g : Guest} (h : ea < layoutVmEnd) (hg : guest = some g)
    (hmmu : g.MmuIs true) (hsr : ∀ i < srCount, g.srAt i = BitVec.ofNat 32 i) :
    eaPages guest ea .page4K = .ok (.page4K, [vmPage ea]) := by
  rw [eaPages_eq (ea2_vmOn h hg hmmu)]
  have hlt : ea.toNat < 2 ^ 32 := h
  have h16 : srCount = 16 := rfl
  have hidx : srIndex ea = ea.toNat / 2 ^ 28 := by
    rw [srIndex, BitVec.toNat_ushiftRight, Nat.shiftRight_eq_div_pow]
  -- the VSID is the segment's number, already in the bits it is shifted to
  have hsid : ((BitVec.ofNat 32 (ea.toNat / 2 ^ 28) <<< 16).setWidth 64 : U64) =
      (ea >>> 12) &&& ~~~(lowMask 64 16) := by
    apply BitVec.eq_of_toNat_eq
    rw [and_not_lowMask _ (by decide), BitVec.toNat_ushiftRight, Nat.shiftRight_eq_div_pow,
      BitVec.toNat_setWidth, BitVec.toNat_shiftLeft, Nat.shiftLeft_eq, BitVec.toNat_ofNat]
    omega
  have hvpn : (ea >>> 12) ||| (g.srAt (srIndex ea) <<< 16).setWidth 64 =
      BitVec.ofNat 64 (ea.toNat / 4096) := by
    rw [hidx, hsr _ (by omega), hsid, or_and_self]
    apply BitVec.eq_of_toNat_eq
    rw [BitVec.toNat_ushiftRight, Nat.shiftRight_eq_div_pow, BitVec.toNat_ofNat]
    omega
  rw [hvpn]
  rfl

end

theorem hvPage_vpn {ea : U64} (h : InHv ea) : (hvPage ea).vpn.toNat =
    0x8765432100000000 + (ea.toNat - 0x8000000000000000) / 4096 := by
  obtain ⟨hlo, hhi⟩ := h
  rw [hvPage, BitVec.toNat_ofNat]
  omega

theorem ailPage_vpn {ea : U64} (h : isAil ea) : (ailPage ea).vpn.toNat =
    0x8765432101230000 + (ea.toNat - 0xc000000000000000) / 4096 := by
  obtain ⟨hlo, hhi⟩ := (isAil_iff ea).mp h
  rw [ailPage, BitVec.toNat_ofNat]
  omega

theorem grmPage_vpn {ea : U64} (h : ea < layoutVmEnd) :
    (grmPage ea).vpn.toNat = 0x5555555550000000 + ea.toNat / 4096 := by
  have hlt : ea.toNat < 2 ^ 32 := h
  rw [grmPage, BitVec.toNat_ofNat]
  omega

theorem vmPage_vpn (ea : U64) : (vmPage ea).vpn.toNat = ea.toNat / 4096 := by
  have := ea.isLt
  rw [vmPage, BitVec.toNat_ofNat]
  omega

theorem hvPage_ok {ea : U64} (h : InHv ea) (ha : 2 ^ 24 ∣ ea.toNat) : (hvPage ea).Ok := by
  have hvpn := hvPage_vpn h
  obtain ⟨hlo, hhi⟩ := h
  refine Or.inl ⟨rfl, ?_⟩
  omega

theorem ailPage_ok {ea : U64} (h : isAil ea) : (ailPage ea).Ok := by
  have hvpn := ailPage_vpn h
  obtain ⟨hlo, hhi⟩ := (isAil_iff ea).mp h
  refine Or.inr (Or.inl ⟨rfl, ?_⟩)
  omega

theorem grmPage_ok {ea : U64} (h : ea < layoutVmEnd) (ha : 2 ^ 24 ∣ ea.toNat) :
    (grmPage ea).Ok := by
  have hlt : ea.toNat < 2 ^ 32 := h
  have hvpn := grmPage_vpn h
  refine Or.inr (Or.inr (Or.inl ⟨rfl, ?_⟩))
  omega

/-- The page of a guest address, where each segment register holds its own number. -/
theorem vmPage_ok {ea : U64} (hea : ea < layoutVmEnd) : (vmPage ea).Ok := by
  have hlt : ea.toNat < 2 ^ 32 := hea
  refine Or.inr (Or.inr (Or.inr ⟨rfl, ?_⟩))
  rw [vmPage_vpn]
  omega

/-- **The pages of an address are pages of the four kinds.** -/
theorem eaPages_ok {guest : Option Guest} {ea : U64} {actual base : PageSize} {ps : List Page}
    (h : EaOk guest ea actual) (ha : ea &&& ~~~(actual.size - 1) = ea)
    (he : eaPages guest ea actual = .ok (base, ps)) : ∀ p ∈ ps, p.Ok := by
  rw [aligned_iff] at ha
  intro p hp
  cases h with
  | hv h hact =>
    subst hact
    rw [eaPages_hv h] at he
    cases he
    obtain rfl := List.mem_singleton.mp hp
    exact hvPage_ok h ha
  | ail h hact =>
    subst hact
    rw [eaPages_ail h] at he
    cases he
    obtain rfl := List.mem_singleton.mp hp
    exact ailPage_ok h
  | vmOff hea hg hmmu hact =>
    subst hact
    rw [eaPages_vmOff hea hg hmmu] at he
    cases he
    obtain rfl := List.mem_singleton.mp hp
    exact grmPage_ok hea ha
  | @vmOn g hea hg hmmu =>
    rw [eaPages_eq (ea2_vmOn hea hg hmmu)] at he
    cases he
    obtain ⟨i, hi, rfl⟩ := mem_pagesFrom.mp hp
    refine Or.inr (Or.inr (Or.inr ⟨rfl, ?_⟩))
    obtain ⟨hlt, hmul⟩ := vmOn_vpn hea (g.srAt (srIndex ea))
    have hstep : PageSize.page4K.size >>> vpnShift = 1#64 := rfl
    simp only [hstep, BitVec.mul_one]
    cases actual with
    | page4K =>
      have hi' : i < 1 := hi
      obtain rfl : i = 0 := by omega
      rwa [BitVec.add_zero]
    | page16M =>
      have hi' : i < 2 ^ 12 := hi
      have hm := hmul ha
      rw [BitVec.toNat_add, BitVec.toNat_ofNat]
      omega

end Prephv
