import Prephv.Mmu.Pages

/-!
# Mmu — PTEs

What a valid PTE means to the processor, and that the two words `mmu_map_vpn` writes mean the page
and the mapping they were written for.

`Pte.decode` reads the architected fields: B, AVPN and L in the first doubleword; RPN, LP and PP in
the second.  The AVPN lacks the low bits of the virtual address; for a 4K base page they are
recovered from the number of the PTEG the entry sits in, which the hash chose.
-/

set_option autoImplicit false

namespace Prephv

open Words

/-- What a page is mapped to. -/
structure Mapping where
  base : PageSize
  actual : PageSize
  ra : U64
  pp : U64
  deriving DecidableEq, Repr

/-- The `PP_*` values. -/
def ppValues : List U64 := [ppRWXX, ppRWRX, ppRWRW, ppRXRX, ppRXXX]

/-- The mappings the code can write for a page of the segment: the segment's base page size, an
actual size no smaller, a real address within the RPN mask, and one of the protections. -/
structure Mapping.Ok (seg : SegSize) (e : Mapping) : Prop where
  base : e.base = seg.base
  actual : e.base = .page16M → e.actual = .page16M
  ra : e.ra &&& (rpnFields e.base e.actual).2 = e.ra
  pp : e.pp ∈ ppValues

/-! ### Reading a PTE -/

namespace Pte

/-- The B field: the segment size. -/
def seg (p : Pte) : Option SegSize :=
  if p.v >>> 62 = 0 then some .seg256M else if p.v >>> 62 = 1 then some .seg1T else none

/-- The L and LP fields: the base and the actual page size. -/
def sizes (p : Pte) : Option (PageSize × PageSize) :=
  if p.v &&& pteVLarge = 0 then some (.page4K, .page4K)
  else if (p.r &&& pteRLpMask) >>> pteRLpShift = pteRLp4K16M then some (.page4K, .page16M)
  else if (p.r &&& pteRLpMask) >>> pteRLpShift = pteRLp16M16M then some (.page16M, .page16M)
  else none

/-- `PTE_V_AVPN_VAL`. -/
def avpnVal (p : Pte) : Nat := ((p.v &&& pteVAvpn) >>> pteVAvpnShift).toNat

/-- The VPN of an entry of PTEG `g` that holds a page of the base size. -/
def vpn (g : Nat) (base : PageSize) (p : Pte) : U64 :=
  match base with
  | .page16M => BitVec.ofNat 64 (p.avpnVal * 2 ^ 11)
  | .page4K => BitVec.ofNat 64 (p.avpnVal * 2 ^ 11 + (p.avpnVal / 2 ^ 5 ^^^ g) % 2 ^ 11)

/-- The RPN field, for the actual page size. -/
def ra (actual : PageSize) (p : Pte) : U64 :=
  p.r &&& (match actual with | .page4K => pteRRpn4K | .page16M => pteRRpn16M)

/-- The PP field, with its third bit PP0. -/
def pp (p : Pte) : U64 := p.r &&& (pteRPP0 ||| pteRPP)

/-- The page a valid entry of PTEG `g` translates, and what it translates it to. -/
def decode (g : Nat) (p : Pte) : Option (Page × Mapping) :=
  if p.valid then
    match p.seg, p.sizes with
    | some seg, some (base, actual) =>
      some (⟨p.vpn g base, seg⟩, ⟨base, actual, p.ra actual, p.pp⟩)
    | _, _ => none
  else none

end Pte

/-! ### The PTE of a page -/

/-- The PTE `mmu_map_vpn` writes for a page. -/
def encodePte (p : Page) (e : Mapping) : Pte where
  v := avpnEncode p.vpn e.base ||| mapVflags p.seg e.actual
  r := (e.ra &&& (rpnFields e.base e.actual).2) |||
    ((rpnFields e.base e.actual).1 <<< pteRLpShift) ||| (e.pp ||| pteRM)

theorem mapVflags_and_avpn (seg : SegSize) (actual : PageSize) :
    mapVflags seg actual &&& pteVAvpn = 0#64 := by
  cases seg <;> cases actual <;> decide

/-- A field of the first doubleword outside the AVPN is that of the flags. -/
theorem encodePte_v_and (p : Page) (e : Mapping) {m : U64}
    (hm : pteVAvpn &&& m = 0#64) :
    (encodePte p e).v &&& m = mapVflags p.seg e.actual &&& m := by
  rw [encodePte, or_and_distrib, and_eq_zero_of_and_eq_self (avpnEncode_and_avpn _ _) hm,
    BitVec.zero_or]

theorem encodePte_v_and_avpn (p : Page) (e : Mapping) :
    (encodePte p e).v &&& pteVAvpn = avpnEncode p.vpn e.base := by
  rw [encodePte, or_and_distrib, mapVflags_and_avpn, avpnEncode_and_avpn, BitVec.or_zero]

@[simp] theorem encodePte_valid (p : Page) (e : Mapping) : (encodePte p e).valid = true := by
  rw [Pte.valid, encodePte_v_and p e (by decide)]
  cases p.seg <;> cases e.actual <;> decide

/-- `PTE_V_COMPARE` accepts a page's PTE for an AVPN word when it is that page's AVPN. -/
theorem pteVCompare_encodePte (p : Page) (e : Mapping) (vpn : U64) (base : PageSize) :
    pteVCompare (encodePte p e).v (avpnEncode vpn base) = true ↔
      avpnEncode p.vpn e.base = avpnEncode vpn base := by
  have hx := xor_and_eq_zero_iff (encodePte p e).v (avpnEncode vpn base) pteVAvpn
  rw [encodePte_v_and_avpn, avpnEncode_and_avpn] at hx
  rw [pteVCompare, decide_eq_true_iff]
  exact hx

theorem encodePte_seg (p : Page) (e : Mapping) : (encodePte p e).seg = some p.seg := by
  have hb : (encodePte p e).v >>> 62 = mapVflags p.seg e.actual >>> 62 := by
    rw [encodePte, BitVec.ushiftRight_or_distrib]
    have hz : avpnEncode p.vpn e.base >>> 62 = 0#64 := by
      have hm : pteVAvpn >>> 62 = 0#64 := by decide
      rw [← avpnEncode_and_avpn, BitVec.ushiftRight_and_distrib, hm, BitVec.and_zero]
    rw [hz, BitVec.zero_or]
  rw [Pte.seg, hb]
  cases p.seg <;> cases e.actual <;> rfl

/-- A field of the second doubleword: the real address's bits and the constant ones. -/
theorem encodePte_r_and {seg : SegSize} {p : Page} {e : Mapping} (he : e.Ok seg) (m : U64) :
    (encodePte p e).r &&& m =
      (e.ra &&& m) ||| ((((rpnFields e.base e.actual).1 <<< pteRLpShift) ||| (e.pp ||| pteRM)) &&& m)
    := by
  rw [encodePte, he.ra, BitVec.or_assoc, or_and_distrib]

theorem rpnMask_and_pp (base actual : PageSize) :
    (rpnFields base actual).2 &&& (pteRPP0 ||| pteRPP) = 0#64 := by
  cases base <;> cases actual <;> decide

theorem rpnMask_and_lp (base : PageSize) : (rpnFields base .page16M).2 &&& pteRLpMask = 0#64 := by
  cases base <;> decide

/-- The constant bits of the second doubleword lie outside the real page number, and hold `pp` and
the LP bits. -/
theorem pteRBits {pp : U64} (hpp : pp ∈ ppValues) (base actual : PageSize) :
    (((rpnFields base actual).1 <<< pteRLpShift) ||| (pp ||| pteRM)) &&&
        (rpnFields base actual).2 = 0#64 ∧
      (((rpnFields base actual).1 <<< pteRLpShift) ||| (pp ||| pteRM)) &&&
        (pteRPP0 ||| pteRPP) = pp ∧
      (((rpnFields base actual).1 <<< pteRLpShift) ||| (pp ||| pteRM)) &&& pteRLpMask =
        (rpnFields base actual).1 <<< pteRLpShift := by
  simp only [ppValues, List.mem_cons, List.not_mem_nil, or_false] at hpp
  rcases hpp with rfl | rfl | rfl | rfl | rfl <;> cases base <;> cases actual <;> decide

theorem encodePte_pp {seg : SegSize} {p : Page} {e : Mapping} (he : e.Ok seg) :
    (encodePte p e).pp = e.pp := by
  rw [Pte.pp, encodePte_r_and he, (pteRBits he.pp _ _).2.1,
    and_eq_zero_of_and_eq_self he.ra (rpnMask_and_pp _ _), BitVec.zero_or]

theorem encodePte_ra {seg : SegSize} {p : Page} {e : Mapping} (he : e.Ok seg) :
    (encodePte p e).ra e.actual = e.ra := by
  have hm : ∀ actual, (match actual with | .page4K => pteRRpn4K | .page16M => pteRRpn16M) =
      (rpnFields e.base actual).2 := by
    intro actual; cases actual <;> cases e.base <;> rfl
  rw [Pte.ra.eq_def, hm, encodePte_r_and he, (pteRBits he.pp _ _).1, he.ra, BitVec.or_zero]

/-- The LP field of a PTE for a 16M page. -/
theorem encodePte_lp {seg : SegSize} {p : Page} {e : Mapping} (he : e.Ok seg)
    (ha : e.actual = .page16M) :
    (encodePte p e).r &&& pteRLpMask = (rpnFields e.base .page16M).1 <<< pteRLpShift := by
  have hra := he.ra
  rw [ha] at hra
  rw [encodePte_r_and he, (pteRBits he.pp _ _).2.2,
    and_eq_zero_of_and_eq_self hra (rpnMask_and_lp _), BitVec.zero_or, ha]

theorem mapVflags_and_large (seg : SegSize) (actual : PageSize) :
    mapVflags seg actual &&& pteVLarge = if actual = .page4K then 0#64 else pteVLarge := by
  cases seg <;> cases actual <;> decide

theorem encodePte_sizes {p : Page} {e : Mapping} (he : e.Ok p.seg) :
    (encodePte p e).sizes = some (e.base, e.actual) := by
  have hL := (encodePte_v_and p e (m := pteVLarge) (by decide)).trans (mapVflags_and_large _ _)
  rw [Pte.sizes, hL]
  by_cases ha : e.actual = .page16M
  · rw [encodePte_lp he ha, ha]
    cases e.base <;> rfl
  · have ha' : e.actual = .page4K := by cases h : e.actual with
      | page4K => rfl
      | page16M => exact absurd h ha
    have hb : e.base = .page4K := by cases h : e.base with
      | page4K => rfl
      | page16M => exact absurd (he.actual h) ha
    rw [ha', hb]
    rfl

theorem encodePte_avpnVal (p : Page) (e : Mapping) :
    (encodePte p e).avpnVal = (avpnEncode p.vpn e.base).toNat / 2 ^ 7 := by
  rw [Pte.avpnVal, encodePte_v_and_avpn, BitVec.toNat_ushiftRight, Nat.shiftRight_eq_div_pow]
  rfl

/-- The VPN is recovered from the AVPN and the PTEG the hash chose. -/
theorem encodePte_vpn {hashMask : U64} (hm : KeepsLow hashMask) {p : Page} (hp : p.Ok)
    {e : Mapping} (he : e.Ok p.seg) : (encodePte p e).vpn (p.pteg hashMask) e.base = p.vpn := by
  have hlt := p.vpn.isLt
  rw [Pte.vpn.eq_def, encodePte_avpnVal, he.base]
  apply BitVec.eq_of_toNat_eq
  obtain ⟨v, s⟩ := p
  cases s with
  | seg1T =>
    simp only [Page.Ok, Page.IsHv, Page.IsAil, Page.IsGrm, Page.IsVm, reduceCtorEq, false_and,
      true_and, false_or, or_false] at hp
    simp only [SegSize.base, avpnEncode_16M, BitVec.toNat_ofNat]
    omega
  | seg256M =>
    have hg : (Page.pteg hashMask ⟨v, .seg256M⟩) % 2 ^ 11 =
        (v.toNat / 2 ^ 16 % 2 ^ 11) ^^^ (v.toNat % 2 ^ 16 / 2 ^ 0 % 2 ^ 11) := by
      rw [pteg_mod hm, vpnHash_mod _ _ (by decide)]
      rfl
    have hsid : v.toNat / 2 ^ 11 * 2 ^ 7 / 2 ^ 7 / 2 ^ 5 = v.toNat / 2 ^ 16 := by omega
    simp only [SegSize.base, avpnEncode_4K, BitVec.toNat_ofNat]
    rw [xor_mod, hg, hsid, ← Nat.xor_assoc, Nat.xor_self, Nat.zero_xor]
    omega

/-- **The PTE of a page decodes to the page and its mapping**, read in the PTEG of the page. -/
theorem decode_encodePte {hashMask : U64} (hm : KeepsLow hashMask) {p : Page} (hp : p.Ok)
    {e : Mapping} (he : e.Ok p.seg) :
    (encodePte p e).decode (p.pteg hashMask) = some (p, e) := by
  simp only [Pte.decode, encodePte_valid, if_true, encodePte_seg, encodePte_sizes he,
    encodePte_vpn hm hp he, encodePte_ra he, encodePte_pp he]

end Prephv
