import Prephv.Mmu.Model

/-!
# Mmu — Pages

A base page is a virtual page number together with its segment size.  The code maps four kinds:
hypervisor pages, the AIL vectors, guest RAM seen with the guest MMU off (the GRM segment) and
guest pages seen with it on.  `Page.Ok` describes them by the values their numbers can take.

A PTE holds the AVPN, which drops the low 23 bits of the virtual address (24 for a 16M base page),
and no search compares the segment size.  `pteg_avpn_inj` is why that is enough: two pages of the
four kinds with the same PTEG and the same AVPN are the same page.  The only pair of kinds whose
AVPNs meet is a hypervisor page and the AIL vectors, and there the low bits of the hash differ.
-/

set_option autoImplicit false

namespace Prephv

open Words

/-- A base page: VPN and segment size. -/
structure Page where
  vpn : U64
  seg : SegSize
  deriving DecidableEq, Repr

/-- The base page size of a segment: 1T segments hold 16M pages, 256M segments 4K pages. -/
def SegSize.base : SegSize → PageSize
  | .seg256M => .page4K
  | .seg1T => .page16M

namespace Page

/-- A hypervisor page below offset 1 TB. -/
def IsHv (p : Page) : Prop :=
  p.seg = .seg1T ∧ 4096 ∣ p.vpn.toNat ∧
    0x8765432100000000 ≤ p.vpn.toNat ∧ p.vpn.toNat < 0x8765432110000000

/-- A page of the AIL range. -/
def IsAil (p : Page) : Prop :=
  p.seg = .seg256M ∧ 0x8765432101230000 ≤ p.vpn.toNat ∧ p.vpn.toNat ≤ 0x8765432101230100

/-- A guest page seen with the guest MMU off. -/
def IsGrm (p : Page) : Prop :=
  p.seg = .seg1T ∧ 4096 ∣ p.vpn.toNat ∧
    0x5555555550000000 ≤ p.vpn.toNat ∧ p.vpn.toNat < 0x5555555550100000

/-- A guest page seen with the guest MMU on. -/
def IsVm (p : Page) : Prop := p.seg = .seg256M ∧ p.vpn.toNat < 2 ^ 32

/-- A page of one of the four kinds. -/
def Ok (p : Page) : Prop := p.IsHv ∨ p.IsAil ∨ p.IsGrm ∨ p.IsVm

/-- The PTEG of a page, `vpn_hash & htab_hash_mask`. -/
def pteg (hashMask : U64) (p : Page) : Nat := (vpnHash p.vpn p.seg p.seg.base &&& hashMask).toNat

/-- The AVPN word of a page. -/
def avpn (p : Page) : U64 := avpnEncode p.vpn p.seg.base

end Page

/-! ### The hash -/

theorem toNat_and_hash39 (x : U64) : (x &&& 0x7fffffffff#64).toNat = x.toNat % 2 ^ 39 :=
  and_lowMask x (k := 39) (by decide)

theorem shl25_mod (x : U64) {k : Nat} (hk : k ≤ 25) : (x <<< 25).toNat % 2 ^ k = 0 := by
  have hd : 2 ^ k ∣ 2 ^ 25 := Nat.pow_dvd_pow 2 hk
  have hz : (x <<< 25).toNat % 2 ^ 25 = 0 := by
    rw [BitVec.toNat_shiftLeft, Nat.shiftLeft_eq]
    omega
  rw [← Nat.mod_mod_of_dvd _ hd, hz, Nat.zero_mod]

/-- The low bits of the hash: the VSID's, xored with the page index's. -/
theorem vpnHash_mod (vpn : U64) (seg : SegSize) {k : Nat} (hk : k ≤ 25) :
    (vpnHash vpn seg seg.base).toNat % 2 ^ k =
      (vpn.toNat / 2 ^ (seg.shift - 12) % 2 ^ k) ^^^
        (vpn.toNat % 2 ^ (seg.shift - 12) / 2 ^ (seg.base.shift - 12) % 2 ^ k) := by
  have hidx : ((vpn &&& ((1#64 <<< (seg.shift - vpnShift)) - 1)) >>>
      (seg.base.shift - vpnShift)).toNat =
        vpn.toNat % 2 ^ (seg.shift - 12) / 2 ^ (seg.base.shift - 12) := by
    have hmask : (1#64 <<< (seg.shift - vpnShift)) - 1 = lowMask 64 (seg.shift - 12) := by
      cases seg <;> rfl
    rw [hmask, BitVec.toNat_ushiftRight, Nat.shiftRight_eq_div_pow,
      and_lowMask vpn (by cases seg <;> decide)]
    rfl
  simp only [vpnHash]
  rw [toNat_and_hash39, Nat.mod_mod_of_dvd _ (Nat.pow_dvd_pow 2 (by omega)), BitVec.toNat_xor,
    BitVec.toNat_xor, xor_mod, xor_mod, shl25_mod _ hk, Nat.xor_zero, hidx,
    BitVec.toNat_ushiftRight, Nat.shiftRight_eq_div_pow]
  rfl

/-- The mask keeps the 11 low bits of the hash, as it does when the number of PTEGs is a multiple
of the least number, `2 ^ 11`. -/
def KeepsLow (hashMask : U64) : Prop := hashMask &&& lowMask 64 11 = lowMask 64 11

theorem keepsLow_sub_one {n : U64} (hn : 2 ^ 11 ∣ n.toNat) (hpos : 0 < n.toNat) :
    KeepsLow (n - 1) := by
  have hlt := n.isLt
  have hone : (n - 1).toNat = n.toNat - 1 := pred_toNat hpos
  apply BitVec.eq_of_toNat_eq
  rw [and_lowMask _ (by decide), lowMask_toNat (by decide), hone]
  omega

/-- The low bits of a PTEG number are the hash's. -/
theorem pteg_mod {hashMask : U64} (hm : KeepsLow hashMask) (p : Page) :
    p.pteg hashMask % 2 ^ 11 = (vpnHash p.vpn p.seg p.seg.base).toNat % 2 ^ 11 := by
  rw [Page.pteg, ← and_lowMask _ (by decide), ← and_lowMask _ (by decide), BitVec.and_assoc, hm]

/-! ### The AVPN -/

theorem avpnEncode_4K (vpn : U64) :
    (avpnEncode vpn .page4K).toNat = vpn.toNat / 2 ^ 11 * 2 ^ 7 := by
  have hlt := vpn.isLt
  simp only [avpnEncode, pteVAvpnShift, vpnShift, BitVec.toNat_shiftLeft,
    BitVec.toNat_ushiftRight, Nat.shiftLeft_eq, Nat.shiftRight_eq_div_pow, reduceCtorEq, if_false]
  omega

theorem avpnEncode_16M (vpn : U64) :
    (avpnEncode vpn .page16M).toNat = vpn.toNat / 2 ^ 12 * 2 ^ 8 := by
  have hlt := vpn.isLt
  have hone : (~~~1#64 : U64) = ~~~(lowMask 64 1) := rfl
  simp only [avpnEncode, pteVAvpnShift, vpnShift, BitVec.toNat_shiftLeft, Nat.shiftLeft_eq,
    if_true, hone, and_not_lowMask _ (show 1 ≤ 64 by decide), BitVec.toNat_ushiftRight,
    Nat.shiftRight_eq_div_pow]
  omega

/-- The AVPN word lies within the AVPN field. -/
theorem avpnEncode_and_avpn (vpn : U64) (base : PageSize) :
    avpnEncode vpn base &&& pteVAvpn = avpnEncode vpn base := by
  have hmask : pteVAvpn = ~~~(lowMask 64 7) &&& lowMask 64 62 := by decide
  have hfield : 2 ^ 7 ∣ (avpnEncode vpn base).toNat ∧ (avpnEncode vpn base).toNat < 2 ^ 62 := by
    have hlt := vpn.isLt
    cases base with
    | page4K => rw [avpnEncode_4K]; omega
    | page16M => rw [avpnEncode_16M]; omega
  apply BitVec.eq_of_toNat_eq
  rw [hmask, ← BitVec.and_assoc, and_lowMask _ (by decide), and_not_lowMask _ (by decide),
    Nat.div_mul_cancel hfield.1, Nat.mod_eq_of_lt hfield.2]

/-! ### A slot identifies its page -/

/-- Two 4K base pages with one AVPN differ in the hash's low bits unless they are equal. -/
theorem eq_of_hash_256M {n n' : Nat} (ha : n / 2 ^ 11 = n' / 2 ^ 11)
    (hh : (n / 2 ^ 16 % 2 ^ 11) ^^^ (n % 2 ^ 16 / 2 ^ 0 % 2 ^ 11) =
      (n' / 2 ^ 16 % 2 ^ 11) ^^^ (n' % 2 ^ 16 / 2 ^ 0 % 2 ^ 11)) : n = n' := by
  have hsid : n / 2 ^ 16 = n' / 2 ^ 16 := by omega
  rw [hsid] at hh
  have hidx := xor_left_cancel hh
  omega

/-- The AIL vectors and the one hypervisor page with their AVPN differ in the hash's low bits. -/
theorem ail_hash_ne_hv {n n' : Nat} (hn : 0x8765432101230000 ≤ n) (hn' : n ≤ 0x8765432101230100)
    (ha : n / 2 ^ 12 = n' / 2 ^ 12) (hd : 4096 ∣ n') :
    (n / 2 ^ 16 % 2 ^ 11) ^^^ (n % 2 ^ 16 / 2 ^ 0 % 2 ^ 11) ≠
      (n' / 2 ^ 28 % 2 ^ 11) ^^^ (n' % 2 ^ 28 / 2 ^ 12 % 2 ^ 11) := by
  intro hh
  obtain rfl : n' = 0x8765432101230000 := by omega
  have hsid : n / 2 ^ 16 = 0x876543210123 := by omega
  rw [hsid] at hh
  -- 0x123 xor the page index would be 0x020, so the index 0x103: past the last AIL page
  have hidx : n % 2 ^ 16 / 2 ^ 0 % 2 ^ 11 = 0x103 :=
    xor_left_cancel (x := 0x876543210123 % 2 ^ 11) (hh.trans (by decide))
  omega

/-- **A PTEG slot identifies its page.**  Two pages of the four kinds with one PTEG and one AVPN
are the same page. -/
theorem pteg_avpn_inj {hashMask : U64} (hm : KeepsLow hashMask) {p q : Page} (hp : p.Ok)
    (hq : q.Ok) (hg : p.pteg hashMask = q.pteg hashMask) (ha : p.avpn = q.avpn) : p = q := by
  have hh : p.pteg hashMask % 2 ^ 11 = q.pteg hashMask % 2 ^ 11 := by rw [hg]
  rw [pteg_mod hm, pteg_mod hm, vpnHash_mod _ _ (by decide), vpnHash_mod _ _ (by decide)] at hh
  have ha' := congrArg BitVec.toNat ha
  obtain ⟨v, s⟩ := p
  obtain ⟨v', s'⟩ := q
  simp only [Page.Ok, Page.IsHv, Page.IsAil, Page.IsGrm, Page.IsVm] at hp hq
  cases s <;> cases s' <;>
    simp only [Page.avpn, SegSize.base, avpnEncode_4K, avpnEncode_16M, SegSize.shift,
      PageSize.shift, sidShift256MB, sidShift1T, pageShift, pageShift16M, reduceCtorEq, false_and,
      true_and, false_or, or_false, Nat.reduceSub] at hp hq ha' hh
  · have : v = v' := BitVec.eq_of_toNat_eq (eq_of_hash_256M (by omega) hh)
    rw [this]
  · rcases hp with hp | hp
    · rcases hq with hq | hq
      · exact absurd hh (ail_hash_ne_hv hp.1 hp.2 (by omega) hq.1)
      · omega
    · omega
  · rcases hq with hq | hq
    · rcases hp with hp | hp
      · exact absurd hh.symm (ail_hash_ne_hv hq.1 hq.2 (by omega) hp.1)
      · omega
    · omega
  · have : v = v' := BitVec.eq_of_toNat_eq (by omega)
    rw [this]

end Prephv
