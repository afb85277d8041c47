import Prephv.Mmu.Boot

/-!
# Mmu — Hash

The geometry of the table and the hash, against the architecture's.  `mmu_init` gives the hardware
the size of the table as a logarithm, and itself masks with the size less one: the two agree for
sizes that are powers of two (`geometry_iff`).  `vpn_hash` has the architecture's hash for 1T
segments, and uses it for 256M segments too (`vpnHash_arch_iff`).
-/

set_option autoImplicit false

namespace Prephv

open Words

/-! ### `HTABSIZE` -/

/-- `cntlzd`. -/
def cntlzd (x : U64) : Nat := if x = 0 then 64 else 63 - x.toNat.log2

/-- `__ilog2`, an `int`. -/
def ilog2 (x : U64) : Int := 64 - 1 - cntlzd x

/-- What `mmu_init` puts in SDR1. -/
def mmuInitSdr1 (htabRa ptegs : U64) : U64 := htabRa + BitVec.ofInt 64 (ilog2 ptegs) - 11

/-- The field that the hardware takes for the size: the bits of the hash beyond 11. -/
def sdr1Htabsize (sdr1 : U64) : Nat := (sdr1 &&& 0x1f).toNat

/-- The index that the hardware takes of a hash. -/
def sdr1Index (sdr1 hash : U64) : U64 := hash &&& lowMask 64 (11 + sdr1Htabsize sdr1)

theorem ilog2_eq {x : U64} (h : x ≠ 0) : ilog2 x = x.toNat.log2 := by
  have hpos : x.toNat ≠ 0 := fun e => h (eq_zero_iff.mpr e)
  have hlog : x.toNat.log2 < 64 := (Nat.log2_lt hpos).mpr x.isLt
  rw [ilog2, cntlzd, if_neg h]
  omega

/-- The table has as many PTEGs as `pteg_count` says. -/
theorem ptegCount_toNat (ramSize : U64) :
    (ptegCount ramSize).toNat = min (max (ramSize.toNat / 2 ^ 13) (2 ^ 11)) (2 ^ 39) := by
  have hshift : (ramSize >>> (pageShift + 1)).toNat = ramSize.toNat / 2 ^ 13 := by
    rw [BitVec.toNat_ushiftRight, Nat.shiftRight_eq_div_pow]
    rfl
  have hmin : minPtegs.toNat = 2 ^ 11 := rfl
  have hmax : maxPtegs.toNat = 2 ^ 39 := rfl
  have hif : ∀ a b : U64, (if a < b then b else a).toNat = max a.toNat b.toNat := by
    intro a b
    split
    · next h => exact (max_eq_right (Nat.le_of_lt h)).symm
    · next h => exact (max_eq_left (Nat.le_of_not_lt h)).symm
  have hif' : ∀ a b : U64, (if a < b then a else b).toNat = min a.toNat b.toNat := by
    intro a b
    split
    · next h => exact (min_eq_left (Nat.le_of_lt h)).symm
    · next h => exact (min_eq_right (Nat.le_of_not_lt h)).symm
  rw [ptegCount, hif', hif, hshift, hmin, hmax, max_comm]

/-- With a table where SDR1 wants it, the field is the logarithm of the size, less 11. -/
theorem sdr1Htabsize_eq {htabRa ptegs : U64} (hra : htabRa &&& sdr1Mask = htabRa)
    (hlo : 2 ^ 11 ≤ ptegs.toNat) (hhi : ptegs.toNat ≤ 2 ^ 39) :
    11 + sdr1Htabsize (mmuInitSdr1 htabRa ptegs) = ptegs.toNat.log2 := by
  have hne : ptegs.toNat ≠ 0 := by omega
  have hlog : 11 ≤ ptegs.toNat.log2 := (Nat.le_log2 hne).mpr hlo
  have hlog' : ptegs.toNat.log2 < 40 := (Nat.log2_lt hne).mpr (by omega)
  have hzero : ptegs ≠ 0 := fun e => hne (by rw [e]; rfl)
  have hdvd : 2 ^ 18 ∣ htabRa.toNat := by
    have hmask : sdr1Mask = ~~~(lowMask 64 18) := by decide
    rw [hmask] at hra
    exact (and_not_lowMask_eq_self htabRa (by omega)).mp hra
  have hfive : (0x1f : U64) = lowMask 64 5 := by decide
  have hint : (BitVec.ofInt 64 (ptegs.toNat.log2 : Int)).toNat = ptegs.toNat.log2 := by
    rw [BitVec.ofInt_natCast, BitVec.toNat_ofNat]
    exact Nat.mod_eq_of_lt (by omega)
  have heleven : (11 : U64).toNat = 11 := rfl
  have hbound := htabRa.isLt
  rw [sdr1Htabsize, hfive, and_lowMask _ (by omega), mmuInitSdr1, ilog2_eq hzero, BitVec.toNat_sub,
    BitVec.toNat_add, hint, heleven]
  omega

/-- The geometry is the architecture's: a power of two, a mask of as many bits as the hardware uses,
and so one index for both. -/
structure Geometry (htabRa ramSize : U64) : Prop where
  pow : ∃ n, (ptegCount ramSize).toNat = 2 ^ n
  mask : (Htab.zeroed (ptegCount ramSize)).hashMask =
    lowMask 64 (11 + sdr1Htabsize (mmuInitSdr1 htabRa (ptegCount ramSize)))
  index : ∀ hash, hash &&& (Htab.zeroed (ptegCount ramSize)).hashMask =
    sdr1Index (mmuInitSdr1 htabRa (ptegCount ramSize)) hash

/-- **The software's mask and the hardware's are one** just when the RAM has as many pages of 8K as
the smallest table has PTEGs or fewer, as the largest has or more, or a power of two. -/
theorem geometry_iff {htabRa : U64} (ramSize : U64) (hra : htabRa &&& sdr1Mask = htabRa) :
    Geometry htabRa ramSize ↔ ramSize.toNat / 2 ^ 13 ≤ 2 ^ 11 ∨ 2 ^ 39 ≤ ramSize.toNat / 2 ^ 13 ∨
      ∃ e, ramSize.toNat / 2 ^ 13 = 2 ^ e := by
  have hcount := ptegCount_toNat ramSize
  constructor
  · rintro ⟨⟨n, hn⟩, -, -⟩
    by_cases hlo : ramSize.toNat / 2 ^ 13 ≤ 2 ^ 11
    · exact Or.inl hlo
    by_cases hhi : 2 ^ 39 ≤ ramSize.toNat / 2 ^ 13
    · exact Or.inr (Or.inl hhi)
    refine Or.inr (Or.inr ⟨n, ?_⟩)
    rw [← hn, hcount, max_eq_left (by omega), min_eq_left (by omega)]
  · intro h
    have hpow : ∃ n, (ptegCount ramSize).toNat = 2 ^ n := by
      rw [hcount]
      rcases h with h | h | ⟨e, h⟩
      · exact ⟨11, by rw [max_eq_right h]; rfl⟩
      · exact ⟨39, by rw [max_eq_left (by omega), min_eq_right h]⟩
      · rw [h]
        rcases le_total (2 ^ e) (2 ^ 11) with hle | hle
        · exact ⟨11, by rw [max_eq_right hle]; rfl⟩
        · rw [max_eq_left hle]
          rcases le_total (2 ^ e) (2 ^ 39) with hle' | hle'
          · exact ⟨e, min_eq_left hle'⟩
          · exact ⟨39, min_eq_right hle'⟩
    obtain ⟨n, hn⟩ := hpow
    have hlo : 2 ^ 11 ≤ (ptegCount ramSize).toNat := by
      rw [hcount]
      exact le_min (le_max_right _ _) (by omega)
    have hhi : (ptegCount ramSize).toNat ≤ 2 ^ 39 := by
      rw [hcount]
      exact min_le_right _ _
    have hmask : (Htab.zeroed (ptegCount ramSize)).hashMask =
        lowMask 64 (11 + sdr1Htabsize (mmuInitSdr1 htabRa (ptegCount ramSize))) := by
      have hn64 : n < 64 := by
        rw [hn] at hhi
        exact Nat.lt_of_le_of_lt ((Nat.pow_le_pow_iff_right (by omega)).mp hhi) (by omega)
      have hval : ptegCount ramSize = BitVec.ofNat 64 (2 ^ n) := by
        apply BitVec.eq_of_toNat_eq
        rw [hn, BitVec.toNat_ofNat, Nat.mod_eq_of_lt (Nat.pow_lt_pow_right (by omega) hn64)]
      rw [sdr1Htabsize_eq hra hlo hhi, hn, Nat.log2_two_pow, ← sub_one_eq_lowMask hn64, ← hval]
      rfl
    exact ⟨⟨n, hn⟩, hmask, fun hash => by rw [hmask, sdr1Index]⟩

/-- The table that `cpu_init` asks for, of 4 GiB. -/
theorem geometry_iff_sample : Geometry 0x4000000 0x100000000 :=
  (geometry_iff 0x100000000 (by decide)).mpr (Or.inr (Or.inr ⟨19, by decide⟩))

/-- A machine of 3 GiB has a table of `3 * 2 ^ 17` PTEGs. -/
theorem geometry_misses : ¬ ∀ htabRa ramSize : U64, htabRa &&& sdr1Mask = htabRa →
    Geometry htabRa ramSize := by
  intro h
  obtain ⟨⟨n, hn⟩, -, -⟩ := h 0x4000000 0xc0000000 (by decide)
  have hcount : (ptegCount 0xc0000000).toNat = 3 * 2 ^ 17 := by decide
  rw [hcount] at hn
  -- between two consecutive powers
  have hlo : 18 < n := (Nat.pow_lt_pow_iff_right (a := 2) (by omega)).mp (by omega)
  have hhi : n < 19 := (Nat.pow_lt_pow_iff_right (a := 2) (by omega)).mp (by omega)
  omega

/-! ### `vpn_hash` -/

/-- The primary hash of the architecture, as the hash of a 256M and of a 1T segment. -/
def hptHash (vpn : U64) (segSize : SegSize) (base : PageSize) : U64 :=
  let shift := segSize.shift - vpnShift
  let vsid := vpn >>> shift
  let page := (vpn &&& ((1#64 <<< shift) - 1)) >>> (base.shift - vpnShift)
  let hash := match segSize with
    | .seg256M => vsid ^^^ page
    | .seg1T => vsid ^^^ (vsid <<< 25) ^^^ page
  hash &&& lowMask 64 39

/-- An `xor` under a mask is the one without a summand just when the mask keeps nothing of that. -/
theorem xor_and_eq_iff {w : Nat} (a s p m : BitVec w) :
    (a ^^^ s ^^^ p) &&& m = (a ^^^ p) &&& m ↔ s &&& m = 0 := by
  have hxor : (a ^^^ s ^^^ p) ^^^ (a ^^^ p) = s := by
    ext i hi
    simp only [BitVec.getElem_xor]
    cases a[i] <;> cases s[i] <;> cases p[i] <;> rfl
  rw [← xor_and_eq_zero_iff, hxor]
  rfl

/-- What a mask of `k` bits keeps of a word shifted left by 25. -/
theorem shiftLeft_and_eq_zero_iff (x : U64) {k : Nat} (hk : k ≤ 39) :
    (x <<< 25) &&& lowMask 64 k = 0 ↔ k ≤ 25 ∨ x.toNat % 2 ^ (k - 25) = 0 := by
  have hval : ((x <<< 25) &&& lowMask 64 k).toNat = 2 ^ 25 * x.toNat % 2 ^ k := by
    rw [and_lowMask _ (by omega), BitVec.toNat_shiftLeft, Nat.shiftLeft_eq,
      Nat.mod_mod_of_dvd _ (Nat.pow_dvd_pow 2 (by omega)), Nat.mul_comm]
  rw [eq_zero_iff, hval]
  by_cases hle : k ≤ 25
  · have hdvd : 2 ^ k ∣ 2 ^ 25 * x.toNat := (Nat.pow_dvd_pow 2 hle).mul_right _
    exact ⟨fun _ => Or.inl hle, fun _ => Nat.mod_eq_zero_of_dvd hdvd⟩
  · have hsplit : 2 ^ k = 2 ^ 25 * 2 ^ (k - 25) := by
      rw [← Nat.pow_add]
      congr 1
      omega
    rw [hsplit, Nat.mul_mod_mul_left]
    constructor
    · intro h
      exact Or.inr (by omega)
    · intro h
      rw [h.resolve_left hle, Nat.mul_zero]

/-- **The software's hash is the architecture's** for 1T segments, and for a 256M segment just when
the table has at most `2 ^ 25` PTEGs or the VSID has zeros where the index has bits above 25. -/
theorem vpnHash_arch_iff (vpn : U64) (seg : SegSize) (base : PageSize) {k : Nat} (hk : k ≤ 39) :
    vpnHash vpn seg base &&& (BitVec.ofNat 64 (2 ^ k) - 1) =
        hptHash vpn seg base &&& (BitVec.ofNat 64 (2 ^ k) - 1) ↔
      seg = .seg1T ∨ k ≤ 25 ∨ (vpn >>> (seg.shift - vpnShift)).toNat % 2 ^ (k - 25) = 0 := by
  have hmask : 0x7fffffffff#64 = lowMask 64 39 := by decide
  cases seg with
  | seg1T =>
    rw [vpnHash, hptHash, hmask]
    simp
  | seg256M =>
    have hboth : lowMask 64 39 &&& lowMask 64 k = lowMask 64 k := by
      apply BitVec.eq_of_toNat_eq
      have hle : 2 ^ k ≤ 2 ^ 39 := Nat.pow_le_pow_right (by omega) hk
      rw [BitVec.and_comm, and_lowMask _ (by omega), lowMask_toNat (by omega)]
      exact Nat.mod_eq_of_lt (by omega)
    rw [sub_one_eq_lowMask (by omega), vpnHash, hptHash, hmask, BitVec.and_assoc,
      BitVec.and_assoc, hboth, xor_and_eq_iff, shiftLeft_and_eq_zero_iff _ hk]
    simp

/-- A table of `2 ^ 25` PTEGs, VSID 1. -/
theorem vpnHash_arch_iff_sample :
    vpnHash 0x10005 .seg256M .page4K &&& (BitVec.ofNat 64 (2 ^ 25) - 1) =
      hptHash 0x10005 .seg256M .page4K &&& (BitVec.ofNat 64 (2 ^ 25) - 1) :=
  (vpnHash_arch_iff 0x10005 .seg256M .page4K (by omega)).mpr (Or.inr (Or.inl (Nat.le_refl 25)))

/-- A table of `2 ^ 26` PTEGs, VSID 1. -/
theorem vpnHash_not_arch : ¬ ∀ (vpn : U64) (seg : SegSize) (base : PageSize) (k : Nat), 11 ≤ k →
    k ≤ 39 → vpnHash vpn seg base &&& (BitVec.ofNat 64 (2 ^ k) - 1) =
      hptHash vpn seg base &&& (BitVec.ofNat 64 (2 ^ k) - 1) := by
  intro h
  have h26 := h 0x10000 .seg256M .page4K 26 (by omega) (by omega)
  revert h26
  decide

end Prephv
