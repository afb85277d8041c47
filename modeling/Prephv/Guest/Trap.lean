import Prephv.Lib.Forms
import Prephv.Guest.Update
import Prephv.Rom.Read

/-!
# Guest — Trap

`guest_exc_try` for a program interrupt or an emulation assistance interrupt (`EXC_PROG`,
`EXC_HEA`): the hypervisor reads the instruction at the guest's PC and does what it says.

`guestExcProg` is the code's chain of mask tests.  The lemmas after it say what it does for each
instruction, in the architecture's numbering of fields (`Power.decode`).
-/

set_option autoImplicit false

namespace Prephv

open Power (Insn decode opcd xo reg field sprField)

/-! ### `ppc-defs.h` -/

def sprnSdr1 : Nat := 0x19
def sprnSrr0 : Nat := 0x1a
def sprnSrr1 : Nat := 0x1b
def sprnSprg0 : Nat := 0x110
def sprnSprg3 : Nat := 0x113
def sprnPvr : Nat := 0x11f
def sprnIbat0u : Nat := 0x210
def sprnDbat3l : Nat := 0x21f

def msrSf : U64 := 1#64 <<< 63
def msrPr : U64 := 1#64 <<< 14

/-! ### `guest.c` -/

def ppcInstMask : U32 := 0xfc0007fe
def ppcInstMtspr : U32 := 0x7c0003a6
def ppcInstMfspr : U32 := 0x7c0002a6
def ppcInstMtmsr : U32 := 0x7c000124
def ppcInstMfmsr : U32 := 0x7c0000a6
def ppcInstMfsr : U32 := 0x7c0004a6
def ppcInstRfi : U32 := 0x4c000064

/-- `eframe_t`: the guest's registers; `gpr` are `r0`..`r31`. -/
structure Eframe where
  gpr : Fin 32 → U64
  cr : U64
  hsrr0 : U64
  hsrr1 : U64

/-- What `guest_exc_try` reads and writes. -/
structure TrapState where
  guest : Guest
  slb : Slb
  rtc0 : U32
  frame : Eframe
  mem : Memory

/-- `R(x)`. -/
def TrapState.r (s : TrapState) (x : Nat) : U64 := s.frame.gpr (Fin.ofNat 32 x)

/-- The state with a word in a general register. -/
def TrapState.setGpr (s : TrapState) (x : Fin 32) (v : U32) : TrapState :=
  { s with frame.gpr := Function.update s.frame.gpr x (v.setWidth 64) }

/-- `R(x) = v`, for a `uint32_t`. -/
def TrapState.setR (s : TrapState) (x : Nat) (v : U32) : TrapState := s.setGpr (Fin.ofNat 32 x) v

/-- `frame->hsrr0 += 4`. -/
def TrapState.next (s : TrapState) : TrapState := { s with frame.hsrr0 := s.frame.hsrr0 + 4 }

/-- `batp[i]`, over `ibat` and the `dbat` behind it. -/
def Guest.batAt (g : Guest) (i : Nat) : U32 := (g.ibat ++ g.dbat)[i]?.getD 0

/-- `batp[i] = v`. -/
def Guest.setBat (g : Guest) (i : Nat) (v : U32) : Guest :=
  if i < 8 then { g with ibat := g.ibat.setIfInBounds i v }
  else { g with dbat := g.dbat.setIfInBounds (i - 8) v }

/-- `sprg[i]`. -/
def Guest.sprgAt (g : Guest) (i : Nat) : U32 := g.sprg[i]?.getD 0

/-- `sprg[i] = v`. -/
def Guest.setSprg (g : Guest) (i : Nat) (v : U32) : Guest :=
  { g with sprg := g.sprg.setIfInBounds i v }

/-- The `switch` of an `mtspr`.  The message about a BAT, an SPRG or SDR1 asks whether the MMU is
off. -/
def guestMtspr (g : Guest) (spr : Nat) (v : U32) : Res Guest :=
  if spr = sprnSrr0 then .ok { g with srr0 := v }
  else if spr = sprnSrr1 then .ok { g with srr1 := v }
  else if sprnIbat0u ≤ spr ∧ spr ≤ sprnDbat3l then do
    let g := g.setBat (spr - sprnIbat0u) v
    let _ ← guestIsMmuOff (some g)
    return g
  else if sprnSprg0 ≤ spr ∧ spr ≤ sprnSprg3 then do
    let g := g.setSprg (spr - sprnSprg0) v
    let _ ← guestIsMmuOff (some g)
    return g
  else if spr = sprnSdr1 then do
    let g := { g with sdr1 := v }
    let _ ← guestIsMmuOff (some g)
    return g
  else if spr = 1008 then .ok { g with hid0 := v }
  else .error ⟨"0x%x: unhandled MTSPR %u, r%u"⟩

/-- The word that an `mfspr` from `SPRG0 + n` is overwritten with. -/
def sprgIsn (isn : U32) (n : Nat) : U32 :=
  0xe8000000 ||| (isn &&& 0x03e00000) ||| (BitVec.ofNat 32 n &&& 0x0000fffc)

/-- The `switch` of an `mfspr`. -/
def guestMfspr (s : TrapState) (reg spr : Nat) : TrapState :=
  if spr = sprnSrr0 then s.setR reg s.guest.srr0
  else if spr = sprnSrr1 then s.setR reg s.guest.srr1
  else if spr = sprnPvr then s.setR reg s.guest.pvr
  else if sprnIbat0u ≤ spr ∧ spr ≤ sprnDbat3l then
    s.setR reg (s.guest.batAt (spr - sprnIbat0u))
  else if sprnSprg0 ≤ spr ∧ spr ≤ sprnSprg3 then
    let isn := s.frame.hsrr0
    { s.setR reg (s.guest.sprgAt (spr - sprnSprg0)) with
      mem := storeBytes s.mem isn (le32Bytes (sprgIsn (le32 s.mem isn) (spr - sprnSprg0))) }
  else if spr = sprnSdr1 then s.setR reg s.guest.sdr1
  else if spr = 4 then { s.setR reg s.rtc0 with rtc0 := s.rtc0 + 1 }
  else if spr = 5 then s.setR reg 0
  else if spr = 1008 then s.setR reg s.guest.hid0
  else s

/-- `spr`, with its two halves put right. -/
def sprOf (i : U32) : Nat :=
  let spr := maskOff i 20 11
  ((spr &&& 0x1f) <<< 5) ||| ((spr &&& 0x3e0) >>> 5)

/-- `!x`. -/
def lnot (x : U64) : U64 := if x = 0 then 1 else 0

/-- What the code takes for a count of leading zeros. -/
def guestCntlzw (s : TrapState) (i : U32) : TrapState :=
  let rA := maskOff i 15 11
  let rS := maskOff i 10 6
  let rC := maskOff i 31 30
  let v : U32 := (s.r rS).setWidth 32
  let s := s.setR rA (if v ≠ 0 then v.clz else 32)
  if rC ≠ 0 then { s with frame.cr := s.frame.cr &&& lnot 0xf0000000 } else s

/-- `*i`: the instruction that trapped. -/
def TrapState.isn (s : TrapState) : U32 := le32 s.mem s.frame.hsrr0

/-- `guest_exc_try`, from the instruction on. -/
def guestExcProg (s : TrapState) : Res (Err × TrapState) :=
  let i := s.isn
  if i &&& ppcInstMask = ppcInstMfsr then
    .ok (.none, (s.setR (maskOff i 25 21) (s.guest.srAt (maskOff i 19 16))).next)
  else if i &&& ppcInstMask = ppcInstMfmsr then
    .ok (.none, (s.setR (maskOff i 25 21) s.guest.msr).next)
  else if i &&& ppcInstMask = ppcInstMtmsr then do
    let (guest, slb) ← guestUpdateMsr s.guest s.slb ((s.r (maskOff i 25 21)).setWidth 32)
    return (.none, { s with guest, slb }.next)
  else if i &&& ppcInstMask = ppcInstMtspr then do
    let guest ← guestMtspr s.guest (sprOf i) ((s.r (maskOff i 25 21)).setWidth 32)
    return (.none, { s with guest }.next)
  else if i &&& ppcInstMask = ppcInstMfspr then
    .ok (.none, (guestMfspr s (maskOff i 25 21) (sprOf i)).next)
  else if i &&& ppcInstMask = ppcInstRfi then do
    let (guest, slb) ← guestUpdateMsr s.guest s.slb s.guest.srr1
    return (.none, { s with guest, slb, frame.hsrr0 := guest.srr0.setWidth 64 })
  else if i >>> 26 = 0x1f then
    .ok (.none, (guestCntlzw s i).next)
  else
    .ok (.unsupported, s)

/-- `guest_exc_try`, for `EXC_PROG` and `EXC_HEA`. -/
def guestExcTry (s : TrapState) : Res (Err × TrapState) :=
  if s.frame.hsrr1 &&& msrSf ≠ 0 then .ok (.unsupported, s)
  else do
    bugOn (s.frame.hsrr1 &&& msrPr = 0) "32-bit non-PR"
    guestExcProg s

/-! ### What the masks test -/

section Decoding

variable (i : U32)

/-- Each test is one for both opcodes. -/
theorem and_ppcInst {c : U32} (op x : Nat) (hc : c = Power.opcodes op x) (hop : op < 2 ^ 6)
    (hx : x < 2 ^ 10) : i &&& ppcInstMask = c ↔ opcd i = op ∧ xo i = x := by
  rw [hc]
  exact Power.and_opcodes_eq_iff i hop hx

theorem and_mfsr : i &&& ppcInstMask = ppcInstMfsr ↔ opcd i = 31 ∧ xo i = 595 :=
  and_ppcInst i 31 595 (by decide) (by decide) (by decide)

theorem and_mfmsr : i &&& ppcInstMask = ppcInstMfmsr ↔ opcd i = 31 ∧ xo i = 83 :=
  and_ppcInst i 31 83 (by decide) (by decide) (by decide)

theorem and_mtmsr : i &&& ppcInstMask = ppcInstMtmsr ↔ opcd i = 31 ∧ xo i = 146 :=
  and_ppcInst i 31 146 (by decide) (by decide) (by decide)

theorem and_mtspr : i &&& ppcInstMask = ppcInstMtspr ↔ opcd i = 31 ∧ xo i = 467 :=
  and_ppcInst i 31 467 (by decide) (by decide) (by decide)

theorem and_mfspr : i &&& ppcInstMask = ppcInstMfspr ↔ opcd i = 31 ∧ xo i = 339 :=
  and_ppcInst i 31 339 (by decide) (by decide) (by decide)

theorem and_rfi : i &&& ppcInstMask = ppcInstRfi ↔ opcd i = 19 ∧ xo i = 50 :=
  and_ppcInst i 19 50 (by decide) (by decide) (by decide)

theorem shiftRight_opcd : i >>> 26 = 0x1f ↔ opcd i = 31 := by
  have hi := i.isLt
  have hop : (i >>> 26).toNat = opcd i := by
    rw [BitVec.toNat_ushiftRight, opcd, field, Nat.shiftRight_eq_div_pow]
    omega
  rw [← BitVec.toNat_inj, hop]
  rfl

theorem maskOff_rt : Fin.ofNat 32 (maskOff i 25 21) = reg i 6 := rfl

theorem maskOff_rt_val : maskOff i 25 21 = (reg i 6).val :=
  (Nat.mod_eq_of_lt (Power.field_lt i 6 10)).symm

/-- The swap of the two halves. -/
theorem sprOf_eq : sprOf i = sprField i := by
  have hlow : maskOff i 20 11 &&& 0x1f = field i 16 20 := by
    rw [show 0x1f = 2 ^ 5 - 1 from rfl, Nat.and_two_pow_sub_one_eq_mod, maskOff, field,
      Nat.shiftRight_eq_div_pow]
    omega
  have hhigh : (maskOff i 20 11 &&& 0x3e0) >>> 5 = field i 11 15 := by
    rw [Nat.shiftRight_and_distrib, show 0x3e0 >>> 5 = 2 ^ 5 - 1 from rfl,
      Nat.and_two_pow_sub_one_eq_mod, maskOff, field, Nat.shiftRight_eq_div_pow,
      Nat.shiftRight_eq_div_pow, Nat.shiftRight_eq_div_pow]
    omega
  have hlt : field i 11 15 < 2 ^ 5 := Power.field_lt i 11 15
  rw [sprOf, hlow, hhigh, ← Nat.shiftLeft_add_eq_or_of_lt hlt, Nat.shiftLeft_eq, sprField,
    Nat.mul_comm]

end Decoding

/-! ### What the code does for each instruction -/

section Insn

variable {s : TrapState} {rt rs : Fin 32} {spr sr : Nat}

theorem guestExcProg_mfsr (h : decode s.isn = some (.mfsr rt sr)) :
    guestExcProg s = .ok (.none, (s.setGpr rt (s.guest.srAt sr)).next) := by
  obtain ⟨hop, hx, rfl, rfl⟩ := Power.decode_eq_some.mp h
  exact if_pos ((and_mfsr _).mpr ⟨hop, hx⟩)

theorem guestExcProg_mfmsr (h : decode s.isn = some (.mfmsr rt)) :
    guestExcProg s = .ok (.none, (s.setGpr rt s.guest.msr).next) := by
  obtain ⟨hop, hx, rfl⟩ := Power.decode_eq_some.mp h
  simp [guestExcProg, and_mfsr, and_mfmsr, hop, hx, TrapState.setR, maskOff_rt,
    -Fin.ofNat_eq_cast]

theorem guestExcProg_mtmsr (h : decode s.isn = some (.mtmsr rs)) :
    guestExcProg s = do
      let (guest, slb) ← guestUpdateMsr s.guest s.slb ((s.frame.gpr rs).setWidth 32)
      return (.none, { s with guest, slb }.next) := by
  obtain ⟨hop, hx, rfl⟩ := Power.decode_eq_some.mp h
  simp [guestExcProg, and_mfsr, and_mfmsr, and_mtmsr, hop, hx, TrapState.r, maskOff_rt,
    -Fin.ofNat_eq_cast]

theorem guestExcProg_mtspr (h : decode s.isn = some (.mtspr spr rs)) :
    guestExcProg s = do
      let guest ← guestMtspr s.guest spr ((s.frame.gpr rs).setWidth 32)
      return (.none, { s with guest }.next) := by
  obtain ⟨hop, hx, rfl, rfl⟩ := Power.decode_eq_some.mp h
  simp [guestExcProg, and_mfsr, and_mfmsr, and_mtmsr, and_mtspr, hop, hx, TrapState.r, maskOff_rt,
    sprOf_eq, -Fin.ofNat_eq_cast]

theorem guestExcProg_mfspr (h : decode s.isn = some (.mfspr rt spr)) :
    guestExcProg s = .ok (.none, (guestMfspr s rt spr).next) := by
  obtain ⟨hop, hx, rfl, rfl⟩ := Power.decode_eq_some.mp h
  simp [guestExcProg, and_mfsr, and_mfmsr, and_mtmsr, and_mtspr, and_mfspr, hop, hx, sprOf_eq,
    maskOff_rt_val]

theorem guestExcProg_rfi (h : decode s.isn = some .rfi) :
    guestExcProg s = do
      let (guest, slb) ← guestUpdateMsr s.guest s.slb s.guest.srr1
      return (.none, { s with guest, slb, frame.hsrr0 := guest.srr0.setWidth 64 }) := by
  obtain ⟨hop, hx⟩ := Power.decode_eq_some.mp h
  simp [guestExcProg, and_mfsr, and_mfmsr, and_mtmsr, and_mtspr, and_mfspr, and_rfi, hop, hx]

/-- What the catch-all does: it takes the register fields from the wrong end of the word, and the
two upper bits of the primary opcode, which are never both zero, for `Rc`. -/
theorem guestCntlzw_eq (s : TrapState) {i : U32} (h : opcd i = 31) :
    guestCntlzw s i =
      { s.setGpr (reg i 16) (((s.frame.gpr (reg i 21)).setWidth 32 : U32).clz) with
        frame.cr := 0 } := by
  have hrc : maskOff i 31 30 ≠ 0 := by
    have hi := i.isLt
    rw [opcd, field, Nat.shiftRight_eq_div_pow] at h
    rw [maskOff, Nat.shiftRight_eq_div_pow]
    omega
  have hclz : ∀ v : U32, (if v ≠ 0 then v.clz else 32) = v.clz := by
    intro v
    by_cases hv : v = 0
    · rw [hv]
      decide
    · exact if_pos hv
  have hnot : lnot 0xf0000000 = 0 := by decide
  have hand : ∀ x : U64, x &&& 0 = 0 := fun x => BitVec.and_zero
  dsimp only [guestCntlzw]
  rw [if_pos hrc, hclz, hnot, hand]
  rfl

/-- What is none of those goes by the primary opcode. -/
theorem guestExcProg_rest
    (h : ∀ i, decode s.isn = some i → ∃ ra rs rc, i = .cntlzw ra rs rc) :
    guestExcProg s =
      if opcd s.isn = 31 then .ok (.none, (guestCntlzw s s.isn).next)
      else .ok (.unsupported, s) := by
  have hnot : ∀ i : Insn, (∀ ra rs rc, i ≠ .cntlzw ra rs rc) → ¬ i.Encoded s.isn := by
    intro i hi henc
    obtain ⟨ra, rs, rc, e⟩ := h i (Power.decode_eq_some.mpr henc)
    exact hi ra rs rc e
  have hmfsr : ¬ (opcd s.isn = 31 ∧ xo s.isn = 595) := fun ⟨hop, hx⟩ =>
    hnot (.mfsr _ _) nofun ⟨hop, hx, rfl, rfl⟩
  have hmfmsr : ¬ (opcd s.isn = 31 ∧ xo s.isn = 83) := fun ⟨hop, hx⟩ =>
    hnot (.mfmsr _) nofun ⟨hop, hx, rfl⟩
  have hmtmsr : ¬ (opcd s.isn = 31 ∧ xo s.isn = 146) := fun ⟨hop, hx⟩ =>
    hnot (.mtmsr _) nofun ⟨hop, hx, rfl⟩
  have hmtspr : ¬ (opcd s.isn = 31 ∧ xo s.isn = 467) := fun ⟨hop, hx⟩ =>
    hnot (.mtspr _ _) nofun ⟨hop, hx, rfl, rfl⟩
  have hmfspr : ¬ (opcd s.isn = 31 ∧ xo s.isn = 339) := fun ⟨hop, hx⟩ =>
    hnot (.mfspr _ _) nofun ⟨hop, hx, rfl, rfl⟩
  have hrfi : ¬ (opcd s.isn = 19 ∧ xo s.isn = 50) := fun ⟨hop, hx⟩ =>
    hnot .rfi nofun ⟨hop, hx⟩
  rw [guestExcProg]
  simp only [and_mfsr, and_mfmsr, and_mtmsr, and_mtspr, and_mfspr, and_rfi, shiftRight_opcd, hmfsr,
    hmfmsr, hmtmsr, hmtspr, hmfspr, hrfi, if_false]

end Insn

/-- The frame of a 32-bit program. -/
def Eframe.Problem32 (f : Eframe) : Prop := f.hsrr1 &&& msrSf = 0 ∧ f.hsrr1 &&& msrPr ≠ 0

instance (f : Eframe) : Decidable f.Problem32 := inferInstanceAs (Decidable (_ ∧ _))

/-- A 32-bit program's instructions are looked at. -/
theorem guestExcTry_eq {s : TrapState} (h : s.frame.Problem32) :
    guestExcTry s = guestExcProg s := by
  obtain ⟨hsf, hpr⟩ := h
  rw [guestExcTry, if_neg (not_not.mpr hsf), bugOn, if_neg hpr]
  rfl

/-- A trap that is emulated is one of a 32-bit program. -/
theorem guestExcTry_eq_ok {s s' : TrapState} (h : guestExcTry s = .ok (.none, s')) :
    guestExcProg s = .ok (.none, s') := by
  unfold guestExcTry at h
  split at h
  · cases h
  · exact (bugOn_bind_eq_ok.mp h).2

end Prephv
