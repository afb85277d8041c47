import Prephv.Lib.Words

/-!
# Defs — types, assertions and constants

The integer types of `types.h`, `BUG_ON` of `assert.h`, the alignment macros of `defs.h`, and the
constants of `layout.h` and `ppc-defs.h` that the modelled code reads, each under its own name.

`uint64_t` and `uint32_t` are words of 64 and 32 bits with wrapping arithmetic.  A `BUG_ON` that
fires logs a fatal error and never returns, so a function that may stop there has a result in
`Res`, whose error is the text of the assertion.
-/

set_option autoImplicit false

namespace Prephv

open Words

/-! ### `types.h` -/

/-- `uint64_t`, and with it `ea_t`, `ra_t`, `length_t`, `size_t` and `prot_t`. -/
abbrev U64 := BitVec 64

/-- `uint32_t`. -/
abbrev U32 := BitVec 32

/-- `err_t`. -/
inductive Err where
  | none | notReady | unsupported | noMem | notFound | invalid
  deriving DecidableEq, Repr

/-! ### `assert.h` -/

/-- A `BUG_ON` that fired: the hypervisor hangs in `FATAL`. -/
structure Bug where
  msg : String
  deriving DecidableEq, Repr

/-- The result of code that may stop at an assertion. -/
abbrev Res (α : Type) := Except Bug α

/-- `BUG_ON(x, fmt, …)`. -/
def bugOn (x : Prop) [Decidable x] (fmt : String) : Res Unit :=
  if x then .error ⟨fmt⟩ else .ok ()

@[simp] theorem bugOn_eq_ok {x : Prop} [Decidable x] {fmt : String} {u : Unit} :
    bugOn x fmt = .ok u ↔ ¬ x := by
  unfold bugOn; split <;> simp_all

theorem bugOn_neg {x : Prop} [Decidable x] {fmt : String} (h : ¬ x) : bugOn x fmt = .ok () :=
  if_neg h

/-- The code after an assertion runs when the assertion does not fire. -/
theorem bugOn_bind_eq_ok {β : Type} {x : Prop} [Decidable x] {fmt : String}
    {f : Unit → Res β} {b : β} : (bugOn x fmt >>= f) = .ok b ↔ ¬ x ∧ f () = .ok b := by
  unfold bugOn
  split
  · next hx => simp [hx, bind, Except.bind]
  · next hx => simp [hx, bind, Except.bind]

@[simp] theorem ok_bind {ε α β : Type} (a : α) (f : α → Except ε β) :
    (Except.ok a >>= f) = f a := rfl

@[simp] theorem error_bind {ε α β : Type} (e : ε) (f : α → Except ε β) :
    (Except.error e >>= f) = .error e := rfl

/-- A sequence returns when both its parts do. -/
theorem bind_eq_ok {ε α β : Type} {x : Except ε α} {f : α → Except ε β} {b : β} :
    (x >>= f) = .ok b ↔ ∃ a, x = .ok a ∧ f a = .ok b := by
  cases x with
  | error e => simp [bind, Except.bind]
  | ok a => simp [bind, Except.bind]

/-- A result that is not an error is some value. -/
theorem exists_of_isOk {α : Type} {x : Res α} (h : x.isOk = true) : ∃ a, x = .ok a := by
  cases x with
  | error e => cases h
  | ok a => exact ⟨a, rfl⟩

/-! ### `defs.h` -/

/-- `ALIGN(x, a)`. -/
def align {w : Nat} (x a : BitVec w) : BitVec w := x &&& ~~~(a - 1)

/-- `ALIGN_UP(x, a)`. -/
def alignUp {w : Nat} (x a : BitVec w) : BitVec w :=
  if x &&& (a - 1) = 0 then x else (x + (a - 1)) &&& ~~~(a - 1)

theorem sub_one_eq_lowMask {w k : Nat} (hk : k < w) :
    BitVec.ofNat w (2 ^ k) - 1 = lowMask w k := by
  have hlt : 2 ^ k < 2 ^ w := Nat.pow_lt_pow_right (by decide) hk
  have hpos := Nat.two_pow_pos k
  have hk' : (BitVec.ofNat w (2 ^ k)).toNat = 2 ^ k := by
    rw [BitVec.toNat_ofNat, Nat.mod_eq_of_lt hlt]
  have hone : (1 : BitVec w).toNat = 1 := by
    show (BitVec.ofNat w 1).toNat = 1
    rw [BitVec.toNat_ofNat, Nat.mod_eq_of_lt (by omega)]
  apply BitVec.eq_of_toNat_eq
  rw [lowMask_toNat (by omega), BitVec.toNat_sub_of_le, hk', hone]
  show (1 : BitVec w).toNat ≤ (BitVec.ofNat w (2 ^ k)).toNat
  omega

/-- Aligning up to `2 ^ k`, where it does not wrap. -/
theorem alignUp_toNat {w k : Nat} (hk : k < w) {x : BitVec w}
    (hx : x.toNat + (2 ^ k - 1) < 2 ^ w) :
    (alignUp x (BitVec.ofNat w (2 ^ k))).toNat = (x.toNat + (2 ^ k - 1)) / 2 ^ k * 2 ^ k := by
  have hpos := Nat.two_pow_pos k
  have hz : (x &&& lowMask w k = 0) ↔ x.toNat % 2 ^ k = 0 := by
    rw [← and_lowMask x (by omega)]
    exact eq_zero_iff
  rw [alignUp, sub_one_eq_lowMask hk]
  split
  · next h =>
    obtain ⟨q, hq⟩ := Nat.dvd_of_mod_eq_zero (hz.mp h)
    have hpred : (2 ^ k - 1) / 2 ^ k = 0 := Nat.div_eq_of_lt (by omega)
    rw [hq, Nat.mul_add_div hpos, hpred, Nat.add_zero, Nat.mul_comm]
  · rw [and_not_lowMask _ (by omega), BitVec.toNat_add, lowMask_toNat (by omega),
      Nat.mod_eq_of_lt hx]

theorem pred_toNat {a : U64} (h : 0 < a.toNat) : (a - 1).toNat = a.toNat - 1 := by
  rw [BitVec.toNat_sub_of_le (show (1 : U64) ≤ a from h)]
  rfl

/-- Aligning up does not go down, whatever the alignment, where it does not wrap. -/
theorem le_alignUp {w : Nat} {x a : BitVec w} (hx : x.toNat + (a - 1).toNat < 2 ^ w) :
    x.toNat ≤ (alignUp x a).toNat := by
  unfold alignUp
  split
  · exact Nat.le_refl _
  · have hsum : (x + (a - 1)).toNat = x.toNat + (a - 1).toNat := by
      rw [BitVec.toNat_add]
      exact Nat.mod_eq_of_lt hx
    have hsplit := and_add_and_not (x + (a - 1)) (a - 1)
    have hmask : ((x + (a - 1)) &&& (a - 1)).toNat ≤ (a - 1).toNat := by
      rw [BitVec.toNat_and]
      exact Nat.and_le_right
    omega

/-- `MASK_OFF(value, larger, smaller)`: the bits `smaller`..`larger`. -/
def maskOff {w : Nat} (value : BitVec w) (larger smaller : Nat) : Nat :=
  (value.toNat >>> smaller) % 2 ^ (larger + 1 - smaller)

/-- `MB(x)`. -/
def MB (x : Nat) : U64 := BitVec.ofNat 64 (x * 1024 * 1024)

/-! ### `layout.h` -/

def layoutVmStart : U64 := 0x0000000000000000#64
def layoutVmEnd : U64 := 0x0000000100000000#64

/-! ### `ppc-defs.h` -/

def hvAspace : U64 := 0x8000000000000000#64
def ailAspaceStart : U64 := 0xc000000000000000#64
def ailVectors : U64 := 0xc000000000004000#64
def ailAspaceEnd : U64 := 0xc000000000100000#64

def msrIrLg : Nat := 5
def msrDrLg : Nat := 4
/-- `MSR_IR | MSR_DR`, in the low word. -/
def msrIrDr : U32 := (1#32 <<< msrIrLg) ||| (1#32 <<< msrDrLg)

def pageShift : Nat := 12
def pageShift16M : Nat := 24
def pageMask16M : U64 := ~~~(0x1000000#64 - 1)
def sidShift1T : Nat := 40
def sidShift256MB : Nat := 28

def ptegSize : U64 := 128
def ptesPerGroup : Nat := 8
def minPtegs : U64 := 1#64 <<< 11
def maxPtegs : U64 := 1#64 <<< (11 + 28)
def htabAlign : U64 := minPtegs * ptegSize
def sdr1Mask : U64 := ~~~(htabAlign - 1) ||| 0xF000000000000000#64

def srCount : Nat := 16
def srVsidMask : U32 := 0xFFFFFF#32
def srVsidShift : Nat := 0

def esidMask1T : U64 := 0xffffff0000000000#64
def esidMask256MB : U64 := 0xfffffffff0000000#64

def slbieB1T : U64 := 1#64 <<< 25
def slbEsidV : U64 := 0x0000000008000000#64
def slbVsidShift1T : Nat := 24
def slbVsidShift256MB : Nat := 12
def slbVsidB1T : U64 := 1#64 <<< (63 - 1)
def slbVsidKP : U64 := 1#64 <<< (63 - 53)
def slbVsidL : U64 := 1#64 <<< (63 - 55)
def slbVsidLpShift : Nat := 63 - 58
def slbVsidLp16M : U64 := 0
def slbVsidLp4K : U64 := 0

def pteV1TBSeg : U64 := 0x4000000000000000#64
def pteVAvpnShift : Nat := 7
def pteVAvpn : U64 := 0x3fffffffffffff80#64
def pteVLarge : U64 := 0x0000000000000004#64
def pteVValid : U64 := 0x0000000000000001#64

def pteRPP0 : U64 := 0x8000000000000000#64
def pteRRpn4K : U64 := 0x0ffffffffffff000#64
def pteRRpn16M : U64 := 0x0fffffffff000000#64
def pteRPP : U64 := 0x0000000000000003#64
def pteRM : U64 := 0x0000000000000010#64
def pteRLpMask : U64 := 0xff000#64
def pteRLpShift : Nat := 12
def pteRLp4K4K : U64 := 0
def pteRLp4K16M : U64 := 0x38
def pteRLp16M16M : U64 := 0

/-- `PP_RWXX`: supervisor read/write, user none. -/
def ppRWXX : U64 := 0
/-- `PP_RWRX`: supervisor read/write, user read. -/
def ppRWRX : U64 := 1
/-- `PP_RWRW`: supervisor read/write, user read/write. -/
def ppRWRW : U64 := 2
/-- `PP_RXRX`: supervisor read, user read. -/
def ppRXRX : U64 := 3
/-- `PP_RXXX`: supervisor read, user none. -/
def ppRXXX : U64 := pteRPP0 ||| 2

end Prephv
