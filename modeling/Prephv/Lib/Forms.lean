import Prephv.Lib.Power

/-!
# Lib — Forms

The fields of a Power instruction word, numbered as the architecture numbers them, from the most
significant bit.  `decode` reads the words of a few instructions: the moves to and from special,
segment and machine state registers, the return from an interrupt, the count of leading zeros, and
the load of a doubleword.  What a mask over the two opcodes of a word tests is `and_opcodes_eq_iff`.
-/

set_option autoImplicit false

namespace Power

open Words

/-- The bits `a`..`b` of a word; bit 0 is the most significant one. -/
def field (w : BitVec 32) (a b : Nat) : Nat := (w.toNat >>> (31 - b)) % 2 ^ (b + 1 - a)

/-- A field that names a general register. -/
def reg (w : BitVec 32) (a : Nat) : Fin 32 := Fin.ofNat 32 (field w a (a + 4))

/-- The primary opcode. -/
def opcd (w : BitVec 32) : Nat := field w 0 5

/-- The extended opcode of the forms X and XFX. -/
def xo (w : BitVec 32) : Nat := field w 21 30

/-- The number of a special register: its two halves are swapped in the word. -/
def sprField (w : BitVec 32) : Nat := 2 ^ 5 * field w 16 20 + field w 11 15

/-- What a word says. -/
inductive Insn where
  | mfsr (rt : Fin 32) (sr : Nat)
  | mfmsr (rt : Fin 32)
  | mtmsr (rs : Fin 32)
  | mtspr (spr : Nat) (rs : Fin 32)
  | mfspr (rt : Fin 32) (spr : Nat)
  | rfi
  | cntlzw (ra rs : Fin 32) (rc : Bool)
  deriving DecidableEq, Repr

/-- The word encodes the instruction. -/
def Insn.Encoded (w : BitVec 32) : Insn → Prop
  | .mfsr rt sr => opcd w = 31 ∧ xo w = 595 ∧ reg w 6 = rt ∧ field w 12 15 = sr
  | .mfmsr rt => opcd w = 31 ∧ xo w = 83 ∧ reg w 6 = rt
  | .mtmsr rs => opcd w = 31 ∧ xo w = 146 ∧ reg w 6 = rs
  | .mtspr spr rs => opcd w = 31 ∧ xo w = 467 ∧ sprField w = spr ∧ reg w 6 = rs
  | .mfspr rt spr => opcd w = 31 ∧ xo w = 339 ∧ reg w 6 = rt ∧ sprField w = spr
  | .rfi => opcd w = 19 ∧ xo w = 50
  | .cntlzw ra rs rc =>
    opcd w = 31 ∧ xo w = 26 ∧ reg w 11 = ra ∧ reg w 6 = rs ∧ decide (field w 31 31 = 1) = rc

/-- The instruction that a word encodes, of those. -/
def decode (w : BitVec 32) : Option Insn :=
  if opcd w = 31 then
    if xo w = 595 then some (.mfsr (reg w 6) (field w 12 15))
    else if xo w = 83 then some (.mfmsr (reg w 6))
    else if xo w = 146 then some (.mtmsr (reg w 6))
    else if xo w = 467 then some (.mtspr (sprField w) (reg w 6))
    else if xo w = 339 then some (.mfspr (reg w 6) (sprField w))
    else if xo w = 26 then some (.cntlzw (reg w 11) (reg w 6) (field w 31 31 = 1))
    else none
  else if opcd w = 19 ∧ xo w = 50 then some .rfi
  else none

theorem decode_eq_some {w : BitVec 32} {i : Insn} : decode w = some i ↔ i.Encoded w := by
  constructor
  · intro h
    unfold decode at h
    repeat' split at h
    all_goals cases h
    all_goals simp_all [Insn.Encoded]
  · intro h
    cases i <;> simp_all [decode, Insn.Encoded]

/-- The load of a doubleword that a word encodes. -/
def decodeLd (w : BitVec 32) : Option Instr :=
  if opcd w = 58 ∧ field w 30 31 = 0 then
    some (.ld (reg w 6) ((w.setWidth 16 &&& ~~~3#16).signExtend 64) (reg w 11))
  else none

/-- The address of a load, from the registers. -/
def ldAddr (gpr : Fin 32 → Word) (d : Word) (ra : Fin 32) : Word :=
  (if ra = 0 then 0 else gpr ra) + d

/-- An address in 32-bit mode. -/
def addr32 (a : Word) : Word := (a.setWidth 32).setWidth 64

theorem field_lt (w : BitVec 32) (a b : Nat) : field w a b < 2 ^ (b + 1 - a) :=
  Nat.mod_lt _ (Nat.two_pow_pos _)

/-! ### Opcodes under a mask -/

/-- The bits of both opcodes. -/
def opcodeMask : BitVec 32 := 0xfc0007fe

/-- A word with these opcodes, and zeros elsewhere. -/
def opcodes (op x : Nat) : BitVec 32 := BitVec.ofNat 32 (2 ^ 26 * op + 2 * x)

theorem and_opcodeMask (w : BitVec 32) :
    (w &&& opcodeMask).toNat = 2 ^ 26 * opcd w + 2 * xo w := by
  have hmask : opcodeMask = (lowMask 32 11 &&& ~~~(lowMask 32 1)) ||| ~~~(lowMask 32 26) := by
    decide
  have hlow : (w &&& lowMask 32 11 &&& ~~~(lowMask 32 1)).toNat = 2 * xo w := by
    rw [and_not_lowMask _ (by omega), and_lowMask _ (by omega), xo, field,
      Nat.shiftRight_eq_div_pow]
    omega
  have hhigh : (w &&& ~~~(lowMask 32 26)).toNat = 2 ^ 26 * opcd w := by
    have hw := w.isLt
    rw [and_not_lowMask _ (by omega), opcd, field, Nat.shiftRight_eq_div_pow]
    omega
  have hx : xo w < 2 ^ 10 := field_lt w 21 30
  rw [hmask, BitVec.and_comm, or_and_distrib, BitVec.and_comm _ w, BitVec.and_comm _ w,
    ← BitVec.and_assoc, or_toNat (k := 26) (by rw [hlow]; omega)
      (by rw [hhigh]; exact Nat.dvd_mul_right ..), hlow, hhigh]

/-- What the mask tests: both opcodes. -/
theorem and_opcodes_eq_iff (w : BitVec 32) {op x : Nat} (hop : op < 2 ^ 6) (hx : x < 2 ^ 10) :
    w &&& opcodeMask = opcodes op x ↔ opcd w = op ∧ xo w = x := by
  have hxw : xo w < 2 ^ 10 := field_lt w 21 30
  have hval : (opcodes op x).toNat = 2 ^ 26 * op + 2 * x := by
    rw [opcodes, BitVec.toNat_ofNat]
    exact Nat.mod_eq_of_lt (by omega)
  rw [← BitVec.toNat_inj, and_opcodeMask, hval]
  constructor
  · intro h
    omega
  · rintro ⟨rfl, rfl⟩
    rfl

end Power
