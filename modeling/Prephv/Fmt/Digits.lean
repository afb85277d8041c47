import Mathlib.Data.Nat.Digits.Lemmas
import Prephv.Fdt.Model
import Prephv.Rom.Console

/-!
# Fmt — Digits

The digits that `number` of `vsprintf.c` makes of a number, the least significant first.  In base 8
and 16 they are its groups of bits.  In base 10 it takes five of them at a time: `put_dec_full` and
`put_dec_trunc` make them of the four nibbles of a number below 100000, and divide by 10 with a
multiplication and a shift.

They are the digits of the number (`numberDigits_eq`).
-/

set_option autoImplicit false

namespace Prephv.Fmt

/-! ### Decimal -/

/-- `d + '0'`, as a character. -/
def decimalChar (d : U32) : Chr := (d + 0x30).setWidth 8

/-- `put_dec_trunc`: one digit to five. -/
def putDecTrunc (q : U32) : List Chr :=
  let d1 := (q >>> 4) &&& 0xf
  let d2 := (q >>> 8) &&& 0xf
  let d3 := q >>> 12
  let d0 := 6 * (d3 + d2 + d1) + (q &&& 0xf)
  let q := (d0 * 0xcd) >>> 11
  let d0 := d0 - 10 * q
  let d1 := q + 9 * d3 + 5 * d2 + d1
  decimalChar d0 ::
    if d1 ≠ 0 then
      let q := (d1 * 0xcd) >>> 11
      let d1 := d1 - 10 * q
      let d2 := q + 2 * d2
      decimalChar d1 ::
        if d2 ≠ 0 ∨ d3 ≠ 0 then
          let q := (d2 * 0xd) >>> 7
          let d2 := d2 - 10 * q
          let d3 := q + 4 * d3
          decimalChar d2 ::
            if d3 ≠ 0 then
              let q := (d3 * 0xcd) >>> 11
              let d3 := d3 - 10 * q
              decimalChar d3 :: if q ≠ 0 then [decimalChar q] else []
            else []
        else []
    else []

/-- `put_dec_full`: five digits. -/
def putDecFull (q : U32) : List Chr :=
  let d1 := (q >>> 4) &&& 0xf
  let d2 := (q >>> 8) &&& 0xf
  let d3 := q >>> 12
  let d0 := 6 * (d3 + d2 + d1) + (q &&& 0xf)
  let q := (d0 * 0xcd) >>> 11
  let d0 := d0 - 10 * q
  let d1 := q + 9 * d3 + 5 * d2 + d1
  let q := (d1 * 0xcd) >>> 11
  let d1 := d1 - 10 * q
  let d2 := q + 2 * d2
  let q := (d2 * 0xd) >>> 7
  let d2 := d2 - 10 * q
  let d3 := q + 4 * d3
  let q := (d3 * 0xcd) >>> 11
  let d3 := d3 - 10 * q
  [decimalChar d0, decimalChar d1, decimalChar d2, decimalChar d3, decimalChar q]

/-- `put_dec`, with `n` divisions by 100000 to go. -/
def putDecLoop : Nat → U64 → List Chr
  | 0, num => putDecTrunc (num.setWidth 32)
  | n + 1, num =>
    if num < 100000 then putDecTrunc (num.setWidth 32)
    else putDecFull ((num % 100000).setWidth 32) ++ putDecLoop n (num / 100000)

/-- `put_dec`: a number of 64 bits is divided three times at most. -/
def putDec (num : U64) : List Chr := putDecLoop 3 num

/-! ### Octal and hexadecimal -/

/-- `digits[n]`. -/
def digitsTable (n : Nat) : Chr := (ascii "0123456789ABCDEF").getD n 0

/-- The loop of `number` in base 8 and 16, with `n` digits to go. -/
def shiftDigits (mask : Chr) (shift : Nat) (locase : Chr) : Nat → U64 → List Chr
  | 0, _ => []
  | n + 1, num =>
    let c := digitsTable (num.setWidth 8 &&& mask).toNat ||| locase
    let num := num >>> shift
    c :: if num ≠ 0 then shiftDigits mask shift locase n num else []

/-- `tmp[]` of `number`, as far as it is filled.  An octal number of 64 bits has 22 digits. -/
def numberDigits (base locase : Chr) (num : U64) : List Chr :=
  if num = 0 then [0x30]
  else if base ≠ 10 then
    shiftDigits (base - 1) (if base = 16 then 4 else 3) locase 22 num
  else putDec num

/-! ### The digits of a number -/

/-- A number's digits, the least significant first; 0 has one. -/
def digitsOf (base n : Nat) : List Nat := if n = 0 then [0] else Nat.digits base n

/-- A digit as a character: with `locase` set its letters are in lower case. -/
def digitChar (locase : Chr) (d : Nat) : Chr := digitsTable d ||| locase

theorem digitsOf_eq {base n : Nat} (hbase : 1 < base) :
    digitsOf base n = n % base :: if n / base = 0 then [] else digitsOf base (n / base) := by
  by_cases hn : n = 0
  · subst hn
    rw [digitsOf, if_pos rfl, Nat.zero_mod, Nat.zero_div, if_pos rfl]
  · rw [digitsOf, if_neg hn, Nat.digits_def' hbase (Nat.pos_of_ne_zero hn)]
    by_cases hdiv : n / base = 0
    · rw [if_pos hdiv, hdiv, Nat.digits_zero]
    · rw [if_neg hdiv, digitsOf, if_neg hdiv]

theorem digitsOf_lt {base n : Nat} (hbase : 1 < base) : ∀ d ∈ digitsOf base n,
    d < base := by
  intro d hd
  rw [digitsOf] at hd
  split at hd
  · rw [List.mem_singleton] at hd
    omega
  · exact Nat.digits_lt_base hbase hd

section Decimal

/-- Dividing by 10 with a multiplication and a shift, where the numbers are small enough. -/
theorem mul_shift {x m : U32} {n : Nat} (hlt : x.toNat * m.toNat < 2 ^ 32)
    (hdiv : x.toNat * m.toNat / 2 ^ n = x.toNat / 10) : ((x * m) >>> n).toNat = x.toNat / 10 := by
  rw [BitVec.toNat_ushiftRight, BitVec.toNat_mul_of_lt hlt, Nat.shiftRight_eq_div_pow, hdiv]

theorem mul_cd_shift {x : U32} (h : x.toNat ≤ 1000) : ((x * 0xcd) >>> 11).toNat = x.toNat / 10 :=
  mul_shift (by show x.toNat * 205 < 2 ^ 32; omega) (by show x.toNat * 205 / 2048 = _; omega)

/-- What is left of a number that is divided by 10. -/
theorem sub_ten_mul {x q : U32} (h : q.toNat = x.toNat / 10) :
    (x - 10 * q).toNat = x.toNat % 10 := by
  have hx := x.isLt
  have hmul : (10 * q).toNat = 10 * (x.toNat / 10) := by
    rw [BitVec.toNat_mul, h]
    show 10 * (x.toNat / 10) % 2 ^ 32 = _
    omega
  rw [BitVec.toNat_sub_of_le (by rw [BitVec.le_def, hmul]; omega), hmul]
  omega

theorem decimalChar_eq {d : U32} (h : d.toNat < 10) : decimalChar d = digitChar 0 d.toNat := by
  obtain ⟨n, hn, rfl⟩ : ∃ n < 10, d = BitVec.ofNat 32 n :=
    ⟨d.toNat, h, by rw [BitVec.ofNat_toNat, BitVec.setWidth_eq]⟩
  revert n
  decide

/-- A digit that is what is left of a number. -/
theorem decimalChar_rem {x q : U32} (h : q.toNat = x.toNat / 10) :
    decimalChar (x - 10 * q) = digitChar 0 (x.toNat % 10) := by
  have hrem := sub_ten_mul h
  rw [decimalChar_eq (by omega), hrem]

/-- The numbers that the four nibbles of `q` are made into: each is `q` over a power of 10, up to
what the nibbles above bring in. -/
structure Nibbles (q : Nat) (d1 d2 d3 e0 e1 e2 e3 : Nat) : Prop where
  d1_le : d1 ≤ 15
  d2_le : d2 ≤ 15
  d3_le : d3 ≤ 24
  e0_eq : e0 = 6 * (d3 + d2 + d1) + q % 16
  e1_eq : e1 = e0 / 10 + 9 * d3 + 5 * d2 + d1
  e2_eq : e2 = e1 / 10 + 2 * d2
  e3_eq : e3 = e2 / 10 + 4 * d3
  q_eq : q = 4096 * d3 + 256 * d2 + 16 * d1 + q % 16

section Nibbles

variable {q d1 d2 d3 e0 e1 e2 e3 : Nat} (h : Nibbles q d1 d2 d3 e0 e1 e2 e3)

include h

theorem Nibbles.div_ten : q / 10 = e1 + 20 * d2 + 400 * d3 := by
  have h₁ := h.e0_eq
  have h₂ := h.e1_eq
  have h₃ := h.q_eq
  omega

theorem Nibbles.div_hundred : q / 10 / 10 = e2 + 40 * d3 := by
  have h₁ := h.div_ten
  have h₂ := h.e2_eq
  omega

theorem Nibbles.div_thousand : q / 10 / 10 / 10 = e3 := by
  have h₁ := h.div_hundred
  have h₂ := h.e3_eq
  omega

theorem Nibbles.rem : e0 % 10 = q % 10 ∧ e1 % 10 = q / 10 % 10 ∧ e2 % 10 = q / 10 / 10 % 10 := by
  have h₀ := h.e0_eq
  have h₁ := h.div_ten
  have h₂ := h.div_hundred
  have h₃ := h.q_eq
  omega

end Nibbles

/-- The least digit and what is carried from it. -/
theorem sum_zero {d1 d2 d3 r : U32} (h1 : d1.toNat ≤ 15) (h2 : d2.toNat ≤ 15) (h3 : d3.toNat ≤ 24)
    (hr : r.toNat ≤ 15) :
    (6 * (d3 + d2 + d1) + r).toNat = 6 * (d3.toNat + d2.toNat + d1.toNat) + r.toNat := by
  have h₁ : (d3 + d2).toNat = d3.toNat + d2.toNat := BitVec.toNat_add_of_lt (by omega)
  have h₂ : (d3 + d2 + d1).toNat = (d3 + d2).toNat + d1.toNat := BitVec.toNat_add_of_lt (by omega)
  have h₃ : (6 * (d3 + d2 + d1)).toNat = 6 * (d3 + d2 + d1).toNat :=
    BitVec.toNat_mul_of_lt (by show 6 * _ < _; omega)
  rw [BitVec.toNat_add_of_lt (by omega), h₃, h₂, h₁]

theorem sum_one {q0 d1 d2 d3 : U32} (hq : q0.toNat ≤ 40) (h1 : d1.toNat ≤ 15) (h2 : d2.toNat ≤ 15)
    (h3 : d3.toNat ≤ 24) :
    (q0 + 9 * d3 + 5 * d2 + d1).toNat = q0.toNat + 9 * d3.toNat + 5 * d2.toNat + d1.toNat := by
  have h₁ : (9 * d3).toNat = 9 * d3.toNat := BitVec.toNat_mul_of_lt (by show 9 * _ < _; omega)
  have h₂ : (5 * d2).toNat = 5 * d2.toNat := BitVec.toNat_mul_of_lt (by show 5 * _ < _; omega)
  have h₃ : (q0 + 9 * d3).toNat = q0.toNat + (9 * d3).toNat := BitVec.toNat_add_of_lt (by omega)
  have h₄ : (q0 + 9 * d3 + 5 * d2).toNat = (q0 + 9 * d3).toNat + (5 * d2).toNat :=
    BitVec.toNat_add_of_lt (by omega)
  rw [BitVec.toNat_add_of_lt (by omega), h₄, h₃, h₂, h₁]

/-- A carry, and a nibble that is multiplied. -/
theorem sum_mul {q k d : U32} (hq : q.toNat ≤ 40) (hk : k.toNat ≤ 9) (hd : d.toNat ≤ 24) :
    (q + k * d).toNat = q.toNat + k.toNat * d.toNat := by
  have hle : k.toNat * d.toNat ≤ 9 * 24 := Nat.mul_le_mul hk hd
  have hmul : (k * d).toNat = k.toNat * d.toNat := BitVec.toNat_mul_of_lt (by omega)
  rw [BitVec.toNat_add_of_lt (by omega), hmul]

/-- The numbers of `put_dec_trunc` and `put_dec_full`, and the carries between them. -/
structure Sums (q d1 d2 d3 e0 q0 e1 q1 e2 q2 e3 q3 : U32) : Prop where
  nibbles : Nibbles q.toNat d1.toNat d2.toNat d3.toNat e0.toNat e1.toNat e2.toNat e3.toNat
  q0 : q0.toNat = e0.toNat / 10
  q1 : q1.toNat = e1.toNat / 10
  q2 : q2.toNat = e2.toNat / 10
  q3 : q3.toNat = e3.toNat / 10

theorem and_f_toNat (x : U32) : (x &&& 0xf).toNat = x.toNat % 16 := by
  have hmask : (0xf : U32) = Words.lowMask 32 4 := by decide
  have hpow : 2 ^ 4 = 16 := by decide
  rw [hmask, Words.and_lowMask x (by decide), hpow]

theorem shift_toNat (x : U32) {n k : Nat} (h : 2 ^ n = k) : (x >>> n).toNat = x.toNat / k := by
  rw [BitVec.toNat_ushiftRight, Nat.shiftRight_eq_div_pow, h]

/-- A number is put together from its nibbles. -/
theorem nibbles_sum (q : Nat) :
    q = 4096 * (q / 4096) + 256 * (q / 256 % 16) + 16 * (q / 16 % 16) + q % 16 := by omega

theorem sums {q d1 d2 d3 e0 q0 e1 q1 e2 q2 e3 q3 : U32} (hq : q.toNat < 100000)
    (hd1 : d1 = (q >>> 4) &&& 0xf) (hd2 : d2 = (q >>> 8) &&& 0xf) (hd3 : d3 = q >>> 12)
    (he0 : e0 = 6 * (d3 + d2 + d1) + (q &&& 0xf)) (hq0 : q0 = (e0 * 0xcd) >>> 11)
    (he1 : e1 = q0 + 9 * d3 + 5 * d2 + d1) (hq1 : q1 = (e1 * 0xcd) >>> 11)
    (he2 : e2 = q1 + 2 * d2) (hq2 : q2 = (e2 * 0xd) >>> 7)
    (he3 : e3 = q2 + 4 * d3) (hq3 : q3 = (e3 * 0xcd) >>> 11) :
    Sums q d1 d2 d3 e0 q0 e1 q1 e2 q2 e3 q3 := by
  have hn1 : d1.toNat = q.toNat / 16 % 16 := by
    rw [hd1, and_f_toNat, shift_toNat q (show 2 ^ 4 = 16 by decide)]
  have hn2 : d2.toNat = q.toNat / 256 % 16 := by
    rw [hd2, and_f_toNat, shift_toNat q (show 2 ^ 8 = 256 by decide)]
  have hn3 : d3.toNat = q.toNat / 4096 := by rw [hd3, shift_toNat q (show 2 ^ 12 = 4096 by decide)]
  have hsum := nibbles_sum q.toNat
  rw [← hn1, ← hn2, ← hn3] at hsum
  have hb1 : d1.toNat ≤ 15 := by rw [hn1]; exact Nat.le_of_lt_succ (Nat.mod_lt _ (by decide))
  have hb2 : d2.toNat ≤ 15 := by rw [hn2]; exact Nat.le_of_lt_succ (Nat.mod_lt _ (by decide))
  have hb3 : d3.toNat ≤ 24 := by omega
  have hr := and_f_toNat q
  have hbr : (q &&& 0xf).toNat ≤ 15 := by
    rw [hr]
    exact Nat.le_of_lt_succ (Nat.mod_lt _ (by decide))
  clear hn1 hn2 hn3 hd1 hd2 hd3
  have hs0 : e0.toNat = 6 * (d3.toNat + d2.toNat + d1.toNat) + q.toNat % 16 := by
    rw [he0, sum_zero hb1 hb2 hb3 hbr, hr]
  have hc0 : q0.toNat = e0.toNat / 10 := by rw [hq0, mul_cd_shift (by omega)]
  have hs1 : e1.toNat = q0.toNat + 9 * d3.toNat + 5 * d2.toNat + d1.toNat := by
    rw [he1, sum_one (by omega) hb1 hb2 hb3]
  have hc1 : q1.toNat = e1.toNat / 10 := by rw [hq1, mul_cd_shift (by omega)]
  have hs2 : e2.toNat = q1.toNat + 2 * d2.toNat := by
    rw [he2]
    exact sum_mul (by omega) (by decide) (by omega)
  have hc2 : q2.toNat = e2.toNat / 10 := by
    rw [hq2, mul_shift (show e2.toNat * 13 < 2 ^ 32 by omega)
      (show e2.toNat * 13 / 128 = e2.toNat / 10 by omega)]
  have hs3 : e3.toNat = q2.toNat + 4 * d3.toNat := by
    rw [he3]
    exact sum_mul (by omega) (by decide) (by omega)
  have hc3 : q3.toNat = e3.toNat / 10 := by rw [hq3, mul_cd_shift (by omega)]
  exact ⟨⟨hb1, hb2, hb3, hs0, by rw [hs1, hc0], by rw [hs2, hc1], by rw [hs3, hc2], hsum⟩,
    hc0, hc1, hc2, hc3⟩

/-- The digits that are put out, and what is left for the last one. -/
theorem Sums.chars {q d1 d2 d3 e0 q0 e1 q1 e2 q2 e3 q3 : U32}
    (h : Sums q d1 d2 d3 e0 q0 e1 q1 e2 q2 e3 q3) :
    decimalChar (e0 - 10 * q0) = digitChar 0 (q.toNat % 10) ∧
      decimalChar (e1 - 10 * q1) = digitChar 0 (q.toNat / 10 % 10) ∧
      decimalChar (e2 - 10 * q2) = digitChar 0 (q.toNat / 10 / 10 % 10) ∧
      decimalChar (e3 - 10 * q3) = digitChar 0 (q.toNat / 10 / 10 / 10 % 10) := by
  obtain ⟨h0, h1, h2⟩ := h.nibbles.rem
  rw [decimalChar_rem h.q0, decimalChar_rem h.q1, decimalChar_rem h.q2, decimalChar_rem h.q3,
    h0, h1, h2, h.nibbles.div_thousand]
  exact ⟨rfl, rfl, rfl, rfl⟩

theorem Sums.last {q d1 d2 d3 e0 q0 e1 q1 e2 q2 e3 q3 : U32}
    (h : Sums q d1 d2 d3 e0 q0 e1 q1 e2 q2 e3 q3) : q3.toNat = q.toNat / 10 / 10 / 10 / 10 := by
  rw [h.q3, h.nibbles.div_thousand]

theorem ne_zero_iff {w : Nat} {x : BitVec w} : x ≠ 0 ↔ x.toNat ≠ 0 := by
  rw [ne_eq, ne_eq, ← BitVec.toNat_inj]
  rfl

/-- **`put_dec_full`** puts out five digits. -/
theorem putDecFull_eq {q : U32} (hq : q.toNat < 100000) :
    putDecFull q = [q.toNat % 10, q.toNat / 10 % 10, q.toNat / 10 / 10 % 10,
      q.toNat / 10 / 10 / 10 % 10, q.toNat / 10 / 10 / 10 / 10].map (digitChar 0) := by
  unfold putDecFull
  extract_lets d1 d2 d3 e0 q0 r0 e1 q1 r1 e2 q2 r2 e3 q3 r3
  have hsums : Sums q d1 d2 d3 e0 q0 e1 q1 e2 q2 e3 q3 :=
    sums hq rfl rfl rfl rfl rfl rfl rfl rfl rfl rfl rfl
  obtain ⟨hr0, hr1, hr2, hr3⟩ : decimalChar r0 = _ ∧ decimalChar r1 = _ ∧ decimalChar r2 = _ ∧
      decimalChar r3 = _ := hsums.chars
  clear_value d1 d2 d3 e0 q0 r0 e1 q1 r1 e2 q2 r2 e3 q3 r3
  have hlast := hsums.last
  rw [hr0, hr1, hr2, hr3, decimalChar_eq (by omega), hlast]
  rfl

/-- The digits after the first, as the nested tests of `put_dec_trunc` find them. -/
theorem digits_tail {c : Prop} [Decidable c] {n : Nat} {l : List Chr} (hc : c ↔ n ≠ 0)
    (hl : n ≠ 0 → l = (digitsOf 10 n).map (digitChar 0)) :
    (if c then l else []) = (if n = 0 then [] else digitsOf 10 n).map (digitChar 0) := by
  by_cases hn : n = 0
  · rw [if_neg (fun h => hc.mp h hn), if_pos hn, List.map_nil]
  · rw [if_pos (hc.mpr hn), if_neg hn, hl hn]

/-- **`put_dec_trunc`** puts out the digits. -/
theorem putDecTrunc_eq {q : U32} (hq : q.toNat < 100000) :
    putDecTrunc q = (digitsOf 10 q.toNat).map (digitChar 0) := by
  unfold putDecTrunc
  extract_lets +lift d1 d2 d3 e0 q0 r0 e1 q1 r1 e2 q2 r2 e3 q3 r3
  have hsums : Sums q d1 d2 d3 e0 q0 e1 q1 e2 q2 e3 q3 :=
    sums hq rfl rfl rfl rfl rfl rfl rfl rfl rfl rfl rfl
  obtain ⟨hr0, hr1, hr2, hr3⟩ : decimalChar r0 = _ ∧ decimalChar r1 = _ ∧ decimalChar r2 = _ ∧
      decimalChar r3 = _ := hsums.chars
  clear_value d1 d2 d3 e0 q0 r0 e1 q1 r1 e2 q2 r2 e3 q3 r3
  have hten := hsums.nibbles.div_ten
  have hhundred := hsums.nibbles.div_hundred
  have hthousand := hsums.nibbles.div_thousand
  have he1 := hsums.nibbles.e1_eq
  have hlast := hsums.last
  have hstep := fun n => @digitsOf_eq 10 n (by decide)
  rw [hr0, hstep, List.map_cons]
  refine congrArg _ (digits_tail ?_ fun _ => ?_)
  · rw [ne_zero_iff]
    omega
  rw [hr1, hstep, List.map_cons]
  refine congrArg _ (digits_tail ?_ fun _ => ?_)
  · have hboth : ∀ a b : Nat, a ≠ 0 ∨ b ≠ 0 ↔ a + 40 * b ≠ 0 := fun a b => by omega
    rw [ne_zero_iff, ne_zero_iff, hhundred]
    exact hboth _ _
  rw [hr2, hstep, List.map_cons]
  refine congrArg _ (digits_tail ?_ fun _ => ?_)
  · rw [ne_zero_iff]
    omega
  rw [hr3, hstep, List.map_cons]
  refine congrArg _ (digits_tail ?_ fun _ => ?_)
  · rw [ne_zero_iff]
    omega
  have hone : q.toNat / 10 / 10 / 10 / 10 / 10 = 0 := by omega
  rw [decimalChar_eq (by omega), hlast, hstep, if_pos hone,
    Nat.mod_eq_of_lt (by omega)]
  rfl

/-- Five digits, and those of what is above them. -/
theorem digitsOf_above {n : Nat} (h : 100000 ≤ n) :
    digitsOf 10 n = [n % 100000 % 10, n % 100000 / 10 % 10, n % 100000 / 10 / 10 % 10,
      n % 100000 / 10 / 10 / 10 % 10, n % 100000 / 10 / 10 / 10 / 10] ++
      digitsOf 10 (n / 100000) := by
  have hstep : ∀ m : Nat, 10 ≤ m → digitsOf 10 m = m % 10 :: digitsOf 10 (m / 10) := fun m hm => by
    rw [digitsOf_eq (by decide), if_neg (by omega)]
  have hdiv : n / 10 / 10 / 10 / 10 / 10 = n / 100000 := by omega
  rw [hstep n (by omega), hstep (n / 10) (by omega), hstep (n / 10 / 10) (by omega),
    hstep (n / 10 / 10 / 10) (by omega), hstep (n / 10 / 10 / 10 / 10) (by omega), hdiv]
  simp only [List.cons_append, List.nil_append, List.cons.injEq, and_true]
  omega

theorem putDecLoop_eq {n : Nat} {num : U64} (h : num.toNat < 100000 ^ (n + 1)) :
    putDecLoop n num = (digitsOf 10 num.toNat).map (digitChar 0) := by
  have hlow : ∀ {x : U64}, x.toNat < 100000 → (x.setWidth 32 : U32).toNat = x.toNat := fun hx =>
    (BitVec.toNat_setWidth ..).trans (Nat.mod_eq_of_lt (by omega))
  have hlast : ∀ {x : U64}, x.toNat < 100000 →
      putDecTrunc (x.setWidth 32) = (digitsOf 10 x.toNat).map (digitChar 0) := fun hx => by
    rw [putDecTrunc_eq (by rw [hlow hx]; exact hx), hlow hx]
  induction n generalizing num with
  | zero => exact hlast (by simpa using h)
  | succ n ih =>
    have hconst : (100000 : U64).toNat = 100000 := rfl
    rw [putDecLoop]
    by_cases hnum : num.toNat < 100000
    · rw [if_pos (by rw [BitVec.lt_def, hconst]; exact hnum), hlast hnum]
    · have hrem : (num % 100000).toNat = num.toNat % 100000 := BitVec.toNat_umod ..
      have hquot : (num / 100000).toNat = num.toNat / 100000 := BitVec.toNat_udiv ..
      have hlt : num.toNat % 100000 < 100000 := Nat.mod_lt _ (by decide)
      have hbound : num.toNat / 100000 < 100000 ^ (n + 1) :=
        Nat.div_lt_of_lt_mul (by rw [Nat.mul_comm, ← Nat.pow_succ]; exact h)
      have hfull := hlow (hrem ▸ hlt)
      rw [if_neg (by rw [BitVec.lt_def, hconst]; exact hnum), ih (hquot ▸ hbound), hquot,
        putDecFull_eq (by rw [hfull, hrem]; exact hlt), hfull, hrem,
        digitsOf_above (Nat.le_of_not_lt hnum), List.map_append]

/-- **`put_dec`** puts out the digits of any number of 64 bits. -/
theorem putDec_eq (num : U64) : putDec num = (digitsOf 10 num.toNat).map (digitChar 0) :=
  putDecLoop_eq (num.isLt.trans (by decide))

end Decimal

/-! ### Groups of bits -/

theorem shiftDigits_eq {shift : Nat} {mask locase : Chr} (hshift : 0 < shift) (hle : shift ≤ 8)
    (hmask : mask = Words.lowMask 8 shift) {n : Nat} {num : U64} (hn : num.toNat < 2 ^ (shift * n))
    (hnum : num ≠ 0) :
    shiftDigits mask shift locase n num =
      (digitsOf (2 ^ shift) num.toNat).map (digitChar locase) := by
  induction n generalizing num with
  | zero =>
    rw [Nat.mul_zero, Nat.pow_zero] at hn
    exact absurd (BitVec.eq_of_toNat_eq (Nat.lt_one_iff.mp hn)) hnum
  | succ n ih =>
    have hdigit : (num.setWidth 8 &&& mask).toNat = num.toNat % 2 ^ shift := by
      rw [hmask, Words.and_lowMask _ hle, BitVec.toNat_setWidth,
        Nat.mod_mod_of_dvd _ (Nat.pow_dvd_pow 2 hle)]
    have hrest : (num >>> shift).toNat = num.toNat / 2 ^ shift := by
      rw [BitVec.toNat_ushiftRight, Nat.shiftRight_eq_div_pow]
    have hzero : num >>> shift ≠ 0 ↔ num.toNat / 2 ^ shift ≠ 0 := by rw [ne_zero_iff, hrest]
    rw [shiftDigits, hdigit, digitsOf_eq (Nat.one_lt_two_pow (by omega)), List.map_cons]
    refine congrArg _ ?_
    by_cases hmore : num.toNat / 2 ^ shift = 0
    · rw [if_neg (fun h => hzero.mp h hmore), if_pos hmore, List.map_nil]
    · have hbound : (num >>> shift).toNat < 2 ^ (shift * n) := by
        rw [hrest]
        exact Nat.div_lt_of_lt_mul (by rw [← Nat.pow_add, Nat.add_comm, ← Nat.mul_succ]; exact hn)
      rw [if_pos (hzero.mpr hmore), if_neg hmore, ih hbound (hzero.mpr hmore), hrest]

/-- **The digits that `number` makes** are those of the number, in each of its bases. -/
theorem numberDigits_eq {base locase : Chr} (hbase : base = 8 ∨ base = 10 ∨ base = 16)
    (hlocase : locase = 0 ∨ locase = 0x20) (num : U64) :
    numberDigits base locase num = (digitsOf base.toNat num.toNat).map (digitChar locase) := by
  rw [numberDigits]
  by_cases hzero : num = 0
  · subst hzero
    rw [if_pos rfl]
    rcases hlocase with rfl | rfl <;> rfl
  rw [if_neg hzero]
  have hlt := num.isLt
  rcases hbase with rfl | rfl | rfl
  · rw [if_pos (by decide), if_neg (by decide)]
    exact shiftDigits_eq (by decide) (by decide) (by decide) (by omega) hzero
  · rw [if_neg (by decide), putDec_eq]
    refine List.map_congr_left fun d hd => ?_
    have hten : d < 10 := digitsOf_lt (by decide) d hd
    -- a decimal digit has the bit of the lower case anyway
    have hsame : ∀ d < 10, digitChar 0 d = digitChar 0x20 d := by decide
    rcases hlocase with rfl | rfl
    · rfl
    · exact hsame d hten
  · rw [if_pos (by decide), if_pos rfl]
    exact shiftDigits_eq (by decide) (by decide) (by decide) (by omega) hzero

end Prephv.Fmt
