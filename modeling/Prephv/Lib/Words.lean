import Mathlib.Data.Nat.Bitwise

/-!
# Lib — Words

Fixed-width words read as numbers.  Masking with `2 ^ k - 1` is a remainder, masking with its
complement rounds down, an `or` of two words with no common bit is their sum, and the low bits
of an `xor` depend on the low bits of its arguments only.  With these a goal about shifts and
masks becomes a goal of linear arithmetic over `toNat`.
-/

set_option autoImplicit false

namespace Words

variable {w : Nat}

/-! ### Masks -/

/-- The word whose low `k` bits are set. -/
def lowMask (w k : Nat) : BitVec w := BitVec.ofNat w (2 ^ k - 1)

theorem lowMask_toNat {k : Nat} (hk : k ≤ w) : (lowMask w k).toNat = 2 ^ k - 1 := by
  have hle : 2 ^ k ≤ 2 ^ w := Nat.pow_le_pow_right (by decide) hk
  have hpos : 0 < 2 ^ k := Nat.two_pow_pos k
  rw [lowMask, BitVec.toNat_ofNat, Nat.mod_eq_of_lt (by omega)]

/-- Masking with `2 ^ k - 1` takes the remainder. -/
theorem and_lowMask (x : BitVec w) {k : Nat} (hk : k ≤ w) :
    (x &&& lowMask w k).toNat = x.toNat % 2 ^ k := by
  rw [BitVec.toNat_and, lowMask_toNat hk, Nat.and_two_pow_sub_one_eq_mod]

/-- A word is its masked part and the rest. -/
theorem and_add_and_not (x m : BitVec w) : (x &&& m).toNat + (x &&& ~~~m).toNat = x.toNat := by
  have hor : (x &&& m) ||| (x &&& ~~~m) = x := by
    ext i hi
    simp only [BitVec.getElem_or, BitVec.getElem_and, BitVec.getElem_not]
    cases x[i] <;> cases m[i] <;> rfl
  have hand : (x &&& m) &&& (x &&& ~~~m) = 0#w := by
    ext i hi
    simp only [BitVec.getElem_and, BitVec.getElem_not, BitVec.getElem_zero]
    cases x[i] <;> cases m[i] <;> rfl
  rw [← BitVec.toNat_add_of_and_eq_zero hand, BitVec.add_eq_or_of_and_eq_zero _ _ hand, hor]

/-- Masking with the complement of `2 ^ k - 1` rounds down to a multiple of `2 ^ k`. -/
theorem and_not_lowMask (x : BitVec w) {k : Nat} (hk : k ≤ w) :
    (x &&& ~~~(lowMask w k)).toNat = x.toNat / 2 ^ k * 2 ^ k := by
  have hsum := and_add_and_not x (lowMask w k)
  rw [and_lowMask x hk] at hsum
  have hdiv := Nat.mod_add_div x.toNat (2 ^ k)
  have hcomm := Nat.mul_comm (2 ^ k) (x.toNat / 2 ^ k)
  omega

/-- A word masked with the complement of `2 ^ k - 1` is unchanged exactly when it is a multiple
of `2 ^ k`. -/
theorem and_not_lowMask_eq_self (x : BitVec w) {k : Nat} (hk : k ≤ w) :
    x &&& ~~~(lowMask w k) = x ↔ 2 ^ k ∣ x.toNat := by
  constructor
  · intro h
    have hn := congrArg BitVec.toNat h
    rw [and_not_lowMask x hk] at hn
    exact Dvd.intro_left _ hn
  · intro h
    apply BitVec.eq_of_toNat_eq
    rw [and_not_lowMask x hk, Nat.div_mul_cancel h]

/-! ### Disjoint fields -/

/-- An `or` of a multiple of `2 ^ k` with a word below `2 ^ k` is their sum. -/
theorem or_toNat {x y : BitVec w} {k : Nat} (hx : x.toNat < 2 ^ k) (hy : 2 ^ k ∣ y.toNat) :
    (x ||| y).toNat = y.toNat + x.toNat := by
  obtain ⟨c, hc⟩ := hy
  rw [BitVec.toNat_or, hc, Nat.or_comm, Nat.two_pow_add_eq_or_of_lt hx]

/-- A masked word stays below the mask's bits under a second mask that has none of them. -/
theorem and_eq_zero_of_and_eq_self {x m m' : BitVec w} (h : x &&& m = x) (hm : m &&& m' = 0#w) :
    x &&& m' = 0#w := by
  rw [← h, BitVec.and_assoc, hm, BitVec.and_zero]

theorem or_and_distrib (x y m : BitVec w) : (x ||| y) &&& m = (x &&& m) ||| (y &&& m) := by
  ext i hi
  simp only [BitVec.getElem_and, BitVec.getElem_or]
  cases x[i] <;> cases y[i] <;> cases m[i] <;> rfl

theorem or_and_self (x m : BitVec w) : x ||| (x &&& m) = x := by
  ext i hi
  simp only [BitVec.getElem_and, BitVec.getElem_or]
  cases x[i] <;> cases m[i] <;> rfl

theorem and_not_and_self (x m : BitVec w) : (x &&& ~~~m) &&& m = 0#w := by
  ext i hi
  simp only [BitVec.getElem_and, BitVec.getElem_not, BitVec.getElem_zero]
  cases x[i] <;> cases m[i] <;> rfl

/-- A word without the bits of a mask is not changed when they are cleared. -/
theorem and_not_of_and_eq_zero {x m : BitVec w} (h : x &&& m = 0#w) : x &&& ~~~m = x := by
  ext i hi
  have hb := congrArg (fun v : BitVec w => v[i]) h
  simp only [BitVec.getElem_and, BitVec.getElem_not, BitVec.getElem_zero] at hb ⊢
  revert hb
  cases x[i] <;> cases m[i] <;> decide

/-- Clearing the bits of one mask leaves those of a mask that has none of them. -/
theorem and_not_and {m m' : BitVec w} (x : BitVec w) (h : m &&& m' = 0#w) :
    (x &&& ~~~m) &&& m' = x &&& m' := by
  ext i hi
  have hb := congrArg (fun v : BitVec w => v[i]) h
  simp only [BitVec.getElem_and, BitVec.getElem_not, BitVec.getElem_zero] at hb ⊢
  revert hb
  cases x[i] <;> cases m[i] <;> cases m'[i] <;> decide

/-- A word with all the bits of a mask is not changed when they are set. -/
theorem or_of_and_eq {x m : BitVec w} (h : x &&& m = m) : x ||| m = x := by
  rw [← h]
  exact or_and_self x m

/-- Two words agree under a mask when their `xor` has no bit of it. -/
theorem xor_and_eq_zero_iff (x y m : BitVec w) :
    (x ^^^ y) &&& m = 0#w ↔ x &&& m = y &&& m := by
  constructor <;> intro h
  · ext i hi
    have hb := congrArg (fun v : BitVec w => v[i]) h
    simp only [BitVec.getElem_and, BitVec.getElem_xor, BitVec.getElem_zero] at hb ⊢
    revert hb
    cases x[i] <;> cases y[i] <;> cases m[i] <;> decide
  · ext i hi
    have hb := congrArg (fun v : BitVec w => v[i]) h
    simp only [BitVec.getElem_and, BitVec.getElem_xor, BitVec.getElem_zero] at hb ⊢
    revert hb
    cases x[i] <;> cases y[i] <;> cases m[i] <;> decide

/-- Putting the bits `n` into a part `m` of the word is the same as taking the word's bits under
`m` and `m'`, just when it has none under `m'` and has all of `n`. -/
theorem and_or_eq_and_or_iff {s n m m' : BitVec w} (hn : n &&& m = n) (hm : m &&& m' = 0#w) :
    (s &&& m) ||| n = s &&& (m ||| m') ↔ s &&& m' = 0#w ∧ n &&& ~~~s = 0#w := by
  have bitwise : ∀ {x y : BitVec w}, x = y ↔ ∀ i, i < w → x.getLsbD i = y.getLsbD i :=
    fun {x y} => ⟨fun h i _ => by rw [h], BitVec.eq_of_getLsbD_eq⟩
  rw [bitwise] at hn hm
  rw [bitwise, bitwise, bitwise, ← forall_and]
  refine forall_congr' fun i => ?_
  rw [← forall_and]
  refine forall_congr' fun hi => ?_
  have hn := hn i hi
  have hm := hm i hi
  simp only [BitVec.getLsbD_or, BitVec.getLsbD_and, BitVec.getLsbD_not, BitVec.getLsbD_zero, hi,
    decide_true, Bool.true_and] at hn hm ⊢
  revert hn hm
  cases s.getLsbD i <;> cases n.getLsbD i <;> cases m.getLsbD i <;> cases m'.getLsbD i <;> decide

/-! ### Low bits of an `xor` -/

theorem xor_mod (x y k : Nat) : (x ^^^ y) % 2 ^ k = (x % 2 ^ k) ^^^ (y % 2 ^ k) := by
  apply Nat.eq_of_testBit_eq
  intro i
  simp only [Nat.testBit_mod_two_pow, Nat.testBit_xor]
  cases decide (i < k) <;> simp

theorem xor_left_cancel {x y z : Nat} (h : x ^^^ y = x ^^^ z) : y = z := by
  have hx := congrArg (fun v => x ^^^ v) h
  simpa only [← Nat.xor_assoc, Nat.xor_self, Nat.zero_xor] using hx

/-! ### Words as numbers -/

theorem eq_zero_iff {x : BitVec w} : x = 0 ↔ x.toNat = 0 :=
  ⟨fun h => by rw [h]; rfl, fun h => BitVec.eq_of_toNat_eq h⟩

/-- How far a word is from another, round the end. -/
theorem succ_toNat {x : BitVec w} (h : x.toNat + 1 < 2 ^ w) : (x + 1).toNat = x.toNat + 1 := by
  have hlt : 1 < 2 ^ w := by omega
  have hone : (1 : BitVec w).toNat = 1 := Nat.mod_eq_of_lt hlt
  rw [BitVec.toNat_add_of_lt (by rwa [hone]), hone]

theorem add_ofNat_sub_toNat (p : BitVec w) {k : Nat} (hk : k < 2 ^ w) :
    (p + BitVec.ofNat w k - p).toNat = k := by
  rw [BitVec.add_comm, BitVec.add_sub_cancel, BitVec.toNat_ofNat, Nat.mod_eq_of_lt hk]

/-! ### Words side by side -/

theorem append_toNat {w k : Nat} (x : BitVec w) (y : BitVec k) :
    (x ++ y).toNat = 2 ^ k * x.toNat + y.toNat := by
  rw [BitVec.toNat_append, ← Nat.shiftLeft_add_eq_or_of_lt y.isLt, Nat.shiftLeft_eq, Nat.mul_comm]

theorem append_inj {w k : Nat} {x x' : BitVec w} {y y' : BitVec k} :
    x ++ y = x' ++ y' ↔ x = x' ∧ y = y' := by
  constructor
  · intro h
    have h := congrArg BitVec.toNat h
    rw [append_toNat, append_toNat] at h
    have hlow := congrArg (· % 2 ^ k) h
    have hhigh := congrArg (· / 2 ^ k) h
    rw [Nat.mul_add_mod, Nat.mul_add_mod, Nat.mod_eq_of_lt y.isLt, Nat.mod_eq_of_lt y'.isLt] at hlow
    rw [Nat.mul_add_div (Nat.two_pow_pos k), Nat.mul_add_div (Nat.two_pow_pos k),
      Nat.div_eq_of_lt y.isLt, Nat.div_eq_of_lt y'.isLt] at hhigh
    exact ⟨BitVec.eq_of_toNat_eq hhigh, BitVec.eq_of_toNat_eq hlow⟩
  · rintro ⟨rfl, rfl⟩
    rfl

end Words
