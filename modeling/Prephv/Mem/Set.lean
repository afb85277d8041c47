import Prephv.Rom.Read

/-!
# Mem — Set

`memset` of `lib/string.c`.  The word loop stores `ci`, built from the whole `int`; the byte loop
stores its low byte.  What the two write is one row of bytes (`memsetRow`), and it is the row of
low bytes when there is no word to store, or when the upper bytes of the `int` have no bit that
the low one lacks (`memset_fills_iff`).
-/

set_option autoImplicit false

namespace Prephv

open Words

/-- `ci`. -/
def memsetWord (c : CInt) : U32 := c ||| c <<< 8 ||| c <<< 16 ||| c <<< 24

/-- `(char) c`. -/
def memsetByte (c : CInt) : BitVec 8 := c.setWidth 8

/-- The loop over words: the memory, `xs` and `count` after it. -/
def memsetWords (ci : U32) : Nat → U64 → U64 → Memory → Memory × U64 × Nat
  | count + 5, xs, xi, m =>
    memsetWords ci (count + 1) (xs + 4) (xi + 4) (storeBytes m xi (le32Bytes ci))
  | count, xs, _, m => (m, xs, count)

/-- The loop over bytes. -/
def memsetBytes (c : CInt) : Nat → U64 → Memory → Memory
  | 0, _, m => m
  | count + 1, xs, m => memsetBytes c count (xs + 1) (storeBytes m xs [memsetByte c])

/-- `memset`, which returns `s`. -/
def memset (m : Memory) (s : U64) (c : CInt) (count : U64) : U64 × Memory :=
  let (m, xs, count) := memsetWords (memsetWord c) count.toNat s s m
  (s, memsetBytes c count xs m)

/-! ### The bytes it writes -/

/-- A row of bytes stored behind another. -/
theorem storeBytes_append (m : Memory) (p : U64) (l l' : List (BitVec 8))
    (h : l.length + l'.length ≤ 2 ^ 64) :
    storeBytes (storeBytes m p l) (p + BitVec.ofNat 64 l.length) l' = storeBytes m p (l ++ l') := by
  funext a
  simp only [storeBytes, List.getD_eq_getElem?_getD, List.getElem?_append]
  have ha := (a - p).isLt
  have hcomm : a - (p + BitVec.ofNat 64 l.length) = a - p - BitVec.ofNat 64 l.length :=
    (BitVec.sub_sub ..).symm
  rw [hcomm, BitVec.toNat_sub, BitVec.toNat_ofNat]
  by_cases hlt : (a - p).toNat < l.length
  · -- before the second row, so its index wraps past the row's end
    rw [if_pos hlt, List.getElem?_eq_none (l := l') (by omega)]
    rfl
  · have hidx : (2 ^ 64 - l.length % 2 ^ 64 + (a - p).toNat) % 2 ^ 64 =
        (a - p).toNat - l.length := by omega
    rw [if_neg hlt, hidx, List.getElem?_eq_none (l := l) (by omega)]
    rfl

/-- The row that `memset` writes. -/
def memsetRow (c : CInt) : Nat → List (BitVec 8)
  | count + 5 => le32Bytes (memsetWord c) ++ memsetRow c (count + 1)
  | count => List.replicate count (memsetByte c)

theorem le32Bytes_length (w : U32) : (le32Bytes w).length = 4 := rfl

theorem memsetRow_length (c : CInt) (count : Nat) : (memsetRow c count).length = count := by
  induction count using memsetRow.induct with
  | case1 count ih =>
    rw [memsetRow, List.length_append, le32Bytes_length, ih]
    omega
  | case2 count hcount =>
    rw [memsetRow]
    · exact List.length_replicate
    · exact hcount

theorem memsetBytes_eq (c : CInt) : ∀ (count : Nat) (xs : U64) (m : Memory), count ≤ 2 ^ 64 →
    memsetBytes c count xs m = storeBytes m xs (List.replicate count (memsetByte c))
  | 0, xs, m, _ => by
    funext a
    rw [memsetBytes, storeBytes_replicate, if_neg (Nat.not_lt_zero _)]
  | count + 1, xs, m, h => by
    have happ := storeBytes_append m xs [memsetByte c] (List.replicate count (memsetByte c))
      (by rw [List.length_replicate, List.length_singleton]; omega)
    rw [memsetBytes, memsetBytes_eq c count (xs + 1) _ (by omega)]
    exact happ

/-- The two loops write the row, whatever is left of it when the second starts. -/
theorem memsetLoops_eq (c : CInt) (count : Nat) (xs : U64) (m : Memory) (h : count ≤ 2 ^ 64) :
    memsetBytes c (memsetWords (memsetWord c) count xs xs m).2.2
        (memsetWords (memsetWord c) count xs xs m).2.1
        (memsetWords (memsetWord c) count xs xs m).1 =
      storeBytes m xs (memsetRow c count) := by
  induction count using memsetRow.induct generalizing xs m with
  | case1 count ih =>
    have happ := storeBytes_append m xs (le32Bytes (memsetWord c)) (memsetRow c (count + 1))
      (by rw [memsetRow_length, le32Bytes_length]; omega)
    rw [memsetWords, ih (xs + 4) _ (by omega), memsetRow]
    exact happ
  | case2 count hcount =>
    rw [memsetWords, memsetRow]
    · exact memsetBytes_eq c count xs m h
    · exact hcount
    · exact hcount

/-- `memset` writes the row from `s` on. -/
theorem memset_eq (m : Memory) (s : U64) (c : CInt) (count : U64) :
    memset m s c count = (s, storeBytes m s (memsetRow c count.toNat)) := by
  rw [memset, ← memsetLoops_eq c count.toNat s m (Nat.le_of_lt count.isLt)]

/-! ### When the two loops agree -/

/-- Every bit of the upper three bytes of the `int` is in its low byte too. -/
def UpperInLow (c : CInt) : Prop :=
  ∀ j < 3, c.extractLsb' (8 * (j + 1)) 8 &&& ~~~memsetByte c = 0

instance (c : CInt) : Decidable (UpperInLow c) := inferInstanceAs (Decidable (∀ _ < 3, _))

theorem or_eq_self_iff {w : Nat} (x y : BitVec w) : x ||| y = y ↔ x &&& ~~~y = 0 := by
  constructor <;> intro h
  · ext i hi
    have hb := congrArg (fun v : BitVec w => v[i]) h
    simp only [BitVec.getElem_or, BitVec.getElem_and, BitVec.getElem_not] at hb ⊢
    revert hb
    cases x[i] <;> cases y[i] <;> simp
  · ext i hi
    have hb := congrArg (fun v : BitVec w => v[i]) h
    simp only [BitVec.getElem_or, BitVec.getElem_and, BitVec.getElem_not] at hb ⊢
    revert hb
    cases x[i] <;> cases y[i] <;> simp

/-- A byte of a shifted word is a byte of the word, or zero. -/
theorem extractLsb'_shiftLeft (c : U32) (j : Nat) {k : Nat} (hk : k ≤ 3) :
    (c <<< (8 * j)).extractLsb' (8 * k) 8 =
      if j ≤ k then c.extractLsb' (8 * (k - j)) 8 else 0#8 := by
  apply BitVec.eq_of_getLsbD_eq
  intro i hi
  rw [BitVec.getLsbD_extractLsb', BitVec.getLsbD_shiftLeft]
  by_cases hj : j ≤ k
  · have hidx : 8 * k + i - 8 * j = 8 * (k - j) + i := by omega
    have hlt : ¬ 8 * k + i < 8 * j := by omega
    have hw : 8 * k + i < 32 := by omega
    simp [hj, hi, hidx, hlt, hw]
  · have hlt : 8 * k + i < 8 * j := by omega
    simp [hj, hlt]

/-- The bytes of the word: each has the bits of all the bytes of the `int` up to it. -/
theorem memsetWord_bytes (c : CInt) : le32Bytes (memsetWord c) =
    [memsetByte c, c.extractLsb' 8 8 ||| memsetByte c,
      c.extractLsb' 16 8 ||| (c.extractLsb' 8 8 ||| memsetByte c),
      c.extractLsb' 24 8 ||| (c.extractLsb' 16 8 ||| (c.extractLsb' 8 8 ||| memsetByte c))] := by
  have hlow : c.extractLsb' 0 8 = memsetByte c := (BitVec.setWidth_eq_extractLsb' (by omega)).symm
  have hbyte : ∀ {k : Nat}, k ≤ 3 → (memsetWord c).extractLsb' (8 * k) 8 =
      c.extractLsb' (8 * k) 8 ||| (if 1 ≤ k then c.extractLsb' (8 * (k - 1)) 8 else 0#8) |||
        (if 2 ≤ k then c.extractLsb' (8 * (k - 2)) 8 else 0#8) |||
          (if 3 ≤ k then c.extractLsb' (8 * (k - 3)) 8 else 0#8) := by
    intro k hk
    rw [memsetWord, BitVec.extractLsb'_or, BitVec.extractLsb'_or, BitVec.extractLsb'_or,
      ← extractLsb'_shiftLeft c 1 hk, ← extractLsb'_shiftLeft c 2 hk,
      ← extractLsb'_shiftLeft c 3 hk]
  have h0 := hbyte (k := 0) (by omega)
  have h1 := hbyte (k := 1) (by omega)
  have h2 := hbyte (k := 2) (by omega)
  have h3 := hbyte (k := 3) (by omega)
  simp only [Nat.mul_zero, Nat.mul_one, Nat.reduceMul, Nat.reduceSub, Nat.reduceLeDiff, if_true,
    if_false, BitVec.or_zero, hlow, BitVec.or_assoc] at h0 h1 h2 h3
  rw [le32Bytes, h0, h1, h2, h3]

/-- The word is the low byte four times just when the upper bytes add nothing to it. -/
theorem memsetWord_eq_iff (c : CInt) :
    le32Bytes (memsetWord c) = List.replicate 4 (memsetByte c) ↔ UpperInLow c := by
  have hrow : List.replicate 4 (memsetByte c) =
      [memsetByte c, memsetByte c, memsetByte c, memsetByte c] := rfl
  have hupper : UpperInLow c ↔ c.extractLsb' 8 8 ||| memsetByte c = memsetByte c ∧
      c.extractLsb' 16 8 ||| memsetByte c = memsetByte c ∧
      c.extractLsb' 24 8 ||| memsetByte c = memsetByte c := by
    rw [or_eq_self_iff, or_eq_self_iff, or_eq_self_iff]
    constructor
    · intro h
      exact ⟨h 0 (by omega), h 1 (by omega), h 2 (by omega)⟩
    · rintro ⟨h1, h2, h3⟩ j hj
      match j, hj with
      | 0, _ => exact h1
      | 1, _ => exact h2
      | 2, _ => exact h3
  rw [memsetWord_bytes, hrow, hupper]
  simp only [List.cons.injEq, and_true, true_and]
  constructor
  · rintro ⟨h1, h2, h3⟩
    rw [h1] at h2 h3
    rw [h2] at h3
    exact ⟨h1, h2, h3⟩
  · rintro ⟨h1, h2, h3⟩
    rw [h1, h2, h3]
    exact ⟨rfl, rfl, rfl⟩

theorem memsetRow_eq_iff (c : CInt) (count : Nat) :
    memsetRow c count = List.replicate count (memsetByte c) ↔ count ≤ 4 ∨ UpperInLow c := by
  induction count using memsetRow.induct with
  | case1 count ih =>
    have hsplit : List.replicate (count + 5) (memsetByte c) =
        List.replicate 4 (memsetByte c) ++ List.replicate (count + 1) (memsetByte c) := by
      rw [List.replicate_append_replicate]
      congr 1
      omega
    rw [memsetRow, hsplit]
    constructor
    · intro h
      obtain ⟨hword, -⟩ := List.append_inj h (by rw [List.length_replicate]; rfl)
      exact Or.inr ((memsetWord_eq_iff c).mp hword)
    · intro h
      have hupper : UpperInLow c := h.resolve_left (by omega)
      rw [(memsetWord_eq_iff c).mpr hupper, ih.mpr (Or.inr hupper)]
  | case2 count hcount =>
    have hle : count ≤ 4 := by
      by_contra hlt
      exact hcount (count - 5) (by omega)
    rw [memsetRow]
    · simp [hle]
    · exact hcount

/-! ### `memset` -/

/-- The `count` bytes from `s` on are `b`, and the others as before. -/
def FillsWith (m m' : Memory) (s : U64) (b : BitVec 8) (count : U64) : Prop :=
  ∀ a, m' a = if (a - s).toNat < count.toNat then b else m a

/-- **`memset` fills the buffer with the byte**, and writes nothing else, just when there is no
whole word to store or the upper bytes of the `int` add nothing to its low one. -/
theorem memset_fills_iff (m : Memory) (s : U64) (c : CInt) (count : U64) :
    (memset m s c count).1 = s ∧ FillsWith m (memset m s c count).2 s (memsetByte c) count ↔
      count.toNat ≤ 4 ∨ UpperInLow c := by
  rw [memset_eq, ← memsetRow_eq_iff, FillsWith]
  constructor
  · rintro ⟨-, h⟩
    dsimp only at h
    apply List.ext_getElem
    · rw [memsetRow_length, List.length_replicate]
    · intro i hi hi'
      rw [memsetRow_length] at hi
      have hc := count.isLt
      have hbyte := h (s + BitVec.ofNat 64 i)
      rw [storeBytes_add _ _ _ (by omega), Words.add_ofNat_sub_toNat s (by omega),
        if_pos hi] at hbyte
      rw [List.getElem_replicate, ← hbyte, List.getD_eq_getElem]
  · intro h
    refine ⟨rfl, fun a => ?_⟩
    rw [h]
    exact storeBytes_replicate m s count.toNat (memsetByte c) a

/-- With an `int` above a byte: the first word has other bytes. -/
theorem memset_misses : ¬ ∀ (m : Memory) (s : U64) (c : CInt) (count : U64),
    (memset m s c count).1 = s ∧ FillsWith m (memset m s c count).2 s (memsetByte c) count := by
  intro h
  have hbyte := (h (fun _ => 0) 0 0x100 5).2 1
  revert hbyte
  decide

/-- The `memset(data, 0xff, *outlen)` of a `read` stores the row that `readBranch` has. -/
theorem memset_ff (m : Memory) (data : U64) (len : U32) :
    memset m data 0xff (len.setWidth 64) =
      (data, storeBytes m data (List.replicate len.toNat 0xff)) := by
  have hupper : UpperInLow 0xff := by decide
  have hlen : (len.setWidth 64 : U64).toNat = len.toNat := by
    rw [BitVec.toNat_setWidth]
    exact Nat.mod_eq_of_lt (Nat.lt_of_lt_of_le len.isLt (by decide))
  rw [memset_eq, hlen, (memsetRow_eq_iff 0xff len.toNat).mpr (Or.inr hupper)]
  rfl

end Prephv
