import Prephv.Fmt.Number

/-!
# Fmt — Parse

`simple_strtoull` of `vsprintf.c`: a number is read from the start of a string, in a base that is
given or that is guessed from its prefix.  A string is the list of its characters up to the NUL.

What `number` writes without a sign and without a space in front is read back, up to the end of its
digits (`strtoull_number`).
-/

set_option autoImplicit false

namespace Prephv.Fmt

/-! ### `ctype.c` -/

/-- The classes of characters: `_U`, `_L`, `_D`, `_C`, `_P`, `_S`, `_X` and `_SP`. -/
def upperClass : Chr := 0x01
def lowerClass : Chr := 0x02
def digitClass : Chr := 0x04
def cntrlClass : Chr := 0x08
def punctClass : Chr := 0x10
def spaceClass : Chr := 0x20
def xdigitClass : Chr := 0x40
def hardSpaceClass : Chr := 0x80

/-- `_ctype`, by its runs of equal entries. -/
def ctype : List Chr :=
  ([(9, cntrlClass), (5, cntrlClass ||| spaceClass), (18, cntrlClass),
    (1, spaceClass ||| hardSpaceClass), (15, punctClass), (10, digitClass), (7, punctClass),
    (6, upperClass ||| xdigitClass), (20, upperClass), (6, punctClass),
    (6, lowerClass ||| xdigitClass), (20, lowerClass), (4, punctClass), (1, cntrlClass), (32, 0),
    (1, spaceClass ||| hardSpaceClass), (31, punctClass), (23, upperClass), (1, punctClass),
    (7, upperClass), (24, lowerClass), (1, punctClass), (8, lowerClass)] : List (Nat × Chr)).flatMap
    fun r => List.replicate r.1 r.2

example : ctype.length = 256 := by decide +kernel

/-- `isdigit`. -/
def isdigit (c : Chr) : Bool := ctype.getD c.toNat 0 &&& digitClass ≠ 0

/-- `isxdigit`. -/
def isxdigit (c : Chr) : Bool := ctype.getD c.toNat 0 &&& (digitClass ||| xdigitClass) ≠ 0

/-- `TOLOWER`. -/
def tolower (c : Chr) : Chr := c ||| 0x20

/-! ### `simple_strtoull` -/

/-- `simple_guess_base`. -/
def simpleGuessBase (cp : List Chr) : U32 :=
  if cp.getD 0 0 = 0x30 then
    if tolower (cp.getD 1 0) = 0x78 ∧ isxdigit (cp.getD 2 0) then 16 else 8
  else 10

/-- The value of a digit. -/
def digitValue (c : Chr) : U32 :=
  if isdigit c then c.setWidth 32 - 0x30 else (tolower c).setWidth 32 - 0x61 + 10

/-- The loop of `simple_strtoull`: the result, and what is left of the string. -/
def strtoullLoop (base : U32) : List Chr → U64 → U64 × List Chr
  | [], result => (result, [])
  | c :: cp, result =>
    if isxdigit c then
      if digitValue c ≥ base then (result, c :: cp)
      else strtoullLoop base cp (result * base.setWidth 64 + (digitValue c).setWidth 64)
    else (result, c :: cp)

/-- `simple_strtoull`: the number, and `*endp`. -/
def simpleStrtoull (cp : List Chr) (base : U32) : U64 × List Chr :=
  let base := if base = 0 then simpleGuessBase cp else base
  let cp := if base = 16 ∧ cp.getD 0 0 = 0x30 ∧ tolower (cp.getD 1 0) = 0x78 then cp.drop 2 else cp
  strtoullLoop base cp 0

/-! ### Digits that are read -/

/-- Nothing of the string is read as a digit of the base or as part of a prefix. -/
def Stops (base : U32) (cp : List Chr) : Prop := ∀ c ∈ cp.head?,
  (isxdigit c = true → digitValue c ≥ base) ∧ (base = 16 → tolower c ≠ 0x78)

section Digits

variable {base locase : Chr}

theorem digitChar_value {d : Nat} (hlocase : locase = 0 ∨ locase = 0x20) (hd : d < 16) :
    isxdigit (digitChar locase d) = true ∧ digitValue (digitChar locase d) = BitVec.ofNat 32 d ∧
      tolower (digitChar locase d) ≠ 0x78 := by
  have hall : ∀ d < 16, ∀ l ∈ [(0 : Chr), 0x20], isxdigit (digitChar l d) = true ∧
      digitValue (digitChar l d) = BitVec.ofNat 32 d ∧ tolower (digitChar l d) ≠ 0x78 := by
    decide +kernel
  exact hall d hd locase (by simpa using hlocase)

theorem strtoullLoop_stops {base : U32} {rest : List Chr} (h : Stops base rest) (result : U64) :
    strtoullLoop base rest result = (result, rest) := by
  cases rest with
  | nil => rfl
  | cons c rest =>
    rw [strtoullLoop]
    split
    · next hx => rw [if_pos ((h c rfl).1 hx)]
    · rfl

/-- Digits are read until something stops it. -/
theorem strtoullLoop_digits (hlocase : locase = 0 ∨ locase = 0x20) (hbase : base.toNat ≤ 16)
    {ds : List Nat} (hds : ∀ d ∈ ds, d < base.toNat) {rest : List Chr}
    (hrest : Stops (base.setWidth 32) rest) (n : Nat) :
    strtoullLoop (base.setWidth 32) (ds.map (digitChar locase) ++ rest) (BitVec.ofNat 64 n) =
      (BitVec.ofNat 64 (ds.foldl (fun r d => r * base.toNat + d) n), rest) := by
  induction ds generalizing n with
  | nil => exact strtoullLoop_stops hrest _
  | cons d ds ih =>
    have hd := hds d List.mem_cons_self
    obtain ⟨hx, hvalue, -⟩ := digitChar_value hlocase (show d < 16 by omega)
    have hlt : ¬ BitVec.ofNat 32 d ≥ (base.setWidth 32 : U32) := by
      rw [ge_iff_le, BitVec.le_def, BitVec.toNat_setWidth, BitVec.toNat_ofNat]
      omega
    have hnext : (BitVec.ofNat 64 n * ((base.setWidth 32 : U32).setWidth 64) +
        (BitVec.ofNat 32 d).setWidth 64 : U64) = BitVec.ofNat 64 (n * base.toNat + d) := by
      have hb : ((base.setWidth 32 : U32).setWidth 64 : U64) = BitVec.ofNat 64 base.toNat := by
        apply BitVec.eq_of_toNat_eq
        rw [BitVec.toNat_setWidth, BitVec.toNat_setWidth, BitVec.toNat_ofNat]
        omega
      have hdv : ((BitVec.ofNat 32 d).setWidth 64 : U64) = BitVec.ofNat 64 d := by
        apply BitVec.eq_of_toNat_eq
        rw [BitVec.toNat_setWidth, BitVec.toNat_ofNat, BitVec.toNat_ofNat]
        omega
      rw [hb, hdv, BitVec.ofNat_add, BitVec.ofNat_mul]
    rw [List.map_cons, List.cons_append, strtoullLoop, if_pos hx, hvalue, if_neg hlt, hnext,
      ih fun d hmem => hds d (List.mem_cons_of_mem _ hmem)]
    rfl

/-- The value of digits that start with zeros. -/
theorem foldl_digits (base n k : Nat) :
    (List.replicate k 0 ++ (digitsOf base n).reverse).foldl (fun r d => r * base + d) 0 = n := by
  have hzeros : ∀ k, (List.replicate k 0).foldl (fun r d => r * base + d) 0 = 0 := by
    intro k
    induction k with
    | zero => rfl
    | succ k ih => rwa [List.replicate_succ, List.foldl_cons, Nat.zero_mul]
  have hfold : ∀ l : List Nat, l.foldr (fun d r => r * base + d) 0 = Nat.ofDigits base l := by
    intro l
    induction l with
    | nil => rfl
    | cons d l ih =>
      rw [List.foldr_cons, ih, Nat.ofDigits_cons, Nat.mul_comm, Nat.add_comm]
  rw [List.foldl_append, hzeros, List.foldl_reverse, hfold, digitsOf]
  split
  · next h => rw [h, Nat.ofDigits_singleton]
  · exact Nat.ofDigits_digits base n

end Digits

/-! ### What `number` writes -/

section RoundTrip

variable {spec : PrintfSpec} {num : U64}

/-- A number that is shown without a sign is not negative. -/
theorem magnitude_of_signText (h : signText spec.flags num = []) :
    magnitude spec.flags num = num.toNat := by
  refine if_neg fun ⟨hsign, hmsb⟩ => ?_
  rw [signText, if_pos hsign, if_pos hmsb] at h
  cases h

/-- A number without a sign, and without a space in front: its prefix, its digits with zeros in
front, and spaces if it is aligned left. -/
theorem numberText_form (hbase : spec.base = 8 ∨ spec.base = 10 ∨ spec.base = 16)
    (hwidth : -1 ≤ spec.fieldWidth.toInt) (hprecision : spec.precision.toInt ≤ 32000)
    (hsign : signText spec.flags num = []) (hspace : (numberText num spec).head? ≠ some 0x20) :
    ∃ a k, (spec.flags &&& left = 0 → k = 0) ∧ numberText num spec =
      spec.pfx ++ (List.replicate a 0 ++ (digitsOf spec.base.toNat num.toNat).reverse).map
        (digitChar (spec.flags &&& small)) ++ List.replicate k 0x20 := by
  have hzero : ∀ f : Chr, digitChar (f &&& small) 0 = 0x30 := by decide
  have hdigits : ∀ z, ∃ a, List.replicate z (0x30 : Chr) ++
      preciseDigits spec.base (spec.flags &&& small) spec.precision.toInt.toNat num.toNat =
      (List.replicate a 0 ++ (digitsOf spec.base.toNat num.toNat).reverse).map
        (digitChar (spec.flags &&& small)) := fun z =>
    ⟨z + (spec.precision.toInt.toNat - (digitsOf spec.base.toNat num.toNat).length), by
      rw [preciseDigits, List.length_map, List.length_reverse, List.map_append, List.map_replicate,
        hzero, ← List.append_assoc, List.replicate_append_replicate]⟩
  rw [numberText_layout hbase hwidth hprecision, hsign, magnitude_of_signText hsign,
    List.nil_append, layout] at hspace ⊢
  generalize preciseDigits spec.base (spec.flags &&& small) spec.precision.toInt.toNat
    num.toNat = body at hdigits hspace ⊢
  obtain ⟨a, ha⟩ := hdigits 0
  rw [List.replicate_zero, List.nil_append] at ha
  by_cases hleft : spec.flags &&& left ≠ 0
  · rw [if_pos hleft, ha]
    exact ⟨a, _, fun h => absurd h hleft, rfl⟩
  · rw [if_neg hleft] at hspace ⊢
    by_cases hzeropad : spec.flags &&& zeropad ≠ 0
    · obtain ⟨z, hz⟩ := hdigits (spec.fieldWidth.toInt.toNat - (spec.pfx.length + body.length))
      rw [if_pos hzeropad, List.append_assoc, hz]
      exact ⟨z, 0, fun _ => rfl, (List.append_nil _).symm⟩
    · -- the prefix and the digits fill the width
      rw [if_neg hzeropad] at hspace ⊢
      cases hgap : spec.fieldWidth.toInt.toNat - (spec.pfx.length + body.length) with
      | zero =>
        rw [ha]
        exact ⟨a, 0, fun _ => rfl, (List.append_nil _).symm⟩
      | succ gap =>
        rw [hgap] at hspace
        exact absurd rfl hspace

/-- The base that is guessed where none is given. -/
theorem base_guessed {base b : U32} {cp : List Chr} (hb : b = base ∨ b = 0)
    (hguess : simpleGuessBase cp = base) : (if b = 0 then simpleGuessBase cp else b) = base := by
  rw [hguess]
  rcases hb with rfl | rfl
  · exact ite_self _
  · exact if_pos rfl

/-- Digits after a prefix, if there is one, are read. -/
theorem strtoull_form (hbase : spec.base = 8 ∨ spec.base = 10 ∨ spec.base = 16) {b : U32}
    (hb : b = spec.base.setWidth 32 ∨ b = 0 ∧ spec.needPfx = true) {ds : List Nat}
    (hne : ds ≠ []) (hds : ∀ d ∈ ds, d < spec.base.toNat) {rest : List Chr}
    (hrest : Stops (spec.base.setWidth 32) rest) :
    simpleStrtoull (spec.pfx ++ ds.map (digitChar (spec.flags &&& small)) ++ rest) b =
      (BitVec.ofNat 64 (ds.foldl (fun r d => r * spec.base.toNat + d) 0), rest) := by
  have hlocase := and_small spec.flags
  have hle : spec.base.toNat ≤ 16 := by rcases hbase with h | h | h <;> rw [h] <;> decide
  have hread := @strtoullLoop_digits spec.base _ hlocase hle ds hds rest hrest 0
  obtain ⟨d, ds', rfl⟩ := List.exists_cons_of_ne_nil hne
  obtain ⟨hx, -, hd⟩ := digitChar_value hlocase
    (show d < 16 by have := hds d List.mem_cons_self; omega)
  rw [simpleStrtoull]
  cases hpfx : spec.needPfx with
  | true =>
    have hnot : spec.base ≠ 10 := by
      rw [PrintfSpec.needPfx, decide_eq_true_eq] at hpfx
      exact hpfx.2
    rcases hbase with h | h | h
    · -- octal: the prefix is one more digit
      have hp : spec.pfx = [0x30] := by
        rw [PrintfSpec.pfx, hpfx, if_pos rfl, if_neg (by rw [h]; decide)]
      have hfull := @strtoullLoop_digits spec.base _ hlocase hle (0 :: d :: ds')
        (List.forall_mem_cons.mpr ⟨by rw [h]; decide, hds⟩) rest hrest 0
      have hzero : ∀ l : Chr, l = 0 ∨ l = 0x20 → digitChar l 0 = 0x30 := by decide
      rw [List.map_cons, hzero _ hlocase, List.foldl_cons, Nat.zero_mul] at hfull
      have hguess : simpleGuessBase (spec.pfx ++
          (d :: ds').map (digitChar (spec.flags &&& small)) ++ rest) = spec.base.setWidth 32 := by
        rw [hp, simpleGuessBase, h]
        exact (if_pos rfl).trans (if_neg fun hno => hd hno.1)
      rw [base_guessed (hb.imp_right And.left) hguess,
        if_neg (by rw [h]; exact fun hno => absurd hno.1 (by decide)), hp]
      exact hfull
    · exact absurd h hnot
    · -- hexadecimal: the prefix is skipped
      have hp : spec.pfx = [0x30, 0x58 ||| (spec.flags &&& small)] := by
        rw [PrintfSpec.pfx, hpfx, if_pos rfl, if_pos h]
      have hmark : ∀ l : Chr, l = 0 ∨ l = 0x20 → tolower (0x58 ||| l) = 0x78 := by decide
      have hguess : simpleGuessBase (spec.pfx ++
          (d :: ds').map (digitChar (spec.flags &&& small)) ++ rest) = spec.base.setWidth 32 := by
        rw [hp, simpleGuessBase, h]
        exact (if_pos rfl).trans (if_pos ⟨hmark _ hlocase, hx⟩)
      rw [base_guessed (hb.imp_right And.left) hguess, hp,
        if_pos ⟨by rw [h]; decide, rfl, hmark _ hlocase⟩]
      exact hread
  | false =>
    have hp : spec.pfx = [] := by rw [PrintfSpec.pfx, hpfx, if_neg Bool.false_ne_true]
    have hb' : b = spec.base.setWidth 32 := hb.resolve_right fun hno => by
      rw [hpfx] at hno
      exact Bool.false_ne_true hno.2
    have hnonzero : b ≠ 0 := by
      rw [hb']
      rcases hbase with h | h | h <;> rw [h] <;> decide
    -- what follows the first digit is a digit, or stops the reading
    have hsecond : spec.base.setWidth 32 = (16 : U32) →
        tolower (((d :: ds').map (digitChar (spec.flags &&& small)) ++ rest).getD 1 0) ≠ 0x78 := by
      intro h16
      cases ds' with
      | nil =>
        cases rest with
        | nil =>
          show tolower 0 ≠ 0x78
          decide
        | cons c rest => exact (hrest c rfl).2 h16
      | cons e ds' =>
        exact (digitChar_value hlocase
          (show e < 16 by have := hds e (by simp); omega)).2.2
    rw [hp, List.nil_append, if_neg hnonzero, hb', if_neg (fun hno => hsecond hno.1 hno.2.2)]
    exact hread

/-- **The round trip.**  A number that is written without a sign and without a space in front is read
back in its base, or in base 0 if it has a prefix; the reading stops behind its digits. -/
theorem strtoull_number (num : U64) (hbase : spec.base = 8 ∨ spec.base = 10 ∨ spec.base = 16)
    (hwidth : -1 ≤ spec.fieldWidth.toInt) (hprecision : spec.precision.toInt ≤ 32000)
    (hsign : signText spec.flags num = []) (hspace : (numberText num spec).head? ≠ some 0x20)
    {b : U32} (hb : b = spec.base.setWidth 32 ∨ b = 0 ∧ spec.needPfx = true) {rest : List Chr}
    (hrest : Stops (spec.base.setWidth 32) rest) :
    ∃ k, (spec.flags &&& left = 0 → k = 0) ∧
      simpleStrtoull (numberText num spec ++ rest) b =
        (num, List.replicate k 0x20 ++ rest) := by
  obtain ⟨a, k, hk, htext⟩ := @numberText_form spec num hbase hwidth hprecision hsign hspace
  have hone : 1 < spec.base.toNat := by rcases hbase with h | h | h <;> rw [h] <;> decide
  have hstops : Stops (spec.base.setWidth 32) (List.replicate k 0x20 ++ rest) := by
    cases k with
    | zero => exact hrest
    | succ k =>
      intro c hc
      obtain rfl : (0x20 : Chr) = c := Option.some.inj hc
      have hspace : isxdigit 0x20 = false ∧ tolower 0x20 ≠ 0x78 := by decide
      exact ⟨fun hx => absurd (hspace.1.symm.trans hx) Bool.false_ne_true, fun _ => hspace.2⟩
  have hne : List.replicate a 0 ++ (digitsOf spec.base.toNat num.toNat).reverse ≠ [] := by
    rw [digitsOf_eq hone]
    simp
  have hlt : ∀ d ∈ List.replicate a 0 ++ (digitsOf spec.base.toNat num.toNat).reverse,
      d < spec.base.toNat := by
    intro d hd
    rw [List.mem_append, List.mem_replicate, List.mem_reverse] at hd
    rcases hd with ⟨-, rfl⟩ | hd
    · omega
    · exact digitsOf_lt hone d hd
  refine ⟨k, hk, ?_⟩
  rw [htext, List.append_assoc, strtoull_form hbase hb hne hlt hstops, foldl_digits,
    BitVec.ofNat_toNat, BitVec.setWidth_eq]

end RoundTrip

/-- `%#6x` of a signed number, which fills the width, is read up to the comma behind it. -/
theorem strtoull_number_sample :
    ∃ k, ((sign ||| special ||| small) &&& left = 0 → k = 0) ∧
      simpleStrtoull (numberText 0xbeef ⟨sign ||| special ||| small, 16, 6, -1⟩ ++ ascii ", 7") 0 =
        (0xbeef, List.replicate k 0x20 ++ ascii ", 7") :=
  @strtoull_number ⟨sign ||| special ||| small, 16, 6, -1⟩ 0xbeef (.inr (.inr rfl)) (by decide)
    (by decide) (by decide) (by decide +kernel) 0 (.inr ⟨rfl, by decide⟩) (ascii ", 7")
    (fun c hc => by
      obtain rfl : (0x2c : Chr) = c := Option.some.inj hc
      decide)

end Prephv.Fmt
