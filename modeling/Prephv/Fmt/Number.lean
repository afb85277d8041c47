import Prephv.Fmt.Digits
import Prephv.Lib.Window

/-!
# Fmt — Number

`number` of `vsprintf.c`: a number with its sign and prefix, padded to a width, written through a
cursor that is not to go beyond `end`.  The width and the precision are counted down in 16 bits, by
loops that also leave them one lower where there was nothing to pad.

What is written is a text of the number and the format only (`number_eq`), and where the width and
the precision are not so large that a count wraps it is the text of a C library
(`numberText_layout`).
-/

set_option autoImplicit false

namespace Prephv.Fmt

open Window (put emit)

/-! ### The code -/

/-- The flags: `ZEROPAD`, `SIGN`, `PLUS`, `SPACE`, `LEFT`, `SMALL` and `SPECIAL`. -/
def zeropad : Chr := 1
def sign : Chr := 2
def plus : Chr := 4
def space : Chr := 8
def left : Chr := 16
def small : Chr := 32
def special : Chr := 64

/-- What `number` reads of a `struct printf_spec`. -/
structure PrintfSpec where
  flags : Chr
  base : Chr
  fieldWidth : BitVec 16
  precision : BitVec 16
  deriving DecidableEq, Repr

/-- The memory, and `buf`. -/
abbrev Out := Window.Out 64 Chr

/-- `while (--w >= bound)`, which writes `c`, with `n` iterations to go. -/
def padLoop (end_ : U64) (c : Chr) (bound : Int) : Nat → BitVec 16 → Out → BitVec 16 × Out
  | 0, w, out => (w, out)
  | n + 1, w, out =>
    let w := w - 1
    if bound ≤ w.toInt then padLoop end_ c bound n w (put end_ c out) else (w, out)

/-- The loop, which ends before the 16 bits have come round. -/
def pad (end_ : U64) (c : Chr) (bound : Int) (w : BitVec 16) (out : Out) : BitVec 16 × Out :=
  padLoop end_ c bound 65536 w out

/-- The sign, which may be none, and the number and the width without it. -/
def numberSign (flags : Chr) (num : U64) (width : BitVec 16) : Chr × U64 × BitVec 16 :=
  if flags &&& sign ≠ 0 then
    if num.msb then (0x2d, -num, width - 1)
    else if flags &&& plus ≠ 0 then (0x2b, num, width - 1)
    else if flags &&& space ≠ 0 then (0x20, num, width - 1)
    else (0, num, width)
  else (0, num, width)

/-- The flags that are left where `LEFT` is set. -/
def numberFlags (flags : Chr) : Chr :=
  if flags &&& left ≠ 0 then flags &&& ~~~zeropad else flags

/-- `need_pfx`. -/
def PrintfSpec.needPfx (spec : PrintfSpec) : Bool := spec.flags &&& special ≠ 0 ∧ spec.base ≠ 10

/-- `number`. -/
def number (end_ : U64) (num : U64) (spec : PrintfSpec) (out : Out) : Out :=
  let locase := spec.flags &&& small
  let flags := numberFlags spec.flags
  let (sign_, num, width) := numberSign flags num spec.fieldWidth
  let width := if spec.needPfx then (if spec.base = 16 then width - 1 - 1 else width - 1) else width
  let tmp := numberDigits spec.base locase num
  -- printing 100 using `%2d` gives "100", not "00"
  let precision := if (tmp.length : Int) > spec.precision.toInt then BitVec.ofNat 16 tmp.length
    else spec.precision
  let width := width - precision
  let (width, out) := if flags &&& (zeropad + left) = 0 then pad end_ 0x20 0 width out
    else (width, out)
  let out := if sign_ ≠ 0 then put end_ sign_ out else out
  let out := if spec.needPfx then
      let out := put end_ 0x30 out
      if spec.base = 16 then put end_ (0x58 ||| locase) out else out
    else out
  let (width, out) := if flags &&& left = 0
    then pad end_ (if flags &&& zeropad ≠ 0 then 0x30 else 0x20) 0 width out else (width, out)
  let (_, out) := pad end_ 0x30 tmp.length precision out
  let out := emit end_ tmp.reverse out
  (pad end_ 0x20 0 width out).2

/-! ### The text -/

/-- How often `while (--w >= bound)` goes round. -/
def padCount (bound : Int) (w : BitVec 16) : Nat := ((w - 1).toInt + 1 - bound).toNat

/-- What it leaves in `w`. -/
def padRest (bound : Int) (w : BitVec 16) : BitVec 16 :=
  if bound ≤ (w - 1).toInt then BitVec.ofInt 16 (bound - 1) else w - 1

theorem sub_one_toInt {w : BitVec 16} (h : -32767 ≤ w.toInt) : (w - 1).toInt = w.toInt - 1 := by
  have hlt := @BitVec.toInt_lt 16 w
  have hone : (1 : BitVec 16).toInt = 1 := by decide
  rw [BitVec.toInt_sub, hone]
  exact Int.bmod_eq_of_le (by omega) (by omega)

theorem padLoop_eq {end_ : U64} {c : Chr} {bound : Int} (hbound : -32767 ≤ bound) {n : Nat}
    {w : BitVec 16} {out : Out} (hn : padCount bound w < n) :
    padLoop end_ c bound n w out =
      (padRest bound w, emit end_ (List.replicate (padCount bound w) c) out) := by
  induction n generalizing w out with
  | zero => exact absurd hn (Nat.not_lt_zero _)
  | succ n ih =>
    rw [padLoop]
    by_cases hmore : bound ≤ (w - 1).toInt
    · have hsub := sub_one_toInt (hbound.trans hmore)
      have hcount : padCount bound w = padCount bound (w - 1) + 1 := by
        rw [padCount, padCount, hsub]
        omega
      have hrest : padRest bound w = padRest bound (w - 1) := by
        rw [padRest, padRest, if_pos hmore, hsub]
        split
        · rfl
        · apply BitVec.eq_of_toInt_eq
          have hlt := @BitVec.toInt_lt 16 (w - 1)
          rw [hsub, BitVec.toInt_ofInt, Int.bmod_eq_of_le] <;> omega
      rw [if_pos hmore, ih (by omega), hcount, hrest, List.replicate_succ, Window.emit_cons]
    · have hcount : padCount bound w = 0 := by
        rw [padCount]
        omega
      rw [if_neg hmore, hcount, padRest, if_neg hmore]
      rfl

theorem pad_eq (end_ : U64) (c : Chr) {bound : Int} (hbound : 0 ≤ bound) (w : BitVec 16)
    (out : Out) : pad end_ c bound w out =
      (padRest bound w, emit end_ (List.replicate (padCount bound w) c) out) := by
  refine padLoop_eq (by omega) ?_
  have hlt := @BitVec.toInt_lt 16 (w - 1)
  rw [padCount]
  omega

/-- The prefix. -/
def PrintfSpec.pfx (spec : PrintfSpec) : List Chr :=
  if spec.needPfx then 0x30 :: if spec.base = 16 then [0x58 ||| (spec.flags &&& small)] else []
  else []

/-- The text of a number. -/
def numberText (num : U64) (spec : PrintfSpec) : List Chr :=
  let flags := numberFlags spec.flags
  let (sign_, num, width) := numberSign flags num spec.fieldWidth
  let width := if spec.needPfx then (if spec.base = 16 then width - 1 - 1 else width - 1) else width
  let tmp := numberDigits spec.base (spec.flags &&& small) num
  let precision := if (tmp.length : Int) > spec.precision.toInt then BitVec.ofNat 16 tmp.length
    else spec.precision
  let width₀ := width - precision
  let width₁ := if flags &&& (zeropad + left) = 0 then padRest 0 width₀ else width₀
  let width₂ := if flags &&& left = 0 then padRest 0 width₁ else width₁
  (if flags &&& (zeropad + left) = 0 then List.replicate (padCount 0 width₀) 0x20 else []) ++
    ((if sign_ ≠ 0 then [sign_] else []) ++ (spec.pfx ++
    ((if flags &&& left = 0 then
      List.replicate (padCount 0 width₁) (if flags &&& zeropad ≠ 0 then 0x30 else 0x20) else []) ++
    (List.replicate (padCount tmp.length precision) 0x30 ++ (tmp.reverse ++
    List.replicate (padCount 0 width₂) 0x20)))))

theorem put_eq_emit (end_ : U64) (c : Chr) (out : Out) : put end_ c out = emit end_ [c] out := rfl

/-- A text that is written where a condition holds. -/
theorem emit_if {c : Prop} [Decidable c] (end_ : U64) (l : List Chr) (out : Out) :
    (if c then emit end_ l out else out) = emit end_ (if c then l else []) out := by
  split <;> rfl

/-- A width that is padded where a condition holds. -/
theorem pad_if {c : Prop} [Decidable c] (end_ : U64) (b : Chr) (w : BitVec 16) (out : Out) :
    (if c then pad end_ b 0 w out else (w, out)) =
      (if c then padRest 0 w else w,
        emit end_ (if c then List.replicate (padCount 0 w) b else []) out) := by
  split
  · exact pad_eq end_ b (Int.le_refl 0) w out
  · rfl

theorem pfx_emit (end_ : U64) (spec : PrintfSpec) (out : Out) :
    (if spec.needPfx then
      if spec.base = 16 then put end_ (0x58 ||| (spec.flags &&& small)) (put end_ 0x30 out)
      else put end_ 0x30 out
    else out) = emit end_ spec.pfx out := by
  rw [PrintfSpec.pfx]
  split
  · split <;> rfl
  · rfl

/-- **`number`** writes the text of the number, whatever has been written before it. -/
theorem number_eq (end_ num : U64) (spec : PrintfSpec) (out : Out) :
    number end_ num spec out = emit end_ (numberText num spec) out := by
  rw [number, numberText]
  generalize numberFlags spec.flags = flags
  generalize numberSign flags num spec.fieldWidth = r
  obtain ⟨sign_, num, width⟩ := r
  dsimp only
  rw [pad_if, pfx_emit, put_eq_emit, emit_if, pad_if, pad_eq end_ _ (Int.natCast_nonneg _),
    pad_eq end_ _ (Int.le_refl 0)]
  simp only [Window.emit_append]

/-! ### The layout -/

/-- The sign that is shown. -/
def signText (flags : Chr) (num : U64) : List Chr :=
  if flags &&& sign ≠ 0 then
    if num.msb then [0x2d] else if flags &&& plus ≠ 0 then [0x2b]
    else if flags &&& space ≠ 0 then [0x20] else []
  else []

/-- The number without its sign. -/
def magnitude (flags : Chr) (num : U64) : Nat :=
  if flags &&& sign ≠ 0 ∧ num.msb then (-num).toNat else num.toNat

/-- The digits of a number, the most significant first, with zeros in front up to the precision. -/
def preciseDigits (base locase : Chr) (precision n : Nat) : List Chr :=
  let digits := (digitsOf base.toNat n).reverse.map (digitChar locase)
  List.replicate (precision - digits.length) 0x30 ++ digits

/-- A head and a body in a field: aligned left, filled with zeros between them, or aligned right. -/
def layout (flags : Chr) (width : Nat) (head body : List Chr) : List Chr :=
  let gap := width - (head.length + body.length)
  if flags &&& left ≠ 0 then head ++ body ++ List.replicate gap 0x20
  else if flags &&& zeropad ≠ 0 then head ++ List.replicate gap 0x30 ++ body
  else List.replicate gap 0x20 ++ head ++ body

section Layout

variable {spec : PrintfSpec} {num : U64}

theorem and_small (flags : Chr) : flags &&& small = 0 ∨ flags &&& small = 0x20 := by
  revert flags
  decide

theorem numberFlags_sign (flags : Chr) :
    (numberFlags flags &&& sign) = (flags &&& sign) ∧
      (numberFlags flags &&& plus) = (flags &&& plus) ∧
      (numberFlags flags &&& space) = (flags &&& space) := by
  revert flags
  decide

theorem numberFlags_left (flags : Chr) (h : flags &&& left ≠ 0) :
    numberFlags flags &&& left ≠ 0 ∧ numberFlags flags &&& (zeropad + left) ≠ 0 := by
  revert flags
  decide

theorem numberFlags_right (flags : Chr) (h : flags &&& left = 0) : numberFlags flags = flags :=
  if_neg (not_not.mpr h)

theorem flags_pad_iff (flags : Chr) (h : flags &&& left = 0) :
    flags &&& (zeropad + left) = 0 ↔ flags &&& zeropad = 0 := by
  revert flags
  decide

/-- The sign is taken off the number, and its place off the width. -/
theorem numberSign_eq (flags : Chr) (num : U64) (width : BitVec 16) :
    ∃ c n, numberSign flags num width =
        (c, n, width - BitVec.ofNat 16 (signText flags num).length) ∧
      (if c ≠ 0 then [c] else []) = signText flags num ∧ n.toNat = magnitude flags num := by
  have hzero : width - BitVec.ofNat 16 0 = width := BitVec.sub_zero width
  rw [numberSign, signText, magnitude]
  by_cases hsign : flags &&& sign ≠ 0
  · rw [if_pos hsign, if_pos hsign]
    cases hmsb : num.msb with
    | true => exact ⟨0x2d, -num, rfl, rfl, by rw [if_pos ⟨hsign, rfl⟩]⟩
    | false =>
      have hpos : ¬ (flags &&& sign ≠ 0 ∧ false = true) := fun h => Bool.false_ne_true h.2
      rw [if_neg Bool.false_ne_true, if_neg Bool.false_ne_true, if_neg hpos]
      by_cases hplus : flags &&& plus ≠ 0
      · rw [if_pos hplus, if_pos hplus]
        exact ⟨0x2b, num, rfl, rfl, rfl⟩
      · rw [if_neg hplus, if_neg hplus]
        by_cases hspace : flags &&& space ≠ 0
        · rw [if_pos hspace, if_pos hspace]
          exact ⟨0x20, num, rfl, rfl, rfl⟩
        · rw [if_neg hspace, if_neg hspace]
          exact ⟨0, num, by rw [List.length_nil, hzero], rfl, rfl⟩
  · rw [if_neg hsign, if_neg hsign, if_neg (fun h => hsign h.1)]
    exact ⟨0, num, by rw [List.length_nil, hzero], rfl, rfl⟩

theorem signText_length_le (flags : Chr) (num : U64) : (signText flags num).length ≤ 1 := by
  rw [signText]
  split_ifs <;> decide

theorem pfx_length_le (spec : PrintfSpec) : spec.pfx.length ≤ 2 := by
  rw [PrintfSpec.pfx]
  split_ifs <;> simp

/-- The prefix takes its places off the width. -/
theorem pfx_width (spec : PrintfSpec) (width : BitVec 16) :
    (if spec.needPfx then (if spec.base = 16 then width - 1 - 1 else width - 1) else width) =
      width - BitVec.ofNat 16 spec.pfx.length := by
  have htwo : ∀ w : BitVec 16, w - 1 - 1 = w - BitVec.ofNat 16 2 := fun w => by
    rw [BitVec.sub_sub]
    rfl
  rw [PrintfSpec.pfx]
  split_ifs
  · exact htwo width
  · rfl
  · simp

theorem ofNat_toInt {n : Nat} (h : n < 2 ^ 15) : (BitVec.ofNat 16 n).toInt = n := by
  have hn : (BitVec.ofNat 16 n).toNat = n := Nat.mod_eq_of_lt (by omega)
  rw [BitVec.toInt_eq_toNat_of_lt (by omega), hn]

/-- A width that stays far from where it would wrap. -/
theorem sub_ofNat_toInt {w : BitVec 16} {n : Nat} (hn : n < 2 ^ 15) (h : -32768 ≤ w.toInt - n) :
    (w - BitVec.ofNat 16 n).toInt = w.toInt - n := by
  have hlt := @BitVec.toInt_lt 16 w
  rw [BitVec.toInt_sub, ofNat_toInt hn]
  exact Int.bmod_eq_of_le (by omega) (by omega)

theorem padCount_zero {w : BitVec 16} (h : -32767 ≤ w.toInt) : padCount 0 w = w.toInt.toNat := by
  rw [padCount, sub_one_toInt h]
  congr 1
  omega

theorem padRest_zero {w : BitVec 16} (h : -32767 ≤ w.toInt) :
    (padRest 0 w).toInt = min (w.toInt - 1) (-1) := by
  have hsub := sub_one_toInt h
  rw [padRest, hsub]
  by_cases hpos : 0 ≤ w.toInt - 1
  · have hneg : (BitVec.ofInt 16 (0 - 1)).toInt = -1 := by decide
    rw [if_pos hpos, hneg]
    omega
  · rw [if_neg hpos, hsub]
    omega

/-- There are one to 22 digits. -/
theorem digitsOf_length {base n : Nat} (hbase : 8 ≤ base) (hn : n < 2 ^ 64) :
    1 ≤ (digitsOf base n).length ∧ (digitsOf base n).length ≤ 22 := by
  constructor
  · rw [digitsOf_eq (by omega), List.length_cons]
    exact Nat.le_add_left 1 _
  · rw [digitsOf]
    split
    · decide
    · rw [Nat.digits_length_le_iff (by omega)]
      calc n < 8 ^ 22 := hn.trans (by decide)
        _ ≤ base ^ 22 := Nat.pow_le_pow_left hbase 22

/-- **The layout** of a number, where the width and the precision are nowhere near 16 bits. -/
theorem numberText_layout (hbase : spec.base = 8 ∨ spec.base = 10 ∨ spec.base = 16)
    (hwidth : -1 ≤ spec.fieldWidth.toInt) (hprecision : spec.precision.toInt ≤ 32000) :
    numberText num spec = layout spec.flags spec.fieldWidth.toInt.toNat
      (signText spec.flags num ++ spec.pfx)
      (preciseDigits spec.base (spec.flags &&& small) spec.precision.toInt.toNat
        (magnitude spec.flags num)) := by
  obtain ⟨hs, hplus, hspace⟩ := numberFlags_sign spec.flags
  obtain ⟨c, n, hsign, htext, hn⟩ := numberSign_eq (numberFlags spec.flags) num spec.fieldWidth
  have hsame : signText (numberFlags spec.flags) num = signText spec.flags num := by
    rw [signText, signText, hs, hplus, hspace]
  have hmag : magnitude (numberFlags spec.flags) num = magnitude spec.flags num := by
    rw [magnitude, magnitude, hs]
  have hdigits := numberDigits_eq hbase (and_small spec.flags) n
  have height : 8 ≤ spec.base.toNat := by rcases hbase with h | h | h <;> rw [h] <;> decide
  obtain ⟨hmin, hmax⟩ := digitsOf_length height n.isLt
  rw [numberText, hsign]
  dsimp only
  rw [pfx_width, htext, hdigits, hsame, preciseDigits, List.map_reverse, ← hmag, ← hn]
  have hsle := signText_length_le spec.flags num
  have hxle := pfx_length_le spec
  rw [← @List.length_map _ _ (digitsOf _ _) (digitChar (spec.flags &&& small))] at hmin hmax
  generalize signText spec.flags num = s at hsle ⊢
  generalize spec.pfx = x at hxle ⊢
  generalize (digitsOf spec.base.toNat n.toNat).map (digitChar (spec.flags &&& small)) = tmp
    at hmin hmax ⊢
  -- the precision, and the width that is left for padding
  have hp : (if (tmp.length : Int) > spec.precision.toInt then BitVec.ofNat 16 tmp.length
      else spec.precision).toInt = max (tmp.length : Int) spec.precision.toInt := by
    split
    · rw [ofNat_toInt (by omega)]
      omega
    · omega
  generalize (if (tmp.length : Int) > spec.precision.toInt then BitVec.ofNat 16 tmp.length
    else spec.precision) = p at hp ⊢
  have hw₁ := sub_ofNat_toInt (show s.length < 2 ^ 15 by omega)
    (show -32768 ≤ spec.fieldWidth.toInt - s.length by omega)
  have hw₂ := sub_ofNat_toInt (show x.length < 2 ^ 15 by omega)
    (show -32768 ≤ (spec.fieldWidth - BitVec.ofNat 16 s.length).toInt - x.length by omega)
  have hw₃ : (spec.fieldWidth - BitVec.ofNat 16 s.length - BitVec.ofNat 16 x.length - p).toInt =
      spec.fieldWidth.toInt - s.length - x.length - p.toInt := by
    have hlt := @BitVec.toInt_lt 16 spec.fieldWidth
    rw [BitVec.toInt_sub, hw₂, hw₁]
    exact Int.bmod_eq_of_le (by omega) (by omega)
  generalize spec.fieldWidth - BitVec.ofNat 16 s.length - BitVec.ofNat 16 x.length - p = w at hw₃ ⊢
  have hzeros : padCount tmp.length p = spec.precision.toInt.toNat - tmp.length := by
    rw [padCount, sub_one_toInt (by omega), hp]
    omega
  have hgap : padCount 0 w = spec.fieldWidth.toInt.toNat -
      ((s ++ x).length + (List.replicate (spec.precision.toInt.toNat - tmp.length) (0x30 : Chr) ++
        tmp.reverse).length) := by
    rw [padCount_zero (by omega), List.length_append, List.length_append, List.length_replicate,
      List.length_reverse]
    omega
  have hrest := padRest_zero (show -32767 ≤ w.toInt by omega)
  have hnone : padCount 0 (padRest 0 w) = 0 := by
    rw [padCount_zero (by omega)]
    omega
  have hnone' : padCount 0 (padRest 0 (padRest 0 w)) = 0 := by
    have hrest' := padRest_zero (show -32767 ≤ (padRest 0 w).toInt by omega)
    rw [padCount_zero (by omega)]
    omega
  rw [layout, List.length_reverse, ← hgap, hzeros]
  by_cases hleft : spec.flags &&& left ≠ 0
  · obtain ⟨hl, hpad⟩ := numberFlags_left spec.flags hleft
    simp only [if_neg hl, if_neg hpad, if_pos hleft, List.nil_append, List.append_assoc]
  · have hl := not_not.mp hleft
    rw [numberFlags_right _ hl, if_neg hleft]
    have hiff := flags_pad_iff spec.flags hl
    by_cases hzero : spec.flags &&& zeropad ≠ 0
    · have hpad := hiff.not.mpr hzero
      simp only [if_neg hpad, if_pos hl, if_pos hzero, hnone, List.replicate_zero, List.nil_append,
        List.append_nil, List.append_assoc]
    · have hpad := hiff.mpr (not_not.mp hzero)
      simp only [if_pos hpad, if_pos hl, if_neg hzero, hnone, hnone', List.replicate_zero,
        List.nil_append, List.append_nil, List.append_assoc]

/-- **What `number` leaves in a buffer**: it goes on with the layout of the number, of which it
writes what is before `end`, and nothing else. -/
theorem number_writes {mem : U64 → Chr} {buf end_ : U64} {text : List Chr} {out : Out}
    (h : Window.Holds mem buf end_ text out)
    (hbase : spec.base = 8 ∨ spec.base = 10 ∨ spec.base = 16)
    (hwidth : -1 ≤ spec.fieldWidth.toInt) (hprecision : spec.precision.toInt ≤ 32000)
    (hfit : buf.toNat + (text ++ numberText num spec).length < 2 ^ 64) :
    Window.Holds mem buf end_ (text ++ layout spec.flags spec.fieldWidth.toInt.toNat
      (signText spec.flags num ++ spec.pfx)
      (preciseDigits spec.base (spec.flags &&& small) spec.precision.toInt.toNat
        (magnitude spec.flags num))) (number end_ num spec out) := by
  rw [number_eq, ← numberText_layout hbase hwidth hprecision]
  exact h.emit _ hfit

end Layout

/-- `%+#6.3x` of -255, of which three characters are before the end. -/
def sampleSpec : PrintfSpec := ⟨sign ||| plus ||| special ||| small, 16, 6, 3⟩

theorem number_writes_sample :
    Window.Holds (fun _ => 0) 0x1000 0x1003 ([] ++ layout sampleSpec.flags
      sampleSpec.fieldWidth.toInt.toNat (signText sampleSpec.flags (-255) ++ sampleSpec.pfx)
      (preciseDigits sampleSpec.base (sampleSpec.flags &&& small)
        sampleSpec.precision.toInt.toNat (magnitude sampleSpec.flags (-255))))
      (number 0x1003 (-255) sampleSpec ⟨fun _ => 0, 0x1000⟩) :=
  number_writes (Window.Holds.start _ _ _) (.inr (.inr rfl)) (by decide) (by decide)
    (by decide +kernel)

example : numberText (-255) sampleSpec = ascii "-0x0ff" := by decide +kernel

end Prephv.Fmt
