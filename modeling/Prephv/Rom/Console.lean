import Prephv.Defs
import Prephv.Lib.Transducer

/-!
# Rom — Console

The console of `rom.c`: `rom_stdout` prints the guest's characters with `con_putchar`, and
`rom_stdin` gives the guest what `con_getchar` reads.  The control sequence introducer `0x9b` goes
out as the two characters `ESC [`, and comes in as these.

`rom_stdin` holds an `ESC` back until it sees the next character (`csi`).  If that is not `[` it
delivers the `ESC` and keeps the character in `prev_c`, a variable of the loop's body: the next
iteration sets it to 0, and the character is lost.  So input is lossless as long as every `ESC` is
followed by `[` (`romStdins_lossless_iff`), as it is in what `rom_stdout` prints
(`romStdins_romStdout`).
-/

set_option autoImplicit false

namespace Prephv

open Transducer

/-! ### `con_getchar` and `con_putchar` -/

/-- `char`, which is unsigned on PowerPC. -/
abbrev Chr := BitVec 8

/-- `int`. -/
abbrev CInt := BitVec 32

/-- `NO_CHAR`. -/
def noChar : CInt := -1

/-- `OPAL_SUCCESS`. -/
def opalSuccess : BitVec 64 := 0

/-- What `opal_read` gives back: its return value, and what it leaves in `len` and `c`. -/
structure OpalRead where
  ret : BitVec 64
  len : U64
  c : Chr
  deriving DecidableEq, Repr

/-- The state `rom_stdin` works on: its `csi`, and what the next reads of the terminal give. -/
structure Stdin where
  csi : Bool
  opal : List OpalRead
  deriving DecidableEq, Repr

/-- `con_getchar`. -/
def conGetchar (s : Stdin) : CInt × Stdin :=
  match s.opal with
  | [] => (noChar, s)
  | read :: opal =>
    if read.ret ≠ opalSuccess ∨ read.len = 0 then (noChar, { s with opal := opal })
    else (read.c.setWidth 32, { s with opal := opal })

/-- `con_putchar`: the characters it writes to the terminal. -/
def conPutchar (c : Chr) : List Chr :=
  [c] ++ if c = 0x0a then [0x0d] else []

/-! ### `rom_stdin` and `rom_stdout` -/

/-- An iteration of `rom_stdin`'s loop: the character it puts into the buffer, if any.  It is `none`
where the loop ends with `break`. -/
def stdinIter (s : Stdin) : Option (List Chr) × Stdin :=
  -- a variable of the body, set in each iteration: nothing that was kept in it comes this far
  let prevC : Chr := 0
  if prevC ≠ 0 then (some [prevC], s)
  else
    let (c, s) := conGetchar s
    if c = noChar then (none, s)
    else if s.csi then
      if c = 0x5b then (some [0x9b], { s with csi := false })
      else
        -- `prev_c = c` is lost with the end of the iteration
        (some [0x1b], { s with csi := false })
    else if c = 0x1b then (some [], { s with csi := true })
    else (some [c.setWidth 8], s)

/-- The loop of `rom_stdin`, with `room` from `buf` to `end`. -/
def stdinLoop : Nat → Nat → Stdin → List Chr × Stdin
  | 0, _, s => ([], s)
  | fuel + 1, room, s =>
    if room = 0 then ([], s)
    else
      match stdinIter s with
      | (none, s) => ([], s)
      | (some out, s) =>
        let (outs, s) := stdinLoop fuel (room - out.length) s
        (out ++ outs, s)

/-- `rom_stdin`: what it puts into the buffer.  An iteration that does not end the loop has read
something, so there are not more of them than reads. -/
def romStdin (len : U32) (s : Stdin) : List Chr × Stdin :=
  stdinLoop (s.opal.length + 1) len.toNat s

/-- `rom_stdin` calls, one after the other. -/
def romStdins : List U32 → Stdin → List Chr × Stdin
  | [], s => ([], s)
  | len :: lens, s =>
    let (out, s) := romStdin len s
    let (outs, s) := romStdins lens s
    (out ++ outs, s)

/-- The body of `rom_stdout`'s loop. -/
def stdoutChar (c : Chr) : List Chr :=
  if c = 0x9b then conPutchar 0x1b ++ conPutchar 0x5b
  else if c = 0xcd then conPutchar 0x3d
  else if c = 0xba then conPutchar 0x7c
  else if c = 0xbb ∨ c = 0xc8 then conPutchar 0x5c
  else if c = 0xbc ∨ c = 0xc9 then conPutchar 0x2f
  else conPutchar c

/-- `rom_stdout`: what it prints. -/
def romStdout (s : List Chr) : List Chr := s.flatMap stdoutChar

/-! ### What the guest should get -/

/-- The character of a read, where there is one. -/
def OpalRead.char (read : OpalRead) : Option Chr :=
  if read.ret ≠ opalSuccess ∨ read.len = 0 then none else some read.c

/-- The characters of the reads. -/
def chars (opal : List OpalRead) : List Chr := opal.filterMap OpalRead.char

/-- Each `ESC [` as the one character `0x9b`, and every other character as it is. -/
def translate : List Chr → List Chr
  | [] => []
  | [c] => [c]
  | c :: c' :: cs =>
    if c = 0x1b ∧ c' = 0x5b then 0x9b :: translate cs else c :: translate (c' :: cs)

/-- The `ESC` that is held back. -/
def pending (csi : Bool) : List Chr := if csi then [0x1b] else []

/-- Every `ESC` that is not the last character is followed by `[`. -/
def Paired : List Chr → Prop
  | [] => True
  | [_] => True
  | c :: c' :: cs => (c = 0x1b → c' = 0x5b) ∧ Paired (c' :: cs)

theorem translate_csi (cs : List Chr) : translate (0x1b :: 0x5b :: cs) = 0x9b :: translate cs := by
  rw [translate, if_pos ⟨rfl, rfl⟩]

theorem translate_cons {c : Chr} {cs : List Chr} (h : c = 0x1b → cs.head? ≠ some 0x5b) :
    translate (c :: cs) = c :: translate cs := by
  cases cs with
  | nil => rfl
  | cons c' cs =>
    rw [translate, if_neg]
    rintro ⟨hc, hc'⟩
    exact h hc (congrArg some hc')

/-- An `ESC` that is alone stays. -/
theorem translate_esc {c : Chr} (hc : c ≠ 0x5b) (cs : List Chr) :
    translate (0x1b :: c :: cs) = 0x1b :: translate (c :: cs) :=
  translate_cons fun _ h => hc (Option.some.inj h)

/-- A character more makes the translation no shorter. -/
theorem length_translate_cons (c : Chr) (cs : List Chr) :
    (translate cs).length ≤ (translate (c :: cs)).length := by
  by_cases h : c = 0x1b → cs.head? ≠ some 0x5b
  · rw [translate_cons h]
    exact Nat.le_succ _
  · simp only [Classical.not_imp, not_not] at h
    obtain ⟨rfl, h⟩ := h
    obtain ⟨cs', rfl⟩ : ∃ cs', cs = 0x5b :: cs' := List.head?_eq_some_iff.mp h
    rw [translate_csi, translate_cons (fun h => absurd h (by decide))]
    exact Nat.le_refl _

theorem paired_cons {c : Chr} {cs : List Chr} :
    Paired (c :: cs) ↔ (c = 0x1b → ∀ c' ∈ cs.head?, c' = 0x5b) ∧ Paired cs := by
  cases cs with
  | nil => simp [Paired]
  | cons c' cs => simp [Paired]

/-! ### `rom_stdin` as a transducer -/

/-- What `rom_stdin` does on a character. -/
def stdinStep (csi : Bool) (c : Chr) : List Chr × Bool :=
  if csi then (if c = 0x5b then [0x9b] else [0x1b], false)
  else if c = 0x1b then ([], true)
  else ([c], false)

theorem stdinStep_length (csi : Bool) (c : Chr) : (stdinStep csi c).1.length ≤ 1 := by
  unfold stdinStep
  split
  · split <;> exact Nat.le_refl 1
  · split
    · exact Nat.zero_le 1
    · exact Nat.le_refl 1

theorem setWidth_eq_iff (c : Chr) (k : Nat) (hk : k < 2 ^ 8) :
    (c.setWidth 32 : CInt) = BitVec.ofNat 32 k ↔ c = BitVec.ofNat 8 k := by
  have hc := c.isLt
  constructor
  · intro h
    have h := congrArg BitVec.toNat h
    rw [BitVec.toNat_setWidth, BitVec.toNat_ofNat] at h
    apply BitVec.eq_of_toNat_eq
    rw [BitVec.toNat_ofNat]
    omega
  · rintro rfl
    apply BitVec.eq_of_toNat_eq
    rw [BitVec.toNat_setWidth, BitVec.toNat_ofNat, BitVec.toNat_ofNat]
    omega

/-- A character is never taken for `NO_CHAR`. -/
theorem setWidth_ne_noChar (c : Chr) : (c.setWidth 32 : CInt) ≠ noChar := by
  intro h
  have hc := c.isLt
  have h := congrArg BitVec.toNat h
  have hno : noChar.toNat = 2 ^ 32 - 1 := rfl
  rw [BitVec.toNat_setWidth, hno] at h
  omega

theorem stdinIter_nil (csi : Bool) : stdinIter ⟨csi, []⟩ = (none, ⟨csi, []⟩) := rfl

theorem conGetchar_none {read : OpalRead} (h : read.char = none) (csi : Bool)
    (opal : List OpalRead) : conGetchar ⟨csi, read :: opal⟩ = (noChar, ⟨csi, opal⟩) := by
  refine if_pos ?_
  by_contra hread
  rw [OpalRead.char, if_neg hread] at h
  cases h

theorem conGetchar_some {read : OpalRead} {c : Chr} (h : read.char = some c) (csi : Bool)
    (opal : List OpalRead) : conGetchar ⟨csi, read :: opal⟩ = (c.setWidth 32, ⟨csi, opal⟩) := by
  have hread : ¬ (read.ret ≠ opalSuccess ∨ read.len = 0) := by
    intro hread
    rw [OpalRead.char, if_pos hread] at h
    cases h
  rw [OpalRead.char, if_neg hread] at h
  obtain rfl := Option.some.inj h
  exact if_neg hread

theorem stdinIter_none {read : OpalRead} (h : read.char = none) (csi : Bool)
    (opal : List OpalRead) : stdinIter ⟨csi, read :: opal⟩ = (none, ⟨csi, opal⟩) := by
  unfold stdinIter
  rw [if_neg (by simp), conGetchar_none h]
  rfl

theorem stdinIter_some {read : OpalRead} {c : Chr} (h : read.char = some c) (csi : Bool)
    (opal : List OpalRead) : stdinIter ⟨csi, read :: opal⟩ =
      (some (stdinStep csi c).1, ⟨(stdinStep csi c).2, opal⟩) := by
  have hopen : (c.setWidth 32 : CInt) = 0x5b ↔ c = 0x5b := setWidth_eq_iff c 0x5b (by decide)
  have hesc : (c.setWidth 32 : CInt) = 0x1b ↔ c = 0x1b := setWidth_eq_iff c 0x1b (by decide)
  have hback : (c.setWidth 32).setWidth 8 = c := by simp
  unfold stdinIter stdinStep
  rw [if_neg (by simp), conGetchar_some h]
  dsimp only
  rw [if_neg (setWidth_ne_noChar c), hback]
  simp only [hopen, hesc]
  cases csi with
  | true =>
    simp only [if_true]
    split <;> rfl
  | false =>
    simp only [Bool.false_eq_true, if_false]
    split <;> rfl

/-- The loop is the transducer, polled with the room of the buffer. -/
theorem stdinLoop_eq {fuel : Nat} (room : Nat) (csi : Bool) {opal : List OpalRead}
    (hfuel : opal.length < fuel) :
    poll stdinStep OpalRead.char room csi opal =
      ((stdinLoop fuel room ⟨csi, opal⟩).1, (stdinLoop fuel room ⟨csi, opal⟩).2.csi,
        (stdinLoop fuel room ⟨csi, opal⟩).2.opal) := by
  induction opal generalizing fuel room csi with
  | nil =>
    obtain ⟨fuel, rfl⟩ := Nat.exists_eq_succ_of_ne_zero (Nat.ne_of_gt hfuel)
    rw [stdinLoop, stdinIter_nil]
    cases room <;> rfl
  | cons read opal ih =>
    obtain ⟨fuel, rfl⟩ := Nat.exists_eq_succ_of_ne_zero (Nat.ne_of_gt (Nat.zero_lt_of_lt hfuel))
    have hfuel : opal.length < fuel := Nat.lt_of_succ_lt_succ hfuel
    cases room with
    | zero => rfl
    | succ room =>
      rw [stdinLoop, if_neg (Nat.succ_ne_zero room)]
      cases hread : read.char with
      | none => rw [poll_none stdinStep hread, stdinIter_none hread]
      | some c => rw [poll_some stdinStep hread, stdinIter_some hread, ih _ _ hfuel]

theorem romStdin_eq (len : U32) (s : Stdin) :
    poll stdinStep OpalRead.char len.toNat s.csi s.opal =
      ((romStdin len s).1, (romStdin len s).2.csi, (romStdin len s).2.opal) :=
  stdinLoop_eq len.toNat s.csi (Nat.lt_succ_self _)

/-- `rom_stdin` stays in its buffer. -/
theorem romStdin_length (len : U32) (s : Stdin) : (romStdin len s).1.length ≤ len.toNat := by
  have h := poll_length stdinStep OpalRead.char stdinStep_length len.toNat s.csi s.opal
  rw [romStdin_eq] at h
  exact h

theorem romStdins_eq (lens : List U32) (s : Stdin) :
    polls stdinStep OpalRead.char (lens.map BitVec.toNat) s.csi s.opal =
      ((romStdins lens s).1, (romStdins lens s).2.csi, (romStdins lens s).2.opal) := by
  induction lens generalizing s with
  | nil => rfl
  | cons len lens ih =>
    rw [List.map_cons, polls, romStdin_eq]
    dsimp only
    rw [ih]
    rfl

/-- What the calls deliver is what the transducer does on what they read. -/
theorem romStdins_uses (lens : List U32) (s : Stdin) : ∃ used,
    s.opal = used ++ (romStdins lens s).2.opal ∧
      run stdinStep s.csi (chars used) = ((romStdins lens s).1, (romStdins lens s).2.csi) := by
  have h := polls_spec stdinStep OpalRead.char (lens.map BitVec.toNat) s.csi s.opal
  rw [romStdins_eq] at h
  exact h

/-! ### Lossless input -/

/-- What was delivered and what is held back. -/
def outcome (csi : Bool) (cs : List Chr) : List Chr :=
  (run stdinStep csi cs).1 ++ pending (run stdinStep csi cs).2

theorem outcome_csi (cs : List Chr) : outcome true (0x5b :: cs) = 0x9b :: outcome false cs := rfl

theorem outcome_plain {c : Chr} (hc : c ≠ 0x1b) (cs : List Chr) :
    outcome false (c :: cs) = c :: outcome false cs := by
  have hstep : stdinStep false c = ([c], false) := if_neg hc
  rw [outcome, run_cons, hstep]
  rfl

/-- The character after an `ESC` that is alone is lost. -/
theorem outcome_lost {c : Chr} (hc : c ≠ 0x5b) (cs : List Chr) :
    outcome true (c :: cs) = 0x1b :: outcome false cs := by
  have hstep : stdinStep true c = ([0x1b], false) :=
    congrArg (·, false) (if_neg hc)
  rw [outcome, run_cons, hstep]
  rfl

/-- Nothing is delivered that should not be. -/
theorem length_outcome (cs : List Chr) (csi : Bool) :
    (outcome csi cs).length ≤ (translate (pending csi ++ cs)).length := by
  induction cs generalizing csi with
  | nil => cases csi <;> exact Nat.le_refl _
  | cons c cs ih =>
    cases csi with
    | false =>
      by_cases hc : c = 0x1b
      · subst hc
        exact ih true
      · rw [outcome_plain hc]
        show _ ≤ (translate (c :: cs)).length
        rw [translate_cons fun h => absurd h hc]
        exact Nat.succ_le_succ (ih false)
    | true =>
      show _ ≤ (translate (0x1b :: c :: cs)).length
      by_cases hc : c = 0x5b
      · subst hc
        rw [outcome_csi, translate_csi]
        exact Nat.succ_le_succ (ih false)
      · rw [outcome_lost hc, translate_esc hc]
        exact Nat.succ_le_succ (Nat.le_trans (ih false) (length_translate_cons c cs))

/-- Where an `ESC` was alone, what comes later does not make up for the character lost. -/
theorem outcome_ne_translate (c : Chr) (cs : List Chr) (hc : c ≠ 0x5b) :
    outcome false cs ≠ translate (c :: cs) := by
  intro h
  by_cases hpair : c = 0x1b → cs.head? ≠ some 0x5b
  · -- the translation has a character more
    have hlen := length_outcome cs false
    have hlong := congrArg List.length h
    rw [translate_cons hpair, List.length_cons] at hlong
    change _ ≤ (translate cs).length at hlen
    omega
  · -- the translation starts with `0x9b`
    simp only [Classical.not_imp, not_not] at hpair
    obtain ⟨rfl, hhead⟩ := hpair
    obtain ⟨cs', rfl⟩ : ∃ cs', cs = 0x5b :: cs' := List.head?_eq_some_iff.mp hhead
    rw [outcome_plain (by decide), translate_csi] at h
    exact absurd (List.cons.inj h).1 (by decide)

/-- Input is delivered as it should be just when every `ESC` is followed by `[`. -/
theorem outcome_eq_iff (cs : List Chr) (csi : Bool) :
    outcome csi cs = translate (pending csi ++ cs) ↔ Paired (pending csi ++ cs) := by
  induction cs generalizing csi with
  | nil => cases csi <;> exact iff_of_true rfl trivial
  | cons c cs ih =>
    cases csi with
    | false =>
      show _ = translate (c :: cs) ↔ Paired (c :: cs)
      by_cases hc : c = 0x1b
      · subst hc
        exact ih true
      · have h := ih false
        change _ = translate cs ↔ Paired cs at h
        rw [outcome_plain hc, translate_cons fun h => absurd h hc, paired_cons, ← h]
        exact ⟨fun e => ⟨fun h => absurd h hc, (List.cons.inj e).2⟩, fun e => congrArg _ e.2⟩
    | true =>
      show _ = translate (0x1b :: c :: cs) ↔ Paired (0x1b :: c :: cs)
      by_cases hc : c = 0x5b
      · subst hc
        have h := ih false
        change _ = translate cs ↔ Paired cs at h
        rw [outcome_csi, translate_csi, paired_cons, paired_cons, ← h]
        simp
      · rw [outcome_lost hc, translate_esc hc, paired_cons]
        refine iff_of_false (fun h => ?_) (fun h => hc (h.1 rfl c rfl))
        exact outcome_ne_translate c cs hc (List.cons.inj h).2

/-- The console at boot: `csi` is false. -/
def bootStdin (opal : List OpalRead) : Stdin := ⟨false, opal⟩

/-- The characters the calls have read. -/
def consumed (lens : List U32) (opal : List OpalRead) : List Chr :=
  chars (opal.take (opal.length - (romStdins lens (bootStdin opal)).2.opal.length))

/-- After the calls, what was delivered, with an `ESC` that is held back, is what was read, in
order and translated. -/
def Lossless (lens : List U32) (opal : List OpalRead) : Prop :=
  (romStdins lens (bootStdin opal)).1 ++ pending (romStdins lens (bootStdin opal)).2.csi =
    translate (consumed lens opal)

theorem consumed_spec (lens : List U32) (opal : List OpalRead) : ∃ used,
    opal = used ++ (romStdins lens (bootStdin opal)).2.opal ∧ consumed lens opal = chars used ∧
      run stdinStep false (chars used) =
        ((romStdins lens (bootStdin opal)).1, (romStdins lens (bootStdin opal)).2.csi) := by
  obtain ⟨used, hused, hrun⟩ := romStdins_uses lens (bootStdin opal)
  refine ⟨used, hused, congrArg chars ?_, hrun⟩
  have hlen := congrArg List.length hused
  change opal = used ++ _ at hused
  change opal.length = _ at hlen
  rw [List.length_append] at hlen
  rw [hlen, Nat.add_sub_cancel]
  nth_rewrite 1 [hused]
  exact List.take_left

theorem lossless_iff_paired (lens : List U32) (opal : List OpalRead) :
    Lossless lens opal ↔ Paired (consumed lens opal) := by
  obtain ⟨used, -, hconsumed, hrun⟩ := consumed_spec lens opal
  have h := outcome_eq_iff (chars used) false
  rw [outcome, hrun] at h
  rw [Lossless, hconsumed]
  exact h

theorem Paired.left {cs cs' : List Chr} (h : Paired (cs ++ cs')) : Paired cs := by
  induction cs with
  | nil => exact trivial
  | cons c cs ih =>
    rw [List.cons_append, paired_cons] at h
    obtain ⟨hc, hcs⟩ := h
    refine paired_cons.mpr ⟨fun he c' hc' => hc he c' ?_, ih hcs⟩
    rw [List.head?_append, hc']
    rfl

/-- **Where console input loses nothing.**  Some calls lose nothing just when every `ESC` they read,
but for a last one, is followed by `[`; and however the calls are cut nothing is lost just when that
holds of all the input. -/
theorem romStdins_lossless_iff (opal : List OpalRead) :
    (∀ lens, Lossless lens opal ↔ Paired (consumed lens opal)) ∧
      ((∀ lens, Lossless lens opal) ↔ Paired (chars opal)) := by
  refine ⟨fun lens => lossless_iff_paired lens opal, fun h => ?_, fun h lens => ?_⟩
  · -- calls of one character, as many as there are reads, read everything
    have hpaired := (lossless_iff_paired (List.replicate opal.length 1) opal).mp (h _)
    obtain ⟨used, hused, hconsumed, -⟩ := consumed_spec (List.replicate opal.length 1) opal
    have hrooms : ∀ room ∈ (List.replicate opal.length (1 : U32)).map BitVec.toNat, room ≠ 0 := by
      simp
    have hdrain := polls_drains stdinStep OpalRead.char hrooms false
      (show opal.length ≤ _ by simp)
    have heq := romStdins_eq (List.replicate opal.length 1) (bootStdin opal)
    change polls _ _ _ false opal = _ at heq
    rw [heq] at hdrain
    change (romStdins _ (bootStdin opal)).2.opal = [] at hdrain
    rw [hdrain, List.append_nil] at hused
    rwa [hconsumed, ← hused] at hpaired
  · obtain ⟨used, hused, hconsumed, -⟩ := consumed_spec lens opal
    rw [lossless_iff_paired, hconsumed]
    rw [hused, chars, List.filterMap_append] at h
    exact h.left

/-- An `ESC` and then `A`, read in a call for sixteen characters: the `A` is lost. -/
theorem romStdins_loses : ¬ ∀ lens opal, Lossless lens opal := by
  intro h
  have h := h [16] [⟨0, 0x100000000000000, 0x1b⟩, ⟨0, 0x100000000000000, 0x41⟩]
  unfold Lossless at h
  revert h
  decide

/-! ### The round trip -/

/-- A character that `rom_stdout` can print so that it comes back. -/
def Plain (c : Chr) : Prop :=
  c ∉ ([0x1b, 0x0a, 0xcd, 0xba, 0xbb, 0xc8, 0xbc, 0xc9] : List Chr)

/-- A plain character is printed as it is, but for `0x9b`. -/
theorem Plain.stdoutChar {c : Chr} (h : Plain c) :
    stdoutChar c = if c = 0x9b then [0x1b, 0x5b] else [c] := by
  simp only [Plain, List.mem_cons, List.not_mem_nil, or_false, not_or] at h
  obtain ⟨-, h₁, h₂, h₃, h₄, h₅, h₆, h₇⟩ := h
  unfold Prephv.stdoutChar
  split
  · rfl
  · rw [if_neg (not_or.mpr ⟨h₄, h₅⟩), if_neg (not_or.mpr ⟨h₆, h₇⟩), conPutchar, if_neg h₁]
    rfl

/-- What `rom_stdout` printed comes back from the transducer. -/
theorem run_romStdout {s : List Chr} (hs : ∀ c ∈ s, Plain c) :
    run stdinStep false (romStdout s) = (s, false) := by
  induction s with
  | nil => rfl
  | cons c s ih =>
    have hc := hs c List.mem_cons_self
    have hrest := ih fun c' h => hs c' (List.mem_cons_of_mem _ h)
    rw [romStdout, List.flatMap_cons, hc.stdoutChar, run_append]
    change run stdinStep false (s.flatMap Prephv.stdoutChar) = _ at hrest
    split
    · next h =>
      subst h
      have hpair : run stdinStep false [0x1b, 0x5b] = ([0x9b], false) := rfl
      rw [hpair, hrest]
      rfl
    · have hesc : c ≠ 0x1b := fun h => hc (by simp [h])
      have hone : run stdinStep false [c] = ([c], false) := by
        rw [run_cons, stdinStep, if_neg (by simp), if_neg hesc]
        rfl
      rw [hone, hrest]
      rfl

/-- **Console translation round-trips.**  Where the input is what `rom_stdout` prints for `s`, with
any gaps, calls that have room deliver a beginning of `s`, and all of `s` when all the input has
been read, which it has been after as many calls as there are reads. -/
theorem romStdins_romStdout {s : List Chr} (hs : ∀ c ∈ s, Plain c) {opal : List OpalRead}
    (hopal : chars opal = romStdout s) {lens : List U32} (hlens : ∀ len ∈ lens, len ≠ 0) :
    (romStdins lens (bootStdin opal)).1 <+: s ∧
      ((romStdins lens (bootStdin opal)).2.opal = [] →
        (romStdins lens (bootStdin opal)).1 = s) ∧
      (opal.length ≤ lens.length → (romStdins lens (bootStdin opal)).2.opal = []) := by
  obtain ⟨used, hused, -, hrun⟩ := consumed_spec lens opal
  have hall := run_romStdout hs
  refine ⟨?_, fun hrest => ?_, fun hlen => ?_⟩
  · rw [← hopal, hused, chars, List.filterMap_append, run_append] at hall
    change run stdinStep false (used.filterMap _) = _ at hrun
    rw [hrun] at hall
    exact ⟨_, congrArg Prod.fst hall⟩
  · rw [hrest, List.append_nil] at hused
    rw [← hopal, hused, hrun] at hall
    exact congrArg Prod.fst hall
  · have hrooms : ∀ room ∈ lens.map BitVec.toNat, room ≠ 0 := by
      intro room hroom
      obtain ⟨len, hlen, rfl⟩ := List.mem_map.mp hroom
      exact fun h => hlens len hlen (BitVec.eq_of_toNat_eq h)
    have hdrain := polls_drains stdinStep OpalRead.char hrooms false
      (hlen.trans (Nat.le_of_eq (List.length_map _).symm))
    have heq := romStdins_eq lens (bootStdin opal)
    change polls _ _ _ false opal = _ at heq
    rwa [heq] at hdrain

/-- The reads of `A`, of `ESC` and `[` with a gap between them, and of `m`. -/
def sampleReads : List OpalRead :=
  [⟨0, 1, 0x41⟩, ⟨0, 1, 0x1b⟩, ⟨0, 0, 0⟩, ⟨0, 1, 0x5b⟩, ⟨0, 1, 0x6d⟩]

theorem romStdins_romStdout_sample :
    (romStdins [1, 1, 1, 1, 1] (bootStdin sampleReads)).1 = [0x41, 0x9b, 0x6d] := by
  have hplain : ∀ c ∈ ([0x41, 0x9b, 0x6d] : List Chr), Plain c := by
    unfold Plain
    decide
  have hreads : chars sampleReads = romStdout [0x41, 0x9b, 0x6d] := by decide
  have hroom : ∀ len ∈ ([1, 1, 1, 1, 1] : List U32), len ≠ 0 := by simp
  obtain ⟨-, hall, hrest⟩ := romStdins_romStdout hplain hreads hroom
  exact hall (hrest (Nat.le_refl 5))

end Prephv
