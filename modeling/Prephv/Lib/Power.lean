import Prephv.Lib.Words
import Mathlib.Logic.Function.Basic

/-!
# Lib — Power

A fragment of the 64-bit Power machine: what an interrupt handler's entry and exit code uses.  The
state has the general registers, the special ones that interrupts and returns use, the condition
register and a byte memory; programs are blocks of straight code joined by branches.

The second half has the rules for code that saves and restores registers.  A *frame* is a row of
doublewords at a base address.  `writes` is the memory after a list of stores into a frame
(`load_writes`); a run of `std` through one base register is such a list (`execs_stores`), so is a
run of copies from one frame to another apart from it (`execs_copies`), and a run of `ld` through
one base register reads the frame's doublewords (`execs_loads`).
-/

set_option autoImplicit false

namespace Power

open Words

/-! ### Memory -/

abbrev Word := BitVec 64

/-- The bytes at the addresses. -/
abbrev Mem := Word → BitVec 8

/-- The address is one of the `n` bytes from `a` on, round the end of the address space. -/
def Within (a : Word) (n : Nat) (x : Word) : Prop := (x - a).toNat < n

instance (a : Word) (n : Nat) (x : Word) : Decidable (Within a n x) :=
  inferInstanceAs (Decidable (_ < _))

/-- The `n` bytes from `a` on and the `k` bytes from `b` on share none. -/
def Apart (a : Word) (n : Nat) (b : Word) (k : Nat) : Prop :=
  ∀ x, Within a n x → ¬ Within b k x

/-- The doubleword at `a`, of a little-endian machine. -/
def load (m : Mem) (a : Word) : Word :=
  m (a + 7) ++ m (a + 6) ++ m (a + 5) ++ m (a + 4) ++ m (a + 3) ++ m (a + 2) ++ m (a + 1) ++ m a

/-- The memory with the doubleword `v` at `a`. -/
def store (m : Mem) (a v : Word) : Mem :=
  fun x => if Within a 8 x then v.extractLsb' (8 * (x - a).toNat) 8 else m x

theorem within_add (a : Word) {k n : Nat} (hk : k < n) (hn : n ≤ 2 ^ 64) :
    Within a n (a + BitVec.ofNat 64 k) := by
  show (a + BitVec.ofNat 64 k - a).toNat < n
  rw [Words.add_ofNat_sub_toNat a (by omega)]
  exact hk

theorem Apart.symm {a b : Word} {n k : Nat} (h : Apart a n b k) : Apart b k a n :=
  fun x hb ha => h x ha hb

/-- Bytes below others, none of them round the end of the address space. -/
theorem apart_of_le {a b : Word} {n k : Nat} (h : a.toNat + n ≤ b.toNat)
    (hb : b.toNat + k ≤ 2 ^ 64) : Apart a n b k := by
  intro x hx hx'
  unfold Within at hx hx'
  rw [BitVec.toNat_sub] at hx hx'
  have hlt := x.isLt
  omega

/-- A load reads its eight bytes. -/
theorem load_congr {m m' : Mem} {a : Word} (h : ∀ x, Within a 8 x → m x = m' x) :
    load m a = load m' a := by
  have hbyte : ∀ k, k < 8 → m (a + BitVec.ofNat 64 k) = m' (a + BitVec.ofNat 64 k) :=
    fun k hk => h _ (within_add a hk (by decide))
  have h₀ : m a = m' a := by simpa using hbyte 0 (by decide)
  simp only [load, h₀]
  rw [show m (a + 7) = m' (a + 7) from hbyte 7 (by decide),
    show m (a + 6) = m' (a + 6) from hbyte 6 (by decide),
    show m (a + 5) = m' (a + 5) from hbyte 5 (by decide),
    show m (a + 4) = m' (a + 4) from hbyte 4 (by decide),
    show m (a + 3) = m' (a + 3) from hbyte 3 (by decide),
    show m (a + 2) = m' (a + 2) from hbyte 2 (by decide),
    show m (a + 1) = m' (a + 1) from hbyte 1 (by decide)]

theorem load_store_apart {m : Mem} {a b : Word} (h : Apart a 8 b 8) (v : Word) :
    load (store m b v) a = load m a :=
  load_congr fun x hx => if_neg (h x hx)

theorem load_store (m : Mem) (a v : Word) : load (store m a v) a = v := by
  have hbyte : ∀ k, k < 8 → store m a v (a + BitVec.ofNat 64 k) = v.extractLsb' (8 * k) 8 := by
    intro k hk
    rw [store, if_pos (within_add a hk (by decide)), Words.add_ofNat_sub_toNat a (by omega)]
  have h₀ : store m a v a = v.extractLsb' 0 8 := by simpa using hbyte 0 (by decide)
  rw [load, h₀, show store m a v (a + 7) = _ from hbyte 7 (by decide),
    show store m a v (a + 6) = _ from hbyte 6 (by decide),
    show store m a v (a + 5) = _ from hbyte 5 (by decide),
    show store m a v (a + 4) = _ from hbyte 4 (by decide),
    show store m a v (a + 3) = _ from hbyte 3 (by decide),
    show store m a v (a + 2) = _ from hbyte 2 (by decide),
    show store m a v (a + 1) = _ from hbyte 1 (by decide)]
  -- the bytes of a word make the word
  simp (disch := decide) only [BitVec.extractLsb'_append_extractLsb'_eq_extractLsb']
  exact BitVec.extractLsb'_eq_self

/-! ### The state -/

/-- The special registers, the link and count registers among them. -/
inductive Spr where
  | srr0 | srr1 | hsrr0 | hsrr1 | hsprg0 | hsprg1 | lr | ctr | xer
  deriving DecidableEq, Repr

/-- `MSR[PR]`. -/
def msrPr : Word := 0x4000

/-- `MSR[EE]`, `MSR[IR]` and `MSR[DR]`, which are set in problem state. -/
def msrForced : Word := 0x8030

/-- The bits 33:36 and 42:47, which are not in the MSR; an interrupt puts its own information there
when it saves the MSR. -/
def msrInfo : Word := 0x783f0000

/-- A machine state register. -/
@[ext] structure Msr where
  val : Word
  info : val &&& msrInfo = 0
  forced : val &&& msrPr ≠ 0 → val &&& msrForced = msrForced

/-- The address of an instruction. -/
@[ext] structure Pc where
  val : Word
  aligned : val &&& 3 = 0

/-- Numerals name the registers. -/
instance neZeroRegs : NeZero 32 := ⟨by decide⟩

/-- The machine: its memory is the one that the code's addresses reach. -/
@[ext] structure State where
  gpr : Fin 32 → Word
  spr : Spr → Word
  cr : BitVec 32
  pc : Pc
  msr : Msr
  mem : Mem

/-- What an interrupt saves for the MSR, with its information. -/
def Msr.saved (m : Msr) (info : Word) : Word := m.val &&& ~~~msrInfo ||| info &&& msrInfo

/-- The MSR that a return from an interrupt makes of a saved one. -/
def Msr.ofSaved (v : Word) : Msr :=
  if h : v &&& msrPr = 0 then
    ⟨v &&& ~~~msrInfo, and_not_and_self v msrInfo,
      fun hpr => absurd ((and_not_and v (by decide)).trans h) hpr⟩
  else
    ⟨v &&& ~~~msrInfo ||| msrForced,
      by rw [or_and_distrib, and_not_and_self]; rfl,
      fun _ => by
        rw [or_and_distrib, BitVec.and_self, BitVec.or_comm, BitVec.and_comm]
        exact or_and_self _ _⟩

/-- The address that a return from an interrupt goes to. -/
def Pc.ofSaved (v : Word) : Pc := ⟨v &&& ~~~3, and_not_and_self v 3⟩

theorem Msr.ofSaved_eq {v : Word} : (Msr.ofSaved v).val =
    if v &&& msrPr = 0 then v &&& ~~~msrInfo else v &&& ~~~msrInfo ||| msrForced := by
  unfold Msr.ofSaved
  by_cases h : v &&& msrPr = 0
  · rw [dif_pos h, if_pos h]
  · rw [dif_neg h, if_neg h]

/-- A return from an interrupt keeps the saved bits of a mask that neither it nor the interrupt
changes. -/
theorem Msr.ofSaved_and {v mask : Word} (hinfo : msrInfo &&& mask = 0)
    (hforced : msrForced &&& mask = 0) : (Msr.ofSaved v).val &&& mask = v &&& mask := by
  rw [Msr.ofSaved_eq]
  split
  · exact and_not_and v hinfo
  · rw [or_and_distrib, and_not_and v hinfo, hforced]
    exact BitVec.or_zero

/-- A return from an interrupt restores the MSR that it saved. -/
theorem Msr.ofSaved_saved (m : Msr) (info : Word) : Msr.ofSaved (m.saved info) = m := by
  obtain ⟨v, hinfo, hforced⟩ := m
  apply Msr.ext
  have hclear : (v &&& ~~~msrInfo ||| info &&& msrInfo) &&& ~~~msrInfo = v := by
    rw [or_and_distrib, BitVec.and_assoc, BitVec.and_assoc, BitVec.and_self,
      show msrInfo &&& ~~~msrInfo = 0#64 by decide, BitVec.and_zero, BitVec.or_zero]
    exact and_not_of_and_eq_zero hinfo
  have hpr : (v &&& ~~~msrInfo ||| info &&& msrInfo) &&& msrPr = v &&& msrPr := by
    rw [or_and_distrib, and_not_and v (by decide), BitVec.and_assoc,
      show msrInfo &&& msrPr = 0#64 by decide, BitVec.and_zero, BitVec.or_zero]
  rw [Msr.ofSaved_eq]
  show (if (v &&& ~~~msrInfo ||| info &&& msrInfo) &&& msrPr = 0 then _ else _) = v
  by_cases h : v &&& msrPr = 0
  · rw [if_pos (hpr.trans h)]
    exact hclear
  · rw [if_neg fun e => h (hpr.symm.trans e)]
    show (v &&& ~~~msrInfo ||| info &&& msrInfo) &&& ~~~msrInfo ||| msrForced = v
    rw [hclear]
    exact or_of_and_eq (hforced h)

theorem Pc.ofSaved_val (a : Pc) : Pc.ofSaved a.val = a :=
  Pc.ext (and_not_of_and_eq_zero a.aligned)

/-! ### The condition register -/

/-- The field 0 of the condition register: less than, greater than, equal, summary overflow. -/
def cr0 (cr : BitVec 32) : BitVec 4 := cr.extractLsb' 28 4

/-- The condition register with another field 0. -/
def setCr0 (cr : BitVec 32) (f : BitVec 4) : BitVec 32 := f ++ cr.extractLsb' 0 28

/-- The summary overflow bit, as it goes into the field. -/
def so (xer : Word) : BitVec 4 := if xer.getLsbD 31 then 1 else 0

/-- The field 0 after an instruction with the result `x`. -/
def cmpZero (x xer : Word) : BitVec 4 :=
  (if x.slt 0 then 8 else if x = 0 then 2 else 4) ||| so xer

theorem cr0_setCr0 (cr : BitVec 32) (f : BitVec 4) : cr0 (setCr0 cr f) = f :=
  BitVec.extractLsb'_append_eq_left

theorem setCr0_cr0 (cr : BitVec 32) : setCr0 cr (cr0 cr) = cr :=
  BitVec.extractLsb'_append_extractLsb'

theorem setCr0_setCr0 (cr : BitVec 32) (f f' : BitVec 4) :
    setCr0 (setCr0 cr f) f' = setCr0 cr f' :=
  congrArg (f' ++ ·) BitVec.extractLsb'_append_eq_right

/-- The register is what it was just when its field 0 is. -/
theorem setCr0_eq_self {cr : BitVec 32} {f : BitVec 4} : setCr0 cr f = cr ↔ cr0 cr = f := by
  constructor
  · intro h
    rw [← h, cr0_setCr0]
  · rintro rfl
    exact setCr0_cr0 cr

/-- The equal bit. -/
def State.eq (s : State) : Bool := (cr0 s.cr).getLsbD 1

theorem cmpZero_eq (x xer : Word) : (cmpZero x xer).getLsbD 1 = decide (x = 0) := by
  have hso : (so xer).getLsbD 1 = false := by
    unfold so
    split <;> rfl
  rw [cmpZero, BitVec.getLsbD_or, hso, Bool.or_false]
  by_cases hz : x = 0
  · subst hz
    rfl
  · rw [if_neg hz, decide_eq_false hz]
    split <;> rfl

/-- A result that a mask keeps from being negative. -/
theorem cmpZero_and {mask : Word} (hm : mask.msb = false) (x xer : Word) :
    cmpZero (x &&& mask) xer = (if x &&& mask = 0 then 2 else 4) ||| so xer := by
  have hslt : (x &&& mask).slt 0 = false := by
    rw [show (0 : Word) = 0#64 from rfl, BitVec.slt_zero_eq_msb, BitVec.msb_and, hm, Bool.and_false]
  rw [cmpZero, hslt]
  rfl

/-! ### Instructions -/

/-- The instructions, with the displacements and immediates as the words they stand for. -/
inductive Instr where
  | mtspr (n : Spr) (rs : Fin 32)
  | mfspr (rt : Fin 32) (n : Spr)
  | mtcr (rs : Fin 32)
  | mfcr (rt : Fin 32)
  | ld (rt : Fin 32) (d : Word) (ra : Fin 32)
  | std (rs : Fin 32) (d : Word) (ra : Fin 32)
  | addi (rt ra : Fin 32) (d : Word)
  | mr (rt rs : Fin 32)
  | andi (rt ra : Fin 32) (ui : Word)
  | srdi (rt ra : Fin 32) (n : Nat)
  deriving DecidableEq, Repr

/-- The address or the summand that a register stands for: register 0 is zero there. -/
def State.base (s : State) (ra : Fin 32) : Word := if ra = 0 then 0 else s.gpr ra

def State.set (s : State) (rt : Fin 32) (v : Word) : State :=
  { s with gpr := Function.update s.gpr rt v }

/-- An instruction that does not branch. -/
def exec : Instr → State → State
  | .mtspr n rs, s => { s with spr := Function.update s.spr n (s.gpr rs) }
  | .mfspr rt n, s => s.set rt (s.spr n)
  | .mtcr rs, s => { s with cr := (s.gpr rs).setWidth 32 }
  | .mfcr rt, s => s.set rt (s.cr.setWidth 64)
  | .ld rt d ra, s => s.set rt (load s.mem (s.base ra + d))
  | .std rs d ra, s => { s with mem := store s.mem (s.base ra + d) (s.gpr rs) }
  | .addi rt ra d, s => s.set rt (s.base ra + d)
  | .mr rt rs, s => s.set rt (s.gpr rs)
  | .andi rt ra ui, s =>
    let x := s.gpr ra &&& ui
    { s.set rt x with cr := setCr0 s.cr (cmpZero x (s.spr .xer)) }
  | .srdi rt ra n, s => s.set rt (s.gpr ra >>> n)

/-- Straight code. -/
def execs : List Instr → State → State
  | [], s => s
  | i :: l, s => execs l (exec i s)

theorem execs_append (l l' : List Instr) (s : State) : execs (l ++ l') s = execs l' (execs l s) := by
  induction l generalizing s with
  | nil => rfl
  | cons i l ih => exact ih (exec i s)

/-! ### Frames -/

/-- The displacement of the doubleword `k` of a frame. -/
def slot (k : Nat) : Word := BitVec.ofNat 64 (8 * k)

/-- The memory after stores of the values into the slots of the frame at `base`. -/
def writes (m : Mem) (base : Word) (l : List (Nat × Word)) : Mem :=
  l.foldl (fun m w => store m (base + slot w.1) w.2) m

theorem writes_cons (m : Mem) (base : Word) (w : Nat × Word) (l : List (Nat × Word)) :
    writes m base (w :: l) = writes (store m (base + slot w.1) w.2) base l := rfl

theorem writes_append (m : Mem) (base : Word) (l l' : List (Nat × Word)) :
    writes m base (l ++ l') = writes (writes m base l) base l' := List.foldl_append

section Frames

variable {a b base : Word} {j k n : Nat}

/-- A byte of a slot is a byte of the frame. -/
theorem Within.of_slot {x : Word} (hk : k < n) (hn : n ≤ 2 ^ 61)
    (h : Within (base + slot k) 8 x) : (x - base).toNat / 8 = k ∧ Within base (8 * n) x := by
  have hslot : (slot k).toNat = 8 * k := by
    rw [slot, BitVec.toNat_ofNat]
    exact Nat.mod_eq_of_lt (by omega)
  unfold Within at h ⊢
  rw [BitVec.toNat_sub, BitVec.toNat_add, hslot] at h
  rw [BitVec.toNat_sub]
  have hx := x.isLt
  have hb := base.isLt
  omega

/-- Two slots of a frame. -/
theorem slots_apart (hj : j < n) (hk : k < n) (hn : n ≤ 2 ^ 61) (hne : j ≠ k) :
    Apart (base + slot j) 8 (base + slot k) 8 := by
  intro x hx hx'
  have h₁ := (Within.of_slot hj hn hx).1
  have h₂ := (Within.of_slot hk hn hx').1
  omega

/-- Slots of two frames. -/
theorem Apart.slots (h : Apart a (8 * n) b (8 * n)) (hj : j < n) (hk : k < n) (hn : n ≤ 2 ^ 61) :
    Apart (a + slot j) 8 (b + slot k) 8 := fun x hx hx' =>
  h x (Within.of_slot hj hn hx).2 (Within.of_slot hk hn hx').2

/-- What lies apart from a frame is not changed by writes into it. -/
theorem load_writes_apart {m : Mem} {l : List (Nat × Word)} (h : Apart a 8 base (8 * n))
    (hn : n ≤ 2 ^ 61) (hl : ∀ w ∈ l, w.1 < n) : load (writes m base l) a = load m a := by
  induction l generalizing m with
  | nil => rfl
  | cons w l ih =>
    have hw : Apart a 8 (base + slot w.1) 8 := fun x hx hx' =>
      h x hx (Within.of_slot (hl w List.mem_cons_self) hn hx').2
    rw [writes_cons, ih fun w hw => hl w (List.mem_cons_of_mem _ hw), load_store_apart hw]

/-- A slot that is not written keeps its value. -/
theorem load_writes_of_not_mem {m : Mem} {l : List (Nat × Word)} (hk : k < n) (hn : n ≤ 2 ^ 61)
    (hl : ∀ w ∈ l, w.1 < n) (hnot : k ∉ l.map Prod.fst) :
    load (writes m base l) (base + slot k) = load m (base + slot k) := by
  induction l generalizing m with
  | nil => rfl
  | cons w l ih =>
    rw [List.map_cons, List.mem_cons, not_or] at hnot
    have hw := hl w List.mem_cons_self
    rw [writes_cons, ih (fun w hw => hl w (List.mem_cons_of_mem _ hw)) hnot.2,
      load_store_apart (slots_apart hk hw hn hnot.1)]

/-- A slot that is written once holds what was written. -/
theorem load_writes {m : Mem} {l : List (Nat × Word)} {w : Nat × Word} (hn : n ≤ 2 ^ 61)
    (hl : ∀ w ∈ l, w.1 < n) (hnd : (l.map Prod.fst).Nodup) (hw : w ∈ l) :
    load (writes m base l) (base + slot w.1) = w.2 := by
  induction l generalizing m with
  | nil => cases hw
  | cons v l ih =>
    obtain ⟨hv, hnd⟩ := List.nodup_cons.mp hnd
    have hl' : ∀ w ∈ l, w.1 < n := fun w hw => hl w (List.mem_cons_of_mem _ hw)
    rw [writes_cons]
    rcases List.mem_cons.mp hw with rfl | hw
    · rw [load_writes_of_not_mem (hl _ List.mem_cons_self) hn hl' hv, load_store]
    · exact ih hl' hnd hw

end Frames

/-! ### Code that saves and restores -/

section Rules

variable {n : Nat}

theorem State.base_of_ne (s : State) {ra : Fin 32} (ha : ra ≠ 0) : s.base ra = s.gpr ra := if_neg ha

/-- A run of stores of registers into the frame at `ra`. -/
theorem execs_stores (ra : Fin 32) (ha : ra ≠ 0) (l : List (Fin 32 × Nat)) (s : State) :
    execs (l.map fun p => .std p.1 (slot p.2) ra) s =
      { s with mem := writes s.mem (s.gpr ra) (l.map fun p => (p.2, s.gpr p.1)) } := by
  induction l generalizing s with
  | nil => rfl
  | cons p l ih =>
    rw [List.map_cons, execs, ih, exec, s.base_of_ne ha]
    rfl

/-- A run of loads of registers from the frame at `ra`, which is not one of them. -/
theorem execs_loads (ra : Fin 32) (ha : ra ≠ 0) {l : List (Fin 32 × Nat)} (hnot : ra ∉ l.map Prod.fst)
    (hnd : (l.map Prod.fst).Nodup) (s : State) :
    ∃ f, execs (l.map fun p => .ld p.1 (slot p.2) ra) s = { s with gpr := f } ∧
      (∀ p ∈ l, f p.1 = load s.mem (s.gpr ra + slot p.2)) ∧
      ∀ r, r ∉ l.map Prod.fst → f r = s.gpr r := by
  induction l generalizing s with
  | nil => exact ⟨s.gpr, rfl, fun p hp => absurd hp List.not_mem_nil, fun r _ => rfl⟩
  | cons p l ih =>
    rw [List.map_cons, List.mem_cons, not_or] at hnot
    obtain ⟨hp, hnd⟩ := List.nodup_cons.mp hnd
    obtain ⟨f, hf, hin, hout⟩ := ih hnot.2 hnd (s.set p.1 (load s.mem (s.gpr ra + slot p.2)))
    have hra : (s.set p.1 (load s.mem (s.gpr ra + slot p.2))).gpr ra = s.gpr ra :=
      Function.update_of_ne hnot.1 _ _
    rw [hra] at hin
    refine ⟨f, ?_, fun q hq => ?_, fun r hr => ?_⟩
    · rw [List.map_cons, execs, exec, s.base_of_ne ha, hf]
      rfl
    · rcases List.mem_cons.mp hq with rfl | hq
      · exact (hout _ hp).trans (Function.update_self _ _ _)
      · exact hin q hq
    · rw [List.map_cons, List.mem_cons, not_or] at hr
      exact (hout r hr.2).trans (Function.update_of_ne hr.1 _ _)

/-- A run of copies, through register 0, of slots of the frame at `ra` to the frame at `rb`, which
is apart from it. -/
theorem execs_copies (ra rb : Fin 32) (ha : ra ≠ 0) (hb : rb ≠ 0) (hn : n ≤ 2 ^ 61) {l : List Nat}
    (hl : ∀ k ∈ l, k < n) (s : State) (h : Apart (s.gpr ra) (8 * n) (s.gpr rb) (8 * n)) :
    ∃ v, execs (l.flatMap fun k => [.ld 0 (slot k) ra, .std 0 (slot k) rb]) s =
      { s with
        gpr := Function.update s.gpr 0 v
        mem := writes s.mem (s.gpr rb)
          (l.map fun k => (k, load s.mem (s.gpr ra + slot k))) } := by
  induction l generalizing s with
  | nil => exact ⟨s.gpr 0, by rw [Function.update_eq_self]; rfl⟩
  | cons k l ih =>
    have hk := hl k List.mem_cons_self
    have hl' : ∀ j ∈ l, j < n := fun j hj => hl j (List.mem_cons_of_mem _ hj)
    set v := load s.mem (s.gpr ra + slot k) with hv
    set s' : State := { s with
      gpr := Function.update s.gpr 0 v
      mem := store s.mem (s.gpr rb + slot k) v } with hs'
    have hra : s'.gpr ra = s.gpr ra := Function.update_of_ne ha _ _
    have hrb : s'.gpr rb = s.gpr rb := Function.update_of_ne hb _ _
    have hstep : execs [.ld 0 (slot k) ra, .std 0 (slot k) rb] s = s' := by
      simp only [execs, exec, State.set, State.base_of_ne _ ha, State.base_of_ne _ hb,
        Function.update_of_ne hb, Function.update_self, hs', hv]
    obtain ⟨u, hu⟩ := ih hl' s' (by rw [hra, hrb]; exact h)
    refine ⟨u, ?_⟩
    rw [List.flatMap_cons, execs_append, hstep, hu, hra, hrb, List.map_cons, writes_cons]
    -- the copies so far are apart from what is left to copy
    have hloads : (l.map fun j => (j, load s'.mem (s.gpr ra + slot j))) =
        l.map fun j => (j, load s.mem (s.gpr ra + slot j)) := by
      refine List.map_congr_left fun j hj => ?_
      rw [load_store_apart (h.slots (hl' j hj) hk hn)]
    rw [hloads]
    simp only [hs', Function.update_idem]
    rfl

end Rules

/-! ### Blocks -/

/-- How a block ends: with a branch to a label, a conditional branch that otherwise goes on to the
next block, a return to the link register, or a return from an interrupt. -/
inductive Exit (L : Type) where
  | b (l : L)
  | beq (l next : L)
  | bne (l next : L)
  | blr
  | hrfid
  deriving DecidableEq, Repr

structure Block (L : Type) where
  body : List Instr
  exit : Exit L

/-- `hrfid`. -/
def State.hrfid (s : State) : State :=
  { s with pc := .ofSaved (s.spr .hsrr0), msr := .ofSaved (s.spr .hsrr1) }

/-- `blr`. -/
def State.blr (s : State) : State := { s with pc := .ofSaved (s.spr .lr) }

/-- A run from a label until the code returns, through as many blocks as are allowed. -/
def run {L : Type} (code : L → Block L) : Nat → L → State → Option State
  | 0, _, _ => none
  | n + 1, l, s =>
    let s := execs (code l).body s
    match (code l).exit with
    | .b l => run code n l s
    | .beq l next => run code n (if s.eq then l else next) s
    | .bne l next => run code n (if s.eq then next else l) s
    | .blr => some s.blr
    | .hrfid => some s.hrfid

end Power
