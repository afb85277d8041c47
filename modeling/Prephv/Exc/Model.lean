import Prephv.Lib.Power

/-!
# Exc — Model

The exception vectors of `exc-vecs.S`, from the interrupt to `exc_handler`, and `exc_rfi`, which
returns from it.

A vector stashes what it needs in a frame on the unrecoverable stack (`kpcr.unrec_sp`).  If the
interrupted code could be interrupted (`MSR[RI]`), the frame moves to the stack of the hypervisor,
or to the interrupted stack when that is the hypervisor's own; then the rest is saved.  `exc_rfi`
loads the registers from the frame that the handler passes it, and returns with `hrfid`.

The code is the assembly, instruction by instruction; a label stands before each block, with names
of its own where the source only falls through.
-/

set_option autoImplicit false

namespace Prephv

open Power

/-! ### Offsets and constants -/

/-- `kpcr_unrec_sp`. -/
def kpcrUnrecSp : Word := 32
/-- `kpcr_kern_sp`. -/
def kpcrKernSp : Word := 40
/-- `kpcr_toc`. -/
def kpcrToc : Word := 0

/-- The doublewords of an `eframe_t`. -/
def eframeSlots : Nat := 39

def eframeVec : Word := slot 0
/-- `eframe_r0` to `eframe_r31`. -/
def eframeR (r : Nat) : Word := slot (1 + r)
def eframeLr : Word := slot 33
def eframeCtr : Word := slot 34
def eframeXer : Word := slot 35
def eframeCr : Word := slot 36
def eframeHsrr0 : Word := slot 37
def eframeHsrr1 : Word := slot 38
def eframeSizeof : Word := slot eframeSlots

def excMsrRi : Word := 0x2
def excMsrPr : Word := 0x4000
def excMsrHvLg : Nat := 60
def stackframeMin : Word := 32
def abiStackProtectedZone : Word := 512

/-! ### The vectors -/

/-- The vectors, each `EXC_*`. -/
inductive ExcVec where
  | reset | mc | dsi | dseg | isi | iseg | ext | align | prog | fpu | dec | hdec | door | resv | sc
  | trace | hdsi | hisi | hea | hmaint | hdoor | resv1 | resv2 | impl | pmu | vecun | vsx | fac | hfac
  deriving DecidableEq, Repr

/-- `EXC_*`. -/
def ExcVec.num : ExcVec → Word
  | .reset => 0x100 | .mc => 0x200 | .dsi => 0x300 | .dseg => 0x380 | .isi => 0x400
  | .iseg => 0x480 | .ext => 0x500 | .align => 0x600 | .prog => 0x700 | .fpu => 0x800
  | .dec => 0x900 | .hdec => 0x980 | .door => 0xa00 | .resv => 0xb00 | .sc => 0xc00
  | .trace => 0xd00 | .hdsi => 0xe00 | .hisi => 0xe20 | .hea => 0xe40 | .hmaint => 0xe60
  | .hdoor => 0xe80 | .resv1 => 0xea0 | .resv2 => 0xec0 | .impl => 0xee0 | .pmu => 0xf00
  | .vecun => 0xf20 | .vsx => 0xf40 | .fac => 0xf60 | .hfac => 0xf80

/-- The vectors that enter at `exc_hv`; the others enter at `exc_sys`. -/
def ExcVec.isHv : ExcVec → Bool
  | .hdec | .hdsi | .hisi | .hea | .hmaint | .hdoor | .hfac => true
  | _ => false

/-- The labels.  The blocks without one in the source are those after the branches of `exc_cont`:
`recoverable`, `notProblem` and `fromKernel`. -/
inductive ExcLabel where
  | vector (v : ExcVec)
  | excHv | excSys | excCont | recoverable | notProblem | fromKernel
  | excWithKernSp | copyStashed | excMoreSave | excRfi
  deriving DecidableEq, Repr

/-- `exc-vecs.S`, where `got` is `exc_handler@got`. -/
def excCode (got : Word) : ExcLabel → Block ExcLabel
  | .vector v => ⟨[
      .mtspr .hsprg1 1,
      .mfspr 1 .hsprg0,
      .ld 1 kpcrUnrecSp 1,
      .std 0 (eframeR 0) 1,
      .addi 0 0 v.num,
      .std 0 eframeVec 1,
      .std 2 (eframeR 2) 1],
    .b (if v.isHv then .excHv else .excSys)⟩
  | .excHv => ⟨[
      .mfspr 0 .hsrr0,
      .std 0 eframeHsrr0 1,
      .mfspr 0 .hsrr1,
      .std 0 eframeHsrr1 1],
    .b .excCont⟩
  | .excSys => ⟨[
      .mfspr 0 .srr0,
      .std 0 eframeHsrr0 1,
      .mfspr 0 .srr1,
      .std 0 eframeHsrr1 1],
    .b .excCont⟩
  | .excCont => ⟨[.andi 2 0 excMsrRi], .beq .excMoreSave .recoverable⟩
  | .recoverable => ⟨[.andi 2 0 excMsrPr], .bne .excWithKernSp .notProblem⟩
  | .notProblem => ⟨[
      .mr 2 0,
      .srdi 2 2 excMsrHvLg,
      .andi 2 2 1],
    .beq .excWithKernSp .fromKernel⟩
  | .fromKernel => ⟨[
      .mfspr 2 .hsprg1,
      .addi 2 2 (-abiStackProtectedZone)],
    .b .copyStashed⟩
  | .excWithKernSp => ⟨[
      .mfspr 2 .hsprg0,
      .ld 2 kpcrKernSp 2],
    .b .copyStashed⟩
  | .copyStashed => ⟨[
      .addi 2 2 (-eframeSizeof),
      .ld 0 eframeVec 1, .std 0 eframeVec 2,
      .ld 0 (eframeR 0) 1, .std 0 (eframeR 0) 2,
      .ld 0 (eframeR 2) 1, .std 0 (eframeR 2) 2,
      .ld 0 eframeHsrr0 1, .std 0 eframeHsrr0 2,
      .ld 0 eframeHsrr1 1, .std 0 eframeHsrr1 2,
      .mr 1 2],
    .b .excMoreSave⟩
  | .excMoreSave => ⟨[
      .mfspr 0 .hsprg1, .std 0 (eframeR 1) 1,
      .std 3 (eframeR 3) 1, .std 4 (eframeR 4) 1, .std 5 (eframeR 5) 1, .std 6 (eframeR 6) 1,
      .std 7 (eframeR 7) 1, .std 8 (eframeR 8) 1, .std 9 (eframeR 9) 1, .std 10 (eframeR 10) 1,
      .std 11 (eframeR 11) 1, .std 12 (eframeR 12) 1, .std 13 (eframeR 13) 1,
      .std 14 (eframeR 14) 1, .std 15 (eframeR 15) 1, .std 16 (eframeR 16) 1,
      .std 17 (eframeR 17) 1, .std 18 (eframeR 18) 1, .std 19 (eframeR 19) 1,
      .std 20 (eframeR 20) 1, .std 21 (eframeR 21) 1, .std 22 (eframeR 22) 1,
      .std 23 (eframeR 23) 1, .std 24 (eframeR 24) 1, .std 25 (eframeR 25) 1,
      .std 26 (eframeR 26) 1, .std 27 (eframeR 27) 1, .std 28 (eframeR 28) 1,
      .std 29 (eframeR 29) 1, .std 30 (eframeR 30) 1, .std 31 (eframeR 31) 1,
      .mfspr 0 .lr, .std 0 eframeLr 1,
      .mfspr 0 .ctr, .std 0 eframeCtr 1,
      .mfspr 0 .xer, .std 0 eframeXer 1,
      .mfcr 0, .std 0 eframeCr 1,
      .mfspr 13 .hsprg0,
      .ld 2 kpcrToc 13,
      .mr 3 1,
      .addi 1 1 (-stackframeMin),
      .ld 12 got 2,
      .mtspr .lr 12],
    .blr⟩
  | .excRfi => ⟨[
      .ld 0 eframeHsrr1 3, .mtspr .hsrr1 0,
      .ld 0 eframeHsrr0 3, .mtspr .hsrr0 0,
      .ld 0 eframeCr 3, .mtcr 0,
      .ld 0 eframeXer 3, .mtspr .xer 0,
      .ld 0 eframeCtr 3, .mtspr .ctr 0,
      .ld 0 eframeLr 3, .mtspr .lr 0,
      .ld 31 (eframeR 31) 3, .ld 30 (eframeR 30) 3, .ld 29 (eframeR 29) 3, .ld 28 (eframeR 28) 3,
      .ld 27 (eframeR 27) 3, .ld 26 (eframeR 26) 3, .ld 25 (eframeR 25) 3, .ld 24 (eframeR 24) 3,
      .ld 23 (eframeR 23) 3, .ld 22 (eframeR 22) 3, .ld 21 (eframeR 21) 3, .ld 20 (eframeR 20) 3,
      .ld 19 (eframeR 19) 3, .ld 18 (eframeR 18) 3, .ld 17 (eframeR 17) 3, .ld 16 (eframeR 16) 3,
      .ld 15 (eframeR 15) 3, .ld 14 (eframeR 14) 3, .ld 13 (eframeR 13) 3, .ld 12 (eframeR 12) 3,
      .ld 11 (eframeR 11) 3, .ld 10 (eframeR 10) 3, .ld 9 (eframeR 9) 3, .ld 8 (eframeR 8) 3,
      .ld 7 (eframeR 7) 3, .ld 6 (eframeR 6) 3, .ld 5 (eframeR 5) 3, .ld 4 (eframeR 4) 3,
      .ld 2 (eframeR 2) 3, .ld 1 (eframeR 1) 3, .ld 0 (eframeR 0) 3, .ld 3 (eframeR 3) 3],
    .hrfid⟩

/-! ### Interrupts -/

/-- The two pairs of save/restore registers. -/
inductive SavePair where
  | srr | hsrr
  deriving DecidableEq, Repr

/-- What the hardware decides when it takes an interrupt: the pair it saves to, the information it
puts with the MSR, and the new MSR. -/
structure Interrupt where
  pair : SavePair
  info : Word
  msr : Msr

/-- The hardware takes an interrupt. -/
def takeInterrupt (i : Interrupt) (s : State) : State :=
  match i.pair with
  | .srr =>
    { s with
      spr := Function.update (Function.update s.spr .srr0 s.pc.val) .srr1 (s.msr.saved i.info)
      msr := i.msr }
  | .hsrr =>
    { s with
      spr := Function.update (Function.update s.spr .hsrr0 s.pc.val) .hsrr1 (s.msr.saved i.info)
      msr := i.msr }

/-- The pair that a vector's entry reads. -/
def ExcVec.pair (v : ExcVec) : SavePair := if v.isHv then .hsrr else .srr

/-- An exception, up to `exc_handler`. -/
def excEnter (got : Word) (v : ExcVec) (i : Interrupt) (s : State) : Option State :=
  run (excCode got) 8 (.vector v) (takeInterrupt i s)

/-- `exc_rfi`. -/
def excRfi (got : Word) (s : State) : Option State := run (excCode got) 1 .excRfi s

/-- From `t`, where `exc_handler` is called with a frame, to `u`, where it calls `exc_rfi` with the
frame, which it left unchanged. -/
structure ExcHandled (t u : State) : Prop where
  frame : u.gpr 3 = t.gpr 3
  mem : ∀ x, Within (t.gpr 3) (8 * eframeSlots) x → u.mem x = t.mem x

/-- What the interrupted program has. -/
structure SameProgram (s u : State) : Prop where
  gpr : u.gpr = s.gpr
  lr : u.spr .lr = s.spr .lr
  ctr : u.spr .ctr = s.spr .ctr
  xer : u.spr .xer = s.spr .xer
  cr : u.cr = s.cr
  pc : u.pc = s.pc
  msr : u.msr = s.msr

end Prephv
