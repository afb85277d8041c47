import Prephv.Exc.Model

/-!
# Exc — Transparent

What an exception leaves of the program it interrupts.

The frame that reaches `exc_handler` holds every register (`excEnter_saved`): the five values
stashed on the unrecoverable stack are moved before they are overwritten, whichever stack is chosen,
and all others are saved from the registers themselves.  One is not what it was: the `andi.`
instructions that choose the stack have set the field 0 of the condition register by then.
`exc_rfi` restores what the frame holds (`excRfi_restores`), so an exception is transparent just
when the field had the value that the choice leaves there, and the pair that the entry reads is the
one that has the program's PC and MSR (`exc_transparent_iff`).
-/

set_option autoImplicit false

namespace Prephv

open Power

/-! ### The frame and the stacks -/

/-- A pair of save/restore registers. -/
def SavePair.read (p : SavePair) (s : State) : Word × Word :=
  match p with
  | .srr => (s.spr .srr0, s.spr .srr1)
  | .hsrr => (s.spr .hsrr0, s.spr .hsrr1)

/-- The top of the unrecoverable stack. -/
def unrecSp (s : State) : Word := load s.mem (s.spr .hsprg0 + kpcrUnrecSp)

/-- The top of the hypervisor's stack. -/
def kernSp (s : State) : Word := load s.mem (s.spr .hsprg0 + kpcrKernSp)

/-- The interrupted code could be interrupted. -/
def Recoverable (msr : Word) : Prop := msr &&& excMsrRi ≠ 0

/-- The interrupted code was the hypervisor's own. -/
def FromKernel (msr : Word) : Prop := msr &&& excMsrPr = 0 ∧ msr >>> excMsrHvLg &&& 1 ≠ 0

instance (msr : Word) : Decidable (Recoverable msr) := inferInstanceAs (Decidable (_ ≠ _))
instance (msr : Word) : Decidable (FromKernel msr) := inferInstanceAs (Decidable (_ ∧ _))

/-- Where the frame goes, for the saved MSR that the entry looks at. -/
def frameBase (s : State) (msr : Word) : Word :=
  if Recoverable msr then
    (if FromKernel msr then s.gpr 1 - abiStackProtectedZone else kernSp s) - eframeSizeof
  else unrecSp s

/-- The field 0 that the choice of a stack leaves in the condition register: greater than where the
program ran in problem state or in the hypervisor, equal where it ran in the guest's supervisor. -/
def choiceCr0 (msr xer : Word) : BitVec 4 :=
  (if Recoverable msr ∧ (msr &&& excMsrPr ≠ 0 ∨ msr >>> excMsrHvLg &&& 1 ≠ 0) then 4 else 2) ||| so xer

/-- The stacks are where `exc_init` and `c_main` put them: the frame on the unrecoverable stack
shares no byte with `kern_sp` in the KPCR, and none with the frame it moves to. -/
structure Stacks (s : State) (msr : Word) : Prop where
  kpcr : Apart (s.spr .hsprg0 + kpcrKernSp) 8 (unrecSp s) (8 * eframeSlots)
  frame : Recoverable msr → Apart (unrecSp s) (8 * eframeSlots) (frameBase s msr) (8 * eframeSlots)

/-- The frame at `f` holds the stashed values of an exception taken in `s`, and the other registers
still hold theirs. -/
structure Stashed (s : State) (vec : Word) (p : Word × Word) (f : Word) (t : State) : Prop where
  frame : t.gpr 1 = f
  gpr : ∀ r : Fin 32, 3 ≤ r → t.gpr r = s.gpr r
  scratch : t.spr .hsprg1 = s.gpr 1
  kpcr : t.spr .hsprg0 = s.spr .hsprg0
  lr : t.spr .lr = s.spr .lr
  ctr : t.spr .ctr = s.spr .ctr
  xer : t.spr .xer = s.spr .xer
  vec : load t.mem (f + eframeVec) = vec
  r0 : load t.mem (f + eframeR 0) = s.gpr 0
  r2 : load t.mem (f + eframeR 2) = s.gpr 2
  hsrr0 : load t.mem (f + eframeHsrr0) = p.1
  hsrr1 : load t.mem (f + eframeHsrr1) = p.2

/-- The frame at `f` holds the registers of an exception taken in `s`, with `cr` for the condition
register. -/
structure Saved (s : State) (p : Word × Word) (cr : BitVec 32) (f : Word) (m : Mem) : Prop where
  gpr : ∀ r : Fin 32, load m (f + eframeR r) = s.gpr r
  lr : load m (f + eframeLr) = s.spr .lr
  ctr : load m (f + eframeCtr) = s.spr .ctr
  xer : load m (f + eframeXer) = s.spr .xer
  cr : load m (f + eframeCr) = cr.setWidth 64
  hsrr0 : load m (f + eframeHsrr0) = p.1
  hsrr1 : load m (f + eframeHsrr1) = p.2

/-! ### `exc_rfi` -/

/-- The registers that `exc_rfi` loads while `r3` has the frame, in its order. -/
def restoredRegs : List (Fin 32) :=
  [31, 30, 29, 28, 27, 26, 25, 24, 23, 22, 21, 20, 19, 18, 17, 16, 15, 14, 13, 12, 11, 10, 9, 8, 7,
    6, 5, 4, 2, 1, 0]

/-- `exc_rfi` returns with what the frame holds. -/
theorem excRfi_restores {got f : Word} {s t : State} {p : Word × Word} {cr : BitVec 32}
    (hf : t.gpr 3 = f) (h : Saved s p cr f t.mem) :
    ∃ u, excRfi got t = some u ∧ u.gpr = s.gpr ∧ u.spr .lr = s.spr .lr ∧
      u.spr .ctr = s.spr .ctr ∧ u.spr .xer = s.spr .xer ∧ u.cr = cr ∧
      u.pc = .ofSaved p.1 ∧ u.msr = .ofSaved p.2 := by
  -- the special registers come first, through `r0`
  set special : List Instr := [
    .ld 0 eframeHsrr1 3, .mtspr .hsrr1 0, .ld 0 eframeHsrr0 3, .mtspr .hsrr0 0,
    .ld 0 eframeCr 3, .mtcr 0, .ld 0 eframeXer 3, .mtspr .xer 0,
    .ld 0 eframeCtr 3, .mtspr .ctr 0, .ld 0 eframeLr 3, .mtspr .lr 0] with hspecial
  set t₁ := execs special t with ht₁
  have hmem : t₁.mem = t.mem := rfl
  have hr3 : t₁.gpr 3 = f := hf
  have hbody : (excCode got .excRfi).body = special ++
      ((restoredRegs.map fun r => (r, 1 + r.val)).map fun q => .ld q.1 (slot q.2) 3) ++
      [.ld 3 (eframeR 3) 3] := rfl
  obtain ⟨g, hg, hin, hout⟩ := execs_loads 3 (by decide)
    (l := restoredRegs.map fun r => (r, 1 + r.val)) (by decide) (by decide) t₁
  have hg3 : g 3 = f := (hout 3 (by decide)).trans hr3
  have hall : ∀ r : Fin 32, r = 3 ∨ r ∈ restoredRegs := by decide
  set u₁ : State := { t₁ with gpr := g }.set 3 (load t₁.mem (f + eframeR 3)) with hu₁
  have hrun : excRfi got t = some u₁.hrfid := by
    show some (execs (excCode got .excRfi).body t).hrfid = _
    rw [hbody, execs_append, execs_append, ← ht₁, hg]
    show some ({ t₁ with gpr := g }.set 3 (load t₁.mem (g 3 + eframeR 3))).hrfid = _
    rw [hg3]
  refine ⟨u₁.hrfid, hrun, funext fun r => ?_, ?_, ?_, ?_, ?_, ?_, ?_⟩
  · show Function.update g 3 _ r = _
    by_cases e : r = 3
    · subst e
      rw [Function.update_self, hmem]
      exact h.gpr 3
    · rw [Function.update_of_ne e]
      have hr := (hall r).resolve_left e
      rw [hin (r, 1 + r.val) (List.mem_map_of_mem hr), hmem, hr3]
      exact h.gpr r
  · exact (congrArg (load t.mem) (congrArg (· + eframeLr) hf)).trans h.lr
  · exact (congrArg (load t.mem) (congrArg (· + eframeCtr) hf)).trans h.ctr
  · exact (congrArg (load t.mem) (congrArg (· + eframeXer) hf)).trans h.xer
  · have hcr : t₁.cr = (load t.mem (t.gpr 3 + eframeCr)).setWidth 32 := rfl
    show t₁.cr = cr
    rw [hcr, hf, h.cr, BitVec.setWidth_setWidth_of_le _ (by decide), BitVec.setWidth_eq]
  · exact congrArg Pc.ofSaved
      ((congrArg (load t.mem) (congrArg (· + eframeHsrr0) hf)).trans h.hsrr0)
  · exact congrArg Msr.ofSaved
      ((congrArg (load t.mem) (congrArg (· + eframeHsrr1) hf)).trans h.hsrr1)

/-! ### The entry, up to the choice of a stack -/

section Entry

variable (got : Word) {s t : State} {vec f : Word} {p : Word × Word}

/-- What changes `r2` and the condition register only keeps what is stashed. -/
theorem Stashed.setR2 (h : Stashed s vec p f t) (x : Word) (cr : BitVec 32) :
    Stashed s vec p f { t.set 2 x with cr := cr } where
  frame := h.frame
  gpr r hr := by
    have hne : r ≠ 2 := by
      rintro rfl
      exact absurd hr (by decide)
    exact (Function.update_of_ne hne _ _).trans (h.gpr r hr)
  scratch := h.scratch
  kpcr := h.kpcr
  lr := h.lr
  ctr := h.ctr
  xer := h.xer
  vec := h.vec
  r0 := h.r0
  r2 := h.r2
  hsrr0 := h.hsrr0
  hsrr1 := h.hsrr1

/-- A vector stashes five values on the unrecoverable stack, and leaves the saved MSR in `r0`. -/
theorem vector_stashes (v : ExcVec) (s : State) :
    ∃ t, run (excCode got) 8 (.vector v) s = run (excCode got) 6 .excCont t ∧
      Stashed s v.num (v.pair.read s) (unrecSp s) t ∧ t.gpr 0 = (v.pair.read s).2 ∧ t.cr = s.cr ∧
      t.mem = writes s.mem (unrecSp s) [(1, s.gpr 0), (0, v.num), (3, s.gpr 2),
        (37, (v.pair.read s).1), (38, (v.pair.read s).2)] := by
  set U := unrecSp s with hU
  set p := v.pair.read s with hp
  set ws : List (Nat × Word) := [(1, s.gpr 0), (0, v.num), (3, s.gpr 2), (37, p.1), (38, p.2)] with hws
  have hlt : ∀ w ∈ ws, w.1 < eframeSlots := by simp [hws, eframeSlots]
  have hnd : (ws.map Prod.fst).Nodup := by
    show [1, 0, 3, 37, 38].Nodup
    decide
  have hload : ∀ w ∈ ws, load (writes s.mem U ws) (U + slot w.1) = w.2 := fun w hw =>
    load_writes (by decide) hlt hnd hw
  refine ⟨{ s with
    gpr := Function.update (Function.update s.gpr 1 U) 0 p.2
    spr := Function.update s.spr .hsprg1 (s.gpr 1)
    mem := writes s.mem U ws }, ?_, ?_, rfl, rfl, rfl⟩
  · have hnum : (0 : Word) + v.num = v.num := BitVec.zero_add _
    have hvec : execs (excCode got (.vector v)).body s = { s with
        gpr := Function.update (Function.update s.gpr 1 U) 0 v.num
        spr := Function.update s.spr .hsprg1 (s.gpr 1)
        mem := writes s.mem U [(1, s.gpr 0), (0, v.num), (3, s.gpr 2)] } := by
      refine State.ext ?_ rfl rfl rfl rfl ?_
      · show Function.update (Function.update (Function.update s.gpr 1 _) 1 U) 0 (0 + v.num) = _
        rw [Function.update_idem, hnum]
      · show store (store _ _ (0 + v.num)) _ _ = _
        rw [hnum]
        rfl
    show run (excCode got) 7 (if v.isHv then .excHv else .excSys) (execs _ s) = _
    rw [hvec]
    -- either entry reads its own pair, through `r0`
    have hgpr : ∀ a b c d : Word,
        Function.update (Function.update (Function.update (Function.update s.gpr 1 a) 0 b) 0 c) 0 d =
          Function.update (Function.update s.gpr 1 a) 0 d := fun a b c d => by
      rw [Function.update_idem, Function.update_idem]
    by_cases hv : v.isHv = true
    · have hpv : p = (s.spr .hsrr0, s.spr .hsrr1) := by
        rw [hp, ExcVec.pair, if_pos hv]
        rfl
      rw [if_pos hv]
      refine congrArg (run (excCode got) 6 .excCont) (State.ext ?_ rfl rfl rfl rfl ?_)
      · rw [hpv]
        exact hgpr _ _ _ _
      · rw [hws, hpv]
        rfl
    · have hpv : p = (s.spr .srr0, s.spr .srr1) := by
        rw [hp, ExcVec.pair, if_neg hv]
        rfl
      rw [if_neg hv]
      refine congrArg (run (excCode got) 6 .excCont) (State.ext ?_ rfl rfl rfl rfl ?_)
      · rw [hpv]
        exact hgpr _ _ _ _
      · rw [hws, hpv]
        rfl
  · refine ⟨rfl, fun r hr => ?_, rfl, rfl, rfl, rfl, rfl, ?_, ?_, ?_, ?_, ?_⟩
    · have h₀ : r ≠ 0 := by
        rintro rfl
        exact absurd hr (by decide)
      have h₁ : r ≠ 1 := by
        rintro rfl
        exact absurd hr (by decide)
      exact (Function.update_of_ne h₀ _ _).trans (Function.update_of_ne h₁ _ _)
    · exact hload (0, v.num) (by simp [hws])
    · exact hload (1, s.gpr 0) (by simp [hws])
    · exact hload (3, s.gpr 2) (by simp [hws])
    · exact hload (37, p.1) (by simp [hws])
    · exact hload (38, p.2) (by simp [hws])

/-! ### The choice of a stack -/

/-- The frame is on the unrecoverable stack, the saved MSR in `r0`, and `kern_sp` can be read. -/
structure Choosing (s : State) (vec : Word) (p : Word × Word) (t : State) : Prop
    extends Stashed s vec p (unrecSp s) t where
  saved : t.gpr 0 = p.2
  kern : load t.mem (t.spr .hsprg0 + kpcrKernSp) = kernSp s

theorem Choosing.setR2 (h : Choosing s vec p t) (x : Word) (cr : BitVec 32) :
    Choosing s vec p { t.set 2 x with cr := cr } :=
  ⟨h.toStashed.setR2 x cr, h.saved, h.kern⟩

/-- The move of the five values to the stack whose top is in `r2`. -/
theorem copyStashed_moves (n : Nat) {top : Word} (h : Choosing s vec p t) (htop : t.gpr 2 = top)
    (hap : Apart (unrecSp s) (8 * eframeSlots) (top - eframeSizeof) (8 * eframeSlots)) :
    ∃ t', run (excCode got) (n + 1) .copyStashed t = run (excCode got) n .excMoreSave t' ∧
      Stashed s vec p (top - eframeSizeof) t' ∧ t'.cr = t.cr := by
  set U := unrecSp s with hU
  set F := top - eframeSizeof with hF
  set ks : List Nat := [0, 1, 3, 37, 38] with hks
  set t₁ := exec (.addi 2 2 (-eframeSizeof)) t with ht₁
  have hr2 : t₁.gpr 2 = F := by
    show t.gpr 2 + -eframeSizeof = F
    rw [htop, hF, BitVec.sub_eq_add_neg]
  have hr1 : t₁.gpr 1 = U := h.frame
  have hbody : (excCode got .copyStashed).body = .addi 2 2 (-eframeSizeof) ::
      (ks.flatMap fun k => [.ld 0 (slot k) 1, .std 0 (slot k) 2]) ++ [.mr 1 2] := rfl
  have hkslt : ∀ k ∈ ks, k < eframeSlots := by
    rw [hks]
    decide
  obtain ⟨v, hv⟩ := execs_copies 1 2 (by decide) (by decide)
    (n := eframeSlots) (by decide) hkslt t₁ (by rw [hr1, hr2]; exact hap)
  rw [hr1, hr2] at hv
  set ws := ks.map fun k => (k, load t₁.mem (U + slot k)) with hws
  -- the moved values are the stashed ones
  have hload : ∀ k ∈ ks, load (writes t₁.mem F ws) (F + slot k) = load t.mem (U + slot k) := by
    intro k hk
    refine load_writes (n := eframeSlots) (w := (k, load t₁.mem (U + slot k))) (by decide) ?_ ?_
      (List.mem_map_of_mem hk)
    · rintro w hw
      obtain ⟨j, hj, rfl⟩ := List.mem_map.mp hw
      exact hkslt j hj
    · show [0, 1, 3, 37, 38].Nodup
      decide
  refine ⟨exec (.mr 1 2) { t₁ with gpr := Function.update t₁.gpr 0 v, mem := writes t₁.mem F ws },
    ?_, ?_, rfl⟩
  · show run (excCode got) n .excMoreSave (execs (excCode got .copyStashed).body t) = _
    rw [hbody, List.cons_append, execs, execs_append, ← ht₁, hv]
    rfl
  · refine ⟨?_, fun r hr => ?_, h.scratch, h.kpcr, h.lr, h.ctr, h.xer, ?_, ?_, ?_, ?_, ?_⟩
    · exact hr2
    · have h₀ : r ≠ 0 := by
        rintro rfl
        exact absurd hr (by decide)
      have h₁ : r ≠ 1 := by
        rintro rfl
        exact absurd hr (by decide)
      have h₂ : r ≠ 2 := by
        rintro rfl
        exact absurd hr (by decide)
      exact (Function.update_of_ne h₁ _ _).trans ((Function.update_of_ne h₀ _ _).trans
        ((Function.update_of_ne h₂ _ _).trans (h.gpr r hr)))
    · exact (hload 0 (by simp [hks])).trans h.vec
    · exact (hload 1 (by simp [hks])).trans h.r0
    · exact (hload 3 (by simp [hks])).trans h.r2
    · exact (hload 37 (by simp [hks])).trans h.hsrr0
    · exact (hload 38 (by simp [hks])).trans h.hsrr1

/-- The frame moves to the hypervisor's stack. -/
theorem excWithKernSp_moves (n : Nat) (h : Choosing s vec p t)
    (hap : Apart (unrecSp s) (8 * eframeSlots) (kernSp s - eframeSizeof) (8 * eframeSlots)) :
    ∃ t', run (excCode got) (n + 2) .excWithKernSp t = run (excCode got) n .excMoreSave t' ∧
      Stashed s vec p (kernSp s - eframeSizeof) t' ∧ t'.cr = t.cr := by
  have h₁ := (h.setR2 (t.spr .hsprg0) t.cr).setR2 (kernSp s) t.cr
  obtain ⟨t', hrun, hst, hcr⟩ := copyStashed_moves got n h₁ rfl hap
  refine ⟨t', ?_, hst, hcr⟩
  rw [← hrun]
  refine congrArg (run (excCode got) (n + 1) .copyStashed) (State.ext ?_ rfl rfl rfl rfl rfl)
  show Function.update (Function.update t.gpr 2 _) 2 (load t.mem (t.spr .hsprg0 + kpcrKernSp)) = _
  rw [h.kern]
  rfl

/-- The frame moves to the interrupted stack. -/
theorem fromKernel_moves (n : Nat) (h : Choosing s vec p t)
    (hap : Apart (unrecSp s) (8 * eframeSlots)
      (s.gpr 1 - abiStackProtectedZone - eframeSizeof) (8 * eframeSlots)) :
    ∃ t', run (excCode got) (n + 2) .fromKernel t = run (excCode got) n .excMoreSave t' ∧
      Stashed s vec p (s.gpr 1 - abiStackProtectedZone - eframeSizeof) t' ∧ t'.cr = t.cr := by
  have h₁ := (h.setR2 (t.spr .hsprg1) t.cr).setR2 (s.gpr 1 - abiStackProtectedZone) t.cr
  obtain ⟨t', hrun, hst, hcr⟩ := copyStashed_moves got n h₁ rfl hap
  refine ⟨t', ?_, hst, hcr⟩
  rw [← hrun]
  refine congrArg (run (excCode got) (n + 1) .copyStashed) (State.ext ?_ rfl rfl rfl rfl rfl)
  show Function.update (Function.update t.gpr 2 _) 2 (t.spr .hsprg1 + -abiStackProtectedZone) = _
  rw [h.scratch, ← BitVec.sub_eq_add_neg]
  rfl

/-- The state after an `andi.` that has put `x` into `r2`. -/
def marked (t : State) (x : Word) : State :=
  { t.set 2 x with cr := setCr0 t.cr (cmpZero x (t.spr .xer)) }

theorem marked_eq (t : State) (x : Word) : (marked t x).eq = decide (x = 0) := by
  show (cr0 (setCr0 t.cr (cmpZero x (t.spr .xer)))).getLsbD 1 = _
  rw [cr0_setCr0, cmpZero_eq]

theorem Choosing.marked (h : Choosing s vec p t) (x : Word) : Choosing s vec p (marked t x) :=
  h.setR2 x _

/-- The mark that the last `andi.` leaves. -/
theorem Choosing.marked_cr {f : BitVec 4} (h : Choosing s vec p t) (x mask : Word)
    (hcr : t.cr = setCr0 s.cr f) (hm : mask.msb = false) :
    (Prephv.marked t (x &&& mask)).cr =
      setCr0 s.cr ((if x &&& mask = 0 then 2 else 4) ||| so (s.spr .xer)) := by
  show setCr0 t.cr (cmpZero (x &&& mask) (t.spr .xer)) = _
  rw [hcr, setCr0_setCr0, h.xer, cmpZero_and hm]

/-- The three tests of the saved MSR. -/
theorem run_excCont (n : Nat) (h : Choosing s vec p t) : run (excCode got) (n + 1) .excCont t =
    run (excCode got) n (if p.2 &&& excMsrRi = 0 then .excMoreSave else .recoverable)
      (marked t (p.2 &&& excMsrRi)) := by
  have hbody : execs (excCode got .excCont).body t = marked t (p.2 &&& excMsrRi) := by
    rw [← h.saved]
    rfl
  show run (excCode got) n
    (if (execs (excCode got .excCont).body t).eq then .excMoreSave else .recoverable) _ = _
  rw [hbody, marked_eq]
  simp only [decide_eq_true_eq]

theorem run_recoverable (n : Nat) (h : Choosing s vec p t) :
    run (excCode got) (n + 1) .recoverable t =
      run (excCode got) n (if p.2 &&& excMsrPr = 0 then .notProblem else .excWithKernSp)
        (marked t (p.2 &&& excMsrPr)) := by
  have hbody : execs (excCode got .recoverable).body t = marked t (p.2 &&& excMsrPr) := by
    rw [← h.saved]
    rfl
  show run (excCode got) n
    (if (execs (excCode got .recoverable).body t).eq then .notProblem else .excWithKernSp) _ = _
  rw [hbody, marked_eq]
  simp only [decide_eq_true_eq]

theorem run_notProblem (n : Nat) (h : Choosing s vec p t) :
    run (excCode got) (n + 1) .notProblem t =
      run (excCode got) n
        (if p.2 >>> excMsrHvLg &&& 1 = 0 then .excWithKernSp else .fromKernel)
        (marked t (p.2 >>> excMsrHvLg &&& 1)) := by
  have hbody : execs (excCode got .notProblem).body t =
      marked t (p.2 >>> excMsrHvLg &&& 1) := by
    rw [← h.saved]
    refine State.ext ?_ rfl rfl rfl rfl rfl
    show Function.update (Function.update (Function.update t.gpr 2 _) 2 _) 2
      (t.gpr 0 >>> excMsrHvLg &&& 1) = _
    rw [Function.update_idem, Function.update_idem]
    rfl
  show run (excCode got) n
    (if (execs (excCode got .notProblem).body t).eq then .excWithKernSp else .fromKernel) _ = _
  rw [hbody, marked_eq]
  simp only [decide_eq_true_eq]

/-- The stack is chosen by the saved MSR, and the choice leaves its mark in the condition
register. -/
theorem excCont_chooses (h : Choosing s vec p t) (hcr : t.cr = s.cr) (hst : Stacks s p.2) :
    ∃ t' n, run (excCode got) 6 .excCont t = run (excCode got) (n + 1) .excMoreSave t' ∧
      Stashed s vec p (frameBase s p.2) t' ∧
      t'.cr = setCr0 s.cr (choiceCr0 p.2 (s.spr .xer)) := by
  have h₁ := h.marked (p.2 &&& excMsrRi)
  have hcr₁ := h.marked_cr p.2 excMsrRi
    (hcr.trans (setCr0_cr0 s.cr).symm) rfl
  rw [run_excCont got 5 h]
  by_cases hri : p.2 &&& excMsrRi = 0
  · -- not recoverable: the frame stays where it is
    have hbase : frameBase s p.2 = unrecSp s := if_neg (not_not.mpr hri)
    have hchoice : choiceCr0 p.2 (s.spr .xer) = 2 ||| so (s.spr .xer) := by
      rw [choiceCr0, if_neg fun hc => hc.1 hri]
    rw [if_pos hri] at hcr₁
    refine ⟨_, 4, by rw [if_pos hri], hbase ▸ h₁.toStashed, by rw [hcr₁, hchoice]⟩
  have hrec : Recoverable p.2 := hri
  have hap := hst.frame hrec
  rw [if_neg hri, run_recoverable got 4 h₁]
  have h₂ := h₁.marked (p.2 &&& excMsrPr)
  have hcr₂ := h₁.marked_cr p.2 excMsrPr hcr₁ rfl
  by_cases hpr : p.2 &&& excMsrPr = 0
  · rw [if_pos hpr, run_notProblem got 3 h₂]
    have h₃ := h₂.marked (p.2 >>> excMsrHvLg &&& 1)
    have hcr₃ := h₂.marked_cr (p.2 >>> excMsrHvLg) 1 hcr₂ rfl
    by_cases hhv : p.2 >>> excMsrHvLg &&& 1 = 0
    · -- the guest's supervisor
      have hbase : frameBase s p.2 = kernSp s - eframeSizeof := by
        rw [frameBase, if_pos hrec, if_neg fun hk : FromKernel p.2 => hk.2 hhv]
      have hchoice : choiceCr0 p.2 (s.spr .xer) = 2 ||| so (s.spr .xer) := by
        rw [choiceCr0, if_neg fun hc => hc.2.elim (fun h => h hpr) fun h => h hhv]
      rw [hbase] at hap ⊢
      rw [if_pos hhv] at hcr₃
      rw [if_pos hhv]
      obtain ⟨t', hrun, hst', hcr'⟩ := excWithKernSp_moves got 1 h₃ hap
      exact ⟨t', 0, hrun, hst', by rw [hcr', hcr₃, hchoice]⟩
    · -- the hypervisor
      have hbase : frameBase s p.2 = s.gpr 1 - abiStackProtectedZone - eframeSizeof := by
        rw [frameBase, if_pos hrec, if_pos (show FromKernel p.2 from ⟨hpr, hhv⟩)]
      have hchoice : choiceCr0 p.2 (s.spr .xer) = 4 ||| so (s.spr .xer) := by
        rw [choiceCr0, if_pos ⟨hrec, Or.inr hhv⟩]
      rw [hbase] at hap ⊢
      rw [if_neg hhv] at hcr₃
      rw [if_neg hhv]
      obtain ⟨t', hrun, hst', hcr'⟩ := fromKernel_moves got 1 h₃ hap
      exact ⟨t', 0, hrun, hst', by rw [hcr', hcr₃, hchoice]⟩
  · -- problem state
    have hbase : frameBase s p.2 = kernSp s - eframeSizeof := by
      rw [frameBase, if_pos hrec, if_neg fun hk : FromKernel p.2 => hpr hk.1]
    have hchoice : choiceCr0 p.2 (s.spr .xer) = 4 ||| so (s.spr .xer) := by
      rw [choiceCr0, if_pos ⟨hrec, Or.inl hpr⟩]
    rw [hbase] at hap ⊢
    rw [if_neg hpr] at hcr₂
    rw [if_neg hpr]
    obtain ⟨t', hrun, hst', hcr'⟩ := excWithKernSp_moves got 2 h₂ hap
    exact ⟨t', 1, hrun, hst', by rw [hcr', hcr₂, hchoice]⟩

/-! ### The rest of the registers -/

/-- The registers that are saved from themselves. -/
def savedRegs : List (Fin 32) :=
  [3, 4, 5, 6, 7, 8, 9, 10, 11, 12, 13, 14, 15, 16, 17, 18, 19, 20, 21, 22, 23, 24, 25, 26, 27, 28,
    29, 30, 31]

/-- What `exc_more_save` puts into the frame. -/
def moreSaved (s : State) (cr : BitVec 32) : List (Nat × Word) :=
  (2, s.gpr 1) :: (savedRegs.map fun r => (1 + r.val, s.gpr r)) ++
    [(33, s.spr .lr), (34, s.spr .ctr), (35, s.spr .xer), (36, cr.setWidth 64)]

theorem run_excMoreSave (n : Nat) (h : Stashed s vec p f t) :
    ∃ u, run (excCode got) (n + 1) .excMoreSave t = some u ∧ u.gpr 3 = f ∧
      u.mem = writes t.mem f (moreSaved s t.cr) := by
  set t₁ := execs [.mfspr 0 .hsprg1, .std 0 (eframeR 1) 1] t with ht₁
  have hstores := execs_stores 1 (by decide) (savedRegs.map fun r => (r, 1 + r.val)) t₁
  have hr1 : t₁.gpr 1 = f := h.frame
  have hmem₁ : t₁.mem = store t.mem (f + slot 2) (s.gpr 1) := by
    show store t.mem (t.gpr 1 + slot 2) (t.spr .hsprg1) = _
    rw [h.frame, h.scratch]
  have hvals : ((savedRegs.map fun r => (r, 1 + r.val)).map fun q => (q.2, t₁.gpr q.1)) =
      savedRegs.map fun r => (1 + r.val, s.gpr r) := by
    rw [List.map_map]
    refine List.map_congr_left fun r hr => ?_
    have hr3 : ∀ r ∈ savedRegs, (3 : Fin 32) ≤ r := by decide
    have hne : r ≠ 0 := by
      rintro rfl
      exact absurd (hr3 0 hr) (by decide)
    exact congrArg (Prod.mk (1 + r.val)) ((Function.update_of_ne hne _ _).trans (h.gpr r (hr3 r hr)))
  set special : List Instr := [
    .mfspr 0 .lr, .std 0 eframeLr 1, .mfspr 0 .ctr, .std 0 eframeCtr 1,
    .mfspr 0 .xer, .std 0 eframeXer 1, .mfcr 0, .std 0 eframeCr 1] with hspecial
  set tail : List Instr := [
    .mfspr 13 .hsprg0, .ld 2 kpcrToc 13, .mr 3 1, .addi 1 1 (-stackframeMin), .ld 12 got 2,
    .mtspr .lr 12] with htail
  have hbody : (excCode got .excMoreSave).body = [.mfspr 0 .hsprg1, .std 0 (eframeR 1) 1] ++
      ((savedRegs.map fun r => (r, 1 + r.val)).map fun q => .std q.1 (slot q.2) 1) ++
      special ++ tail := rfl
  rw [hr1, hvals, hmem₁] at hstores
  set t₂ : State := { t₁ with
    mem := writes (store t.mem (f + slot 2) (s.gpr 1)) f
      (savedRegs.map fun r => (1 + r.val, s.gpr r)) } with ht₂
  refine ⟨(execs tail (execs special t₂)).blr, ?_, hr1, ?_⟩
  · show some (execs (excCode got .excMoreSave).body t).blr = _
    rw [hbody, execs_append, execs_append, execs_append, ← ht₁, hstores]
  · have hspr : t₂.spr .lr = s.spr .lr ∧ t₂.spr .ctr = s.spr .ctr ∧ t₂.spr .xer = s.spr .xer :=
      ⟨h.lr, h.ctr, h.xer⟩
    have hr1₂ : t₂.gpr 1 = f := hr1
    show writes t₂.mem (t₂.gpr 1) [(33, t₂.spr .lr), (34, t₂.spr .ctr), (35, t₂.spr .xer),
      (36, t₂.cr.setWidth 64)] = _
    have hcr₂ : t₂.cr = t.cr := rfl
    have hmem₂ : t₂.mem = writes (store t.mem (f + slot 2) (s.gpr 1)) f
      (savedRegs.map fun r => (1 + r.val, s.gpr r)) := rfl
    rw [hr1₂, hspr.1, hspr.2.1, hspr.2.2, hcr₂, hmem₂, moreSaved, List.cons_append,
      writes_cons _ _ (2, s.gpr 1), writes_append]

/-- The frame that is passed to `exc_handler` holds the interrupted registers. -/
theorem excMoreSave_saves (n : Nat) (h : Stashed s vec p f t) :
    ∃ u, run (excCode got) (n + 1) .excMoreSave t = some u ∧ u.gpr 3 = f ∧
      Saved s p t.cr f u.mem := by
  obtain ⟨u, hrun, hr3, hmem⟩ := run_excMoreSave got n h
  refine ⟨u, hrun, hr3, ?_⟩
  have hfst : (moreSaved s t.cr).map Prod.fst =
      [2, 4, 5, 6, 7, 8, 9, 10, 11, 12, 13, 14, 15, 16, 17, 18, 19, 20, 21, 22, 23, 24, 25, 26, 27,
        28, 29, 30, 31, 32, 33, 34, 35, 36] := rfl
  have hlt : ∀ w ∈ moreSaved s t.cr, w.1 < eframeSlots := fun w hw => by
    have hw := List.mem_map_of_mem (f := Prod.fst) hw
    rw [hfst] at hw
    revert hw
    generalize w.1 = k
    revert k
    decide
  have hnd : ((moreSaved s t.cr).map Prod.fst).Nodup := by
    rw [hfst]
    decide
  have hin : ∀ w ∈ moreSaved s t.cr, load u.mem (f + slot w.1) = w.2 := fun w hw => by
    rw [hmem]
    exact load_writes (by decide) hlt hnd hw
  have hout : ∀ k, k < eframeSlots → k ∉ (moreSaved s t.cr).map Prod.fst →
      load u.mem (f + slot k) = load t.mem (f + slot k) := fun k hk hnot => by
    rw [hmem]
    exact load_writes_of_not_mem hk (by decide) hlt hnot
  have hall : ∀ r : Fin 32, r = 0 ∨ r = 1 ∨ r = 2 ∨ r ∈ savedRegs := by decide
  refine ⟨fun r => ?_, ?_, ?_, ?_, ?_, ?_, ?_⟩
  · rcases hall r with rfl | rfl | rfl | hr
    · exact (hout 1 (by decide) (by rw [hfst]; decide)).trans h.r0
    · exact hin (2, s.gpr 1) (by simp [moreSaved])
    · exact (hout 3 (by decide) (by rw [hfst]; decide)).trans h.r2
    · refine hin (1 + r.val, s.gpr r) ?_
      exact List.mem_append_left _ (List.mem_cons_of_mem _ (List.mem_map_of_mem hr))
  · exact hin (33, s.spr .lr) (by simp [moreSaved])
  · exact hin (34, s.spr .ctr) (by simp [moreSaved])
  · exact hin (35, s.spr .xer) (by simp [moreSaved])
  · exact hin (36, t.cr.setWidth 64) (by simp [moreSaved])
  · exact (hout 37 (by decide) (by rw [hfst]; decide)).trans h.hsrr0
  · exact (hout 38 (by decide) (by rw [hfst]; decide)).trans h.hsrr1

end Entry

/-! ### Transparency -/

section Transparent

variable (got : Word) {v : ExcVec} {i : Interrupt} {s : State}

/-- An interrupt changes the pair it saves to and the MSR only. -/
theorem takeInterrupt_keeps (i : Interrupt) (s : State) :
    (takeInterrupt i s).gpr = s.gpr ∧ (takeInterrupt i s).cr = s.cr ∧
      (takeInterrupt i s).mem = s.mem ∧
      ∀ n ∉ [Spr.srr0, .srr1, .hsrr0, .hsrr1], (takeInterrupt i s).spr n = s.spr n := by
  unfold takeInterrupt
  cases i.pair with
  | srr =>
    refine ⟨rfl, rfl, rfl, fun n hn => ?_⟩
    simp only [List.mem_cons, List.not_mem_nil, or_false, not_or] at hn
    exact (Function.update_of_ne hn.2.1 _ _).trans (Function.update_of_ne hn.1 _ _)
  | hsrr =>
    refine ⟨rfl, rfl, rfl, fun n hn => ?_⟩
    simp only [List.mem_cons, List.not_mem_nil, or_false, not_or] at hn
    exact (Function.update_of_ne hn.2.2.2 _ _).trans (Function.update_of_ne hn.2.2.1 _ _)

/-- **The frame holds the interrupted registers.**  An exception reaches `exc_handler` with a frame
that holds every register, with the mark of the choice in the condition register. -/
theorem excEnter_saved (hst : Stacks s (v.pair.read (takeInterrupt i s)).2) :
    ∃ t, excEnter got v i s = some t ∧
      Saved s (v.pair.read (takeInterrupt i s))
        (setCr0 s.cr (choiceCr0 (v.pair.read (takeInterrupt i s)).2 (s.spr .xer)))
        (t.gpr 3) t.mem := by
  obtain ⟨hgpr, hcr, hmem, hspr⟩ := takeInterrupt_keeps i s
  set s₀ := takeInterrupt i s with hs₀
  set p := v.pair.read s₀ with hp
  have hkpcr : s₀.spr .hsprg0 = s.spr .hsprg0 := hspr _ (by decide)
  have hxer : s₀.spr .xer = s.spr .xer := hspr _ (by decide)
  have hU : unrecSp s₀ = unrecSp s := by rw [unrecSp, unrecSp, hmem, hkpcr]
  have hK : kernSp s₀ = kernSp s := by rw [kernSp, kernSp, hmem, hkpcr]
  have hbase : frameBase s₀ p.2 = frameBase s p.2 := by
    rw [frameBase, frameBase, hU, hK, hgpr]
  have hst₀ : Stacks s₀ p.2 := by
    refine ⟨?_, fun hri => ?_⟩
    · rw [hkpcr, hU]
      exact hst.kpcr
    · rw [hU, hbase]
      exact hst.frame hri
  obtain ⟨t₁, hrun₁, hstash, hr0, hcr₁, hmem₁⟩ := vector_stashes got v s₀
  have hkern : load t₁.mem (t₁.spr .hsprg0 + kpcrKernSp) = kernSp s₀ := by
    rw [hmem₁, hstash.kpcr]
    refine load_writes_apart (n := eframeSlots) hst₀.kpcr (by decide) ?_
    simp [eframeSlots]
  obtain ⟨t₂, n, hrun₂, hstash₂, hcr₂⟩ := excCont_chooses got ⟨hstash, hr0, hkern⟩ hcr₁ hst₀
  obtain ⟨t, hrun, hr3, hsaved⟩ := excMoreSave_saves got n hstash₂
  refine ⟨t, (hrun₁.trans hrun₂).trans hrun, ?_⟩
  rw [hcr₂, hcr, hxer, ← hr3] at hsaved
  exact ⟨fun r => (hsaved.gpr r).trans (congrFun hgpr r), hsaved.lr.trans (hspr _ (by decide)),
    hsaved.ctr.trans (hspr _ (by decide)), hsaved.xer.trans hxer, hsaved.cr, hsaved.hsrr0,
    hsaved.hsrr1⟩

/-- A frame that is left unchanged still holds its registers. -/
theorem Saved.keep {p : Word × Word} {cr : BitVec 32} {t u : State}
    (h : Saved s p cr (t.gpr 3) t.mem) (hu : ExcHandled t u) : Saved s p cr (u.gpr 3) u.mem := by
  have hload : ∀ k, k < eframeSlots → load u.mem (t.gpr 3 + slot k) = load t.mem (t.gpr 3 + slot k) :=
    fun k hk => load_congr fun x hx => hu.mem x (Within.of_slot hk (by decide) hx).2
  rw [hu.frame]
  refine ⟨fun r => (hload (1 + r.val) ?_).trans (h.gpr r), (hload 33 (by decide)).trans h.lr,
    (hload 34 (by decide)).trans h.ctr, (hload 35 (by decide)).trans h.xer,
    (hload 36 (by decide)).trans h.cr, (hload 37 (by decide)).trans h.hsrr0,
    (hload 38 (by decide)).trans h.hsrr1⟩
  have hr := r.isLt
  show 1 + r.val < 39
  omega

/-- **What an exception returns with.**  Whatever the handler does, as long as it leaves the frame
alone, the program goes on with its registers, from the pair that the entry read, and with the mark
of the choice in the condition register. -/
theorem exc_returns (hst : Stacks s (v.pair.read (takeInterrupt i s)).2) :
    ∃ t, excEnter got v i s = some t ∧ ∀ u, ExcHandled t u → ∃ w, excRfi got u = some w ∧
      w.gpr = s.gpr ∧ w.spr .lr = s.spr .lr ∧ w.spr .ctr = s.spr .ctr ∧
      w.spr .xer = s.spr .xer ∧
      w.cr = setCr0 s.cr (choiceCr0 (v.pair.read (takeInterrupt i s)).2 (s.spr .xer)) ∧
      w.pc = .ofSaved (v.pair.read (takeInterrupt i s)).1 ∧
      w.msr = .ofSaved (v.pair.read (takeInterrupt i s)).2 := by
  obtain ⟨t, ht, hsaved⟩ := excEnter_saved got hst
  exact ⟨t, ht, fun u hu => excRfi_restores rfl (hsaved.keep hu)⟩

/-- The choice looks at bits of the saved MSR that a return restores. -/
theorem choiceCr0_ofSaved (msr xer : Word) :
    choiceCr0 (Msr.ofSaved msr).val xer = choiceCr0 msr xer := by
  have hri : (Msr.ofSaved msr).val &&& excMsrRi = msr &&& excMsrRi :=
    Msr.ofSaved_and (by decide) (by decide)
  have hpr : (Msr.ofSaved msr).val &&& excMsrPr = msr &&& excMsrPr :=
    Msr.ofSaved_and (by decide) (by decide)
  have hhv : (Msr.ofSaved msr).val >>> excMsrHvLg &&& 1 = msr >>> excMsrHvLg &&& 1 := by
    have h : (Msr.ofSaved msr).val &&& 0x1000000000000000 = msr &&& 0x1000000000000000 :=
      Msr.ofSaved_and (by decide) (by decide)
    have h := congrArg (fun x : Word => x >>> excMsrHvLg) h
    simp only [BitVec.ushiftRight_and_distrib] at h
    exact h
  refine congrArg (· ||| so xer) (if_congr ?_ rfl rfl)
  show (_ ≠ 0) ∧ _ ↔ (_ ≠ 0) ∧ _
  rw [hri, hpr, hhv]

/-- The condition under which an exception of `s` is transparent: the pair that the entry reads has
the program's PC and MSR, as the one that the hardware saved to has, and the field 0 of the
condition register is what the choice of a stack would make it. -/
structure ExcClean (v : ExcVec) (i : Interrupt) (s : State) : Prop where
  pc : Pc.ofSaved (v.pair.read (takeInterrupt i s)).1 = s.pc
  msr : Msr.ofSaved (v.pair.read (takeInterrupt i s)).2 = s.msr
  cr0 : cr0 s.cr = choiceCr0 s.msr.val (s.spr .xer)

/-- Where the entry reads the pair that the hardware saved to, only the field is asked for. -/
theorem excClean_iff (h : i.pair = v.pair) :
    ExcClean v i s ↔ cr0 s.cr = choiceCr0 s.msr.val (s.spr .xer) := by
  have hread : v.pair.read (takeInterrupt i s) = (s.pc.val, s.msr.saved i.info) := by
    rw [← h, takeInterrupt]
    cases i.pair <;> rfl
  refine ⟨ExcClean.cr0, fun hcr => ⟨?_, ?_, hcr⟩⟩
  · rw [hread]
    exact Pc.ofSaved_val s.pc
  · rw [hread]
    exact Msr.ofSaved_saved s.msr i.info

/-- **When exceptions are transparent.**  For every vector, state and handler that leaves the frame
alone, the program goes on with all it had just when the exception is clean. -/
theorem exc_transparent_iff
    (hst : Stacks s (v.pair.read (takeInterrupt i s)).2) :
    (∃ t, excEnter got v i s = some t ∧ ∀ u, ExcHandled t u →
      ∃ w, excRfi got u = some w ∧ SameProgram s w) ↔ ExcClean v i s := by
  obtain ⟨t, ht, hret⟩ := exc_returns got hst
  constructor
  · rintro ⟨t', ht', hall⟩
    rw [ht] at ht'
    cases ht'
    -- the handler that does nothing
    obtain ⟨w, hw, -, -, -, -, hcr, hpc, hmsr⟩ := hret t ⟨rfl, fun _ _ => rfl⟩
    obtain ⟨w', hw', hsame⟩ := hall t ⟨rfl, fun _ _ => rfl⟩
    rw [hw] at hw'
    cases hw'
    have hm := hmsr.symm.trans hsame.msr
    refine ⟨hpc.symm.trans hsame.pc, hm, ?_⟩
    rw [← hm, choiceCr0_ofSaved]
    exact setCr0_eq_self.mp (hcr.symm.trans hsame.cr)
  · intro hclean
    refine ⟨t, ht, fun u hu => ?_⟩
    obtain ⟨w, hw, hgpr, hlr, hctr, hxer, hcr, hpc, hmsr⟩ := hret u hu
    refine ⟨w, hw, hgpr, hlr, hctr, hxer, hcr.trans ?_, hpc.trans hclean.pc, hmsr.trans hclean.msr⟩
    rw [← choiceCr0_ofSaved, hclean.msr]
    exact setCr0_eq_self.mpr hclean.cr0

/-- The hypervisor, interrupted with the condition register clear; the memory is zero, with both
stacks below address zero. -/
def sampleProgram : State where
  gpr _ := 0x200000
  spr _ := 0x100000
  cr := 0
  pc := ⟨0x1000, by decide⟩
  msr := ⟨0x9000000000000002, by decide, by decide⟩
  mem _ := 0

/-- A decrementer interrupt. -/
def sampleInterrupt : Interrupt := ⟨.srr, 0, ⟨0x9000000000000000, by decide, by decide⟩⟩

theorem sampleProgram_stacks : Stacks sampleProgram
    (ExcVec.dec.pair.read (takeInterrupt sampleInterrupt sampleProgram)).2 := by
  have hU : unrecSp sampleProgram = 0 := rfl
  have hF : frameBase sampleProgram
      (ExcVec.dec.pair.read (takeInterrupt sampleInterrupt sampleProgram)).2 = 0x1ffcc8 := by
    decide +kernel
  refine ⟨?_, fun _ => ?_⟩
  · rw [hU]
    exact (apart_of_le (by decide) (by decide)).symm
  · rw [hU, hF]
    exact apart_of_le (by decide) (by decide)

theorem exc_transparent_iff_sample :
    (∃ t, excEnter 0 .dec sampleInterrupt sampleProgram = some t ∧ ∀ u, ExcHandled t u →
      ∃ w, excRfi 0 u = some w ∧ SameProgram sampleProgram w) ↔
    ExcClean .dec sampleInterrupt sampleProgram :=
  exc_transparent_iff 0 sampleProgram_stacks

/-- An exception that the hardware saves to the pair its vector reads changes the condition register
of the hypervisor. -/
theorem exc_changes_cr : ¬ ∀ got v i s, i.pair = v.pair → Recoverable s.msr.val →
    Stacks s (v.pair.read (takeInterrupt i s)).2 →
    ∃ t, excEnter got v i s = some t ∧ ∀ u, ExcHandled t u →
      ∃ w, excRfi got u = some w ∧ SameProgram s w := by
  intro hall
  obtain ⟨t, ht, hsame⟩ := hall 0 .dec sampleInterrupt sampleProgram rfl (by decide)
    sampleProgram_stacks
  obtain ⟨t', ht', hret⟩ := exc_returns 0 sampleProgram_stacks
  rw [ht] at ht'
  cases ht'
  obtain ⟨w, hw, hs⟩ := hsame t ⟨rfl, fun _ _ => rfl⟩
  obtain ⟨w', hw', -, -, -, -, hcr, -, -⟩ := hret t ⟨rfl, fun _ _ => rfl⟩
  rw [hw] at hw'
  cases hw'
  have hbad := hcr.symm.trans hs.cr
  exact absurd hbad (by decide +kernel)

end Transparent

end Prephv
