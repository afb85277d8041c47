import Prephv.Guest.Sprs

/-!
# Guest — Emulate

The instructions that `guest_exc_try` does not emulate as the architecture has them: `cntlzw`
(`cntlzw_iff`), everything else with the primary opcode 31 (`refused_iff`), and the word that an
`mfspr` of an SPRG is overwritten with (`SprgRun.right_iff`).  Each theorem has the exact condition
under which the result is right all the same.
-/

set_option autoImplicit false

namespace Prephv

open Power (Insn Instr decode decodeLd opcd xo reg field)

/-! ### `cntlzw` -/

/-- The number of leading zeros of the low word. -/
def leadingZeros (x : U64) : U64 := ((x.setWidth 32 : U32).clz).setWidth 64

/-- The low word's CR0. -/
def crField0 : U64 := 0xf0000000

/-- What the architecture says of a `cntlzw`. -/
structure CountsZeros (s s' : TrapState) (ra rs : Fin 32) (rc : Bool) : Prop where
  gpr : s'.frame.gpr = Function.update s.frame.gpr ra (leadingZeros (s.frame.gpr rs))
  cr : if rc then s'.frame.cr &&& ~~~crField0 = s.frame.cr &&& ~~~crField0
    else s'.frame.cr = s.frame.cr
  pc : s'.frame.hsrr0 = s.frame.hsrr0 + 4

/-- The registers and the CR with which the code happens to do the same: it writes the count for r0
to the register that the reserved field names, and clears the CR. -/
def CntlzwFits (f : Eframe) (rb ra rs : Fin 32) (rc : Bool) : Prop :=
  (if rb = ra then leadingZeros (f.gpr 0) = leadingZeros (f.gpr rs)
    else f.gpr rb = leadingZeros (f.gpr 0) ∧ f.gpr ra = leadingZeros (f.gpr rs)) ∧
  (if rc then f.cr &&& ~~~crField0 = 0 else f.cr = 0)

/-- Two writes to a file of registers come to the same. -/
theorem update_eq_update_iff {α β : Type} [DecidableEq α] {f : α → β} {a b : α} {x y : β} :
    Function.update f a x = Function.update f b y ↔
      if a = b then x = y else f a = x ∧ f b = y := by
  by_cases hab : a = b
  · subst hab
    rw [if_pos rfl]
    exact ⟨fun h => by simpa using congrFun h a, fun h => by rw [h]⟩
  · rw [if_neg hab]
    constructor
    · intro h
      have ha := congrFun h a
      have hb := congrFun h b
      rw [Function.update_self, Function.update_of_ne hab] at ha
      rw [Function.update_self, Function.update_of_ne (Ne.symm hab)] at hb
      exact ⟨ha.symm, hb⟩
    · rintro ⟨rfl, rfl⟩
      rw [Function.update_eq_self, Function.update_eq_self]

/-- What the code does with a `cntlzw`. -/
theorem guestExcTry_cntlzw {s : TrapState} (h32 : s.frame.Problem32) {ra rs : Fin 32} {rc : Bool}
    (hi : decode s.isn = some (.cntlzw ra rs rc)) :
    guestExcTry s = .ok (.none, { s with frame := { s.frame with
      gpr := Function.update s.frame.gpr (reg s.isn 16) (leadingZeros (s.frame.gpr 0))
      cr := 0
      hsrr0 := s.frame.hsrr0 + 4 } }) := by
  obtain ⟨hop, hx, -⟩ := Power.decode_eq_some.mp hi
  -- the field it takes for `rS` is the upper half of the extended opcode
  have hrs : reg s.isn 21 = 0 := by
    rw [xo, field, Nat.shiftRight_eq_div_pow] at hx
    apply Fin.ext
    rw [reg, Fin.val_ofNat, field, Nat.shiftRight_eq_div_pow]
    show _ = 0
    omega
  rw [guestExcTry_eq h32,
    guestExcProg_rest (by rw [hi]; rintro i ⟨⟩; exact ⟨_, _, _, rfl⟩), if_pos hop,
    guestCntlzw_eq s hop, hrs]
  rfl

/-- **`cntlzw`** is emulated as the architecture defines it just when the registers fit. -/
theorem cntlzw_iff {s : TrapState} (h32 : s.frame.Problem32) {ra rs : Fin 32} {rc : Bool}
    (hi : decode s.isn = some (.cntlzw ra rs rc)) :
    (∃ s', guestExcTry s = .ok (.none, s') ∧ CountsZeros s s' ra rs rc) ↔
      CntlzwFits s.frame (reg s.isn 16) ra rs rc := by
  rw [guestExcTry_cntlzw h32 hi, CntlzwFits, ← update_eq_update_iff]
  constructor
  · rintro ⟨s', hs', hgpr, hcr, -⟩
    cases hs'
    refine ⟨hgpr, ?_⟩
    cases rc with
    | true => exact hcr.symm.trans BitVec.zero_and
    | false => exact hcr.symm
  · rintro ⟨hgpr, hcr⟩
    refine ⟨_, rfl, hgpr, ?_, rfl⟩
    cases rc with
    | true => exact BitVec.zero_and.trans hcr.symm
    | false => exact hcr.symm

/-- `cntlzw r0, r0`, with a CR of 0. -/
theorem cntlzw_iff_sample : ∃ s',
    guestExcTry (sampleVm.at (sampleTrap 0x7c000034)) = .ok (.none, s') ∧
    CountsZeros (sampleVm.at (sampleTrap 0x7c000034)) s' 0 0 false := by
  have hisn := sampleTrap_isn sampleVm 0x7c000034
  have hi : decode (sampleVm.at (sampleTrap 0x7c000034)).isn = some (.cntlzw 0 0 false) := by
    rw [hisn]
    decide
  refine (cntlzw_iff (sampleTrap_problem32 _ _) hi).mpr ?_
  rw [hisn]
  exact ⟨rfl, rfl⟩

/-- `cntlzw r4, r3`, where r3 is 5 and all else is 0: r0 gets the 32 of itself. -/
theorem cntlzw_misses : ¬ ∀ (s : TrapState) (ra rs : Fin 32) (rc : Bool), s.frame.Problem32 →
    decode s.isn = some (.cntlzw ra rs rc) →
    ∃ s', guestExcTry s = .ok (.none, s') ∧ CountsZeros s s' ra rs rc := by
  intro h
  have hisn := sampleTrap_isn sampleVm 0x7c640034
  have h32 := sampleTrap_problem32 sampleVm 0x7c640034
  have hi : decode (sampleVm.at (sampleTrap 0x7c640034)).isn = some (.cntlzw 4 3 false) := by
    rw [hisn]
    decide
  obtain ⟨s', hs', hgpr, -, -⟩ := h _ 4 3 false h32 hi
  rw [guestExcTry_cntlzw h32 hi, hisn] at hs'
  cases hs'
  have h4 := congrFun hgpr 4
  revert h4
  decide

/-! ### Words that are not emulated -/

/-- **An instruction that is not emulated is refused**, and nothing is changed, just when its
primary opcode is not 31. -/
theorem refused_iff {s : TrapState} (h32 : s.frame.Problem32) (hi : decode s.isn = none) :
    guestExcTry s = .ok (.unsupported, s) ↔ opcd s.isn ≠ 31 := by
  rw [guestExcTry_eq h32, guestExcProg_rest (by rw [hi]; rintro i ⟨⟩)]
  by_cases hop : opcd s.isn = 31
  · rw [if_pos hop]
    refine ⟨fun h => ?_, fun h => absurd hop h⟩
    cases h
  · rw [if_neg hop]
    exact ⟨fun _ => hop, fun _ => rfl⟩

/-- `isync` is refused. -/
theorem refused_iff_sample : guestExcTry (sampleVm.at (sampleTrap 0x4c00012c)) =
    .ok (.unsupported, sampleVm.at (sampleTrap 0x4c00012c)) := by
  have hisn := sampleTrap_isn sampleVm 0x4c00012c
  have hi : decode (sampleVm.at (sampleTrap 0x4c00012c)).isn = none := by
    rw [hisn]
    decide
  refine (refused_iff (sampleTrap_problem32 _ _) hi).mpr ?_
  rw [hisn]
  decide

/-- `add r3, r3, r4` is taken for a count of leading zeros. -/
theorem refused_misses : ¬ ∀ s : TrapState, s.frame.Problem32 → decode s.isn = none →
    guestExcTry s = .ok (.unsupported, s) := by
  intro h
  have hisn := sampleTrap_isn sampleVm 0x7c632214
  have h32 := sampleTrap_problem32 sampleVm 0x7c632214
  have hi : decode (sampleVm.at (sampleTrap 0x7c632214)).isn = none := by
    rw [hisn]
    decide
  have hres := h _ h32 hi
  rw [guestExcTry_eq h32, guestExcProg_rest (by rw [hi]; rintro i ⟨⟩), hisn,
    if_pos (by decide)] at hres
  cases hres

/-! ### The word for an `mfspr` of an SPRG -/

/-- The guest executes the instruction at its PC: a load itself, and the others considered here
through the hypervisor. -/
def guestStep (s : TrapState) : Res (Err × TrapState) :=
  match decodeLd s.isn with
  | some (.ld rt d ra) =>
    let ea := Power.addr32 (Power.ldAddr s.frame.gpr d ra)
    .ok (.none, { s with frame := { s.frame with
      gpr := Function.update s.frame.gpr rt (Power.load s.mem ea)
      hsrr0 := s.frame.hsrr0 + 4 } })
  | _ => guestExcTry s

/-- What the guest does while it has one `mfspr` of an SPRG. -/
inductive SprgEvent where
  | mfspr (frame : Eframe)
  | mtspr (i : Fin 4) (rs : Fin 32) (frame : Eframe)
  | memory (mem : Memory)

/-- What the event writes to the SPRG. -/
def SprgEvent.wrote (n : Fin 4) : SprgEvent → Option U32
  | .mtspr i rs frame => if i = n then some ((frame.gpr rs).setWidth 32) else none
  | _ => none

/-- The last value written to the SPRG, 0 when there is none. -/
def lastSprg (es : List SprgEvent) (n : Fin 4) : U32 :=
  (es.reverse.findSome? (SprgEvent.wrote n)).getD 0

theorem lastSprg_concat (es : List SprgEvent) (e : SprgEvent) (n : Fin 4) :
    lastSprg (es ++ [e]) n = (e.wrote n).getD (lastSprg es n) := by
  unfold lastSprg
  rw [List.reverse_append, List.reverse_singleton, List.singleton_append, List.findSome?_cons]
  cases e.wrote n <;> rfl

/-- The guest has come to the word before. -/
def Executed (es : List SprgEvent) : Prop := ∃ frame, SprgEvent.mfspr frame ∈ es

/-- An execution of the word: what the guest did before, the doubleword at its address 0, and what
the execution leaves in the target. -/
structure Execution where
  before : List SprgEvent
  dword0 : U64
  left : U64

/-- It leaves the last value written to the SPRG. -/
def Execution.Right (x : Execution) (n : Fin 4) : Prop :=
  x.left = (lastSprg x.before n).setWidth 64

/-- It is the first, or finds that value at 0. -/
def Execution.Fits (x : Execution) (n : Fin 4) : Prop :=
  ¬ Executed x.before ∨ x.dword0 = (lastSprg x.before n).setWidth 64

/-- A guest with the word `w`, of target `rt`, at `pc`, and the executions of it.  The guest comes
to the word with any registers, has `mtspr` of any SPRG trap, and otherwise changes its memory, but
for the word at `pc`, at will. -/
inductive SprgRun (pc : U64) (w : U32) (rt : Fin 32) :
    List SprgEvent → List Execution → TrapState → Prop where
  | init {s : TrapState} {ramSize ram : U64} (hg : s.guest = guestOn ramSize ram)
      (hw : le32 s.mem pc = w) : SprgRun pc w rt [] [] s
  | mfspr {es : List SprgEvent} {xs : List Execution} {s s' : TrapState} {frame : Eframe}
      (h : SprgRun pc w rt es xs s) (h32 : frame.Problem32) (hpc : frame.hsrr0 = pc)
      (hs : guestStep { s with frame } = .ok (.none, s')) :
      SprgRun pc w rt (es ++ [.mfspr frame])
        (xs ++ [⟨es, Power.load s.mem 0, s'.frame.gpr rt⟩]) s'
  | mtspr {es : List SprgEvent} {xs : List Execution} {s s' : TrapState} {i : Fin 4}
      {rs : Fin 32} {frame : Eframe} (h : SprgRun pc w rt es xs s)
      (hi : decode (le32 s.mem frame.hsrr0) = some (.mtspr (GuestSpr.sprg i).num rs))
      (hs : guestExcTry { s with frame } = .ok (.none, s')) :
      SprgRun pc w rt (es ++ [.mtspr i rs frame]) xs s'
  | memory {es : List SprgEvent} {xs : List Execution} {s : TrapState} {mem : Memory}
      (h : SprgRun pc w rt es xs s) (hw : le32 mem pc = le32 s.mem pc) :
      SprgRun pc w rt (es ++ [.memory mem]) xs { s with mem }

theorem executed_concat (es : List SprgEvent) (e : SprgEvent) (he : ∀ frame, e ≠ .mfspr frame) :
    Executed (es ++ [e]) ↔ Executed es := by
  unfold Executed
  refine exists_congr fun frame => ?_
  rw [List.mem_append, List.mem_singleton]
  exact or_iff_left (fun h => he frame h.symm)

/-- The rewritten word: the primary opcode of the loads, the target, and zeros. -/
theorem sprgIsn_toNat (w : U32) (n : Fin 4) :
    (sprgIsn w n).toNat = 2 ^ 26 * 58 + 2 ^ 21 * field w 6 10 := by
  have hzero : ∀ n : Fin 4, BitVec.ofNat 32 n.val &&& 0x0000fffc = 0#32 := by decide
  have hmask : (0x03e00000 : U32) = Words.lowMask 32 26 &&& ~~~(Words.lowMask 32 21) := by decide
  have hrt : (w &&& 0x03e00000).toNat = 2 ^ 21 * field w 6 10 := by
    rw [hmask, ← BitVec.and_assoc, Words.and_not_lowMask _ (by omega),
      Words.and_lowMask _ (by omega), field, Nat.shiftRight_eq_div_pow]
    omega
  have hlt : field w 6 10 < 2 ^ 5 := Power.field_lt w 6 10
  rw [sprgIsn, hzero, BitVec.or_zero, BitVec.or_comm, Words.or_toNat (k := 26)
    (by rw [hrt]; omega) (by decide), hrt]
  rfl

/-- The word for SPRGn is the load of the doubleword at 0, whatever n is. -/
theorem decodeLd_sprgIsn (w : U32) (n : Fin 4) :
    decodeLd (sprgIsn w n) = some (.ld (reg w 6) 0 0) := by
  have hval := sprgIsn_toNat w n
  have hlt : field w 6 10 < 2 ^ 5 := Power.field_lt w 6 10
  have hop : opcd (sprgIsn w n) = 58 := by
    rw [opcd, field, hval, Nat.shiftRight_eq_div_pow]
    omega
  have hlow : field (sprgIsn w n) 30 31 = 0 := by
    rw [field, hval, Nat.shiftRight_eq_div_pow]
    omega
  have hrt : reg (sprgIsn w n) 6 = reg w 6 := by
    have hfield : field (sprgIsn w n) 6 10 = field w 6 10 := by
      rw [field, hval, Nat.shiftRight_eq_div_pow]
      omega
    exact congrArg (Fin.ofNat 32) hfield
  have hra : reg (sprgIsn w n) 11 = 0 := by
    have hfield : field (sprgIsn w n) 11 15 = 0 := by
      rw [field, hval, Nat.shiftRight_eq_div_pow]
      omega
    exact congrArg (Fin.ofNat 32) hfield
  have hd : (sprgIsn w n).setWidth 16 = 0#16 := by
    apply BitVec.eq_of_toNat_eq
    rw [BitVec.toNat_setWidth, hval, BitVec.toNat_zero]
    omega
  rw [decodeLd, if_pos ⟨hop, hlow⟩, hrt, hra, hd]
  rfl

/-- An `mfspr` is no load. -/
theorem decodeLd_mfspr {w : U32} {rt : Fin 32} {n : Nat} (h : decode w = some (.mfspr rt n)) :
    decodeLd w = none := by
  obtain ⟨hop, -⟩ := Power.decode_eq_some.mp h
  rw [decodeLd, if_neg (by rw [hop]; omega)]

section SprgRun

variable {pc : U64} {w : U32} {rt : Fin 32} {n : Fin 4} {es : List SprgEvent}
  {xs : List Execution} {s : TrapState}

/-- The first execution traps: the target gets the SPRG, and the word is rewritten. -/
theorem guestStep_mfspr (h32 : s.frame.Problem32)
    (hi : decode s.isn = some (.mfspr rt (GuestSpr.sprg n).num)) :
    guestStep s = .ok (.none, { s with
      frame := { s.frame with
        gpr := Function.update s.frame.gpr rt ((s.guest.sprgAt n).setWidth 64)
        hsrr0 := s.frame.hsrr0 + 4 }
      mem := storeBytes s.mem s.frame.hsrr0 (le32Bytes (sprgIsn s.isn n)) }) := by
  rw [guestStep, decodeLd_mfspr hi]
  dsimp only
  rw [guestExcTry_eq h32, guestExcProg_mfspr hi, guestMfspr_sprg]
  rfl

/-- A later one loads the doubleword at 0. -/
theorem guestStep_sprgIsn (hi : s.isn = sprgIsn w n) :
    guestStep s = .ok (.none, { s with frame := { s.frame with
      gpr := Function.update s.frame.gpr (reg w 6) (Power.load s.mem 0)
      hsrr0 := s.frame.hsrr0 + 4 } }) := by
  rw [guestStep, hi, decodeLd_sprgIsn]
  rfl

/-- What a run keeps: each SPRG has the last value written to it, and the word is the rewritten one
from the first execution on. -/
structure SprgInv (pc : U64) (w : U32) (n : Fin 4) (es : List SprgEvent) (s : TrapState) :
    Prop where
  spr : ∀ i, s.guest.spr (.sprg i) = lastSprg es i
  before : ¬ Executed es → le32 s.mem pc = w
  after : Executed es → le32 s.mem pc = sprgIsn w n

/-- An execution leaves the SPRG in the target the first time, and the doubleword at 0 after that;
the word is the rewritten one from then on. -/
theorem SprgInv.mfspr {s' : TrapState} {frame : Eframe} (inv : SprgInv pc w n es s)
    (hi : decode w = some (.mfspr rt (GuestSpr.sprg n).num)) (h32 : frame.Problem32)
    (hpc : frame.hsrr0 = pc) (hs : guestStep { s with frame } = .ok (.none, s')) :
    s'.guest = s.guest ∧ le32 s'.mem pc = sprgIsn w n ∧
      (¬ Executed es → s'.frame.gpr rt = (lastSprg es n).setWidth 64) ∧
      (Executed es → s'.frame.gpr rt = Power.load s.mem 0) := by
  have hrt : reg w 6 = rt := (Power.decode_eq_some.mp hi).2.2.1
  by_cases hx : Executed es
  · have hisn : (TrapState.isn { s with frame }) = sprgIsn w n := by
      rw [TrapState.isn, hpc]
      exact inv.after hx
    rw [guestStep_sprgIsn hisn, hrt] at hs
    cases hs
    exact ⟨rfl, inv.after hx, fun hno => absurd hx hno, fun _ => Function.update_self ..⟩
  · have hisn : (TrapState.isn { s with frame }) = w := by
      rw [TrapState.isn, hpc]
      exact inv.before hx
    rw [guestStep_mfspr h32 (by rw [hisn]; exact hi)] at hs
    cases hs
    refine ⟨rfl, ?_, fun _ => ?_, fun hyes => absurd hyes hx⟩
    · rw [hisn]
      dsimp only
      rw [hpc]
      exact le32_storeBytes ..
    · rw [← inv.spr n]
      exact Function.update_self ..

theorem SprgRun.inv (h : SprgRun pc w rt es xs s)
    (hi : decode w = some (.mfspr rt (GuestSpr.sprg n).num)) : SprgInv pc w n es s := by
  induction h with
  | @init s ramSize ram hg hw =>
    refine ⟨fun i => ?_, fun _ => hw, fun ⟨frame, hmem⟩ => ?_⟩
    · rw [hg]
      exact guestOn_spr ramSize ram _
    · cases hmem
  | @mfspr es xs s s' frame hrun h32 hpc hs ih =>
    have hexec : Executed (es ++ [.mfspr frame]) := ⟨frame, List.mem_append_right _ (.head _)⟩
    obtain ⟨hguest, hword, -⟩ := ih.mfspr hi h32 hpc hs
    refine ⟨fun i => ?_, fun hno => absurd hexec hno, fun _ => hword⟩
    rw [hguest, ih.spr i]
    exact (lastSprg_concat es (.mfspr frame) i).symm
  | @mtspr es xs s s' i rs frame hrun hdec hs ih =>
    have hexec := executed_concat es (.mtspr i rs frame) nofun
    rw [← TrapState.isn.eq_def { s with frame }] at hdec
    have hp := guestExcTry_eq_ok hs
    rw [guestExcProg_mtspr hdec] at hp
    obtain ⟨g, hg, hp⟩ := bind_eq_ok.mp hp
    obtain ⟨r, hr, rfl⟩ := guestMtspr_eq_ok hg
    obtain rfl := GuestSpr.num_inj hr
    cases hp
    refine ⟨fun j => ?_, fun hno => ih.before (hexec.not.mp hno), fun hx => ih.after (hexec.mp hx)⟩
    rw [lastSprg_concat, ← ih.spr j, SprgEvent.wrote]
    refine (spr_setSpr s.guest (.sprg i) (.sprg j) ((frame.gpr rs).setWidth 32)).trans ?_
    by_cases hij : i = j
    · rw [if_pos (by rw [hij]), if_pos hij]
      rfl
    · rw [if_neg (fun e => hij (GuestSpr.sprg.inj e).symm), if_neg hij]
      rfl
  | @memory es xs s mem hrun hw ih =>
    have hexec := executed_concat es (.memory mem) nofun
    have hlast : ∀ i, lastSprg (es ++ [.memory mem]) i = lastSprg es i := fun i =>
      lastSprg_concat es _ i
    exact ⟨fun i => (ih.spr i).trans (hlast i).symm,
      fun hno => hw.trans (ih.before (hexec.not.mp hno)),
      fun hx => hw.trans (ih.after (hexec.mp hx))⟩

/-- An execution is right just when it fits. -/
theorem SprgRun.execution (h : SprgRun pc w rt es xs s)
    (hi : decode w = some (.mfspr rt (GuestSpr.sprg n).num)) :
    ∀ x ∈ xs, x.Right n ↔ x.Fits n := by
  induction h with
  | init => exact fun x hx => by cases hx
  | mtspr _ _ _ ih => exact ih
  | memory _ _ ih => exact ih
  | @mfspr es xs s s' frame hrun h32 hpc hs ih =>
    obtain ⟨-, -, hfirst, hlater⟩ := (hrun.inv hi).mfspr hi h32 hpc hs
    have hnew : s'.frame.gpr rt = (lastSprg es n).setWidth 64 ↔
        ¬ Executed es ∨ Power.load s.mem 0 = (lastSprg es n).setWidth 64 := by
      by_cases hx : Executed es
      · rw [hlater hx]
        exact ⟨Or.inr, fun h => h.resolve_left (not_not.mpr hx)⟩
      · exact ⟨fun _ => Or.inl hx, fun _ => hfirst hx⟩
    intro x hx
    rcases List.mem_append.mp hx with hx | hx
    · exact ih x hx
    · obtain rfl := List.mem_singleton.mp hx
      exact hnew

/-- **A rewritten `mfspr`.**  In any run every execution leaves the last value written to the SPRG
just when each after the first one finds that value as the doubleword at the guest's address 0; and
the words for any two SPRGs load from one address. -/
theorem SprgRun.right_iff (h : SprgRun pc w rt es xs s)
    (hi : decode w = some (.mfspr rt (GuestSpr.sprg n).num)) :
    ((∀ x ∈ xs, x.Right n) ↔ ∀ x ∈ xs, x.Fits n) ∧
    ∀ (w' : U32) (n' : Fin 4),
      decodeLd (sprgIsn w n) = some (.ld (reg w 6) 0 0) ∧
        decodeLd (sprgIsn w' n') = some (.ld (reg w' 6) 0 0) := by
  refine ⟨?_, fun w' n' => ⟨decodeLd_sprgIsn w n, decodeLd_sprgIsn w' n'⟩⟩
  exact forall₂_congr (h.execution hi)

end SprgRun

/-! ### `mfspr r4, SPRG0` twice -/

/-- `mfspr r4, SPRG0`. -/
def sprgWord : U32 := 0x7c9042a6

/-- A guest with the word at `0x1000`, and 1 in the doubleword at 0. -/
def sprgVm : TrapState where
  guest := guestOn 0x2000000 0x8000000040000000
  slb := fun _ => ⟨0, 0⟩
  rtc0 := 0
  frame := (sampleTrap 0).frame
  mem := storeBytes (storeBytes (fun _ => 0) 0 [1]) 0x1000 (le32Bytes sprgWord)

/-- Its memory after the first execution. -/
def sprgMem : Memory := storeBytes sprgVm.mem 0x1000 (le32Bytes (sprgIsn sprgWord 0))

theorem sprgWord_decode : decode sprgWord = some (.mfspr 4 (GuestSpr.sprg 0).num) := by decide

theorem sprgVm_run : ∃ s, SprgRun 0x1000 sprgWord 4 [.mfspr sprgVm.frame] [⟨[], 1, 0⟩] s ∧
    s.mem = sprgMem := by
  have hisn : sprgVm.isn = sprgWord := le32_storeBytes ..
  have h32 : sprgVm.frame.Problem32 := sampleTrap_problem32 sprgVm 0
  have hstep := guestStep_mfspr h32 (by rw [hisn]; exact sprgWord_decode)
  rw [hisn] at hstep
  have hguest : sprgVm.guest = guestOn 0x2000000 0x8000000040000000 := rfl
  have hinit : SprgRun 0x1000 sprgWord 4 [] [] sprgVm := .init hguest hisn
  have hrun := SprgRun.mfspr hinit h32 rfl hstep
  have hload : Power.load sprgVm.mem 0 = 1 := by decide
  rw [hload] at hrun
  exact ⟨_, hrun, rfl⟩

/-- The first execution is right. -/
theorem SprgRun.right_iff_sample : ∃ xs s,
    SprgRun 0x1000 sprgWord 4 [.mfspr sprgVm.frame] xs s ∧ ∀ x ∈ xs, x.Right 0 := by
  obtain ⟨s, hrun, -⟩ := sprgVm_run
  refine ⟨_, s, hrun, (SprgRun.right_iff hrun sprgWord_decode).1.mpr fun x hx => ?_⟩
  obtain rfl := List.mem_singleton.mp hx
  exact Or.inl fun ⟨_, h⟩ => by cases h

/-- The second loads the 1, and SPRG0 is 0. -/
theorem SprgRun.wrong : ¬ ∀ (pc : U64) (w : U32) (rt : Fin 32) (n : Fin 4)
    (es : List SprgEvent) (xs : List Execution) (s : TrapState), SprgRun pc w rt es xs s →
    decode w = some (.mfspr rt (GuestSpr.sprg n).num) → ∀ x ∈ xs, x.Right n := by
  intro h
  obtain ⟨s, hrun, hmem⟩ := sprgVm_run
  have h32 : sprgVm.frame.Problem32 := sampleTrap_problem32 sprgVm 0
  have hisn : (TrapState.isn { s with frame := sprgVm.frame }) = sprgIsn sprgWord (0 : Fin 4) := by
    rw [TrapState.isn, hmem]
    exact le32_storeBytes ..
  have hrun₂ := SprgRun.mfspr hrun h32 rfl (guestStep_sprgIsn hisn)
  have hright := h _ _ _ _ _ _ _ hrun₂ sprgWord_decode _
    (List.mem_append_right _ (List.mem_singleton.mpr rfl))
  have hleft : Power.load s.mem 0 = 1 := by
    rw [hmem]
    decide
  dsimp only [Execution.Right] at hright
  rw [hleft] at hright
  revert hright
  decide

end Prephv
