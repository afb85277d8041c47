import Prephv.Guest.Trap

/-!
# Guest — Sprs

The special registers that `guest_exc_try` keeps for the guest.  A `TrapRun` is any sequence of
traps that it emulates; between two of them the guest may have changed its general registers, its PC
and its memory at will.  After every run each register holds what was last written to it
(`TrapRun.spr`), whatever else the run did.
-/

set_option autoImplicit false

namespace Prephv

open Power (Insn decode)

/-! ### Registers -/

/-- The special registers that can be written: `bat` goes through the IBATs and then the DBATs. -/
inductive GuestSpr where
  | srr0 | srr1 | bat (i : Fin 16) | sprg (i : Fin 4) | sdr1 | hid0
  deriving DecidableEq, Repr

/-- `SPRN_*`. -/
def GuestSpr.num : GuestSpr → Nat
  | .srr0 => sprnSrr0
  | .srr1 => sprnSrr1
  | .bat i => sprnIbat0u + i
  | .sprg i => sprnSprg0 + i
  | .sdr1 => sprnSdr1
  | .hid0 => 1008

/-- What the guest structure holds for it. -/
def Guest.spr (g : Guest) : GuestSpr → U32
  | .srr0 => g.srr0
  | .srr1 => g.srr1
  | .bat i => g.batAt i
  | .sprg i => g.sprgAt i
  | .sdr1 => g.sdr1
  | .hid0 => g.hid0

/-- The guest structure with another value for it. -/
def Guest.setSpr (g : Guest) (r : GuestSpr) (v : U32) : Guest :=
  match r with
  | .srr0 => { g with srr0 := v }
  | .srr1 => { g with srr1 := v }
  | .bat i => g.setBat i v
  | .sprg i => g.setSprg i v
  | .sdr1 => { g with sdr1 := v }
  | .hid0 => { g with hid0 := v }

theorem GuestSpr.num_inj {r r' : GuestSpr} (h : r.num = r'.num) : r = r' := by
  cases r <;> cases r' <;>
    dsimp only [GuestSpr.num, sprnSrr0, sprnSrr1, sprnIbat0u, sprnSprg0, sprnSdr1] at h <;> first
    | rfl
    | exact congrArg _ (Fin.ext (Nat.add_left_cancel h))
    | omega

theorem batAt_setBat (g : Guest) (i j : Fin 16) (v : U32) :
    (g.setBat i v).batAt j = if j = i then v else g.batAt j := by
  unfold Guest.setBat Guest.batAt
  split
  all_goals
    simp only [Vector.getElem?_append, Vector.getElem?_setIfInBounds]
    grind

theorem sprgAt_setSprg (g : Guest) (i j : Fin 4) (v : U32) :
    (g.setSprg i v).sprgAt j = if j = i then v else g.sprgAt j := by
  unfold Guest.setSprg Guest.sprgAt
  simp only [Vector.getElem?_setIfInBounds]
  grind

/-- A BAT that is written leaves the rest of the structure alone. -/
theorem setBat_eq (g : Guest) (i : Nat) (v : U32) :
    ∃ ibat dbat, g.setBat i v = { g with ibat, dbat } := by
  unfold Guest.setBat
  split
  · exact ⟨_, g.dbat, rfl⟩
  · exact ⟨g.ibat, _, rfl⟩

/-- The registers are independent. -/
theorem spr_setSpr (g : Guest) (r r' : GuestSpr) (v : U32) :
    (g.setSpr r v).spr r' = if r' = r then v else g.spr r' := by
  cases r with
  | srr0 => cases r' <;> rfl
  | srr1 => cases r' <;> rfl
  | bat i =>
    obtain ⟨ibat, dbat, hset⟩ := setBat_eq g i v
    cases r' with
    | bat j => simpa only [Guest.setSpr, Guest.spr, GuestSpr.bat.injEq] using batAt_setBat g i j v
    | srr0 | srr1 | sdr1 | hid0 | sprg j =>
      rw [if_neg (fun e => by cases e), Guest.setSpr, hset]
      rfl
  | sprg i =>
    cases r' with
    | sprg j =>
      simpa only [Guest.setSpr, Guest.spr, GuestSpr.sprg.injEq] using sprgAt_setSprg g i j v
    | srr0 | srr1 | sdr1 | hid0 | bat j => rfl
  | sdr1 => cases r' <;> rfl
  | hid0 => cases r' <;> rfl

/-- What is no special register that can be written. -/
theorem setSpr_frame (g : Guest) (r : GuestSpr) (v : U32) :
    (g.setSpr r v).msr = g.msr ∧ (g.setSpr r v).sr = g.sr ∧ (g.setSpr r v).pvr = g.pvr := by
  cases r with
  | bat i =>
    obtain ⟨ibat, dbat, hset⟩ := setBat_eq g i v
    rw [Guest.setSpr, hset]
    exact ⟨rfl, rfl, rfl⟩
  | srr0 | srr1 | sprg i | sdr1 | hid0 => exact ⟨rfl, rfl, rfl⟩

/-! ### `mtspr` and `mfspr` -/

/-- A number between the first and the last of `n` consecutive ones. -/
theorem exists_fin_of_le {lo hi n x : Nat} (hn : hi + 1 = lo + n) (h : lo ≤ x ∧ x ≤ hi) :
    ∃ i : Fin n, x = lo + i ∧ x - lo = i :=
  ⟨⟨x - lo, by omega⟩, by simp only []; omega, rfl⟩

/-- An `mtspr` that does not halt writes the register with that number. -/
theorem guestMtspr_eq_ok {g g' : Guest} {spr : Nat} {v : U32} (h : guestMtspr g spr v = .ok g') :
    ∃ r : GuestSpr, r.num = spr ∧ g' = g.setSpr r v := by
  unfold guestMtspr at h
  split at h
  · next e => cases h; exact ⟨.srr0, e.symm, rfl⟩
  split at h
  · next e => cases h; exact ⟨.srr1, e.symm, rfl⟩
  split at h
  · next e =>
    obtain ⟨i, hnum, hi⟩ := exists_fin_of_le (n := 16) rfl e
    obtain ⟨-, -, h⟩ := bind_eq_ok.mp h
    refine ⟨.bat i, hnum.symm, ?_⟩
    rw [← Except.ok.inj h, hi]
    rfl
  split at h
  · next e =>
    obtain ⟨i, hnum, hi⟩ := exists_fin_of_le (n := 4) rfl e
    obtain ⟨-, -, h⟩ := bind_eq_ok.mp h
    refine ⟨.sprg i, hnum.symm, ?_⟩
    rw [← Except.ok.inj h, hi]
    rfl
  split at h
  · next e =>
    obtain ⟨-, -, h⟩ := bind_eq_ok.mp h
    cases h
    exact ⟨.sdr1, e.symm, rfl⟩
  split at h
  · next e => cases h; exact ⟨.hid0, e.symm, rfl⟩
  · cases h

theorem setR_val (s : TrapState) (rt : Fin 32) (v : U32) : s.setR rt v = s.setGpr rt v := by
  rw [TrapState.setR, Fin.ofNat_val_eq_self]

/-- An `mfspr` of an SPRG reads it, and rewrites its own word. -/
theorem guestMfspr_sprg (s : TrapState) (rt : Fin 32) (i : Fin 4) :
    guestMfspr s rt (GuestSpr.sprg i).num =
      { s.setGpr rt (s.guest.sprgAt i) with
        mem := storeBytes s.mem s.frame.hsrr0 (le32Bytes (sprgIsn s.isn i)) } := by
  have hi := i.isLt
  have hsrr : sprnSprg0 + i.val ≠ sprnSrr0 ∧ sprnSprg0 + i.val ≠ sprnSrr1 := by
    simp only [sprnSprg0, sprnSrr0, sprnSrr1]
    omega
  have hpvr : sprnSprg0 + i.val ≠ sprnPvr := by
    simp only [sprnSprg0, sprnPvr]
    omega
  have hbat : ¬ (sprnIbat0u ≤ sprnSprg0 + i.val ∧ sprnSprg0 + i.val ≤ sprnDbat3l) := by
    simp only [sprnSprg0, sprnIbat0u]
    omega
  have hle : sprnSprg0 ≤ sprnSprg0 + i.val ∧ sprnSprg0 + i.val ≤ sprnSprg3 := by
    simp only [sprnSprg0, sprnSprg3]
    omega
  rw [GuestSpr.num, guestMfspr, if_neg hsrr.1, if_neg hsrr.2, if_neg hpvr, if_neg hbat, if_pos hle,
    setR_val, Nat.add_sub_cancel_left]
  rfl

/-- An `mfspr` reads the register with that number; of memory it changes its own word at most. -/
theorem guestMfspr_num (s : TrapState) (rt : Fin 32) (r : GuestSpr) :
    ∃ mem, guestMfspr s rt r.num = { s.setGpr rt (s.guest.spr r) with mem } := by
  cases r with
  | srr0 => exact ⟨s.mem, setR_val s rt s.guest.srr0⟩
  | srr1 => exact ⟨s.mem, setR_val s rt s.guest.srr1⟩
  | bat i =>
    have hi := i.isLt
    have hsrr : sprnIbat0u + i.val ≠ sprnSrr0 ∧ sprnIbat0u + i.val ≠ sprnSrr1 := by
      simp only [sprnIbat0u, sprnSrr0, sprnSrr1]
      omega
    have hpvr : sprnIbat0u + i.val ≠ sprnPvr := by
      simp only [sprnIbat0u, sprnPvr]
      omega
    have hle : sprnIbat0u ≤ sprnIbat0u + i.val ∧ sprnIbat0u + i.val ≤ sprnDbat3l := by
      simp only [sprnIbat0u, sprnDbat3l]
      omega
    refine ⟨s.mem, ?_⟩
    rw [GuestSpr.num, guestMfspr, if_neg hsrr.1, if_neg hsrr.2, if_neg hpvr, if_pos hle, setR_val,
      Nat.add_sub_cancel_left]
    rfl
  | sprg i => exact ⟨_, guestMfspr_sprg s rt i⟩
  | sdr1 => exact ⟨s.mem, setR_val s rt s.guest.sdr1⟩
  | hid0 => exact ⟨s.mem, setR_val s rt s.guest.hid0⟩

/-- The same guest at the same PC, and the same general registers but one. -/
def TrapState.SameBut (s t : TrapState) (rt : Fin 32) : Prop :=
  t.guest = s.guest ∧ t.frame.hsrr0 = s.frame.hsrr0 ∧
    ∀ x, x ≠ rt → t.frame.gpr x = s.frame.gpr x

/-- An `mfspr`, of any register, changes the guest's general registers only, and of them its target
only. -/
theorem guestMfspr_sameBut (s : TrapState) (rt : Fin 32) (spr : Nat) :
    s.SameBut (guestMfspr s rt spr) rt := by
  have hset : ∀ v, s.SameBut (s.setR rt v) rt := by
    intro v
    rw [setR_val]
    exact ⟨rfl, rfl, fun x hx => Function.update_of_ne hx ..⟩
  have hite : ∀ (c : Prop) [Decidable c] {t e : TrapState}, s.SameBut t rt → s.SameBut e rt →
      s.SameBut (if c then t else e) rt := by
    intro c _ t e ht he
    by_cases hc : c
    · rwa [if_pos hc]
    · rwa [if_neg hc]
  have hrest : s.SameBut s rt := ⟨rfl, rfl, fun _ _ => rfl⟩
  exact hite _ (hset _) <| hite _ (hset _) <| hite _ (hset _) <| hite _ (hset _) <|
    hite _ (hset (s.guest.sprgAt (spr - sprnSprg0))) <| hite _ (hset _) <| hite _ (hset s.rtc0) <|
    hite _ (hset _) <| hite _ (hset _) hrest

/-! ### Runs -/

/-- What the guest has in its registers and in memory when it traps. -/
structure Trap where
  frame : Eframe
  mem : Memory

/-- The state in which the hypervisor takes the trap. -/
def TrapState.at (s : TrapState) (t : Trap) : TrapState := { s with frame := t.frame, mem := t.mem }

/-- The instruction that traps. -/
def Trap.insn (t : Trap) : Option Insn := decode (le32 t.mem t.frame.hsrr0)

theorem decode_isn_at (s : TrapState) (t : Trap) : decode (s.at t).isn = t.insn := rfl

/-- Traps from `s₀` on, each of which is emulated. -/
inductive TrapRun (s₀ : TrapState) : List Trap → TrapState → Prop where
  | nil : TrapRun s₀ [] s₀
  | trap {ts : List Trap} {s s' : TrapState} {t : Trap} (h : TrapRun s₀ ts s)
      (ht : guestExcTry (s.at t) = .ok (.none, s')) : TrapRun s₀ (ts ++ [t]) s'

/-- What the trap writes to the register. -/
def Trap.wrote (t : Trap) (r : GuestSpr) : Option U32 :=
  match t.insn with
  | some (.mtspr n rs) => if n = r.num then some ((t.frame.gpr rs).setWidth 32) else none
  | _ => none

/-- The last value written to the register, 0 when there is none. -/
def lastWritten (ts : List Trap) (r : GuestSpr) : U32 :=
  (ts.reverse.findSome? fun t => t.wrote r).getD 0

theorem lastWritten_concat (ts : List Trap) (t : Trap) (r : GuestSpr) :
    lastWritten (ts ++ [t]) r = (t.wrote r).getD (lastWritten ts r) := by
  unfold lastWritten
  rw [List.reverse_append, List.reverse_singleton, List.singleton_append, List.findSome?_cons]
  cases t.wrote r <;> rfl

/-- The MSR after the traps, the last of them first: what the last `mtmsr` or `rfi` put there. -/
def lastMsr : List Trap → U32
  | [] => msrIrDr
  | t :: ts =>
    match t.insn with
    | some (.mtmsr rs) => (t.frame.gpr rs).setWidth 32
    | some .rfi => lastWritten ts.reverse .srr1
    | _ => lastMsr ts

/-- What a `guestUpdateMsr` leaves of the special registers. -/
theorem spr_withMsr (g : Guest) (v : U32) (r : GuestSpr) : { g with msr := v }.spr r = g.spr r := by
  cases r <;> rfl

/-- What one trap does to the guest structure. -/
theorem guestExcProg_guest {s s' : TrapState} {err : Err} (h : guestExcProg s = .ok (err, s')) :
    match decode s.isn with
    | some (.mtspr n rs) =>
      ∃ r : GuestSpr, r.num = n ∧ s'.guest = s.guest.setSpr r ((s.frame.gpr rs).setWidth 32)
    | some (.mtmsr rs) => s'.guest = { s.guest with msr := (s.frame.gpr rs).setWidth 32 }
    | some .rfi => s'.guest = { s.guest with msr := s.guest.srr1 }
    | _ => s'.guest = s.guest := by
  have hcnt : (guestCntlzw s s.isn).next.guest = s.guest := by
    dsimp only [guestCntlzw]
    split <;> rfl
  cases hdec : decode s.isn with
  | none =>
    rw [guestExcProg_rest (by rw [hdec]; rintro i ⟨⟩)] at h
    split at h <;> cases h
    · exact hcnt
    · rfl
  | some i =>
    cases i with
    | mfsr rt sr => rw [guestExcProg_mfsr hdec] at h; cases h; rfl
    | mfmsr rt => rw [guestExcProg_mfmsr hdec] at h; cases h; rfl
    | mtmsr rs =>
      rw [guestExcProg_mtmsr hdec] at h
      obtain ⟨⟨g, slb⟩, hg, h⟩ := bind_eq_ok.mp h
      cases h
      exact guestUpdateMsr_guest hg
    | mtspr n rs =>
      rw [guestExcProg_mtspr hdec] at h
      obtain ⟨g, hg, h⟩ := bind_eq_ok.mp h
      cases h
      exact guestMtspr_eq_ok hg
    | mfspr rt n =>
      rw [guestExcProg_mfspr hdec] at h
      cases h
      exact (guestMfspr_sameBut s rt n).1
    | rfi =>
      rw [guestExcProg_rfi hdec] at h
      obtain ⟨⟨g, slb⟩, hg, h⟩ := bind_eq_ok.mp h
      cases h
      exact guestUpdateMsr_guest hg
    | cntlzw ra rs rc =>
      rw [guestExcProg_rest (by rw [hdec]; rintro i ⟨⟩; exact ⟨_, _, _, rfl⟩)] at h
      split at h <;> cases h
      · exact hcnt
      · rfl

section Run

variable {s₀ s s' : TrapState} {ts : List Trap} {t : Trap} {ramSize ram : U64}

/-- `guest_init` clears them. -/
theorem guestOn_spr (ramSize ram : U64) (r : GuestSpr) : (guestOn ramSize ram).spr r = 0 := by
  cases r with
  | bat i =>
    have hzero : ∀ i : Fin 16,
        ((Vector.replicate 8 (0 : U32) ++ Vector.replicate 8 (0 : U32))[i.val]?).getD 0 = 0 := by
      decide
    exact hzero i
  | sprg i =>
    have hzero : ∀ i : Fin 4, ((Vector.replicate 4 (0 : U32))[i.val]?).getD 0 = 0 := by decide
    exact hzero i
  | srr0 | srr1 | sdr1 | hid0 => rfl

/-- What a trap leaves in a special register: what it wrote, if it wrote it. -/
theorem guestExcTry_spr (ht : guestExcTry (s.at t) = .ok (.none, s')) (r : GuestSpr) :
    s'.guest.spr r = (t.wrote r).getD (s.guest.spr r) := by
  have hg := guestExcProg_guest (guestExcTry_eq_ok ht)
  rw [decode_isn_at] at hg
  unfold Trap.wrote
  revert hg
  cases t.insn with
  | none => intro hg; rw [hg]; rfl
  | some i =>
    cases i with
    | mtspr n rs =>
      rintro ⟨r', rfl, hg⟩
      rw [hg, spr_setSpr]
      by_cases hr : r = r'
      · subst hr
        simp only [if_true]
        rfl
      · simp only [if_neg hr, if_neg fun e => hr (GuestSpr.num_inj e).symm]
        rfl
    | mtmsr rs => intro hg; rw [hg]; exact spr_withMsr s.guest _ r
    | rfi => intro hg; rw [hg]; exact spr_withMsr s.guest _ r
    | mfsr _ _ | mfmsr _ | mfspr _ _ | cntlzw _ _ _ => intro hg; rw [hg]; rfl

/-- What a trap leaves in the MSR. -/
theorem guestExcTry_msr (ht : guestExcTry (s.at t) = .ok (.none, s')) :
    s'.guest.msr = (match t.insn with
      | some (.mtmsr rs) => (t.frame.gpr rs).setWidth 32
      | some .rfi => s.guest.srr1
      | _ => s.guest.msr) ∧ s'.guest.sr = s.guest.sr := by
  have hg := guestExcProg_guest (guestExcTry_eq_ok ht)
  rw [decode_isn_at] at hg
  revert hg
  cases t.insn with
  | none => intro hg; rw [hg]; exact ⟨rfl, rfl⟩
  | some i =>
    cases i with
    | mtspr n rs =>
      rintro ⟨r', rfl, hg⟩
      obtain ⟨hmsr, hsr, -⟩ := setSpr_frame s.guest r' ((t.frame.gpr rs).setWidth 32)
      rw [hg]
      exact ⟨hmsr, hsr⟩
    | mtmsr rs => intro hg; rw [hg]; exact ⟨rfl, rfl⟩
    | rfi => intro hg; rw [hg]; exact ⟨rfl, rfl⟩
    | mfsr _ _ | mfmsr _ | mfspr _ _ | cntlzw _ _ _ => intro hg; rw [hg]; exact ⟨rfl, rfl⟩

/-- After every run each special register holds the last value written to it. -/
theorem TrapRun.spr (h : TrapRun s₀ ts s) (h₀ : s₀.guest = guestOn ramSize ram) (r : GuestSpr) :
    s.guest.spr r = lastWritten ts r := by
  induction h with
  | nil =>
    rw [h₀]
    exact guestOn_spr ramSize ram r
  | trap _ ht ih => rw [guestExcTry_spr ht, lastWritten_concat, ih]

/-- After every run the MSR is what the last `mtmsr` or `rfi` put there, and the segment registers
are as at the start. -/
theorem TrapRun.msr (h : TrapRun s₀ ts s) (h₀ : s₀.guest = guestOn ramSize ram) :
    s.guest.msr = lastMsr ts.reverse ∧ s.guest.sr = (guestOn ramSize ram).sr := by
  induction h with
  | nil =>
    rw [h₀]
    exact ⟨rfl, rfl⟩
  | @trap ts s s' t hrun ht ih =>
    obtain ⟨hmsr, hsr⟩ := guestExcTry_msr ht
    refine ⟨?_, hsr.trans ih.2⟩
    rw [hmsr, List.reverse_append, List.reverse_singleton, List.singleton_append, lastMsr,
      List.reverse_reverse, ← hrun.spr h₀ .srr1, ih.1]
    rfl

/-- A trapped instruction other than `rfi` goes on behind itself. -/
theorem guestExcProg_hsrr0 {s s' : TrapState} {i : Insn} (hi : decode s.isn = some i)
    (hne : i ≠ .rfi) (h : guestExcProg s = .ok (.none, s')) :
    s'.frame.hsrr0 = s.frame.hsrr0 + 4 := by
  cases i with
  | mfsr rt sr => rw [guestExcProg_mfsr hi] at h; cases h; rfl
  | mfmsr rt => rw [guestExcProg_mfmsr hi] at h; cases h; rfl
  | mtmsr rs =>
    rw [guestExcProg_mtmsr hi] at h
    obtain ⟨⟨g, slb⟩, -, h⟩ := bind_eq_ok.mp h
    cases h
    rfl
  | mtspr n rs =>
    rw [guestExcProg_mtspr hi] at h
    obtain ⟨g, -, h⟩ := bind_eq_ok.mp h
    cases h
    rfl
  | mfspr rt n =>
    rw [guestExcProg_mfspr hi] at h
    cases h
    exact congrArg (· + 4) (guestMfspr_sameBut s rt n).2.1
  | rfi => exact absurd rfl hne
  | cntlzw ra rs rc =>
    have hop := (Power.decode_eq_some.mp hi).1
    rw [guestExcProg_rest (by rw [hi]; rintro i ⟨⟩; exact ⟨_, _, _, rfl⟩), if_pos hop,
      guestCntlzw_eq s hop] at h
    cases h
    rfl

/-- **The emulated registers are independent.**  Whatever traps came before, an `mfspr` puts the
last value written to its register into its target and changes no other general register; an `mtspr`
changes no other special register, nor the MSR or a segment register; and the guest goes on behind
the instruction, after an `rfi` at SRR0 with SRR1 for its MSR. -/
theorem TrapRun.emulates (h₀ : s₀.guest = guestOn ramSize ram) (h : TrapRun s₀ ts s)
    (ht : guestExcTry (s.at t) = .ok (.none, s')) :
    (∀ rt r, t.insn = some (.mfspr rt (GuestSpr.num r)) →
      s'.frame.gpr = Function.update t.frame.gpr rt ((lastWritten ts r).setWidth 64)) ∧
    (∀ n rs, t.insn = some (.mtspr n rs) →
      (∀ r : GuestSpr, r.num ≠ n → s'.guest.spr r = s.guest.spr r) ∧
        s'.guest.pvr = s.guest.pvr ∧ s'.rtc0 = s.rtc0 ∧ s'.guest.msr = s.guest.msr ∧
        s'.guest.sr = s.guest.sr ∧ s'.frame.gpr = t.frame.gpr) ∧
    (∀ rt, t.insn = some (.mfmsr rt) →
      s'.frame.gpr = Function.update t.frame.gpr rt ((lastMsr ts.reverse).setWidth 64)) ∧
    (∀ rt i, t.insn = some (.mfsr rt i) →
      s'.frame.gpr = Function.update t.frame.gpr rt (BitVec.ofNat 64 i)) ∧
    (∀ i, t.insn = some i → i ≠ .rfi → s'.frame.hsrr0 = t.frame.hsrr0 + 4) ∧
    (t.insn = some .rfi → s'.frame.hsrr0 = (lastWritten ts .srr0).setWidth 64 ∧
      s'.guest.msr = lastWritten ts .srr1) := by
  have hp := guestExcTry_eq_ok ht
  have hat : ∀ {i}, t.insn = some i → decode (s.at t).isn = some i := (decode_isn_at s t).trans
  have hspr := h.spr h₀
  obtain ⟨hmsr, hsr⟩ := h.msr h₀
  refine ⟨?_, ?_, ?_, ?_, fun i hi hne => guestExcProg_hsrr0 (hat hi) hne hp, ?_⟩
  · intro rt r hi
    rw [guestExcProg_mfspr (hat hi)] at hp
    obtain ⟨mem, hmf⟩ := guestMfspr_num (s.at t) rt r
    rw [hmf] at hp
    cases hp
    rw [← hspr r]
    rfl
  · intro n rs hi
    have hg := guestExcProg_guest hp
    rw [hat hi] at hg
    obtain ⟨r, rfl, hg⟩ := hg
    obtain ⟨hm, hs, hpvr⟩ := setSpr_frame (s.at t).guest r ((t.frame.gpr rs).setWidth 32)
    have hsame : s'.rtc0 = s.rtc0 ∧ s'.frame.gpr = t.frame.gpr := by
      rw [guestExcProg_mtspr (hat hi)] at hp
      obtain ⟨g, -, hp⟩ := bind_eq_ok.mp hp
      cases hp
      exact ⟨rfl, rfl⟩
    refine ⟨fun r' hr' => ?_, ?_, hsame.1, ?_, ?_, hsame.2⟩
    · rw [hg, spr_setSpr, if_neg fun e => hr' (by rw [e])]
      rfl
    · rw [hg]
      exact hpvr
    · rw [hg]
      exact hm
    · rw [hg]
      exact hs
  · intro rt hi
    rw [guestExcProg_mfmsr (hat hi)] at hp
    cases hp
    rw [← hmsr]
    rfl
  · intro rt i hi
    have hlt : i < srCount := by
      obtain ⟨-, -, -, rfl⟩ := Power.decode_eq_some.mp hi
      exact Power.field_lt _ 12 15
    have hval : s.guest.srAt i = BitVec.ofNat 32 i := by
      rw [Guest.srAt, hsr]
      exact guestOn_srAt ramSize ram i hlt
    rw [guestExcProg_mfsr (hat hi)] at hp
    cases hp
    have hword : (BitVec.ofNat 32 i).setWidth 64 = BitVec.ofNat 64 i := by
      apply BitVec.eq_of_toNat_eq
      have hlt' : i < 16 := hlt
      rw [BitVec.toNat_setWidth, BitVec.toNat_ofNat, BitVec.toNat_ofNat]
      omega
    rw [← hword, ← hval]
    rfl
  · intro hi
    rw [guestExcProg_rfi (hat hi)] at hp
    obtain ⟨⟨g, slb⟩, hg, hp⟩ := bind_eq_ok.mp hp
    obtain rfl := guestUpdateMsr_guest hg
    cases hp
    rw [← hspr .srr0, ← hspr .srr1]
    exact ⟨rfl, rfl⟩

end Run

/-! ### A write and a read -/

/-- A trap at `0x1000` in a 32-bit program with 5 in r3, with more above its low word. -/
def sampleTrap (w : U32) : Trap where
  frame := ⟨fun x => if x = 3 then 0x100000005 else 0, 0, 0x1000, msrPr⟩
  mem := storeBytes (fun _ => 0) 0x1000 (le32Bytes w)

/-- A guest of 32 MiB, as `guest_init` leaves it. -/
def sampleVm : TrapState where
  guest := guestOn 0x2000000 0x8000000040000000
  slb := fun _ => ⟨0, 0⟩
  rtc0 := 0
  frame := (sampleTrap 0).frame
  mem := (sampleTrap 0).mem

theorem sampleTrap_isn (s : TrapState) (w : U32) : (s.at (sampleTrap w)).isn = w :=
  le32_storeBytes ..

theorem sampleTrap_problem32 (s : TrapState) (w : U32) :
    (s.at (sampleTrap w)).frame.Problem32 := by
  have h : (sampleTrap 0).frame.Problem32 := by decide
  exact h

/-- `mtspr SRR0, r3` and then `mfspr r4, SRR0`. -/
theorem TrapRun.emulates_sample : ∃ s s', TrapRun sampleVm [sampleTrap 0x7c7a03a6] s ∧
    guestExcTry (s.at (sampleTrap 0x7c9a02a6)) = .ok (.none, s') ∧
    s'.frame.gpr = Function.update (sampleTrap 0).frame.gpr 4
      ((lastWritten [sampleTrap 0x7c7a03a6] .srr0).setWidth 64) := by
  have hmt : ∀ s : TrapState, decode (s.at (sampleTrap 0x7c7a03a6)).isn = some (.mtspr 26 3) := by
    intro s
    rw [sampleTrap_isn]
    decide
  have hmf : ∀ s : TrapState, decode (s.at (sampleTrap 0x7c9a02a6)).isn = some (.mfspr 4 26) := by
    intro s
    rw [sampleTrap_isn]
    decide
  have hwrite : ∃ s, guestExcTry (sampleVm.at (sampleTrap 0x7c7a03a6)) = .ok (.none, s) := by
    rw [guestExcTry_eq (sampleTrap_problem32 _ _), guestExcProg_mtspr (hmt _)]
    exact ⟨_, rfl⟩
  obtain ⟨s, hs⟩ := hwrite
  have hread : ∃ s', guestExcTry (s.at (sampleTrap 0x7c9a02a6)) = .ok (.none, s') := by
    rw [guestExcTry_eq (sampleTrap_problem32 _ _), guestExcProg_mfspr (hmf _)]
    exact ⟨_, rfl⟩
  obtain ⟨s', hs'⟩ := hread
  have hrun : TrapRun sampleVm [sampleTrap 0x7c7a03a6] s := .trap .nil hs
  refine ⟨s, s', hrun, hs', ?_⟩
  have hguest : sampleVm.guest = guestOn 0x2000000 0x8000000040000000 := rfl
  exact (TrapRun.emulates hguest hrun hs').1
    4 .srr0 ((decode_isn_at s _).symm.trans (hmf s))

end Prephv
