import Prephv.Mmu.Room

/-!
# Guest — Segments

The SLB over runs of MSR changes and segment faults (`VmState.Reachable.segments`): no address is
matched by two entries, the guest's entries are those of its MMU mode, the hypervisor's do not
change, and a guest segment fault is always resolved.

The invariant `VmState.Inv` says which entries can be valid, as the words the code writes: slot 2
holds `grmEntry` with the guest MMU off, and slot `3 + k` may hold `srEntry guest k` with it on.  A
switch invalidates the entries of the mode it leaves, because each is an ESID and a size
that the switch names; a fault fills the slot of a segment whose slot is empty.
-/

set_option autoImplicit false

namespace Prephv

open Words

/-! ### The entries -/

theorem srEsid : ∀ k < srCount,
    ((BitVec.ofNat 64 k <<< 28 ||| slbEsidV) &&& slbEsidV ≠ 0) ∧
      (BitVec.ofNat 64 k <<< 28 ||| slbEsidV) >>> 28 = BitVec.ofNat 64 k := by
  decide

theorem slbieOperand_sr : ∀ k < srCount,
    SlbEntry.slbieSeg (slbieOperand (srIndexToEa k) .seg256M) = .seg256M ∧
      slbieOperand (srIndexToEa k) .seg256M >>> 28 = BitVec.ofNat 64 k := by
  decide

section
variable {guest : Guest} {k : Nat}

/-- The VSID word of a guest segment. -/
theorem slbMakeVsid_256M_toNat {v : U64} (hv : v.toNat < 2 ^ 24) :
    (slbMakeVsid v .seg256M .page4K).toNat = v.toNat * 2 ^ 12 + 1024 := by
  have hshift : (v <<< 12).toNat = v.toNat * 2 ^ 12 := by
    rw [BitVec.toNat_shiftLeft, Nat.shiftLeft_eq]
    omega
  have hword : slbMakeVsid v .seg256M .page4K = 1024#64 ||| (v <<< 12) := by
    show (1024#64 ||| (v <<< 12)) ||| 0#64 = _
    exact BitVec.or_zero
  rw [hword, or_toNat (k := 12) (by decide) (by rw [hshift]; exact Dvd.intro_left _ rfl), hshift]
  rfl

variable (guest k) in
theorem srVsid_lt : ((guest.srAt k &&& srVsidMask).setWidth 64).toNat < 2 ^ 24 := by
  have hmask : srVsidMask = lowMask 32 24 := rfl
  rw [hmask, BitVec.toNat_setWidth, and_lowMask _ (by decide)]
  omega

theorem srEntry_seg : (srEntry guest k).seg = .seg256M := by
  have hw := slbMakeVsid_256M_toNat (srVsid_lt guest k)
  have hlt := srVsid_lt guest k
  rw [SlbEntry.seg, if_neg]
  intro h
  have h' := congrArg BitVec.toNat h
  rw [srEntry, BitVec.toNat_ushiftRight, Nat.shiftRight_eq_div_pow, hw] at h'
  have : (1 : U64).toNat = 1 := rfl
  omega

theorem srEntry_valid (hk : k < srCount) : (srEntry guest k).valid = true := by
  simpa [SlbEntry.valid, srEntry] using (srEsid k hk).1

theorem srEntry_esidVal (hk : k < srCount) : (srEntry guest k).esidVal = BitVec.ofNat 64 k := by
  rw [SlbEntry.esidVal, srEntry_seg]
  exact (srEsid k hk).2

theorem srEntry_vsidVal :
    (srEntry guest k).vsidVal = (guest.srAt k &&& srVsidMask).setWidth 64 := by
  have hlt := srVsid_lt guest k
  have hw := slbMakeVsid_256M_toNat hlt
  apply BitVec.eq_of_toNat_eq
  rw [SlbEntry.vsidVal, srEntry_seg]
  dsimp only
  rw [and_lowMask _ (by decide), BitVec.toNat_ushiftRight, Nat.shiftRight_eq_div_pow, srEntry, hw,
    slbVsidShift256MB]
  omega

end

/-! ### Invalidation -/

theorem SlbEntry.clear_valid (e : SlbEntry) : e.clear.valid = false := by
  have hz : ~~~slbEsidV &&& slbEsidV = 0#64 := by decide
  simp [SlbEntry.clear, SlbEntry.valid, BitVec.and_assoc, hz]

theorem SlbEntry.slbie_valid_of_not {e : SlbEntry} (h : e.valid = false) (rb : U64) :
    (e.slbie rb).valid = false := by
  unfold SlbEntry.slbie
  split
  · exact e.clear_valid
  · exact h

/-- An entry survives an `slbie` as it is, or becomes invalid. -/
theorem SlbEntry.slbie_eq_or (e : SlbEntry) (rb : U64) :
    e.slbie rb = e ∨ (e.slbie rb).valid = false := by
  unfold SlbEntry.slbie
  split
  · exact Or.inr e.clear_valid
  · exact Or.inl rfl

/-- The entry in a slot after the loop of `mmu_guest_update`: each segment's `slbie` in turn. -/
theorem invalidate_foldl (l : List Nat) (slb : Slb) (i : Nat) :
    l.foldl (fun slb k => slbInvalidate slb (srIndexToEa k) .seg256M) slb i =
      l.foldl (fun e k => e.slbie (slbieOperand (srIndexToEa k) .seg256M)) (slb i) := by
  induction l generalizing slb with
  | nil => rfl
  | cons k l ih => exact ih _

theorem foldl_slbie_of_not (l : List Nat) (f : Nat → U64) {e : SlbEntry} (h : e.valid = false) :
    (l.foldl (fun e k => e.slbie (f k)) e).valid = false := by
  induction l generalizing e with
  | nil => exact h
  | cons k l ih => exact ih (SlbEntry.slbie_valid_of_not h _)

/-- An entry no operand names survives the loop as it is. -/
theorem foldl_slbie_unnamed {l : List Nat} {f : Nat → U64} {e : SlbEntry}
    (h : ∀ k ∈ l, e.slbie (f k) = e) : l.foldl (fun e k => e.slbie (f k)) e = e := by
  induction l with
  | nil => rfl
  | cons k l ih =>
    rw [List.foldl_cons, h k List.mem_cons_self]
    exact ih fun k hk => h k (List.mem_cons_of_mem _ hk)

/-- An entry one of the operands names does not survive the loop. -/
theorem foldl_slbie_named {l : List Nat} {f : Nat → U64} {e : SlbEntry}
    (h : ∃ k ∈ l, (e.slbie (f k)).valid = false) :
    (l.foldl (fun e k => e.slbie (f k)) e).valid = false := by
  induction l with
  | nil => obtain ⟨k, hk, -⟩ := h; cases hk
  | cons j l ih =>
    rw [List.foldl_cons]
    rcases e.slbie_eq_or (f j) with hj | hj
    · obtain ⟨k, hk, hdead⟩ := h
      rw [hj]
      rcases List.mem_cons.mp hk with rfl | hk
      · rw [hj] at hdead
        exact foldl_slbie_of_not l f hdead
      · exact ih ⟨k, hk, hdead⟩
    · exact foldl_slbie_of_not l f hj

theorem hvAil_slbie : ∀ k < srCount,
    hvEntry.slbie (slbieOperand (srIndexToEa k) .seg256M) = hvEntry ∧
      ailEntry.slbie (slbieOperand (srIndexToEa k) .seg256M) = ailEntry := by
  decide

/-- The `slbie` of a guest segment's own address takes its entry. -/
theorem srEntry_slbie {guest : Guest} {k : Nat} (hk : k < srCount) :
    ((srEntry guest k).slbie (slbieOperand (srIndexToEa k) .seg256M)).valid = false := by
  obtain ⟨hseg, hesid⟩ := slbieOperand_sr k hk
  rw [SlbEntry.slbie, if_pos]
  · exact SlbEntry.clear_valid _
  · rw [srEntry_esidVal hk, srEntry_seg, hseg]
    exact ⟨rfl, hesid.symm⟩

/-! ### The invariant -/

/-- The valid guest entries are those of the MMU mode. -/
def SlbMode (guest : Guest) (slb : Slb) (on : Bool) : Prop :=
  match on with
  | false => slb 2 = grmEntry ∧ ∀ i, 3 ≤ i → (slb i).valid = false
  | true => (slb 2).valid = false ∧
      ∀ i, 3 ≤ i → (slb i).valid = true → ∃ k < srCount, i = 3 + k ∧ slb i = srEntry guest k

/-- What every reachable state satisfies. -/
structure VmState.Inv (s : VmState) : Prop where
  hv : s.slb 0 = hvEntry
  ail : s.slb 1 = ailEntry
  mode : ∃ on, s.guest.MmuIs on ∧ SlbMode s.guest s.slb on

theorem slbInit_hv (slb : Slb) : slbInit slb 0 = hvEntry := rfl

theorem slbInit_ail (slb : Slb) : slbInit slb 1 = ailEntry := rfl

/-- Nothing but the two hypervisor entries is valid after `slb_init`. -/
theorem slbInit_other (slb : Slb) {i : Nat} (hi : 2 ≤ i) : (slbInit slb i).valid = false := by
  have h : slbInit slb i = (slb i).clear := by
    have h₀ : ((slbMakeEsid hvAspace .seg1T hvSlot) &&& 0xfff).toNat = 0 := rfl
    have h₁ : ((slbMakeEsid ailAspaceStart .seg256M ailSlot) &&& 0xfff).toNat = 1 := rfl
    rw [slbInit, Slb.slbmte, Slb.slbmte, h₀, h₁, Function.update_of_ne (by omega),
      Function.update_of_ne (by omega), Slb.slbia, if_neg (by omega)]
  rw [h]
  exact SlbEntry.clear_valid _

/-! ### Switches -/

/-- Turning the guest MMU on leaves no guest entry. -/
theorem mmuGuestUpdate_on {slb : Slb} (h₀ : slb 0 = hvEntry) (h₁ : slb 1 = ailEntry)
    (h₂ : slb 2 = grmEntry) (h₃ : ∀ i, 3 ≤ i → (slb i).valid = false) :
    mmuGuestUpdate slb true 0 = hvEntry ∧ mmuGuestUpdate slb true 1 = ailEntry ∧
      ∀ i, 2 ≤ i → (mmuGuestUpdate slb true i).valid = false := by
  have hpt : ∀ i, mmuGuestUpdate slb true i =
      (slb i).slbie (slbieOperand layoutVmStart .seg1T) := fun i => rfl
  refine ⟨by rw [hpt, h₀]; decide, by rw [hpt, h₁]; decide, fun i hi => ?_⟩
  rw [hpt]
  by_cases e : i = 2
  · rw [e, h₂]; decide
  · exact SlbEntry.slbie_valid_of_not (h₃ i (by omega)) _

/-- Turning the guest MMU off leaves the GRM entry only. -/
theorem mmuGuestUpdate_off (guest : Guest) {slb : Slb} (h₀ : slb 0 = hvEntry)
    (h₁ : slb 1 = ailEntry) (h₃ : ∀ i, 3 ≤ i → (slb i).valid = true →
      ∃ k < srCount, i = 3 + k ∧ slb i = srEntry guest k) :
    mmuGuestUpdate slb false 0 = hvEntry ∧ mmuGuestUpdate slb false 1 = ailEntry ∧
      mmuGuestUpdate slb false 2 = grmEntry ∧
      ∀ i, 3 ≤ i → (mmuGuestUpdate slb false i).valid = false := by
  have hpt : ∀ i, i ≠ 2 → mmuGuestUpdate slb false i = (List.range srCount).foldl
      (fun e k => e.slbie (slbieOperand (srIndexToEa k) .seg256M)) (slb i) := by
    intro i hi
    have hslot : ((slbMakeEsid layoutVmStart .seg1T grmSlot) &&& 0xfff).toNat = 2 := rfl
    simp only [mmuGuestUpdate, Bool.false_eq_true, if_false]
    rw [Slb.slbmte, hslot, Function.update_of_ne hi, invalidate_foldl]
  refine ⟨?_, ?_, rfl, fun i hi => ?_⟩
  · rw [hpt 0 (by decide), h₀]
    exact foldl_slbie_unnamed fun k hk => (hvAil_slbie k (List.mem_range.mp hk)).1
  · rw [hpt 1 (by decide), h₁]
    exact foldl_slbie_unnamed fun k hk => (hvAil_slbie k (List.mem_range.mp hk)).2
  rw [hpt i (by omega)]
  cases hv : (slb i).valid with
  | false => exact foldl_slbie_of_not _ _ hv
  | true =>
    obtain ⟨k, hk, -, he⟩ := h₃ i hi hv
    rw [he]
    exact foldl_slbie_named ⟨k, List.mem_range.mpr hk, srEntry_slbie hk⟩

/-- A change of MSR keeps the invariant. -/
theorem guestUpdateMsr_inv {s : VmState} (h : s.Inv) {new : U32} {guest : Guest} {slb : Slb}
    (hrun : guestUpdateMsr s.guest s.slb new = .ok (guest, slb)) : VmState.Inv ⟨guest, slb⟩ := by
  obtain ⟨h₀, h₁, on, hon, hmode⟩ := h
  obtain ⟨was, hwas, hrun⟩ := bind_eq_ok.mp hrun
  obtain ⟨now, hnow, hrun⟩ := bind_eq_ok.mp hrun
  obtain ⟨g, hg, hnow'⟩ := guestIsMmuOff_eq_ok.mp hnow
  cases hg
  obtain ⟨g, hg, hwas'⟩ := guestIsMmuOff_eq_ok.mp hwas
  cases hg
  have hon' : on = !was := by
    have := hon.2.symm.trans hwas'.2
    cases on <;> cases was <;> simp_all
  subst hon'
  cases was <;> cases now
  · cases hrun
    exact ⟨h₀, h₁, true, hnow', hmode⟩
  · cases hrun
    obtain ⟨h₀', h₁', h₂', h₃'⟩ := mmuGuestUpdate_off _ h₀ h₁ hmode.2
    exact ⟨h₀', h₁', false, hnow', h₂', h₃'⟩
  · cases hrun
    obtain ⟨h₀', h₁', h₂'⟩ := mmuGuestUpdate_on h₀ h₁ hmode.1 hmode.2
    refine ⟨h₀', h₁', true, hnow', h₂' 2 (by decide), fun i hi hv => ?_⟩
    have hv' : (mmuGuestUpdate s.slb true i).valid = true := hv
    rw [h₂' i (by omega)] at hv'
    cases hv'
  · cases hrun
    exact ⟨h₀, h₁, false, hnow', hmode⟩

/-- In a state with the guest MMU off, turning it on leaves no guest entry. -/
theorem VmState.Inv.switch_on {s : VmState} (h : s.Inv) (hoff : s.guest.MmuIs false) {i : Nat}
    (hi : 2 ≤ i) : (mmuGuestUpdate s.slb true i).valid = false := by
  obtain ⟨h₀, h₁, on, hon, hmode⟩ := h
  cases on with
  | false => exact (mmuGuestUpdate_on h₀ h₁ hmode.1 hmode.2).2.2 i hi
  | true => cases hon.2.mp (hoff.2.mpr rfl)

/-! ### Matches -/

theorem hvEntry_matches {ea : U64} (h : hvEntry.Matches ea) : ea.toNat / 2 ^ 40 = 0x800000 := by
  have he := congrArg BitVec.toNat h.2
  rw [BitVec.toNat_ushiftRight, Nat.shiftRight_eq_div_pow] at he
  exact he.symm

theorem ailEntry_matches {ea : U64} (h : ailEntry.Matches ea) :
    ea.toNat / 2 ^ 28 = 0xc00000000 := by
  have he := congrArg BitVec.toNat h.2
  rw [BitVec.toNat_ushiftRight, Nat.shiftRight_eq_div_pow] at he
  exact he.symm

theorem grmEntry_matches {ea : U64} : grmEntry.Matches ea ↔ ea.toNat / 2 ^ 40 = 0 := by
  have hesid : grmEntry.esidVal = 0#64 := by decide
  have hshift : (ea >>> grmEntry.seg.shift).toNat = ea.toNat / 2 ^ 40 := by
    rw [BitVec.toNat_ushiftRight, Nat.shiftRight_eq_div_pow]
    rfl
  rw [SlbEntry.Matches, hesid, ← hshift]
  constructor
  · rintro ⟨-, h⟩
    rw [← h]
    rfl
  · intro h
    exact ⟨by decide, (BitVec.eq_of_toNat_eq h).symm⟩

theorem srEntry_matches {guest : Guest} {k : Nat} (hk : k < srCount) {ea : U64} :
    (srEntry guest k).Matches ea ↔ ea.toNat / 2 ^ 28 = k := by
  have hk' : (BitVec.ofNat 64 k).toNat = k := by
    have : srCount = 16 := rfl
    rw [BitVec.toNat_ofNat]
    omega
  have hshift : (ea >>> 28).toNat = ea.toNat / 2 ^ 28 := by
    rw [BitVec.toNat_ushiftRight, Nat.shiftRight_eq_div_pow]
  rw [SlbEntry.Matches, srEntry_esidVal hk, srEntry_seg, srEntry_valid hk]
  constructor
  · rintro ⟨-, h⟩
    rw [← hshift, ← hk', h]
    rfl
  · intro h
    refine ⟨rfl, BitVec.eq_of_toNat_eq ?_⟩
    rw [hk', ← h, ← hshift]
    rfl

/-- The slot of an entry that matches an address, and the addresses it matches. -/
theorem VmState.Inv.slot_of_matches {s : VmState} (h : s.Inv) {i : Nat} {ea : U64}
    (hm : (s.slb i).Matches ea) :
    (i = 0 ∧ ea.toNat / 2 ^ 40 = 0x800000) ∨ (i = 1 ∧ ea.toNat / 2 ^ 28 = 0xc00000000) ∨
      (i = 2 ∧ s.guest.MmuIs false ∧ ea.toNat / 2 ^ 40 = 0) ∨
      (s.guest.MmuIs true ∧ ∃ k < srCount, i = 3 + k ∧ ea.toNat / 2 ^ 28 = k) := by
  obtain ⟨h₀, h₁, on, hon, hmode⟩ := h
  by_cases e₀ : i = 0
  · subst e₀
    rw [h₀] at hm
    exact Or.inl ⟨rfl, hvEntry_matches hm⟩
  by_cases e₁ : i = 1
  · subst e₁
    rw [h₁] at hm
    exact Or.inr (Or.inl ⟨rfl, ailEntry_matches hm⟩)
  cases on with
  | false =>
    obtain ⟨h₂, h₃⟩ := hmode
    by_cases e₂ : i = 2
    · subst e₂
      rw [h₂] at hm
      exact Or.inr (Or.inr (Or.inl ⟨rfl, hon, grmEntry_matches.mp hm⟩))
    · have := (h₃ i (by omega)).symm.trans hm.1
      cases this
  | true =>
    obtain ⟨h₂, h₃⟩ := hmode
    by_cases e₂ : i = 2
    · subst e₂
      have := h₂.symm.trans hm.1
      cases this
    · obtain ⟨k, hk, rfl, he⟩ := h₃ i (by omega) hm.1
      rw [he] at hm
      exact Or.inr (Or.inr (Or.inr ⟨hon, k, hk, rfl, (srEntry_matches hk).mp hm⟩))

/-- No address is matched by two entries. -/
theorem VmState.Inv.no_multi_hit {s : VmState} (h : s.Inv) {ea : U64} {i j : Nat}
    (hi : (s.slb i).Matches ea) (hj : (s.slb j).Matches ea) : i = j := by
  have hmode : s.guest.MmuIs false → s.guest.MmuIs true → False := by
    rintro ⟨-, hoff⟩ ⟨-, hon⟩
    cases hon.mp (hoff.mpr rfl)
  have h16 : srCount = 16 := rfl
  rcases h.slot_of_matches hi with ⟨rfl, a⟩ | ⟨rfl, a⟩ | ⟨rfl, m, a⟩ | ⟨m, k, hk, rfl, a⟩ <;>
    rcases h.slot_of_matches hj with ⟨rfl, b⟩ | ⟨rfl, b⟩ | ⟨rfl, m', b⟩ | ⟨m', k', hk', rfl, b⟩
  all_goals first | rfl | exact (hmode m m').elim | exact (hmode m' m).elim | omega

/-! ### Faults -/

/-- The words a fault writes are those of the segment's entry, in its slot. -/
theorem slbmte_sr {guest : Guest} {slb : Slb} {ea : U64} {k : Nat} (hk : k < srCount)
    (hea : ea.toNat / 2 ^ 28 = k) :
    slb.slbmte (slbMakeVsid ((guest.srAt k &&& srVsidMask).setWidth 64) .seg256M .page4K)
        (slbMakeEsid ea .seg256M ((srIndexToSlbSlot (BitVec.ofNat 32 k)).setWidth 64)) =
      Function.update slb (3 + k) (srEntry guest k) := by
  have hmask : ea &&& esidMask256MB = BitVec.ofNat 64 k <<< 28 := by
    have hm : esidMask256MB = ~~~(lowMask 64 28) := by decide
    have h16 : srCount = 16 := rfl
    apply BitVec.eq_of_toNat_eq
    rw [hm, and_not_lowMask _ (by decide), hea, BitVec.toNat_shiftLeft, Nat.shiftLeft_eq,
      BitVec.toNat_ofNat]
    omega
  have hwords : ∀ k < srCount,
      (((BitVec.ofNat 64 k <<< 28) ||| slbEsidV |||
          (srIndexToSlbSlot (BitVec.ofNat 32 k)).setWidth 64) &&& 0xfff).toNat = 3 + k ∧
        ((BitVec.ofNat 64 k <<< 28) ||| slbEsidV |||
          (srIndexToSlbSlot (BitVec.ofNat 32 k)).setWidth 64) &&& ~~~0xfff#64 =
          (BitVec.ofNat 64 k <<< 28) ||| slbEsidV := by
    decide
  obtain ⟨hslot, hesid⟩ := hwords k hk
  rw [Slb.slbmte, slbMakeEsid, SegSize.esidMask, hmask, hslot, hesid]
  rfl

/-- A fault on a guest address, with the guest MMU on and the slot of its segment free. -/
theorem mmuGuestFaultSeg_fill {guest : Guest} {slb : Slb} {ea : U64} {k : Nat} (hk : k < srCount)
    (hdiv : ea.toNat / 2 ^ 28 = k) (hon : guest.MmuIs true) (hfree : (slb (3 + k)).valid = false) :
    mmuGuestFaultSeg (some guest) slb ea =
      .ok (.none, Function.update slb (3 + k) (srEntry guest k)) := by
  have hidx : ((ea >>> 28).setWidth 32 : U32) = BitVec.ofNat 32 k := by
    apply BitVec.eq_of_toNat_eq
    rw [BitVec.toNat_setWidth, BitVec.toNat_ushiftRight, Nat.shiftRight_eq_div_pow, hdiv,
      BitVec.toNat_ofNat]
  have hbound : ∀ k < srCount, ¬ BitVec.ofNat 32 srCount ≤ BitVec.ofNat 32 k ∧
      (srIndexToSlbSlot (BitVec.ofNat 32 k)).toNat = 3 + k ∧ (BitVec.ofNat 32 k).toNat = k := by
    decide
  obtain ⟨hle, hslot, hkn⟩ := hbound k hk
  have hoff : guestIsMmuOff (some guest) = .ok false :=
    guestIsMmuOff_eq_ok.mpr ⟨guest, rfl, hon⟩
  have hesid : ¬ (slb (3 + k)).esid &&& slbEsidV ≠ 0 := by
    simpa [SlbEntry.valid] using hfree
  rw [mmuGuestFaultSeg]
  dsimp only
  rw [hidx, bugOn_bind_eq_ok]
  refine ⟨hle, ?_⟩
  rw [hslot, if_neg hesid, hoff]
  refine bind_eq_ok.mpr ⟨false, rfl, bugOn_bind_eq_ok.mpr ⟨Bool.false_ne_true, ?_⟩⟩
  rw [hkn, ← slbmte_sr hk hdiv]
  rfl

/-- A fault on a guest address no entry matches fills the slot of its segment. -/
theorem mmuGuestFaultSeg_eq {s : VmState} (h : s.Inv) {ea : U64} (hea : ea < layoutVmEnd)
    (hno : ∀ i, ¬ (s.slb i).Matches ea) : s.guest.MmuIs true ∧ ∃ k < srCount,
      ea.toNat / 2 ^ 28 = k ∧ mmuGuestFaultSeg (some s.guest) s.slb ea =
        .ok (.none, Function.update s.slb (3 + k) (srEntry s.guest k)) := by
  have hlt : ea.toNat < 2 ^ 32 := hea
  obtain ⟨h₀, h₁, on, hon, hmode⟩ := h
  cases on with
  | false =>
    -- with the MMU off slot 2 covers every guest address
    refine absurd ?_ (hno 2)
    rw [hmode.1, grmEntry_matches]
    omega
  | true =>
    have h16 : srCount = 16 := rfl
    obtain ⟨k, hk, hdiv⟩ : ∃ k < srCount, ea.toNat / 2 ^ 28 = k := ⟨_, by omega, rfl⟩
    have hfree : (s.slb (3 + k)).valid = false := by
      cases hv : (s.slb (3 + k)).valid with
      | false => rfl
      | true =>
        obtain ⟨k', hk', he, hentry⟩ := hmode.2 (3 + k) (by omega) hv
        obtain rfl : k = k' := by omega
        exact absurd (by rw [hentry, srEntry_matches hk', hdiv]) (hno (3 + k))
    exact ⟨hon, k, hk, hdiv, mmuGuestFaultSeg_fill hk hdiv hon hfree⟩

/-! ### Runs -/

/-- `guest_init` calls `mmu_guest_update(false)` over the SLB of `slb_init`. -/
theorem guestFresh_inv (slb : Slb) (ramSize ram : U64) :
    VmState.Inv ⟨guestFresh ramSize ram, mmuGuestUpdate (slbInit slb) false⟩ := by
  obtain ⟨h₀, h₁, h₂, h₃⟩ := mmuGuestUpdate_off (guestFresh ramSize ram) (slbInit_hv slb)
    (slbInit_ail slb) (fun i hi hv => by rw [slbInit_other slb (by omega)] at hv; cases hv)
  exact ⟨h₀, h₁, false, guestFresh_mmuIs ramSize ram, h₂, h₃⟩

theorem Reachable.init_inv {slb : Slb} {htab : Htab} {ramSize ram : U64} {guest : Guest}
    {mmu : Mmu} (h : guestInit ⟨htab, slbInit slb⟩ ramSize ram = .ok (guest, mmu)) :
    VmState.Inv ⟨guest, mmu.slb⟩ := by
  obtain ⟨t, -, -, -, -, -, hupd, -⟩ := guestInit_eq_ok h
  exact guestUpdateMsr_inv (guestFresh_inv slb ramSize ram) hupd

/-- There is no guest entry after `guest_init`, which leaves the guest MMU on. -/
theorem guestInit_empty {slb : Slb} {htab : Htab} {ramSize ram : U64} {guest : Guest} {mmu : Mmu}
    (h : guestInit ⟨htab, slbInit slb⟩ ramSize ram = .ok (guest, mmu)) {i : Nat} (hi : 2 ≤ i) :
    (mmu.slb i).valid = false := by
  obtain ⟨t, -, -, -, -, -, hupd, -⟩ := guestInit_eq_ok h
  have hon := guestUpdateMsr_fresh ramSize ram (mmuGuestUpdate (slbInit slb) false)
  have hslb : mmu.slb = mmuGuestUpdate (mmuGuestUpdate (slbInit slb) false) true :=
    (Prod.mk.inj (Except.ok.inj (hupd.symm.trans hon))).2
  rw [hslb]
  exact (guestFresh_inv slb ramSize ram).switch_on (guestFresh_mmuIs ramSize ram) hi

theorem VmState.Inv.step {s s' : VmState} {e : GuestEvent} {err : Err} (h : s.Inv)
    (he : e.Occurs s) (hs : e.exec s = .ok (err, s')) : s'.Inv := by
  cases e with
  | mtmsr r =>
    obtain ⟨⟨guest, slb⟩, hupd, hs⟩ := bind_eq_ok.mp hs
    cases hs
    exact guestUpdateMsr_inv h hupd
  | mtsrr1 r =>
    cases hs
    exact ⟨h.hv, h.ail, h.mode⟩
  | rfi =>
    obtain ⟨⟨guest, slb⟩, hupd, hs⟩ := bind_eq_ok.mp hs
    cases hs
    exact guestUpdateMsr_inv h hupd
  | seg vec dar hsrr0 =>
    obtain ⟨hea, hno⟩ := he
    obtain ⟨hon, k, hk, -, hfault⟩ := mmuGuestFaultSeg_eq h hea hno
    rw [GuestEvent.exec, if_neg (by simpa using hea), hfault] at hs
    cases hs
    obtain ⟨h₀, h₁, on, hon', hmode⟩ := h
    have h16 : srCount = 16 := rfl
    obtain rfl : on = true := by
      cases on with
      | true => rfl
      | false => cases hon.2.mp (hon'.2.mpr rfl)
    have hne : ∀ i, i ≠ 3 + k → Function.update s.slb (3 + k) (srEntry s.guest k) i = s.slb i :=
      fun i hi => Function.update_of_ne hi ..
    refine ⟨?_, ?_, true, hon', ?_, fun i hi hv => ?_⟩
    · exact (hne 0 (by omega)).trans h₀
    · exact (hne 1 (by omega)).trans h₁
    · exact (congrArg SlbEntry.valid (hne 2 (by omega))).trans hmode.1
    · by_cases e : i = 3 + k
      · subst e
        exact ⟨k, hk, rfl, Function.update_self ..⟩
      · have hi' := hne i e
        obtain ⟨k', hk', rfl, hentry⟩ := hmode.2 i hi ((congrArg SlbEntry.valid hi').symm.trans hv)
        exact ⟨k', hk', rfl, hi'.trans hentry⟩

theorem VmState.Reachable.inv {s : VmState} (h : s.Reachable) : s.Inv := by
  induction h with
  | init h => exact Reachable.init_inv h
  | step _ he hs ih => exact ih.step he hs

/-- A run goes on with an `mtmsr` that switches the guest MMU. -/
theorem VmState.Reachable.mtmsr {s : VmState} (h : s.Reachable) {on : Bool} (hon : s.guest.MmuIs on)
    {r : U64} (hr : Guest.MmuIs { s.guest with msr := r.setWidth 32 } (!on)) :
    GuestEvent.exec s (.mtmsr r) = .ok (.none,
        ⟨{ s.guest with msr := r.setWidth 32 }, mmuGuestUpdate s.slb (!on)⟩) ∧
      VmState.Reachable ⟨{ s.guest with msr := r.setWidth 32 }, mmuGuestUpdate s.slb (!on)⟩ := by
  have hexec : GuestEvent.exec s (.mtmsr r) = .ok (.none,
      ⟨{ s.guest with msr := r.setWidth 32 }, mmuGuestUpdate s.slb (!on)⟩) :=
    bind_eq_ok.mpr ⟨_, guestUpdateMsr_switch hon s.slb hr, rfl⟩
  exact ⟨hexec, h.step (e := .mtmsr r) trivial hexec⟩

/-- A run goes on with a segment fault on a guest address, where there is no guest entry yet. -/
theorem VmState.Reachable.seg {s : VmState} (h : s.Reachable) (hon : s.guest.MmuIs true)
    (hempty : ∀ i, 2 ≤ i → (s.slb i).valid = false) (ea : U64) {k : Nat} (hk : k < srCount)
    (hdiv : ea.toNat / 2 ^ 28 = k) :
    GuestEvent.exec s (.seg .dseg ea 0) = .ok (.none,
        { s with slb := Function.update s.slb (3 + k) (srEntry s.guest k) }) ∧
      VmState.Reachable { s with slb := Function.update s.slb (3 + k) (srEntry s.guest k) } := by
  have h16 : srCount = 16 := rfl
  have hlt : ea < layoutVmEnd := show ea.toNat < 2 ^ 32 by omega
  have hno : ∀ i, ¬ (s.slb i).Matches ea := by
    intro i hm
    rcases h.inv.slot_of_matches hm with ⟨-, a⟩ | ⟨-, a⟩ | ⟨rfl, -⟩ | ⟨-, k', -, rfl, -⟩
    · omega
    · omega
    · cases (hempty 2 (Nat.le_refl 2)).symm.trans hm.1
    · cases (hempty (3 + k') (by omega)).symm.trans hm.1
  have hexec : GuestEvent.exec s (.seg .dseg ea 0) = .ok (.none,
      { s with slb := Function.update s.slb (3 + k) (srEntry s.guest k) }) := by
    rw [GuestEvent.exec, show segEa .dseg ea 0 = ea from rfl, if_neg (BitVec.not_le.mpr hlt)]
    exact bind_eq_ok.mpr ⟨_, mmuGuestFaultSeg_fill hk hdiv hon (hempty _ (by omega)), rfl⟩
  exact ⟨hexec, h.step (e := .seg .dseg ea 0) ⟨hlt, hno⟩ hexec⟩

/-- What the SLB of a state guarantees. -/
structure VmState.Segments (s : VmState) : Prop where
  noMultiHit : ∀ ea i j, (s.slb i).Matches ea → (s.slb j).Matches ea → i = j
  hv : s.slb 0 = hvEntry
  ail : s.slb 1 = ailEntry
  off : guestIsMmuOff (some s.guest) = .ok true →
    s.slb 2 = grmEntry ∧ ∀ i, (s.slb i).valid = true → i ≤ 2
  on : guestIsMmuOff (some s.guest) = .ok false →
    ∀ i, 2 ≤ i → (s.slb i).valid = true → ∃ k < srCount, i = 3 + k ∧
      (s.slb i).seg = .seg256M ∧ (s.slb i).esidVal = BitVec.ofNat 64 k ∧
      (s.slb i).vsidVal = (s.guest.srAt k &&& srVsidMask).setWidth 64
  fault : ∀ vec dar hsrr0, GuestEvent.Occurs s (.seg vec dar hsrr0) →
    ∃ s', GuestEvent.exec s (.seg vec dar hsrr0) = .ok (.none, s') ∧
      ∃ i, (s'.slb i).Matches (segEa vec dar hsrr0)

/-- **The SLB over runs.**  In every reachable state the SLB has no multi-hit, its guest entries are
those of the MMU mode, its hypervisor entries are those of `slb_init`, and every guest segment
fault returns `ERR_NONE` and leaves its address matched. -/
theorem VmState.Reachable.segments {s : VmState} (h : s.Reachable) : s.Segments := by
  have hinv := h.inv
  have hunique : ∀ {on on' : Bool}, s.guest.MmuIs on → s.guest.MmuIs on' → on = on' := by
    rintro on on' ⟨-, h₁⟩ ⟨-, h₂⟩
    have := h₁.symm.trans h₂
    cases on <;> cases on' <;> simp_all
  refine ⟨fun ea i j => hinv.no_multi_hit, hinv.hv, hinv.ail, ?_, ?_, ?_⟩
  · intro hoff
    obtain ⟨g, hg, hmmu⟩ := guestIsMmuOff_eq_ok.mp hoff
    cases hg
    obtain ⟨on, hon, hmode⟩ := hinv.mode
    obtain rfl := hunique hon hmmu
    refine ⟨hmode.1, fun i hv => ?_⟩
    by_contra hi
    have := (hmode.2 i (by omega)).symm.trans hv
    cases this
  · intro hon i hi hv
    obtain ⟨g, hg, hmmu⟩ := guestIsMmuOff_eq_ok.mp hon
    cases hg
    obtain ⟨on, hon, hmode⟩ := hinv.mode
    obtain rfl := hunique hon hmmu
    by_cases e : i = 2
    · subst e
      have := hmode.1.symm.trans hv
      cases this
    · obtain ⟨k, hk, rfl, hentry⟩ := hmode.2 i (by omega) hv
      rw [hentry]
      exact ⟨k, hk, rfl, srEntry_seg, srEntry_esidVal hk, srEntry_vsidVal⟩
  · rintro vec dar hsrr0 ⟨hea, hno⟩
    obtain ⟨-, k, hk, hdiv, hfault⟩ := mmuGuestFaultSeg_eq hinv hea hno
    refine ⟨{ s with slb := Function.update s.slb (3 + k) (srEntry s.guest k) }, ?_, 3 + k, ?_⟩
    · rw [GuestEvent.exec, if_neg (by simpa using hea), hfault]
      rfl
    · show (Function.update s.slb (3 + k) (srEntry s.guest k) (3 + k)).Matches _
      rw [Function.update_self, srEntry_matches hk, hdiv]

/-- After `guest_init` on a machine of 4 GiB: a segment fault in segment 0, the guest MMU turned off
and on again, and a fault in segment 3. -/
theorem VmState.Reachable.segments_sample : ∃ s₀ s₁ s₂ s₃ s₄ : VmState, s₀.Reachable ∧
    GuestEvent.exec s₀ (.seg .dseg 0x10000 0) = .ok (.none, s₁) ∧ (s₁.slb 3).Matches 0x10000 ∧
    GuestEvent.exec s₁ (.mtmsr 0) = .ok (.none, s₂) ∧
    GuestEvent.exec s₂ (.mtmsr (msrIrDr.setWidth 64)) = .ok (.none, s₃) ∧
    (s₃.slb 3).valid = false ∧
    GuestEvent.exec s₃ (.seg .dseg 0x30001000 0) = .ok (.none, s₄) ∧
    (s₄.slb 6).Matches 0x30001000 ∧ s₄.Segments := by
  have hoff : ∀ guest : Guest, Guest.MmuIs { guest with msr := (0 : U64).setWidth 32 } false :=
    fun _ => guestFresh_mmuIs sampleRamSize sampleRam
  have hon : ∀ guest : Guest,
      Guest.MmuIs { guest with msr := (msrIrDr.setWidth 64 : U64).setWidth 32 } true :=
    fun _ => guestOn_mmuIs sampleRamSize sampleRam
  obtain ⟨⟨htab, _⟩, -, hmask, hused, rfl⟩ := mmuInit_sample fun _ => ⟨0, 0⟩
  obtain ⟨mmu, hguest, -⟩ := guestInit_sample ⟨htab, _⟩ hmask hused
  have h₀ : VmState.Reachable ⟨guestOn sampleRamSize sampleRam, mmu.slb⟩ := .init hguest
  obtain ⟨hfault, h₁⟩ := h₀.seg (guestOn_mmuIs _ _) (fun i hi => guestInit_empty hguest hi)
    0x10000 (k := 0) (by decide) (by decide)
  obtain ⟨hturnoff, h₂⟩ := h₁.mtmsr (r := 0) (guestOn_mmuIs sampleRamSize sampleRam) (hoff _)
  obtain ⟨hturnon, h₃⟩ := h₂.mtmsr (r := msrIrDr.setWidth 64) (hoff _) (hon _)
  have hempty : ∀ i, 2 ≤ i → (mmuGuestUpdate _ true i).valid = false :=
    fun i hi => h₂.inv.switch_on (hoff _) hi
  obtain ⟨hagain, h₄⟩ := h₃.seg (hon _) hempty 0x30001000 (k := 3) (by decide) (by decide)
  refine ⟨_, _, _, _, _, h₀, hfault, ?_, hturnoff, hturnon, hempty 3 (by decide), hagain, ?_,
    h₄.segments⟩
  · exact (srEntry_matches (by decide)).mpr (by decide)
  · exact (srEntry_matches (by decide)).mpr (by decide)

end Prephv
