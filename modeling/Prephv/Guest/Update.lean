import Prephv.Mmu.Slb

/-!
# Guest — Update

`guest_init` and `guest_update_msr` of `guest.c`, and the part of `guest_exc_try` that changes the
guest's MSR or handles its segment faults.

A `VmState` is the guest and the SLB; `VmState.Reachable` are the states after `slb_init`,
`guest_init` and any of the events below.
-/

set_option autoImplicit false

namespace Prephv

/-- What `mmu.c` keeps: the page table and the SLB. -/
structure Mmu where
  htab : Htab
  slb : Slb

/-- `guest_update_msr`. -/
def guestUpdateMsr (guest : Guest) (slb : Slb) (new : U32) : Res (Guest × Slb) := do
  let was ← guestIsMmuOff (some guest)
  let guest := { guest with msr := new }
  let now ← guestIsMmuOff (some guest)
  if was ≠ now then
    return (guest, mmuGuestUpdate slb (!now))
  else
    return (guest, slb)

/-- The guest structure `guest_init` fills in before it maps anything. -/
def guestFresh (ramSize ram : U64) : Guest where
  sdr1 := 0
  pvr := 0x00010001
  msr := 0
  srr0 := 0
  srr1 := 0
  ibat := Vector.replicate 8 0
  dbat := Vector.replicate 8 0
  sr := Vector.ofFn fun i => BitVec.ofNat 32 i.val <<< srVsidShift
  hid0 := 0
  ramSize := ramSize
  ram := ram
  rom := ⟨0, 0, 0, 0, 0, 0⟩
  sprg := Vector.replicate 4 0

/-- `guest_init`, where the allocations succeed and guest RAM is at `ram`. -/
def guestInit (mmu : Mmu) (ramSize ram : U64) : Res (Guest × Mmu) := do
  bugOn (ramSize < MB 32) "too little RAM"
  bugOn (ramSize % MB 16 ≠ 0) "RAM size % 16MB != 0"
  let guest := guestFresh ramSize ram
  let slb := mmuGuestUpdate mmu.slb false
  let ra ← ptr2Ra guest.ram
  let htab ← mmuMapRange (some guest) mmu.htab layoutVmStart (layoutVmStart + guest.ramSize) ra
    ppRWRW .page16M
  let (guest, slb) ← guestUpdateMsr guest slb msrIrDr
  let ra ← ptr2Ra guest.ram
  let htab ← mmuMapRange (some guest) htab layoutVmStart (layoutVmStart + guest.ramSize) ra
    ppRWRW .page4K
  return (guest, ⟨htab, slb⟩)

/-- The guest `guest_init` returns, with its MMU on. -/
def guestOn (ramSize ram : U64) : Guest := { guestFresh ramSize ram with msr := msrIrDr }

theorem guestFresh_mmuIs (ramSize ram : U64) : (guestFresh ramSize ram).MmuIs false := by
  simp [Guest.MmuIs, Guest.msrBit, guestFresh]

theorem guestOn_mmuIs (ramSize ram : U64) : (guestOn ramSize ram).MmuIs true := by
  have hbits : (msrIrDr >>> msrIrLg) &&& 1 = (msrIrDr >>> msrDrLg) &&& 1 ∧
      ((msrIrDr >>> msrIrLg) &&& 1 = 0 ↔ true = false) := by decide
  exact hbits

/-- Each segment register holds its own number. -/
theorem guestOn_srAt (ramSize ram : U64) : ∀ i < srCount,
    (guestOn ramSize ram).srAt i = BitVec.ofNat 32 i := by
  have hsr : ∀ i < srCount, (Vector.ofFn fun i : Fin srCount =>
      (BitVec.ofNat 32 i.val <<< srVsidShift : U32))[i]?.getD 0 = BitVec.ofNat 32 i := by
    decide
  exact hsr

theorem guestUpdateMsr_guest {g g' : Guest} {slb slb' : Slb} {new : U32}
    (h : guestUpdateMsr g slb new = .ok (g', slb')) : g' = { g with msr := new } := by
  obtain ⟨was, -, h⟩ := bind_eq_ok.mp h
  obtain ⟨now, -, h⟩ := bind_eq_ok.mp h
  split at h <;> cases h <;> rfl

/-- What a `guest_init` that returns did. -/
theorem guestInit_eq_ok {mmu mmu' : Mmu} {ramSize ram : U64} {g : Guest}
    (h : guestInit mmu ramSize ram = .ok (g, mmu')) : ∃ t,
      ¬ ramSize < MB 32 ∧ ramSize % MB 16 = 0 ∧ hvAspace ≤ ram ∧ g = guestOn ramSize ram ∧
      mmuMapRange (some (guestFresh ramSize ram)) mmu.htab 0 ramSize (ram &&& ~~~hvAspace) ppRWRW
        .page16M = .ok t ∧
      guestUpdateMsr (guestFresh ramSize ram) (mmuGuestUpdate mmu.slb false) msrIrDr =
        .ok (g, mmu'.slb) ∧
      mmuMapRange (some g) t 0 ramSize (ram &&& ~~~hvAspace) ppRWRW .page4K = .ok mmu'.htab := by
  obtain ⟨hmin, h⟩ := bugOn_bind_eq_ok.mp h
  obtain ⟨hmul, h⟩ := bugOn_bind_eq_ok.mp h
  obtain ⟨ra, hra, h⟩ := bind_eq_ok.mp h
  obtain ⟨hle, rfl⟩ := ptr2Ra_eq_ok.mp hra
  obtain ⟨t₁, h₁, h⟩ := bind_eq_ok.mp h
  obtain ⟨⟨guest, slb⟩, hupd, h⟩ := bind_eq_ok.mp h
  obtain rfl := guestUpdateMsr_guest hupd
  obtain ⟨ra', hra', h⟩ := bind_eq_ok.mp h
  obtain ⟨-, rfl⟩ := ptr2Ra_eq_ok.mp hra'
  obtain ⟨t₂, h₂, h⟩ := bind_eq_ok.mp h
  cases h
  have hstart : layoutVmStart + ramSize = ramSize := BitVec.zero_add ramSize
  dsimp only [guestFresh] at h₁ h₂
  rw [hstart] at h₁ h₂
  exact ⟨t₁, hmin, not_not.mp hmul, hle, rfl, h₁, hupd, h₂⟩

/-- A change of MSR that switches the guest MMU. -/
theorem guestUpdateMsr_switch {guest : Guest} {on : Bool} (h : guest.MmuIs on) (slb : Slb)
    {new : U32} (hnew : Guest.MmuIs { guest with msr := new } (!on)) :
    guestUpdateMsr guest slb new =
      .ok ({ guest with msr := new }, mmuGuestUpdate slb (!on)) := by
  have hwas : guestIsMmuOff (some guest) = .ok (!on) :=
    guestIsMmuOff_eq_ok.mpr ⟨guest, rfl, by rwa [Bool.not_not]⟩
  have hnow : guestIsMmuOff (some { guest with msr := new }) = .ok on :=
    guestIsMmuOff_eq_ok.mpr ⟨_, rfl, hnew⟩
  refine bind_eq_ok.mpr ⟨_, hwas, bind_eq_ok.mpr ⟨_, hnow, ?_⟩⟩
  rw [if_pos (by cases on <;> decide)]
  rfl

/-- Turning the MMU of the fresh guest on. -/
theorem guestUpdateMsr_fresh (ramSize ram : U64) (slb : Slb) :
    guestUpdateMsr (guestFresh ramSize ram) slb msrIrDr =
      .ok (guestOn ramSize ram, mmuGuestUpdate slb true) :=
  guestUpdateMsr_switch (guestFresh_mmuIs ramSize ram) slb (guestOn_mmuIs ramSize ram)

/-- `guest_init`, where the range of the GRM segment is mapped. -/
theorem guestInit_eq {mmu : Mmu} {ramSize ram : U64} {t₁ : Htab} (hmin : ¬ ramSize < MB 32)
    (hmul : ramSize % MB 16 = 0) (hle : hvAspace ≤ ram)
    (h₁ : mmuMapRange (some (guestFresh ramSize ram)) mmu.htab 0 ramSize (ram &&& ~~~hvAspace)
      ppRWRW .page16M = .ok t₁) :
    guestInit mmu ramSize ram = do
      let t₂ ← mmuMapRange (some (guestOn ramSize ram)) t₁ 0 ramSize (ram &&& ~~~hvAspace) ppRWRW
        .page4K
      return (guestOn ramSize ram,
        ⟨t₂, mmuGuestUpdate (mmuGuestUpdate mmu.slb false) true⟩) := by
  have hstart : layoutVmStart + ramSize = ramSize := BitVec.zero_add ramSize
  have hra : ptr2Ra ram = .ok (ram &&& ~~~hvAspace) := ptr2Ra_eq_ok.mpr ⟨hle, rfl⟩
  have hfresh : (guestFresh ramSize ram).ram = ram ∧
      (guestFresh ramSize ram).ramSize = ramSize := ⟨rfl, rfl⟩
  have hon : (guestOn ramSize ram).ram = ram ∧ (guestOn ramSize ram).ramSize = ramSize :=
    ⟨rfl, rfl⟩
  simp only [guestInit, bugOn_neg hmin, bugOn_neg (not_not.mpr hmul), hfresh, hon, hstart, hra,
    ok_bind, guestUpdateMsr_fresh]
  rw [show layoutVmStart = (0 : U64) from rfl, h₁]
  rfl

/-- `guest_init` returns when its two ranges are mapped. -/
theorem guestInit_ok {mmu : Mmu} {ramSize ram : U64} {t₁ t₂ : Htab} (hmin : ¬ ramSize < MB 32)
    (hmul : ramSize % MB 16 = 0) (hle : hvAspace ≤ ram)
    (h₁ : mmuMapRange (some (guestFresh ramSize ram)) mmu.htab 0 ramSize (ram &&& ~~~hvAspace)
      ppRWRW .page16M = .ok t₁)
    (h₂ : mmuMapRange (some (guestOn ramSize ram)) t₁ 0 ramSize (ram &&& ~~~hvAspace) ppRWRW
      .page4K = .ok t₂) :
    guestInit mmu ramSize ram = .ok (guestOn ramSize ram,
      ⟨t₂, mmuGuestUpdate (mmuGuestUpdate mmu.slb false) true⟩) := by
  rw [guestInit_eq hmin hmul hle h₁, h₂]
  rfl

/-! ### Events -/

/-- The guest and the SLB. -/
structure VmState where
  guest : Guest
  slb : Slb

/-- `EXC_DSEG` or `EXC_ISEG`. -/
inductive SegVec where
  | dseg | iseg
  deriving DecidableEq, Repr

/-- What the guest does that `guest_exc_try` answers with a change of MSR or of SLB; the registers
are those of the frame. -/
inductive GuestEvent where
  | mtmsr (r : U64)
  | mtsrr1 (r : U64)
  | rfi
  | seg (vec : SegVec) (dar hsrr0 : U64)
  deriving DecidableEq, Repr

/-- The address a segment exception is about. -/
def segEa (vec : SegVec) (dar hsrr0 : U64) : U64 :=
  match vec with
  | .dseg => dar
  | .iseg => hsrr0

/-- `guest_exc_try`, for a segment exception or an emulated instruction. -/
def GuestEvent.exec (s : VmState) : GuestEvent → Res (Err × VmState)
  | .mtmsr r => do
    let (guest, slb) ← guestUpdateMsr s.guest s.slb (r.setWidth 32)
    return (.none, ⟨guest, slb⟩)
  | .mtsrr1 r => return (.none, { s with guest := { s.guest with srr1 := r.setWidth 32 } })
  | .rfi => do
    let (guest, slb) ← guestUpdateMsr s.guest s.slb s.guest.srr1
    return (.none, ⟨guest, slb⟩)
  | .seg vec dar hsrr0 =>
    if layoutVmEnd ≤ segEa vec dar hsrr0 then
      return (.unsupported, s)
    else do
      let (err, slb) ← mmuGuestFaultSeg (some s.guest) s.slb (segEa vec dar hsrr0)
      return (err, { s with slb })

/-- The hardware raises a segment exception for an address no valid entry matches; the faults
considered are those of guest addresses. -/
def GuestEvent.Occurs (s : VmState) : GuestEvent → Prop
  | .seg vec dar hsrr0 =>
    segEa vec dar hsrr0 < layoutVmEnd ∧ ∀ i, ¬ (s.slb i).Matches (segEa vec dar hsrr0)
  | _ => True

/-- The states after `slb_init`, `guest_init` and a sequence of events. -/
inductive VmState.Reachable : VmState → Prop where
  | init {slb : Slb} {htab : Htab} {ramSize ram : U64} {guest : Guest} {mmu : Mmu}
      (h : guestInit ⟨htab, slbInit slb⟩ ramSize ram = .ok (guest, mmu)) :
      VmState.Reachable ⟨guest, mmu.slb⟩
  | step {s s' : VmState} {e : GuestEvent} {err : Err} (h : s.Reachable) (he : e.Occurs s)
      (hs : e.exec s = .ok (err, s')) : s'.Reachable

end Prephv
