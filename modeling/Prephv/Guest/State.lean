import Prephv.Defs

/-!
# Guest — State

`guest_t`: the virtual machine's registers and memory as the hypervisor keeps them.  The pointer
`guest` is null until `guest_init` allocates the structure, so the model passes it around as an
`Option Guest`.
-/

set_option autoImplicit false

namespace Prephv

/-- `rom_t`. -/
structure Rom where
  cifTrampoline : U64
  claimArenaStart : U64
  claimArenaPtr : U64
  claimArenaEnd : U64
  stackStart : U64
  stackEnd : U64
  deriving DecidableEq, Repr

/-- `guest_t`.  `ram` is the hypervisor address of guest RAM; `sprg` is the magic page's array. -/
structure Guest where
  sdr1 : U32
  pvr : U32
  msr : U32
  srr0 : U32
  srr1 : U32
  ibat : Vector U32 8
  dbat : Vector U32 8
  sr : Vector U32 srCount
  hid0 : U32
  ramSize : U64
  ram : U64
  rom : Rom
  sprg : Vector U32 4
  deriving DecidableEq, Repr

/-- `guest->sr[i]`. -/
def Guest.srAt (g : Guest) (i : Nat) : U32 := g.sr[i]?.getD 0

/-- `(guest->msr >> n) & 1`. -/
def Guest.msrBit (g : Guest) (n : Nat) : U32 := (g.msr >>> n) &&& 1

/-- `guest_is_mmu_off`. -/
def guestIsMmuOff (guest : Option Guest) : Res Bool :=
  match guest with
  | none => .error ⟨"guest NULL"⟩
  | some g => do
    bugOn (g.msrBit msrIrLg ≠ g.msrBit msrDrLg) "inconsistent IR/DR"
    return g.msrBit msrIrLg = 0

/-- The guest's MSR has IR and DR equal, both set when `on`. -/
def Guest.MmuIs (g : Guest) (on : Bool) : Prop :=
  g.msrBit msrIrLg = g.msrBit msrDrLg ∧ (g.msrBit msrIrLg = 0 ↔ on = false)

theorem guestIsMmuOff_eq_ok {guest : Option Guest} {b : Bool} :
    guestIsMmuOff guest = .ok b ↔ ∃ g, guest = some g ∧ g.MmuIs (!b) := by
  cases guest with
  | none => simp [guestIsMmuOff]
  | some g =>
    simp only [guestIsMmuOff, bugOn_bind_eq_ok, ne_eq, not_not, Option.some.injEq,
      exists_eq_left', Guest.MmuIs]
    refine and_congr_right fun _ => ?_
    cases b <;> simp [pure, Except.pure]

end Prephv
