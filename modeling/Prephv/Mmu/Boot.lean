import Prephv.Guest.Update
import Prephv.Mmu.Refine

/-!
# Mmu — Boot

The callers that put PTEs in the table: `mmu_init`, the storage faults `exc_handler` maps,
`guest_init`, and the `map` method of `rom_call`.

A `BootRun` is `mmu_init` for a placement of the table and of the hypervisor's image, and then any
sequence of these events that return.
-/

set_option autoImplicit false

namespace Prephv

/-! ### `mmu.c` -/

/-- `pteg_count`. -/
def ptegCount (ramSize : U64) : U64 :=
  let ptegs := ramSize >>> (pageShift + 1)
  let ptegs := if minPtegs < ptegs then ptegs else minPtegs
  if ptegs < maxPtegs then ptegs else maxPtegs

/-- What `mmu_init` is given, what `mem_memalign` returns to it, and where the image is. -/
structure Placement where
  ramSize : U64
  htab : U64
  imageStart : U64
  imageEnd : U64
  deriving DecidableEq, Repr

/-- `htab_size`. -/
def Placement.htabSize (p : Placement) : U64 := ptegCount p.ramSize * ptegSize

/-- `mmu_init`, over the SLB firmware leaves.  There is no guest yet. -/
def mmuInit (p : Placement) (slb : Slb) : Res Mmu := do
  let htab := Htab.zeroed (ptegCount p.ramSize)
  let htabRa ← ptr2Ra p.htab
  bugOn (htabRa &&& sdr1Mask ≠ htabRa) "HTAB address 0x%x spills outside SDR1"
  let htab ← mmuMapRange none htab (p.htab &&& pageMask16M)
    (alignUp (p.htab + p.htabSize) (MB 16)) (htabRa &&& pageMask16M) ppRWXX .page16M
  let imageRa ← ptr2Ra p.imageStart
  let htab ← mmuMapRange none htab (p.imageStart &&& pageMask16M)
    (alignUp p.imageEnd (MB 16)) (imageRa &&& pageMask16M) ppRWXX .page16M
  let htab ← mmuMapRange none htab ailVectors ailAspaceEnd 0 ppRWXX .page4K
  return ⟨htab, slbInit slb⟩

/-- What an `mmu_init` that returns did. -/
theorem mmuInit_eq_ok {p : Placement} {slb : Slb} {mmu : Mmu} : mmuInit p slb = .ok mmu ↔
    hvAspace ≤ p.htab ∧
    (p.htab &&& ~~~hvAspace) &&& sdr1Mask = p.htab &&& ~~~hvAspace ∧
    hvAspace ≤ p.imageStart ∧ ∃ t₁ t₂ t₃,
      mmuMapRange none (Htab.zeroed (ptegCount p.ramSize)) (p.htab &&& pageMask16M)
        (alignUp (p.htab + p.htabSize) (MB 16)) ((p.htab &&& ~~~hvAspace) &&& pageMask16M) ppRWXX
        .page16M = .ok t₁ ∧
      mmuMapRange none t₁ (p.imageStart &&& pageMask16M) (alignUp p.imageEnd (MB 16))
        ((p.imageStart &&& ~~~hvAspace) &&& pageMask16M) ppRWXX .page16M = .ok t₂ ∧
      mmuMapRange none t₂ ailVectors ailAspaceEnd 0 ppRWXX .page4K = .ok t₃ ∧
      mmu = ⟨t₃, slbInit slb⟩ := by
  simp only [mmuInit, bind_eq_ok, bugOn_eq_ok, ptr2Ra_eq_ok]
  constructor
  · rintro ⟨ra, ⟨hle, rfl⟩, -, hsdr, t₁, h₁, ra', ⟨hle', rfl⟩, t₂, h₂, t₃, h₃, h⟩
    cases h
    exact ⟨hle, not_not.mp hsdr, hle', t₁, t₂, t₃, h₁, h₂, h₃, rfl⟩
  · rintro ⟨hle, hsdr, hle', t₁, t₂, t₃, h₁, h₂, h₃, rfl⟩
    exact ⟨_, ⟨hle, rfl⟩, (), not_not.mpr hsdr, t₁, h₁, _, ⟨hle', rfl⟩, t₂, h₂, t₃, h₃, rfl⟩

/-! ### `exc.c` -/

/-- What `exc_handler` does with an `EXC_ISI` or `EXC_DSI` whose status says the address, at or
above `HV_ASPACE`, is not mapped. -/
def excMapFault (guest : Option Guest) (t : Htab) (ea : U64) : Res Htab := do
  let ra ← ptr2Ra (ea &&& pageMask16M)
  mmuMap guest t (ea &&& pageMask16M) ra ppRWXX .page16M

/-! ### `rom.c` -/

/-- `rom_init`, where the disk and its files are there: what it leaves in the guest. -/
def romInit (guest : Option Guest) : Res Guest :=
  match guest with
  | none => .error ⟨"guest state invalid"⟩
  | some g => do
    bugOn (g.ramSize ≤ MB 16) "guest RAM too small"
    let arena := g.ramSize - MB 16
    return { g with rom := {
      cifTrampoline := 0x4
      claimArenaStart := arena
      claimArenaPtr := arena
      claimArenaEnd := g.ramSize
      stackStart := arena - MB 1
      stackEnd := arena } }

/-- Where the range of a `map` call ends. -/
def romMapEnd (virt size : U32) : U32 := alignUp (virt + size) 4096

/-- `rom_call`, the method `map`. -/
def romMap (guest : Guest) (t : Htab) (virt phys size : U32) : Res Htab :=
  if phys = virt then
    .ok t
  else do
    let ra ← ptr2Ra (phys.setWidth 64 + guest.ram)
    mmuMapRange (some guest) t (virt.setWidth 64) ((romMapEnd virt size).setWidth 64) ra ppRWRW
      .page4K

/-! ### Runs -/

/-- The page table with the SLB, and the guest once `guest_init` has made it. -/
structure BootState where
  mmu : Mmu
  guest : Option Guest

inductive BootEvent where
  | fault (ea : U64)
  | guestInit (ramSize ram : U64)
  | romInit
  | map (virt phys size : U32)
  deriving DecidableEq, Repr

/-- What `rom_init` leaves as it was. -/
theorem romInit_eq_ok {guest : Option Guest} {g' : Guest} (h : romInit guest = .ok g') :
    ∃ g rom, guest = some g ∧ g' = { g with rom } := by
  cases guest with
  | none => cases h
  | some g =>
    obtain ⟨-, h⟩ := bugOn_bind_eq_ok.mp h
    cases h
    exact ⟨g, _, rfl, rfl⟩

/-- The AIL segment, of 256M. -/
def InAilSegment (ea : U64) : Prop := ea >>> 28 = ailAspaceStart >>> 28

/-- A storage fault is raised for an address that an SLB entry translates and whose page has no
valid PTE; the faults considered are those of hypervisor addresses. -/
def BootEvent.Occurs (s : BootState) : BootEvent → Prop
  | .fault ea =>
    (InHv ea ∧ ∀ i e, ¬ s.mmu.htab.Slot i (hvPage (ea &&& pageMask16M)) e) ∨
      (InAilSegment ea ∧ ∀ i e, ¬ s.mmu.htab.Slot i (ailPage ea) e)
  | .guestInit _ _ => s.guest = none
  | _ => True

def BootEvent.exec (s : BootState) : BootEvent → Res BootState
  | .fault ea => do
    let htab ← excMapFault s.guest s.mmu.htab ea
    return { s with mmu := { s.mmu with htab } }
  | .guestInit ramSize ram => do
    let (guest, mmu) ← Prephv.guestInit s.mmu ramSize ram
    return ⟨mmu, some guest⟩
  | .romInit => do
    let guest ← Prephv.romInit s.guest
    return { s with guest := some guest }
  | .map virt phys size =>
    match s.guest with
    | none => .error ⟨"guest NULL"⟩
    | some guest => do
      let htab ← romMap guest s.mmu.htab virt phys size
      return { s with mmu := { s.mmu with htab } }

/-- `mmu_init` and then the events, each of which returns. -/
inductive BootRun (p : Placement) : List BootEvent → BootState → Prop where
  | init {slb : Slb} {mmu : Mmu} (h : mmuInit p slb = .ok mmu) : BootRun p [] ⟨mmu, none⟩
  | step {es : List BootEvent} {s s' : BootState} {e : BootEvent} (h : BootRun p es s)
      (he : e.Occurs s) (hs : e.exec s = .ok s') : BootRun p (es ++ [e]) s'

end Prephv
