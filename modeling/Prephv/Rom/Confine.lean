import Prephv.Mmu.Room

/-!
# Rom — Confinement

When the guest can reach real memory that is not its own.  The `map` method of `rom_call` adds the
guest's physical address to the address of guest RAM and checks it against nothing, so a call
gives the guest a page outside its RAM exactly when the physical range it asks for goes past the
end of RAM (`BootRun.confined_iff`).

Every event adds leaves (`Mmu/Leaves.lean`) and takes none away, so a table is confined when the
table before was and the added leaves are (`Htab.Adds.confined_leaves`).
-/

set_option autoImplicit false

namespace Prephv

open Words

/-- `ptr_2_ra(guest->ram)`. -/
def Guest.ramRa (g : Guest) : Nat := (g.ram &&& ~~~hvAspace).toNat

/-- The real address of a physical address of the guest. -/
theorem Guest.ramRa_add (g : Guest) {phys : U32} (hram : hvAspace ≤ g.ram)
    (hge : hvAspace ≤ phys.setWidth 64 + g.ram) :
    ((phys.setWidth 64 + g.ram) &&& ~~~hvAspace).toNat = g.ramRa + phys.toNat := by
  have hphys := phys.isLt
  have hge' : 2 ^ 63 ≤ (phys.setWidth 64 + g.ram).toNat := hge
  have hram' : 2 ^ 63 ≤ g.ram.toNat := hram
  have hlt := g.ram.isLt
  have hp64 : (phys.setWidth 64 : U64).toNat = phys.toNat := by
    rw [BitVec.toNat_setWidth]
    omega
  rw [Guest.ramRa, and_not_hvAspace, and_not_hvAspace]
  rw [BitVec.toNat_add, hp64] at hge' ⊢
  omega

/-- The real page lies inside guest RAM. -/
def Guest.InRam (g : Guest) (l : Leaf) : Prop :=
  g.ramRa ≤ l.ra.toNat ∧ l.ra.toNat + l.actual.size.toNat ≤ g.ramRa + g.ramSize.toNat

/-- Every valid PTE that grants problem-state access has its real page inside guest RAM. -/
def Htab.Confined (t : Htab) (g : Guest) : Prop :=
  ∀ i, (t.pte i).valid = true → (t.pte i).pp = ppRWRW → ∃ l, (t.pte i).Maps l ∧ g.InRam l

/-- A `map` call that maps nothing, or a physical range inside guest RAM. -/
def Guest.MapInRam (g : Guest) (virt phys size : U32) : Prop :=
  phys = virt ∨ (romMapEnd virt size).toNat ≤ virt.toNat ∨
    phys.toNat + ((romMapEnd virt size).toNat - virt.toNat) ≤ g.ramSize.toNat

theorem Htab.Adds.confined_leaves {t t' : Htab} {ls : List Leaf} (h : t.Adds t' ls) (g : Guest) :
    t'.Confined g ↔ t.Confined g ∧ ∀ l ∈ ls, l.pp = ppRWRW → g.InRam l := by
  constructor
  · intro hc
    refine ⟨fun i hv hpp => ?_, fun l hl hpp => ?_⟩
    · have hi := h.keep i hv
      rw [← hi] at hv hpp ⊢
      exact hc i hv hpp
    · obtain ⟨i, hm⟩ := h.all l hl
      obtain ⟨l', hm', hin⟩ := hc i hm.1 (hm.2.1.trans hpp)
      rwa [hm.unique hm']
  · rintro ⟨hc, hls⟩ i hv hpp
    rcases h.new i with hi | ⟨l, hl, hm⟩
    · rw [hi] at hv hpp ⊢
      exact hc i hv hpp
    · exact ⟨l, hm, hls l hl (hm.2.1.symm.trans hpp)⟩

/-- Leaves the problem state cannot use are no matter. -/
theorem Htab.Adds.confined_of_pp {t t' : Htab} {ls : List Leaf} (h : t.Adds t' ls)
    (hpp : ∀ l ∈ ls, l.pp = ppRWXX) (g : Guest) : t'.Confined g ↔ t.Confined g := by
  rw [h.confined_leaves]
  refine and_iff_left fun l hl hl' => ?_
  rw [hpp l hl] at hl'
  exact absurd hl' (by decide)

theorem rangeLeaves_pp {prot : U64} {actual : PageSize} :
    ∀ {n : Nat} {ra : U64}, ∀ l ∈ rangeLeaves prot actual n ra, l.pp = prot
  | 0, _, l, hl => by cases hl
  | n + 1, ra, l, hl => by
    rcases List.mem_cons.mp hl with rfl | hl
    · rfl
    · exact rangeLeaves_pp l hl

/-- A range given to the problem state at an offset from the start of guest RAM is confined when it
is empty or ends within RAM. -/
theorem mmuMapRange_confined {guest : Option Guest} {t t' : Htab} {eaStart eaEnd ra : U64}
    {actual : PageSize} {g : Guest} {off : Nat} (hra : ra.toNat = g.ramRa + off)
    (h : mmuMapRange guest t eaStart eaEnd ra ppRWRW actual = .ok t') :
    t'.Confined g ↔ t.Confined g ∧ (eaEnd.toNat ≤ eaStart.toNat ∨
      off + (eaEnd.toNat - eaStart.toNat) ≤ g.ramSize.toNat) := by
  rw [(mmuMapRange_adds (by decide) h).confined_leaves]
  refine and_congr_right fun _ => ?_
  have hpages := mmuMapRange_pages h
  have hdrop : (∀ l ∈ mapRangeLeaves eaStart eaEnd ra ppRWRW actual, l.pp = ppRWRW → g.InRam l) ↔
      ∀ l ∈ mapRangeLeaves eaStart eaEnd ra ppRWRW actual, g.InRam l :=
    forall₂_congr fun l hl => ⟨fun h => h (rangeLeaves_pp l hl), fun h _ => h⟩
  have hwithin := rangeLeaves_within ppRWRW actual g.ramRa (g.ramRa + g.ramSize.toNat)
    ((eaEnd.toNat - eaStart.toNat) / actual.size.toNat) ra
  rw [hpages] at hwithin
  rw [hdrop]
  by_cases hle : eaEnd.toNat ≤ eaStart.toNat
  · have hn : (eaEnd.toNat - eaStart.toNat) / actual.size.toNat = 0 := by
      rw [Nat.sub_eq_zero_of_le hle, Nat.zero_div]
    exact iff_of_true ((hwithin (by omega)).mpr fun h => absurd hn h) (Or.inl hle)
  · have hra' := mmuMapRange_ra (Nat.lt_of_not_le hle) h
    have hn : (eaEnd.toNat - eaStart.toNat) / actual.size.toNat ≠ 0 := fun hz => by
      rw [hz, Nat.zero_mul] at hpages
      omega
    refine (hwithin (by omega)).trans ?_
    simp only [ne_eq, hn, not_false_eq_true, true_imp_iff]
    omega

/-! ### The events -/

theorem excMapFault_confined {guest : Option Guest} {t t' : Htab} {ea : U64}
    (h : excMapFault guest t ea = .ok t') (g : Guest) : t'.Confined g ↔ t.Confined g := by
  obtain ⟨ra, -, h⟩ := bind_eq_ok.mp h
  refine (mmuMap_adds (by decide) h).confined_of_pp (fun l hl => ?_) g
  rw [List.mem_singleton.mp hl]

/-- `mmu_init` grants the problem state nothing. -/
theorem mmuInit_confined {p : Placement} {slb : Slb} {mmu : Mmu} (h : mmuInit p slb = .ok mmu)
    (g : Guest) : mmu.htab.Confined g := by
  obtain ⟨-, -, -, t₁, t₂, t₃, h₁, h₂, h₃, rfl⟩ := mmuInit_eq_ok.mp h
  have hpp : ppRWXX ∈ ppValues := by decide
  rw [(mmuMapRange_adds hpp h₃).confined_of_pp rangeLeaves_pp,
    (mmuMapRange_adds hpp h₂).confined_of_pp rangeLeaves_pp,
    (mmuMapRange_adds hpp h₁).confined_of_pp rangeLeaves_pp]
  intro i hv
  rw [Htab.zeroed, Pte.valid_zero] at hv
  cases hv

/-- `guest_init` gives the guest its own RAM, and nothing else. -/
theorem guestInit_confined {mmu mmu' : Mmu} {ramSize ram : U64} {g : Guest}
    (h : guestInit mmu ramSize ram = .ok (g, mmu')) (hc : ∀ g, mmu.htab.Confined g) :
    mmu'.htab.Confined g := by
  obtain ⟨t, -, -, hle, rfl, h₁, -, h₂⟩ := guestInit_eq_ok h
  have hram : (ram &&& ~~~hvAspace).toNat = (guestOn ramSize ram).ramRa + 0 := rfl
  have hsize : ramSize.toNat ≤ (0 : U64).toNat ∨
      0 + (ramSize.toNat - (0 : U64).toNat) ≤ (guestOn ramSize ram).ramSize.toNat := by
    right
    show 0 + (ramSize.toNat - 0) ≤ ramSize.toNat
    omega
  rw [mmuMapRange_confined hram h₂, mmuMapRange_confined hram h₁]
  exact ⟨⟨hc _, hsize⟩, hsize⟩

/-- A `map` call leaves the table confined when it was and the call is within RAM. -/
theorem romMap_confined {g : Guest} {t t' : Htab} {virt phys size : U32} (hram : hvAspace ≤ g.ram)
    (h : romMap g t virt phys size = .ok t') :
    t'.Confined g ↔ t.Confined g ∧ g.MapInRam virt phys size := by
  rw [romMap] at h
  split at h
  · next e =>
    cases h
    exact (and_iff_left (Or.inl e)).symm
  · next e =>
    obtain ⟨ra, hra, h⟩ := bind_eq_ok.mp h
    obtain ⟨hge, rfl⟩ := ptr2Ra_eq_ok.mp hra
    have hoff := g.ramRa_add hram hge
    have h32 : ∀ x : U32, (x.setWidth 64 : U64).toNat = x.toNat := fun x => by
      have := x.isLt
      rw [BitVec.toNat_setWidth]; omega
    rw [mmuMapRange_confined hoff h, h32, h32, Guest.MapInRam, or_iff_right e]

/-! ### Runs -/

/-- Before the guest exists nothing is given to the problem state; after, what its `map` calls
ask for. -/
theorem BootRun.confined_inv {p : Placement} {es : List BootEvent} {s : BootState}
    (h : BootRun p es s) :
    (s.guest = none → (∀ g, s.mmu.htab.Confined g) ∧
      ∀ virt phys size, .map virt phys size ∉ es) ∧
    ∀ g, s.guest = some g → hvAspace ≤ g.ram ∧ (s.mmu.htab.Confined g ↔
      ∀ virt phys size, .map virt phys size ∈ es → g.MapInRam virt phys size) := by
  induction h with
  | init h => exact ⟨fun _ => ⟨mmuInit_confined h, nofun⟩, nofun⟩
  | @step es s s' e h he hs ih =>
    -- an event that is not a `map` call changes none of the conditions
    have hmem : (∀ virt phys size, e ≠ .map virt phys size) → ∀ virt phys size,
        BootEvent.map virt phys size ∈ es ++ [e] ↔ .map virt phys size ∈ es := by
      intro hne virt phys size
      rw [List.mem_append, List.mem_singleton]
      exact or_iff_left fun e' => hne virt phys size e'.symm
    obtain ⟨ihNone, ihSome⟩ := ih
    cases e with
    | fault ea =>
      obtain ⟨t, hmap, hs⟩ := bind_eq_ok.mp hs
      cases hs
      simp only [hmem nofun, excMapFault_confined hmap]
      exact ⟨ihNone, ihSome⟩
    | guestInit ramSize ram =>
      obtain ⟨⟨g, mmu⟩, hinit, hs⟩ := bind_eq_ok.mp hs
      cases hs
      obtain ⟨hc, hno⟩ := ihNone he
      simp only [hmem nofun]
      refine ⟨nofun, fun g' hg' => ?_⟩
      cases hg'
      obtain ⟨t, -, -, hle, hg, -⟩ := guestInit_eq_ok hinit
      refine ⟨by rw [hg]; exact hle, iff_of_true (guestInit_confined hinit hc) ?_⟩
      exact fun virt phys size hmem => absurd hmem (hno virt phys size)
    | romInit =>
      obtain ⟨g', hinit, hs⟩ := bind_eq_ok.mp hs
      cases hs
      obtain ⟨g, rom, hg, rfl⟩ := romInit_eq_ok hinit
      simp only [hmem nofun]
      refine ⟨nofun, fun g' hg' => ?_⟩
      cases hg'
      exact ihSome g hg
    | map virt phys size =>
      simp only [BootEvent.exec] at hs
      split at hs
      · cases hs
      next g hg =>
        obtain ⟨t, hmap, hs⟩ := bind_eq_ok.mp hs
        cases hs
        refine ⟨fun hnone => (by rw [hg] at hnone; cases hnone), fun g' hg' => ?_⟩
        obtain rfl : g = g' := Option.some.inj (hg.symm.trans hg')
        obtain ⟨hle, hiff⟩ := ihSome g hg
        refine ⟨hle, ?_⟩
        rw [romMap_confined hle hmap, hiff]
        simp only [List.mem_append, List.mem_singleton]
        constructor
        · rintro ⟨hes, hin⟩ virt' phys' size' (hmem | hmem)
          · exact hes _ _ _ hmem
          · cases hmem
            exact hin
        · intro hall
          exact ⟨fun _ _ _ hmem => hall _ _ _ (Or.inl hmem), hall _ _ _ (Or.inr rfl)⟩

/-- **Guest memory confinement.**  After `mmu_init`, `guest_init` and any events that return, the
problem state reaches nothing but guest RAM if and only if every `map` call mapped nothing or a
physical range inside guest RAM. -/
theorem BootRun.confined_iff {p : Placement} {es : List BootEvent} {s : BootState} {g : Guest}
    (h : BootRun p es s) (hg : s.guest = some g) : s.mmu.htab.Confined g ↔
      ∀ virt phys size, .map virt phys size ∈ es → g.MapInRam virt phys size :=
  (h.confined_inv.2 g hg).2

/-- With 32 MiB of RAM the guest maps the page at physical 48 MiB, which is not its own. -/
theorem BootRun.not_confined : ¬ ∀ p es s g, BootRun p es s → s.guest = some g →
    s.mmu.htab.Confined g := by
  intro hall
  obtain ⟨s, g, h, hg, hsize⟩ := bootRun_sample 0x3000000 (by decide) (by decide)
  have hin := (h.confined_inv.2 g hg).2.mp (hall _ _ _ _ h hg) 0x2000000 0x3000000 0x1000
    (by simp)
  rw [Guest.MapInRam, hsize] at hin
  exact absurd hin (by decide)

/-- A call for a page inside RAM leaves the table confined. -/
theorem BootRun.confined_iff_sample : ∃ s g, BootRun samplePlacement
    [.guestInit sampleRamSize sampleRam, .romInit, .map 0x2000000 0x1000000 0x1000] s ∧
      s.guest = some g ∧ s.mmu.htab.Confined g := by
  obtain ⟨s, g, h, hg, hsize⟩ := bootRun_sample 0x1000000 (by decide) (by decide)
  refine ⟨s, g, h, hg, (h.confined_iff hg).mpr fun virt phys size hmem => ?_⟩
  simp only [List.mem_cons, List.not_mem_nil, or_false, reduceCtorEq, false_or,
    BootEvent.map.injEq] at hmem
  obtain ⟨rfl, rfl, rfl⟩ := hmem
  rw [Guest.MapInRam, hsize]
  decide

end Prephv
