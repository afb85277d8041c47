import Prephv.Mmu.Slots
import Prephv.Mmu.Unique

/-!
# Mmu — MapsTo

What a mapping call does to the translations of a page: it adds that of its own pages and takes none
away, as it writes over no valid PTE (`mmuMapRange_mapsTo`).  A page may have several.

`mmuMapRange_writes` is the rule for it: what holds up to an address, and is kept by the PTE of the
page there, holds at the end.
-/

set_option autoImplicit false

namespace Prephv

open Words

/-! ### Ranges -/

/-- An address has one page of the size, a page of one of the four kinds. -/
def OnePage (actual : PageSize) (p : Page) (r : PageSize × List Page) : Prop :=
  p.Ok ∧ r = (actual, [p])

section Rule

variable {guest : Option Guest} {prot d : U64} {actual : PageSize} {page : U64 → Page}
  {I : Nat → Htab → Prop}

/-- A range adds the PTE of each of its pages: what holds at its start, and is kept by a PTE that is
written where the page's search and the free slots say, holds at its end. -/
theorem mmuMapRange_writes {eaStart eaEnd ra : U64} {t t' : Htab} (hpp : prot ∈ ppValues)
    (hle : eaStart.toNat ≤ eaEnd.toNat)
    (hpages : ∀ ea r, eaStart.toNat ≤ ea.toNat → ea.toNat < eaEnd.toNat →
      2 ^ actual.shift ∣ ea.toNat → eaPages guest ea actual = .ok r →
      OnePage actual (page ea) r)
    (hstep : ∀ ea t i, eaStart.toNat ≤ ea.toNat → ea.toNat < eaEnd.toNat →
      2 ^ actual.shift ∣ ea.toNat → (page ea).Ok →
      Mapping.Ok (page ea).seg ⟨actual, actual, ea + (ra - eaStart), prot⟩ →
      i / ptesPerGroup = (page ea).pteg t.hashMask → (t.pte i).valid = false → I ea.toNat t →
      I (ea.toNat + actual.size.toNat)
        (t.setPte i (encodePte (page ea) ⟨actual, actual, ea + (ra - eaStart), prot⟩)))
    (hI : I eaStart.toNat t) (h : mmuMapRange guest t eaStart eaEnd ra prot actual = .ok t') :
    I eaEnd.toNat t' := by
  rw [← Nat.add_sub_of_le hle]
  refine mmuMapRange_rule (fun ea t t' h₁ h₂ hmap hI => ?_) hI h
  obtain ⟨vpn, seg, hea, halign, -⟩ := mmuMap_eq_ok hmap
  have hd := (aligned_iff ea actual).mp halign
  obtain ⟨hok, hr⟩ := hpages ea _ h₁ h₂ hd hea
  rw [hr] at hea
  obtain ⟨-, he, i, hi, hfree, rfl⟩ := mmuMap_writes hpp hea hmap
  exact hstep ea t i h₁ h₂ hd hok he hi hfree hI

end Rule

/-! ### Translations -/

/-- A valid PTE in the page's PTEG, of its AVPN, segment size and page size, holds the real
address. -/
def Htab.MapsTo (t : Htab) (p : Page) (ra : U64) : Prop :=
  ∃ i, t.Accepts i p ∧ (t.pte i).seg = some p.seg ∧ ∃ pp, (t.pte i).Maps ⟨ra, pp, p.seg.base⟩

section

variable {t t' : Htab} {p q : Page} {e : Mapping} {i : Nat} {ra : U64}

/-- A page's PTE written over an invalid one adds the page's translation. -/
theorem Htab.mapsTo_setPte (hm : KeepsLow t.hashMask) (hp : p.Ok) (hq : q.Ok) (he : e.Ok q.seg)
    (hactual : e.actual = q.seg.base) (hi : i / ptesPerGroup = q.pteg t.hashMask)
    (hfree : (t.pte i).valid = false) :
    (t.setPte i (encodePte q e)).MapsTo p ra ↔ t.MapsTo p ra ∨ p = q ∧ ra = e.ra := by
  have hmaps := encodePte_maps he
  rw [hactual] at hmaps
  constructor
  · rintro ⟨j, hj, hseg, pp, hl⟩
    rcases (Htab.accepts_setPte hm hp hq he.base hi).mp hj with ⟨rfl, rfl⟩ | ⟨hne, hj⟩
    · rw [Htab.setPte_self] at hl
      have hsame := hl.unique hmaps
      exact Or.inr ⟨rfl, congrArg Leaf.ra hsame⟩
    · rw [Htab.setPte_of_ne t _ hne] at hseg hl
      exact Or.inl ⟨j, hj, hseg, pp, hl⟩
  · rintro (⟨j, hj, hseg, pp, hl⟩ | ⟨rfl, rfl⟩)
    · have hne : j ≠ i := by
        rintro rfl
        rw [hj.valid] at hfree
        cases hfree
      refine ⟨j, (Htab.accepts_setPte hm hp hq he.base hi).mpr (Or.inr ⟨hne, hj⟩), ?_, pp, ?_⟩
      · rwa [Htab.setPte_of_ne t _ hne]
      · rwa [Htab.setPte_of_ne t _ hne]
    · refine ⟨i, (Htab.accepts_setPte hm hq hq he.base hi).mpr (Or.inl ⟨rfl, rfl⟩), ?_, e.pp, ?_⟩
      · rw [Htab.setPte_self, encodePte_seg]
      · rwa [Htab.setPte_self]

/-- The translations a range adds: those of its pages. -/
theorem mmuMapRange_mapsTo (page : U64 → Page) {guest : Option Guest} {prot : U64}
    {actual : PageSize} {eaStart eaEnd : U64} (hpp : prot ∈ ppValues)
    (hm : KeepsLow t.hashMask) (hle : eaStart.toNat ≤ eaEnd.toNat)
    (hpages : ∀ ea r, eaStart.toNat ≤ ea.toNat → ea.toNat < eaEnd.toNat →
      2 ^ actual.shift ∣ ea.toNat → eaPages guest ea actual = .ok r →
      OnePage actual (page ea) r)
    (h : mmuMapRange guest t eaStart eaEnd ra prot actual = .ok t') :
    t'.hashMask = t.hashMask ∧ ∀ p, p.Ok → ∀ x, t'.MapsTo p x ↔ t.MapsTo p x ∨
      ∃ ea : U64, eaStart.toNat ≤ ea.toNat ∧ ea.toNat < eaEnd.toNat ∧
        2 ^ actual.shift ∣ ea.toNat ∧ p = page ea ∧ x = ea + (ra - eaStart) := by
  have hsize : actual.size.toNat = 2 ^ actual.shift := by cases actual <;> rfl
  have hpos : 0 < actual.size.toNat := by cases actual <;> decide
  refine mmuMapRange_writes (I := fun stop t' => t'.hashMask = t.hashMask ∧ ∀ p, p.Ok → ∀ x,
    t'.MapsTo p x ↔ t.MapsTo p x ∨
      ∃ ea : U64, eaStart.toNat ≤ ea.toNat ∧ ea.toNat < stop ∧
        2 ^ actual.shift ∣ ea.toNat ∧ p = page ea ∧ x = ea + (ra - eaStart))
    hpp hle hpages ?_ ?_ h
  · rintro ea t₁ i h₁ h₂ hd hok he hi hfree ⟨hmask, hiff⟩
    refine ⟨hmask, fun p hp x => ?_⟩
    rw [Htab.mapsTo_setPte (by rwa [hmask]) hp hok he he.base hi hfree,
      hiff p hp, or_assoc]
    refine or_congr_right ?_
    constructor
    · rintro (⟨ea', h₁', h₂', hrest⟩ | ⟨rfl, rfl⟩)
      · exact ⟨ea', h₁', by omega, hrest⟩
      · exact ⟨ea, h₁, by omega, hd, rfl, rfl⟩
    · rintro ⟨ea', h₁', h₂', hd', rfl, rfl⟩
      -- an aligned address below the end of the page is at or below its start
      by_cases hlt : ea'.toNat < ea.toNat
      · exact Or.inl ⟨ea', h₁', hlt, hd', rfl, rfl⟩
      · rw [hsize] at h₂'
        have hsame : ea' = ea := by
          apply BitVec.eq_of_toNat_eq
          obtain ⟨a, ha⟩ := hd
          obtain ⟨b, hb⟩ := hd'
          rw [ha, hb] at hlt h₂' ⊢
          rw [← Nat.mul_succ] at h₂'
          have hab := Nat.lt_of_mul_lt_mul_left h₂'
          have hba := Nat.le_of_mul_le_mul_left (Nat.le_of_not_lt hlt) (Nat.two_pow_pos _)
          congr 1
          omega
        rw [hsame]
        exact Or.inr ⟨rfl, rfl⟩
  · refine ⟨rfl, fun p _ x => ?_⟩
    rw [or_iff_left]
    rintro ⟨ea, h₁, h₂, -⟩
    omega

/-- The translations of guest addresses that a range of guest addresses adds. -/
theorem vmRange_mapsTo {g : Guest} {eaStart eaEnd : U64} (hmmu : g.MmuIs true)
    (hsr : ∀ i < srCount, g.srAt i = BitVec.ofNat 32 i) (hm : KeepsLow t.hashMask)
    (hle : eaStart.toNat ≤ eaEnd.toNat) (hlt : eaEnd.toNat ≤ 2 ^ 63)
    (h : mmuMapRange (some g) t eaStart eaEnd ra ppRWRW .page4K = .ok t') :
    t'.hashMask = t.hashMask ∧ ∀ ea : U64, ea.toNat < 2 ^ 32 → 2 ^ 12 ∣ ea.toNat → ∀ x,
      t'.MapsTo (vmPage ea) x ↔ t.MapsTo (vmPage ea) x ∨
        eaStart.toNat ≤ ea.toNat ∧ ea.toNat < eaEnd.toNat ∧ x = ea + (ra - eaStart) := by
  obtain ⟨hmask, hiff⟩ := mmuMapRange_mapsTo vmPage (by decide) hm hle
    (fun ea r _ h₂ _ hr => by
      have hea := vm_of_eaPages (by omega) hr
      rw [eaPages_vmOn hea rfl hmmu hsr] at hr
      exact ⟨vmPage_ok hea, (Except.ok.inj hr).symm⟩) h
  refine ⟨hmask, fun ea hea hd x => ?_⟩
  rw [hiff _ (vmPage_ok hea)]
  refine or_congr_right ⟨?_, fun ⟨h₁, h₂, hx⟩ => ⟨ea, h₁, h₂, hd, rfl, hx⟩⟩
  rintro ⟨ea', h₁, h₂, hd', he, rfl⟩
  have hv : (vmPage ea).vpn.toNat = (vmPage ea').vpn.toNat := by rw [he]
  rw [vmPage_vpn, vmPage_vpn] at hv
  have hd'' : 2 ^ 12 ∣ ea'.toNat := hd'
  have hsame : ea' = ea := BitVec.eq_of_toNat_eq (by omega)
  rw [hsame] at h₁ h₂ ⊢
  exact ⟨h₁, h₂, rfl⟩

/-- The pages of another kind add no translation of a guest address. -/
theorem other_mapsTo (page : U64 → Page) {guest : Option Guest} {prot : U64}
    {actual : PageSize} {eaStart eaEnd : U64} (hpp : prot ∈ ppValues)
    (hm : KeepsLow t.hashMask) (hle : eaStart.toNat ≤ eaEnd.toNat)
    (hpages : ∀ ea r, eaStart.toNat ≤ ea.toNat → ea.toNat < eaEnd.toNat →
      2 ^ actual.shift ∣ ea.toNat → eaPages guest ea actual = .ok r →
      OnePage actual (page ea) r)
    (hother : ∀ ea, (page ea).seg = .seg1T)
    (h : mmuMapRange guest t eaStart eaEnd ra prot actual = .ok t') :
    t'.hashMask = t.hashMask ∧ ∀ ea : U64, ea.toNat < 2 ^ 32 → ∀ x,
      t'.MapsTo (vmPage ea) x ↔ t.MapsTo (vmPage ea) x := by
  obtain ⟨hmask, hiff⟩ := mmuMapRange_mapsTo page hpp hm hle hpages h
  refine ⟨hmask, fun ea hea x => ?_⟩
  rw [hiff _ (vmPage_ok hea)]
  refine or_iff_left ?_
  rintro ⟨ea', -, -, -, he, -⟩
  have hseg := hother ea'
  rw [← he] at hseg
  cases hseg

end

end Prephv
