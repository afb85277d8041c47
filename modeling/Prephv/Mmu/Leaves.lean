import Prephv.Mmu.Boot

/-!
# Mmu — Leaves

What the mapping calls put in the table, read back through the RPN, PP and size fields only and so
for any table, full or with duplicates: each call keeps every valid PTE and adds PTEs for the real
pages it was asked for (`Htab.Adds`).
-/

set_option autoImplicit false

namespace Prephv

open Words

/-- A real page, of a size, and the access it is given. -/
structure Leaf where
  ra : U64
  pp : U64
  actual : PageSize
  deriving DecidableEq, Repr

/-- A valid PTE that translates to a leaf. -/
def Pte.Maps (q : Pte) (l : Leaf) : Prop :=
  q.valid = true ∧ q.pp = l.pp ∧ (∃ base, q.sizes = some (base, l.actual)) ∧ q.ra l.actual = l.ra

theorem Pte.Maps.unique {q : Pte} {l l' : Leaf} (h : q.Maps l) (h' : q.Maps l') : l = l' := by
  obtain ⟨-, hpp, ⟨b, hs⟩, hra⟩ := h
  obtain ⟨-, hpp', ⟨b', hs'⟩, hra'⟩ := h'
  obtain ⟨ra, pp, actual⟩ := l
  obtain ⟨ra', pp', actual'⟩ := l'
  rw [hs] at hs'
  cases hs'
  dsimp only at hpp hpp' hra hra'
  rw [← hra, ← hra', ← hpp, ← hpp']

theorem encodePte_maps {p : Page} {e : Mapping} (he : e.Ok p.seg) :
    (encodePte p e).Maps ⟨e.ra, e.pp, e.actual⟩ :=
  ⟨encodePte_valid p e, encodePte_pp he, ⟨e.base, encodePte_sizes he⟩, encodePte_ra he⟩

/-- From `t` to `t'`, PTEs of the leaves were written over invalid ones. -/
structure Htab.Adds (t t' : Htab) (leaves : List Leaf) : Prop where
  keep : ∀ i, (t.pte i).valid = true → t'.pte i = t.pte i
  new : ∀ i, t'.pte i = t.pte i ∨ ∃ l ∈ leaves, (t'.pte i).Maps l
  all : ∀ l ∈ leaves, ∃ i, (t'.pte i).Maps l

theorem Htab.Adds.refl (t : Htab) : t.Adds t [] :=
  ⟨fun _ _ => rfl, fun _ => Or.inl rfl, fun _ hl => by cases hl⟩

theorem Htab.Adds.trans {t t' t'' : Htab} {ls ls' : List Leaf} (h : t.Adds t' ls)
    (h' : t'.Adds t'' ls') : t.Adds t'' (ls ++ ls') := by
  have hkeep : ∀ i, (t'.pte i).valid = true → t''.pte i = t'.pte i := h'.keep
  refine ⟨fun i hi => ?_, fun i => ?_, fun l hl => ?_⟩
  · have hi' := h.keep i hi
    rw [hkeep i (by rw [hi']; exact hi), hi']
  · rcases h'.new i with hi | ⟨l, hl, hm⟩
    · rw [hi]
      rcases h.new i with hi' | ⟨l, hl, hm⟩
      · exact Or.inl hi'
      · exact Or.inr ⟨l, List.mem_append_left _ hl, hm⟩
    · exact Or.inr ⟨l, List.mem_append_right _ hl, hm⟩
  · rcases List.mem_append.mp hl with hl | hl
    · obtain ⟨i, hm⟩ := h.all l hl
      exact ⟨i, by rw [hkeep i hm.1]; exact hm⟩
    · exact h'.all l hl

/-- A PTE written over an invalid one. -/
theorem Htab.adds_setPte {t : Htab} {i : Nat} {q : Pte} {l : Leaf}
    (hfree : (t.pte i).valid = false) (hq : q.Maps l) : t.Adds (t.setPte i q) [l] := by
  refine ⟨fun j hj => ?_, fun j => ?_, fun l' hl' => ?_⟩
  · exact Htab.setPte_of_ne t q fun e => by rw [e, hfree] at hj; cases hj
  · by_cases e : j = i
    · exact Or.inr ⟨l, List.mem_singleton.mpr rfl, by rw [e, Htab.setPte_self]; exact hq⟩
    · exact Or.inl (Htab.setPte_of_ne t q e)
  · obtain rfl := List.mem_singleton.mp hl'
    exact ⟨i, by rw [Htab.setPte_self]; exact hq⟩

/-- Mapping the base pages of a real page. -/
theorem mapVpnLoop_adds {pp ra : U64} {seg : SegSize} {actual : PageSize} (hpp : pp ∈ ppValues)
    (hact : seg.base = .page16M → actual = .page16M) :
    ∀ {n : Nat} {vpn : U64} {t t' : Htab},
      mapVpnLoop pp seg seg.base actual ra n vpn t = .ok (0, t') →
      t.Adds t' (List.replicate n ⟨ra, pp, actual⟩)
  | 0, vpn, t, t', h => by
    cases h
    exact .refl t
  | n + 1, vpn, t, t', h => by
    rw [mapVpnLoop] at h
    dsimp only at h
    rw [ptegIndex_toNat] at h
    split at h
    · cases h
    next i hfind =>
      obtain ⟨r, hr, h⟩ := bind_eq_ok.mp h
      obtain ⟨hra, rfl⟩ := rpnEncode_eq_ok.mp hr
      obtain ⟨-, hfree⟩ := GroupTable.findSlot_some hfind
      have he : Mapping.Ok seg ⟨seg.base, actual, ra, pp⟩ := ⟨rfl, hact, hra, hpp⟩
      have h₁ := Htab.adds_setPte (t := t) (by simpa using hfree)
        (encodePte_maps (p := ⟨vpn, seg⟩) he)
      exact h₁.trans (mapVpnLoop_adds hpp hact h)

theorem Htab.Adds.replicate {t t' : Htab} {n : Nat} {l : Leaf}
    (h : t.Adds t' (List.replicate (n + 1) l)) : t.Adds t' [l] := by
  have hmem : ∀ l', l' ∈ List.replicate (n + 1) l ↔ l' ∈ [l] := fun l' => by
    rw [List.mem_replicate, List.mem_singleton]
    exact ⟨fun h => h.2, fun h => ⟨by omega, h⟩⟩
  refine ⟨h.keep, fun i => ?_, fun l' hl' => h.all l' ((hmem l').mpr hl')⟩
  rcases h.new i with hi | ⟨l', hl', hm⟩
  · exact Or.inl hi
  · exact Or.inr ⟨l', (hmem l').mp hl', hm⟩

/-- The number of base pages of a call that does not stop at its size check. -/
theorem basePages_succ {base actual : PageSize} (h : ¬ actual.size < base.size) :
    (base = .page16M → actual = .page16M) ∧ ∃ n, actual.size.toNat / base.size.toNat = n + 1 := by
  cases base <;> cases actual
  · exact ⟨nofun, 0, rfl⟩
  · exact ⟨nofun, 4095, rfl⟩
  · exact absurd (by decide) h
  · exact ⟨fun _ => rfl, 0, rfl⟩

/-- `mmu_map` adds its real page. -/
theorem mmuMap_adds {guest : Option Guest} {t t' : Htab} {ea ra pp : U64} {actual : PageSize}
    (hpp : pp ∈ ppValues) (h : mmuMap guest t ea ra pp actual = .ok t') :
    t.Adds t' [⟨ra, pp, actual⟩] := by
  obtain ⟨vpn, seg, -, -, hsize, hloop⟩ := mmuMap_eq_ok h
  obtain ⟨hact, n, hn⟩ := basePages_succ hsize
  rw [hn] at hloop
  exact (mapVpnLoop_adds hpp hact hloop).replicate

/-- The real address `rpn_encode` accepts is aligned to the page and below `2 ^ 60`. -/
theorem ra_of_rpnFields {ra : U64} {base actual : PageSize}
    (h : ra &&& (rpnFields base actual).2 = ra) :
    2 ^ actual.shift ∣ ra.toNat ∧ ra.toNat < 2 ^ 60 := by
  have hmask : (rpnFields base actual).2 = ~~~(lowMask 64 actual.shift) &&& lowMask 64 60 := by
    cases base <;> cases actual <;> decide
  have hle : actual.shift ≤ 64 := by cases actual <;> decide
  rw [hmask, ← BitVec.and_assoc] at h
  have hlt : ra.toNat < 2 ^ 60 := by
    rw [← h, and_lowMask _ (by decide)]
    exact Nat.mod_lt _ (by decide)
  have hsub : ra &&& ~~~(lowMask 64 actual.shift) = ra := by
    rw [← h]
    ext i hi
    simp only [BitVec.getElem_and]
    cases ra[i] <;> cases (~~~(lowMask 64 actual.shift))[i] <;> simp
  exact ⟨(and_not_lowMask_eq_self ra hle).mp hsub, hlt⟩

/-- The real page of an `mmu_map` that returns ends below `2 ^ 60`. -/
theorem mmuMap_ra {guest : Option Guest} {t t' : Htab} {ea ra pp : U64} {actual : PageSize}
    (h : mmuMap guest t ea ra pp actual = .ok t') :
    ra.toNat + actual.size.toNat ≤ 2 ^ 60 := by
  obtain ⟨vpn, seg, -, -, hsize, hloop⟩ := mmuMap_eq_ok h
  obtain ⟨-, n, hn⟩ := basePages_succ hsize
  rw [hn, mapVpnLoop] at hloop
  dsimp only at hloop
  split at hloop
  · cases hloop
  obtain ⟨r, hr, -⟩ := bind_eq_ok.mp hloop
  obtain ⟨hdvd, hlt⟩ := ra_of_rpnFields (rpnEncode_eq_ok.mp hr).1
  have hpow : actual.size.toNat = 2 ^ actual.shift ∧ 2 ^ actual.shift ∣ 2 ^ 60 := by
    cases actual <;> exact ⟨rfl, by decide⟩
  rw [hpow.1]
  obtain ⟨a, ha⟩ := hdvd
  obtain ⟨b, hb⟩ := hpow.2
  rw [ha, hb] at hlt ⊢
  have := Nat.lt_of_mul_lt_mul_left hlt
  rw [← Nat.mul_succ]
  exact Nat.mul_le_mul_left _ this

/-- The leaves of `n` pages of a range. -/
def rangeLeaves (prot : U64) (actual : PageSize) : Nat → U64 → List Leaf
  | 0, _ => []
  | n + 1, ra => ⟨ra, prot, actual⟩ :: rangeLeaves prot actual n (ra + actual.size)

/-- The leaves of `mmu_map_range`. -/
def mapRangeLeaves (eaStart eaEnd raStart prot : U64) (actual : PageSize) : List Leaf :=
  rangeLeaves prot actual ((eaEnd.toNat - eaStart.toNat) / actual.size.toNat) raStart

theorem mapRangeLoop_adds {guest : Option Guest} {prot : U64} {actual : PageSize}
    (hpp : prot ∈ ppValues) : ∀ {n : Nat} {addr ra : U64} {t t' : Htab},
      mapRangeLoop guest prot actual n addr ra t = .ok t' →
      t.Adds t' (rangeLeaves prot actual n ra)
  | 0, addr, ra, t, t', h => by
    cases h
    exact .refl t
  | n + 1, addr, ra, t, t', h => by
    obtain ⟨t₁, hmap, h⟩ := bind_eq_ok.mp h
    exact (mmuMap_adds hpp hmap).trans (mapRangeLoop_adds hpp h)

theorem mapRangeLoop_ra {guest : Option Guest} {prot : U64} {actual : PageSize} :
    ∀ {n : Nat} {addr ra : U64} {t t' : Htab}, n ≠ 0 →
      mapRangeLoop guest prot actual n addr ra t = .ok t' →
      ra.toNat + n * actual.size.toNat ≤ 2 ^ 60
  | n + 1, addr, ra, t, t', _, h => by
    obtain ⟨t₁, hmap, h⟩ := bind_eq_ok.mp h
    have hra := mmuMap_ra hmap
    rw [Nat.succ_mul]
    by_cases hn : n = 0
    · subst hn; omega
    · have hrest := mapRangeLoop_ra hn h
      rw [BitVec.toNat_add, Nat.mod_eq_of_lt (by omega)] at hrest
      omega

/-- An empty range maps nothing. -/
theorem mmuMapRange_empty {guest : Option Guest} {t t' : Htab}
    {eaStart eaEnd raStart prot : U64} {actual : PageSize} (hle : eaEnd.toNat ≤ eaStart.toNat)
    (h : mmuMapRange guest t eaStart eaEnd raStart prot actual = .ok t') : t' = t := by
  obtain ⟨-, h⟩ := bugOn_bind_eq_ok.mp h
  rw [Nat.sub_eq_zero_of_le hle, Nat.zero_div] at h
  exact (Except.ok.inj h).symm

/-- The pages of a range that passes the check of `mmu_map_range` make up the range. -/
theorem mmuMapRange_pages {guest : Option Guest} {t t' : Htab}
    {eaStart eaEnd raStart prot : U64} {actual : PageSize}
    (h : mmuMapRange guest t eaStart eaEnd raStart prot actual = .ok t') :
    (eaEnd.toNat - eaStart.toNat) / actual.size.toNat * actual.size.toNat =
      eaEnd.toNat - eaStart.toNat := by
  obtain ⟨hmul, -⟩ := bugOn_bind_eq_ok.mp h
  by_cases hle : eaStart ≤ eaEnd
  · have hmod := congrArg BitVec.toNat (not_not.mp hmul)
    rw [BitVec.toNat_umod, BitVec.toNat_sub_of_le hle] at hmod
    exact Nat.div_mul_cancel (Nat.dvd_of_mod_eq_zero hmod)
  · have hle' : eaEnd.toNat ≤ eaStart.toNat := Nat.le_of_lt (Nat.lt_of_not_le hle)
    rw [Nat.sub_eq_zero_of_le hle', Nat.zero_div, Nat.zero_mul]

/-- What holds at an address, and is kept by mapping the page there, holds behind the pages that
are mapped from it on. -/
theorem mapRangeLoop_rule {guest : Option Guest} {prot d : U64} {actual : PageSize}
    {I : Nat → Htab → Prop} : ∀ (n : Nat) (addr : U64) {t t' : Htab},
    addr.toNat + n * actual.size.toNat < 2 ^ 64 →
    (∀ ea t t', addr.toNat ≤ ea.toNat → ea.toNat < addr.toNat + n * actual.size.toNat →
      mmuMap guest t ea (ea + d) prot actual = .ok t' → I ea.toNat t →
      I (ea.toNat + actual.size.toNat) t') →
    I addr.toNat t → mapRangeLoop guest prot actual n addr (addr + d) t = .ok t' →
    I (addr.toNat + n * actual.size.toNat) t'
  | 0, addr, t, t', _, _, hI, h => by
    cases h
    rwa [Nat.zero_mul]
  | n + 1, addr, t, t', hlt, hstep, hI, h => by
    have hpos : 0 < actual.size.toNat := by cases actual <;> decide
    rw [Nat.succ_mul] at hlt hstep ⊢
    have hadd : (addr + actual.size).toNat = addr.toNat + actual.size.toNat := by
      rw [BitVec.toNat_add]
      exact Nat.mod_eq_of_lt (by omega)
    obtain ⟨t₁, hmap, h⟩ := bind_eq_ok.mp h
    have hI₁ := hstep addr t t₁ (Nat.le_refl _) (by omega) hmap hI
    rw [← hadd] at hI₁
    rw [BitVec.add_assoc, BitVec.add_comm d, ← BitVec.add_assoc] at h
    have hI' := mapRangeLoop_rule n (addr + actual.size) (by omega)
      (fun ea t t' h₁ h₂ => hstep ea t t' (by omega) (by omega)) hI₁ h
    rw [hadd] at hI'
    rwa [Nat.add_comm (n * _), ← Nat.add_assoc]

/-- The rule for a range: what holds at its start, and is kept by mapping each of its pages, holds
at its end. -/
theorem mmuMapRange_rule {guest : Option Guest} {prot : U64} {actual : PageSize}
    {I : Nat → Htab → Prop} {eaStart eaEnd ra : U64} {t t' : Htab}
    (hstep : ∀ ea t t', eaStart.toNat ≤ ea.toNat → ea.toNat < eaEnd.toNat →
      mmuMap guest t ea (ea + (ra - eaStart)) prot actual = .ok t' → I ea.toNat t →
      I (ea.toNat + actual.size.toNat) t')
    (hI : I eaStart.toNat t) (h : mmuMapRange guest t eaStart eaEnd ra prot actual = .ok t') :
    I (eaStart.toNat + (eaEnd.toNat - eaStart.toNat)) t' := by
  have hcount := mmuMapRange_pages h
  have hlast := eaEnd.isLt
  have hfirst := eaStart.isLt
  have hra : ra = eaStart + (ra - eaStart) := by
    rw [BitVec.add_comm, BitVec.sub_add_cancel]
  obtain ⟨-, h⟩ := bugOn_bind_eq_ok.mp h
  rw [hra] at h
  rw [← hcount]
  exact mapRangeLoop_rule _ eaStart (by omega)
    (fun ea t t' h₁ h₂ => hstep ea t t' h₁ (by omega)) hI h

/-- The real pages of a range that is mapped end below `2 ^ 60`. -/
theorem mmuMapRange_ra {guest : Option Guest} {t t' : Htab} {eaStart eaEnd raStart prot : U64}
    {actual : PageSize} (hlt : eaStart.toNat < eaEnd.toNat)
    (h : mmuMapRange guest t eaStart eaEnd raStart prot actual = .ok t') :
    raStart.toNat + (eaEnd.toNat - eaStart.toNat) ≤ 2 ^ 60 := by
  have hcount := mmuMapRange_pages h
  rw [← hcount]
  refine mapRangeLoop_ra (fun hz => ?_) (bugOn_bind_eq_ok.mp h).2
  rw [hz, Nat.zero_mul] at hcount
  omega

theorem mmuMapRange_adds {guest : Option Guest} {t t' : Htab} {eaStart eaEnd raStart prot : U64}
    {actual : PageSize} (hpp : prot ∈ ppValues)
    (h : mmuMapRange guest t eaStart eaEnd raStart prot actual = .ok t') :
    t.Adds t' (mapRangeLeaves eaStart eaEnd raStart prot actual) :=
  mapRangeLoop_adds hpp (bugOn_bind_eq_ok.mp h).2

/-- The leaves of a range lie in a block of real memory when the range does. -/
theorem rangeLeaves_within (prot : U64) (actual : PageSize) (lo hi : Nat) :
    ∀ (n : Nat) (ra : U64), ra.toNat + n * actual.size.toNat < 2 ^ 64 →
      ((∀ l ∈ rangeLeaves prot actual n ra,
          lo ≤ l.ra.toNat ∧ l.ra.toNat + l.actual.size.toNat ≤ hi) ↔
        (n ≠ 0 → lo ≤ ra.toNat ∧ ra.toNat + n * actual.size.toNat ≤ hi))
  | 0, ra, _ => by simp [rangeLeaves]
  | n + 1, ra, hlt => by
    have hpos : 0 < actual.size.toNat := by cases actual <;> decide
    rw [Nat.succ_mul] at hlt ⊢
    have hnext : (ra + actual.size).toNat = ra.toNat + actual.size.toNat := by
      rw [BitVec.toNat_add]
      exact Nat.mod_eq_of_lt (by omega)
    rw [rangeLeaves, List.forall_mem_cons,
      rangeLeaves_within prot actual lo hi n (ra + actual.size) (by omega), hnext]
    dsimp only
    cases n with
    | zero => simp
    | succ n =>
      rw [Nat.succ_mul] at hlt ⊢
      constructor
      · rintro ⟨h₁, h₂⟩ -
        have := h₂ (by omega)
        omega
      · intro h
        have := h (by omega)
        refine ⟨by omega, fun _ => by omega⟩

end Prephv
