import Prephv.Mmu.Ea
import Prephv.Mmu.Pte

/-!
# Mmu — Refinement

The hashed page table refines a partial map from base pages to mappings (`runCalls_refines`): after
any calls that return, where no call maps a page that is mapped at that moment, the valid PTEs are
one for each mapped page, in its PTEG, decoding to the page and to what it was mapped to.  An
`mmu_unmap` in the run invalidates the PTEs of the pages it names and changes no other.

The invariant `Htab.Rep` instantiates the group table of `Lib/GroupTable.lean`: keys are pages,
groups are PTEGs, and the cell of a mapped page is `encodePte`.  Mapping a page is an insertion,
as the slot found is free.  Unmapping is a removal of whatever key sits in the slot found, and that
key is the page asked for because its PTEG and its AVPN are (`pteg_avpn_inj`).
-/

set_option autoImplicit false

namespace Prephv

open Words

/-! ### The abstract map -/

/-- What each base page is mapped to. -/
abbrev PageMap := Page → Option Mapping

namespace PageMap

def empty : PageMap := fun _ => none

/-- Maps the pages one after the other; there is no result when one is mapped at its turn. -/
def map (e : Mapping) : List Page → PageMap → Option PageMap
  | [], m => some m
  | p :: ps, m =>
    match m p with
    | some _ => none
    | none => map e ps (Function.update m p (some e))

def unmap : List Page → PageMap → PageMap
  | [], m => m
  | p :: ps, m => unmap ps (Function.update m p none)

end PageMap

/-! ### Calls -/

/-- A call of the interface of `mmu.c`. -/
inductive MmuCall where
  | map (ea ra pp : U64) (actual : PageSize)
  | unmap (ea : U64) (actual : PageSize)
  | mapRange (eaStart eaEnd raStart prot : U64) (actual : PageSize)
  deriving DecidableEq, Repr

def MmuCall.exec (guest : Option Guest) (t : Htab) : MmuCall → Res Htab
  | .map ea ra pp actual => mmuMap guest t ea ra pp actual
  | .unmap ea actual => mmuUnmap guest t ea actual
  | .mapRange eaStart eaEnd raStart prot actual =>
    mmuMapRange guest t eaStart eaEnd raStart prot actual

/-- The addresses and the protection the claim is about. -/
def MmuCall.Ok (guest : Option Guest) : MmuCall → Prop
  | .map ea _ pp actual => EaOk guest ea actual ∧ pp ∈ ppValues
  | .unmap ea actual => EaOk guest ea actual
  | .mapRange eaStart eaEnd _ prot actual =>
    (∀ ea, eaStart ≤ ea → ea < eaEnd → EaOk guest ea actual) ∧ prot ∈ ppValues

/-- The abstract effect of `mmu_map`. -/
def specMap (guest : Option Guest) (ea ra pp : U64) (actual : PageSize) (m : PageMap) :
    Option PageMap :=
  match eaPages guest ea actual with
  | .ok (base, ps) => m.map ⟨base, actual, ra, pp⟩ ps
  | .error _ => none

/-- The abstract effect of `n` pages of `mmu_map_range`. -/
def specMapRange (guest : Option Guest) (prot : U64) (actual : PageSize) :
    Nat → U64 → U64 → PageMap → Option PageMap
  | 0, _, _, m => some m
  | n + 1, addr, ra, m =>
    (specMap guest addr ra prot actual m).bind
      (specMapRange guest prot actual n (addr + actual.size) (ra + actual.size))

/-- The abstract effect of a call. -/
def MmuCall.spec (guest : Option Guest) (m : PageMap) : MmuCall → Option PageMap
  | .map ea ra pp actual => specMap guest ea ra pp actual m
  | .unmap ea actual =>
    match eaPages guest ea actual with
    | .ok (_, ps) => some (m.unmap ps)
    | .error _ => none
  | .mapRange eaStart eaEnd raStart prot actual =>
    specMapRange guest prot actual ((eaEnd.toNat - eaStart.toNat) / actual.size.toNat) eaStart
      raStart m

/-- A run of calls, each with the guest state it is made in. -/
def runCalls : List (Option Guest × MmuCall) → Htab → Res Htab
  | [], t => .ok t
  | (guest, c) :: cs, t => do runCalls cs (← c.exec guest t)

/-- The abstract run; there is none when a call maps a mapped page. -/
def specCalls : List (Option Guest × MmuCall) → PageMap → Option PageMap
  | [], m => some m
  | (guest, c) :: cs, m => (c.spec guest m).bind (specCalls cs)

/-! ### What the table means -/

/-- The table `mmu_init` leaves for `n` PTEGs: zeroed, with its hash mask. -/
def Htab.zeroed (n : U64) : Htab := ⟨fun _ => ⟨0, 0⟩, n - 1⟩

/-- Slot `i` translates page `p`, to `e`. -/
def Htab.Slot (t : Htab) (i : Nat) (p : Page) (e : Mapping) : Prop :=
  (t.pte i).decode (i / ptesPerGroup) = some (p, e)

/-- The valid PTEs are exactly one for each mapped page, in its PTEG, and decode to its mapping. -/
structure Htab.Represents (t : Htab) (m : PageMap) : Prop where
  valid : ∀ i, (t.pte i).valid = true → ∃ p e, t.Slot i p e ∧ m p = some e ∧
    i / ptesPerGroup = (vpnHash p.vpn p.seg p.seg.base &&& t.hashMask).toNat
  mapped : ∀ p e, m p = some e → ∃! i, ∃ e', t.Slot i p e'

/-- From `t` to `t'`, exactly the PTEs of the pages become invalid. -/
def Htab.Invalidates (t t' : Htab) (ps : List Page) : Prop :=
  ∀ i, ((∃ p ∈ ps, ∃ e, t.Slot i p e) → (t'.pte i).valid = false) ∧
    ((¬ ∃ p ∈ ps, ∃ e, t.Slot i p e) → t'.pte i = t.pte i)

/-! ### The invariant -/

/-- The table stores the PTEs of the map's pages, and these are pages and mappings the code can
write. -/
structure Htab.Rep (t : Htab) (m : PageMap) : Prop where
  keepsLow : KeepsLow t.hashMask
  ok : ∀ {p e}, m p = some e → p.Ok ∧ e.Ok p.seg
  stores : GroupTable.Stores ptesPerGroup (Page.pteg t.hashMask) Pte.valid t.pte
    fun p => (m p).map (encodePte p)

/-- The cells after one page of the map changed. -/
theorem cells_update (m : PageMap) (p : Page) (o : Option Mapping) :
    (fun q => (Function.update m p o q).map (encodePte q)) =
      Function.update (fun q => (m q).map (encodePte q)) p (o.map (encodePte p)) := by
  funext q
  exact Function.apply_update (fun q => Option.map (encodePte q)) m p o q

section
variable {t : Htab} {m : PageMap}

theorem Htab.rep_zeroed {n : U64} (hn : 2 ^ 11 ∣ n.toNat) (hpos : 0 < n.toNat) :
    (Htab.zeroed n).Rep PageMap.empty where
  keepsLow := keepsLow_sub_one hn hpos
  ok := by rintro p e ⟨⟩
  stores := GroupTable.Stores.empty fun _ => Pte.valid_zero 0

/-- A valid PTE is that of a mapped page, and sits in its PTEG. -/
theorem Htab.Rep.exists_page (h : t.Rep m) {i : Nat} (hi : (t.pte i).valid = true) :
    ∃ p e, m p = some e ∧ t.pte i = encodePte p e ∧
      i / ptesPerGroup = p.pteg t.hashMask := by
  obtain ⟨p, hp, hg⟩ := h.stores.exists_key hi
  obtain ⟨e, he, hc⟩ := Option.map_eq_some_iff.mp hp
  exact ⟨p, e, he, hc.symm, hg⟩

/-- The slots of the table, read through `Pte.decode`. -/
theorem Htab.Rep.slot_iff (h : t.Rep m) {i : Nat} {p : Page}
    {e : Mapping} : t.Slot i p e ↔
      m p = some e ∧ t.pte i = encodePte p e ∧ i / ptesPerGroup = p.pteg t.hashMask := by
  constructor
  · intro hs
    have hv : (t.pte i).valid = true := by
      by_contra hv
      rw [Htab.Slot, Pte.decode, if_neg hv] at hs
      cases hs
    obtain ⟨q, e', hq, hc, hg⟩ := h.exists_page hv
    obtain ⟨hqo, heo⟩ := h.ok hq
    rw [Htab.Slot, hc, hg, decode_encodePte h.keepsLow hqo heo] at hs
    cases hs
    exact ⟨hq, hc, hg⟩
  · rintro ⟨hm, hc, hg⟩
    obtain ⟨hpo, heo⟩ := h.ok hm
    rw [Htab.Slot, hc, hg, decode_encodePte h.keepsLow hpo heo]

theorem Htab.Rep.represents (h : t.Rep m) : t.Represents m where
  valid i hi := by
    obtain ⟨p, e, hm, hc, hg⟩ := h.exists_page hi
    exact ⟨p, e, h.slot_iff.mpr ⟨hm, hc, hg⟩, hm, hg⟩
  mapped p e hm := by
    refine h.stores.existsUnique (k := p) (c := encodePte p e) (by rw [hm]; rfl) ?_ ?_
    · rintro i ⟨e', hs⟩
      rw [(h.slot_iff.mp hs).2.1]
      exact encodePte_valid p e'
    · intro i q hq hg
      obtain ⟨e', he', hc⟩ := Option.map_eq_some_iff.mp hq
      have hslot : t.Slot i q e' := h.slot_iff.mpr ⟨he', hc.symm, hg⟩
      constructor
      · rintro ⟨e'', hs⟩
        have := hslot.symm.trans hs
        cases this
        rfl
      · rintro rfl
        exact ⟨e', hslot⟩

/-- No page has two slots. -/
theorem Htab.Rep.slot_inj (h : t.Rep m) {i j : Nat} {p : Page}
    {e e' : Mapping} (hi : t.Slot i p e) (hj : t.Slot j p e') : i = j := by
  obtain ⟨hm, -⟩ := h.slot_iff.mp hi
  exact (h.represents.mapped p e hm).unique ⟨e, hi⟩ ⟨e', hj⟩

/-- The index of a page's first PTE is its PTEG's. -/
theorem ptegIndex_toNat (hashMask vpn : U64) (seg : SegSize) :
    (ptegIndex hashMask vpn seg seg.base).toNat =
      Page.pteg hashMask ⟨vpn, seg⟩ * ptesPerGroup := by
  have hlt : (vpnHash vpn seg seg.base).toNat < 2 ^ 39 := by
    rw [vpnHash, toNat_and_hash39]
    exact Nat.mod_lt _ (by decide)
  have hle : (vpnHash vpn seg seg.base &&& hashMask).toNat ≤
      (vpnHash vpn seg seg.base).toNat := by
    rw [BitVec.toNat_and]
    exact Nat.and_le_left
  have h8 : (BitVec.ofNat 64 ptesPerGroup).toNat = 8 := rfl
  rw [ptegIndex, BitVec.toNat_mul, Page.pteg, h8, ptesPerGroup]
  exact Nat.mod_eq_of_lt (by omega)

/-! ### Mapping -/

theorem rpnEncode_eq_ok {ra r : U64} {base actual : PageSize} :
    rpnEncode ra base actual = .ok r ↔ ra &&& (rpnFields base actual).2 = ra ∧
      r = (ra &&& (rpnFields base actual).2) ||| ((rpnFields base actual).1 <<< pteRLpShift) := by
  rw [rpnEncode, bugOn_bind_eq_ok, not_not]
  refine and_congr_right fun _ => ?_
  simp [pure, Except.pure, eq_comm]

/-- Mapping pages one after the other maps them in the abstract map. -/
theorem mapVpnLoop_rep {pp ra : U64} {seg : SegSize} {actual : PageSize} (hpp : pp ∈ ppValues)
    (hact : seg.base = .page16M → actual = .page16M) :
    ∀ {n : Nat} {vpn : U64} {t t' : Htab} {m m' : PageMap},
      (∀ p ∈ pagesFrom seg seg.base n vpn, p.Ok) → t.Rep m →
      mapVpnLoop pp seg seg.base actual ra n vpn t = .ok (0, t') →
      m.map ⟨seg.base, actual, ra, pp⟩ (pagesFrom seg seg.base n vpn) = some m' → t'.Rep m'
  | 0, vpn, t, t', m, m', _, h, hrun, hspec => by
    cases hrun; cases hspec; exact h
  | n + 1, vpn, t, t', m, m', hps, h, hrun, hspec => by
    rw [mapVpnLoop] at hrun
    dsimp only at hrun
    rw [ptegIndex_toNat] at hrun
    split at hrun
    · cases hrun
    next i hfind =>
      obtain ⟨r, hr, hrun⟩ := bind_eq_ok.mp hrun
      obtain ⟨hra, rfl⟩ := rpnEncode_eq_ok.mp hr
      rw [pagesFrom, PageMap.map] at hspec
      split at hspec
      · cases hspec
      next hnone =>
        obtain ⟨hg, hfree⟩ := GroupTable.findSlot_some hfind
        have hpo : Page.Ok ⟨vpn, seg⟩ := hps _ List.mem_cons_self
        have heo : Mapping.Ok seg ⟨seg.base, actual, ra, pp⟩ := ⟨rfl, hact, hra, hpp⟩
        refine mapVpnLoop_rep hpp hact (fun p hp => hps p (List.mem_cons_of_mem _ hp)) ?_ hrun hspec
        refine ⟨h.keepsLow, fun {p e} hm => ?_, ?_⟩
        · by_cases e₁ : p = ⟨vpn, seg⟩
          · subst e₁
            rw [Function.update_self] at hm
            cases hm
            exact ⟨hpo, heo⟩
          · rw [Function.update_of_ne e₁] at hm
            exact h.ok hm
        · rw [cells_update]
          exact h.stores.insert (by rw [hnone]; rfl) hg (by simpa using hfree)
            (encodePte_valid ⟨vpn, seg⟩ ⟨seg.base, actual, ra, pp⟩)

theorem mmuMap_rep {guest : Option Guest} {ea ra pp : U64} {actual : PageSize}
    {t t' : Htab} {m m' : PageMap} (hea : EaOk guest ea actual) (hpp : pp ∈ ppValues)
    (h : t.Rep m) (hrun : mmuMap guest t ea ra pp actual = .ok t')
    (hspec : specMap guest ea ra pp actual m = some m') : t'.Rep m' := by
  obtain ⟨vpn, seg, hpages, halign, hsize, hloop⟩ := mmuMap_eq_ok hrun
  rw [specMap, hpages] at hspec
  refine mapVpnLoop_rep hpp ?_ (eaPages_ok hea halign hpages) h hloop hspec
  intro hb
  cases actual with
  | page4K => rw [hb] at hsize; exact absurd (by decide) hsize
  | page16M => rfl

/-! ### Unmapping -/

/-- The slot a search for a page finds is the page's. -/
theorem Htab.Rep.slot_of_find (h : t.Rep m) {vpn : U64}
    {seg : SegSize} (hp : Page.Ok ⟨vpn, seg⟩) {i : Nat}
    (hfind : GroupTable.findSlot ptesPerGroup
      (fun p => p.valid && pteVCompare p.v (avpnEncode vpn seg.base)) t.pte
      (Page.pteg t.hashMask ⟨vpn, seg⟩ * ptesPerGroup) = some i) :
    (t.pte i).valid = true ∧ ∃ e, t.Slot i ⟨vpn, seg⟩ e := by
  obtain ⟨hg, hmatch⟩ := GroupTable.findSlot_some hfind
  rw [Bool.and_eq_true] at hmatch
  obtain ⟨hv, hcmp⟩ := hmatch
  obtain ⟨q, e, hq, hc, hgq⟩ := h.exists_page hv
  obtain ⟨hqo, heo⟩ := h.ok hq
  rw [hc, pteVCompare_encodePte, heo.base] at hcmp
  rw [hgq] at hg
  obtain rfl : q = ⟨vpn, seg⟩ := pteg_avpn_inj h.keepsLow hqo hp hg hcmp
  exact ⟨hv, e, h.slot_iff.mpr ⟨hq, hc, hgq⟩⟩

/-- Killing a page's slot takes the page out of the map. -/
theorem Htab.Rep.kill (h : t.Rep m) {i : Nat} {p : Page}
    {e : Mapping} (hs : t.Slot i p e) :
    (t.setPte i ⟨0, (t.pte i).r⟩).Rep (Function.update m p none) := by
  obtain ⟨hm, hc, hg⟩ := h.slot_iff.mp hs
  have hv : (t.pte i).valid = true := by rw [hc]; exact encodePte_valid p e
  obtain ⟨q, hq, hgq, hst⟩ := h.stores.erase hv (Pte.valid_zero (t.pte i).r)
  obtain ⟨e', he', hc'⟩ := Option.map_eq_some_iff.mp hq
  have hsq : t.Slot i q e' := h.slot_iff.mpr ⟨he', hc'.symm, hgq⟩
  have := hs.symm.trans hsq
  cases this
  refine ⟨h.keepsLow, fun {p' e''} hm' => ?_, by rw [cells_update]; exact hst⟩
  by_cases e₁ : p' = p
  · subst e₁; rw [Function.update_self] at hm'; cases hm'
  · rw [Function.update_of_ne e₁] at hm'; exact h.ok hm'

/-- Unmapping pages takes them out of the abstract map, and kills their slots only. -/
theorem unmapVpnLoop_rep {seg : SegSize} :
    ∀ {n : Nat} {vpn : U64} {t t' : Htab} {m : PageMap},
      (∀ p ∈ pagesFrom seg seg.base n vpn, p.Ok) → t.Rep m →
      unmapVpnLoop seg seg.base n vpn t = (0, t') →
      t'.Rep (m.unmap (pagesFrom seg seg.base n vpn)) ∧
        t.Invalidates t' (pagesFrom seg seg.base n vpn)
  | 0, vpn, t, t', m, _, h, hrun => by
    cases hrun
    refine ⟨h, fun i => ⟨?_, fun _ => rfl⟩⟩
    rintro ⟨p, hp, -⟩
    cases hp
  | n + 1, vpn, t, t', m, hps, h, hrun => by
    rw [unmapVpnLoop, ptegIndex_toNat] at hrun
    split at hrun
    · cases hrun
    next i hfind =>
      obtain ⟨hv, e, hs⟩ := h.slot_of_find (hps _ List.mem_cons_self) hfind
      have h₁ := h.kill hs
      obtain ⟨h', hinv⟩ := unmapVpnLoop_rep
        (fun p hp => hps p (List.mem_cons_of_mem _ hp)) h₁ hrun
      refine ⟨h', fun j => ?_⟩
      obtain ⟨hdead, hkeep⟩ := hinv j
      by_cases hj : j = i
      · subst hj
        refine ⟨fun _ => ?_, fun hno => absurd ⟨_, List.mem_cons_self, e, hs⟩ hno⟩
        rw [hkeep, Htab.setPte_self]
        · exact Pte.valid_zero _
        · rintro ⟨p, -, e', hs'⟩
          rw [Htab.Slot, Htab.setPte_self, Pte.decode, Pte.valid_zero] at hs'
          cases hs'
      · have hslot : ∀ p e', (t.setPte i ⟨0, (t.pte i).r⟩).Slot j p e' ↔ t.Slot j p e' := by
          intro p e'
          rw [Htab.Slot, Htab.setPte_of_ne _ _ hj, Htab.Slot]
        simp only [hslot, Htab.setPte_of_ne _ _ hj] at hdead hkeep
        refine ⟨?_, fun hno => hkeep ?_⟩
        · rintro ⟨p, hp, e', hs'⟩
          rcases List.mem_cons.mp hp with rfl | hp
          · exact absurd (h.slot_inj hs' hs) hj
          · exact hdead ⟨p, hp, e', hs'⟩
        · rintro ⟨p, hp, hs'⟩
          exact hno ⟨p, List.mem_cons_of_mem _ hp, hs'⟩

theorem mmuUnmap_rep {guest : Option Guest} {ea : U64}
    {actual base : PageSize} {ps : List Page} {t' : Htab} (hea : EaOk guest ea actual)
    (h : t.Rep m) (hrun : mmuUnmap guest t ea actual = .ok t')
    (hpages : eaPages guest ea actual = .ok (base, ps)) :
    t'.Rep (m.unmap ps) ∧ t.Invalidates t' ps := by
  obtain ⟨vpn, seg, hpages', halign, -, hloop⟩ := mmuUnmap_eq_ok hrun
  rw [hpages'] at hpages
  cases hpages
  exact unmapVpnLoop_rep (eaPages_ok hea halign hpages') h hloop

/-- Mapping `n` pages of a range maps them in the abstract map. -/
theorem mapRangeLoop_rep {guest : Option Guest} {prot : U64} {actual : PageSize}
    (hpp : prot ∈ ppValues) : ∀ {n : Nat} {addr ra : U64} {t t' : Htab} {m m' : PageMap},
      addr.toNat + n * actual.size.toNat < 2 ^ 64 →
      (∀ ea, addr ≤ ea → ea.toNat < addr.toNat + n * actual.size.toNat → EaOk guest ea actual) →
      t.Rep m → mapRangeLoop guest prot actual n addr ra t = .ok t' →
      specMapRange guest prot actual n addr ra m = some m' → t'.Rep m'
  | 0, addr, ra, t, t', m, m', _, _, h, hrun, hspec => by
    cases hrun; cases hspec; exact h
  | n + 1, addr, ra, t, t', m, m', hlt, hea, h, hrun, hspec => by
    have hpos : 0 < actual.size.toNat := by cases actual <;> decide
    rw [Nat.succ_mul] at hlt hea
    have hnext : (addr + actual.size).toNat = addr.toNat + actual.size.toNat := by
      rw [BitVec.toNat_add]
      exact Nat.mod_eq_of_lt (by omega)
    obtain ⟨t₁, hmap, hrun⟩ := bind_eq_ok.mp hrun
    obtain ⟨m₁, hmap', hspec⟩ := Option.bind_eq_some_iff.mp hspec
    have h₁ := mmuMap_rep (hea addr (BitVec.le_refl addr) (by omega)) hpp h hmap hmap'
    refine mapRangeLoop_rep hpp (by omega) (fun ea hle hea' => hea ea ?_ (by omega)) h₁ hrun hspec
    have hle' : (addr + actual.size).toNat ≤ ea.toNat := hle
    show addr.toNat ≤ ea.toNat
    omega

/-! ### Runs -/

/-- One call keeps the invariant. -/
theorem MmuCall.exec_rep {guest : Option Guest} {c : MmuCall}
    {t' : Htab} {m' : PageMap} (hc : c.Ok guest) (h : t.Rep m) (hrun : c.exec guest t = .ok t')
    (hspec : c.spec guest m = some m') : t'.Rep m' := by
  cases c with
  | map ea ra pp actual => exact mmuMap_rep hc.1 hc.2 h hrun hspec
  | unmap ea actual =>
    simp only [MmuCall.spec] at hspec
    split at hspec
    · next base ps hpages =>
      cases hspec
      exact (mmuUnmap_rep hc h hrun hpages).1
    · cases hspec
  | mapRange eaStart eaEnd raStart prot actual =>
    obtain ⟨hea, hpp⟩ := hc
    obtain ⟨-, hrun⟩ := bugOn_bind_eq_ok.mp hrun
    have hend := eaEnd.isLt
    have hle := Nat.div_mul_le_self (eaEnd.toNat - eaStart.toNat) actual.size.toNat
    by_cases hlt : eaStart.toNat < eaEnd.toNat
    · refine mapRangeLoop_rep hpp (by omega) (fun ea h₁ h₂ => hea ea h₁ ?_) h hrun hspec
      show ea.toNat < eaEnd.toNat
      omega
    · have hz : (eaEnd.toNat - eaStart.toNat) / actual.size.toNat = 0 := by
        rw [Nat.sub_eq_zero_of_le (by omega), Nat.zero_div]
      rw [MmuCall.spec, hz] at hspec
      rw [hz] at hrun
      cases hspec; cases hrun; exact h

end

/-- A run in two parts. -/
theorem runCalls_append (cs cs' : List (Option Guest × MmuCall)) (t : Htab) :
    runCalls (cs ++ cs') t = runCalls cs t >>= runCalls cs' := by
  induction cs generalizing t with
  | nil => rfl
  | cons c cs ih =>
    obtain ⟨guest, c⟩ := c
    simp only [List.cons_append, runCalls]
    cases c.exec guest t with
    | error e => rfl
    | ok t₁ => exact ih t₁

theorem specCalls_append (cs cs' : List (Option Guest × MmuCall)) (m : PageMap) :
    specCalls (cs ++ cs') m = (specCalls cs m).bind (specCalls cs') := by
  induction cs generalizing m with
  | nil => rfl
  | cons c cs ih =>
    obtain ⟨guest, c⟩ := c
    simp only [List.cons_append, specCalls]
    cases c.spec guest m with
    | none => rfl
    | some m₁ => exact ih m₁

/-- A run of calls keeps the invariant. -/
theorem runCalls_rep :
    ∀ {calls : List (Option Guest × MmuCall)} {t t' : Htab} {m m' : PageMap},
      (∀ c ∈ calls, c.2.Ok c.1) → t.Rep m → runCalls calls t = .ok t' →
      specCalls calls m = some m' → t'.Rep m'
  | [], t, t', m, m', _, h, hrun, hspec => by
    cases hrun; cases hspec; exact h
  | (guest, c) :: cs, t, t', m, m', hok, h, hrun, hspec => by
    obtain ⟨t₁, hc, hrun⟩ := bind_eq_ok.mp hrun
    obtain ⟨m₁, hc', hspec⟩ := Option.bind_eq_some_iff.mp hspec
    have h₁ := MmuCall.exec_rep (hok _ List.mem_cons_self) h hc hc'
    exact runCalls_rep (fun c hc => hok c (List.mem_cons_of_mem _ hc)) h₁ hrun hspec

/-- **The hashed page table refines a partial map.**  From the zeroed table of `2 ^ k` PTEGs, after
calls that return and never map a mapped page, the valid PTEs represent the abstract map; and every
`mmu_unmap` of the run invalidates exactly the PTEs of the pages it names. -/
theorem runCalls_refines {k : Nat} (hk : 11 ≤ k) {n : U64} (hn : n.toNat = 2 ^ k)
    {calls : List (Option Guest × MmuCall)} {t : Htab} {m : PageMap}
    (hok : ∀ c ∈ calls, c.2.Ok c.1) (hrun : runCalls calls (Htab.zeroed n) = .ok t)
    (hspec : specCalls calls PageMap.empty = some m) :
    t.Represents m ∧
      ∀ pre guest ea actual post, calls = pre ++ (guest, .unmap ea actual) :: post →
        ∃ t₁ t₂ base ps, runCalls pre (Htab.zeroed n) = .ok t₁ ∧
          mmuUnmap guest t₁ ea actual = .ok t₂ ∧ eaPages guest ea actual = .ok (base, ps) ∧
          t₁.Invalidates t₂ ps := by
  have h₀ := Htab.rep_zeroed (n := n) (by rw [hn]; exact Nat.pow_dvd_pow 2 hk)
    (by rw [hn]; exact Nat.two_pow_pos k)
  refine ⟨(runCalls_rep hok h₀ hrun hspec).represents, ?_⟩
  rintro pre guest ea actual post rfl
  rw [runCalls_append] at hrun
  rw [specCalls_append] at hspec
  obtain ⟨t₁, hpre, hrun⟩ := bind_eq_ok.mp hrun
  obtain ⟨m₁, hpre', hspec⟩ := Option.bind_eq_some_iff.mp hspec
  obtain ⟨t₂, hunmap, -⟩ := bind_eq_ok.mp hrun
  obtain ⟨vpn, seg, hpages, -, -, -⟩ := mmuUnmap_eq_ok hunmap
  have h₁ := runCalls_rep (fun c hc => hok c (List.mem_append_left _ hc)) h₀ hpre hpre'
  have hea : EaOk guest ea actual :=
    hok (guest, .unmap ea actual) (List.mem_append_right _ List.mem_cons_self)
  exact ⟨t₁, t₂, _, _, hpre, hunmap, hpages, (mmuUnmap_rep hea h₁ hunmap hpages).2⟩

/-- A run that maps a hypervisor page and two AIL pages, and unmaps the first of these. -/
def sampleCalls : List (Option Guest × MmuCall) :=
  [(none, .map 0x8000000001000000 0x1000000 ppRWXX .page16M),
    (none, .mapRange ailAspaceStart 0xc000000000002000 0x4000 ppRXXX .page4K),
    (none, .unmap ailAspaceStart .page4K)]

theorem sampleCalls_ok : ∀ c ∈ sampleCalls, c.2.Ok c.1 := by
  simp only [sampleCalls, List.forall_mem_cons, List.not_mem_nil, false_imp_iff, implies_true,
    and_true]
  refine ⟨⟨.hv (by unfold InHv; decide) rfl, by decide⟩, ⟨fun ea h₁ h₂ => .ail ⟨h₁, ?_⟩ rfl, by decide⟩,
    .ail (by decide) rfl⟩
  have h₂' : ea.toNat < 0xc000000000002000 := h₂
  show ea.toNat ≤ 0xc000000000100000
  omega

theorem runCalls_refines_sample : ∃ t m, runCalls sampleCalls (Htab.zeroed minPtegs) = .ok t ∧
    specCalls sampleCalls PageMap.empty = some m ∧ t.Represents m := by
  obtain ⟨t, ht⟩ : ∃ t, runCalls sampleCalls (Htab.zeroed minPtegs) = .ok t :=
    exists_of_isOk (by decide +kernel)
  obtain ⟨m, hm⟩ : ∃ m, specCalls sampleCalls PageMap.empty = some m :=
    Option.isSome_iff_exists.mp (by decide +kernel)
  exact ⟨t, m, ht, hm,
    (runCalls_refines (k := 11) (by decide) (by decide) sampleCalls_ok ht hm).1⟩

end Prephv
