import Prephv.Rom.Claim

/-!
# Rom — Taken

What any claim that returns takes from `guest_mem_avail_ranges`, claims of no bytes and sums past
4 GiB among them.

Every request of `rom_claim` begins and ends on pages, also where the 32-bit sum or its rounding
wraps, so after any claims the list is still in order and in whole pages (`ClaimRun.sound`).  The
pages of a claim of some bytes are pages its region touches.  A claim of none has a region without
addresses, but may take pages: at an address within a page it takes that page, and at 0, where the
end of the request is `0 - 1`, all there is below 4 GiB (`ClaimRun.takes_iff`).
-/

set_option autoImplicit false

namespace Prephv

open Words Intervals

/-! ### The request -/

section Request

variable {out size : U32}

/-- The pages of a request for some bytes are those of the region. -/
theorem Claimed.touches_of_request {c : Claimed} (hsize : c.req.size ≠ 0) {a : Nat}
    (hlo : (claimBase c.out).toNat ≤ a) (hhi : a ≤ (claimLimit c.out c.req.size).toNat) :
    c.Touches (a / 4096) := by
  have hpos : c.req.size.toNat ≠ 0 := fun h => hsize (BitVec.eq_of_toNat_eq h)
  have hbase := claimBase_toNat c.out
  have hlimit := claimLimit_mod c.out c.req.size
  have hout := c.out.isLt
  have hlt := c.req.size.isLt
  refine ⟨max c.out.toNat (a / 4096 * 4096), ⟨by omega, ?_⟩, by omega⟩
  omega

/-- A claim of no bytes touches nothing. -/
theorem Claimed.not_touches {c : Claimed} (hsize : c.req.size = 0) (page : Nat) :
    ¬ c.Touches page := by
  rintro ⟨a, ⟨hlo, hhi⟩, -⟩
  rw [hsize] at hhi
  have hhi : a < c.out.toNat + 0 := hhi
  omega

/-- The addresses that a request for no bytes takes. -/
def EmptyTakes (out : U32) (a : Nat) : Prop :=
  if out = 0 then a < 2 ^ 32 else a / 4096 = out.toNat / 4096

theorem emptyTakes_iff (hlt : (claimBase out).toNat < (claimLimit out 0).toNat) (a : Nat) :
    ((claimBase out).toNat ≤ a ∧ a ≤ (claimLimit out 0).toNat) ↔ EmptyTakes out a := by
  have hbase := claimBase_toNat out
  have hlimit := claimLimit_mod out 0
  have hout := out.isLt
  have hz : (0 : U32).toNat = 0 := rfl
  have hzero : out = 0 ↔ out.toNat = 0 := Words.eq_zero_iff
  unfold EmptyTakes
  split
  · next h =>
    rw [hzero] at h
    omega
  · next h =>
    rw [hzero] at h
    omega

end Request

/-! ### The list after any claims -/

/-- What holds of the list after any claims. -/
structure ClaimState.Sound (st : ClaimState) (ramSize : Nat) : Prop where
  inOrder : InOrder st.avail.ranges
  within : ∀ r ∈ st.avail.ranges, r.limit.toNat < ramSize
  aligned : 4096 ∣ ramSize → Intervals.Aligned 4096 (ends st.avail.ranges)

section Runs

variable {alloc : MemState → MemRes (Nat × MemState)} {guest : Guest} {mem : MemState}
  {C : ClaimState → Claimed → Prop} {st st' : ClaimState} {cs : List Claimed} {req : ClaimReq}
  {out : U32}

/-- `range_add` to the empty list. -/
theorem rangeAdd_nil_ok (halloc : AllocLocal alloc) {base limit : U64} {s s' : MemState}
    (hs : s.ranges = []) (h : rangeAdd alloc base limit s = .ok s') :
    ∃ node, s'.ranges = [⟨node, base, limit⟩] := by
  obtain ⟨⟨node, s₁⟩, hal, h⟩ := bind_eq_ok.mp h
  obtain ⟨-, h⟩ := memBugOn_bind_eq_ok.mp h
  obtain ⟨-, hs₁⟩ := (halloc s).of_ok hal
  dsimp only at h hs₁
  rw [hs₁, hs] at h
  cases h
  exact ⟨node, rfl⟩

/-- A list of all RAM is sound. -/
theorem ClaimState.Sound.all {ramSize : U64} (hpos : 0 < ramSize.toNat) {node : Nat}
    (h : st.avail.ranges = [⟨node, 0, ramSize - 1⟩]) : st.Sound ramSize.toNat := by
  have hlast : (ramSize - 1).toNat = ramSize.toNat - 1 := pred_toNat hpos
  refine ⟨?_, ?_, fun hpage => ?_⟩
  · rw [h]
    refine ⟨List.pairwise_singleton _ _, fun r hr => ?_, List.nodup_singleton _⟩
    obtain rfl := List.mem_singleton.mp hr
    exact Nat.zero_le _
  · rw [h]
    intro r hr
    obtain rfl := List.mem_singleton.mp hr
    show (ramSize - 1).toNat < _
    omega
  · rw [h]
    intro i hi
    obtain rfl := List.mem_singleton.mp hi
    refine ⟨Nat.dvd_zero _, ?_⟩
    show 4096 ∣ (ramSize - 1).toNat + 1
    rw [hlast, Nat.sub_add_cancel (by omega)]
    exact hpage

theorem claimInit_sound (halloc : AllocLocal alloc) (h : claimInit alloc guest mem = .ok st) :
    st.Sound guest.ramSize.toNat := by
  obtain ⟨hsize, -, -, -, hadd⟩ := claimInit_eq_ok h
  obtain ⟨node, hranges⟩ := rangeAdd_nil_ok halloc rfl hadd
  exact .all (Nat.zero_lt_of_lt hsize) hranges

/-- A run is of a guest with more than 16 MiB. -/
theorem ClaimRun.size (h : ClaimRun alloc guest mem C cs st) : 0 < guest.ramSize.toNat := by
  induction h with
  | init h => exact Nat.zero_lt_of_lt (claimInit_eq_ok h).1
  | claim h hc hs ih => exact ih

/-- What a claim that returns does to a list in order. -/
theorem romClaim_covers (halloc : AllocLocal alloc) (hwf : InOrder st.avail.ranges)
    (hs : romClaim alloc st req = .ok (out, st')) :
    (claimBase out).toNat < (claimLimit out req.size).toNat ∧ InOrder st'.avail.ranges ∧
      ends st'.avail.ranges =
        diff (ends st.avail.ranges) (request (claimBase out) (claimLimit out req.size)) ∧
      ∀ a, Prephv.Covers st'.avail.ranges a ↔ Prephv.Covers st.avail.ranges a ∧
        ¬ ((claimBase out).toNat ≤ a ∧ a ≤ (claimLimit out req.size).toNat) := by
  obtain ⟨-, hremove⟩ := romClaim_eq_ok hs
  have hlt : (claimBase out).toNat < (claimLimit out req.size).toNat :=
    Nat.lt_of_not_le (memBugOn_bind_eq_ok.mp hremove).1
  obtain ⟨-, hwf', hends⟩ := (rangeRemove_diff halloc hwf (Nat.lt_succ_self _)).of_ok hremove
  refine ⟨hlt, hwf', hends, fun a => ?_⟩
  rw [← covers_ends, hends, ← covers_ends]
  exact covers_diff (Nat.le_of_lt hlt)

/-- A claim that returns keeps the list sound. -/
theorem ClaimState.Sound.step (halloc : AllocLocal alloc) {ramSize : Nat} (h : st.Sound ramSize)
    (hs : romClaim alloc st req = .ok (out, st')) : st'.Sound ramSize := by
  obtain ⟨-, hwf', hends, hcov⟩ := romClaim_covers halloc h.inOrder hs
  refine ⟨hwf', fun r hr => ?_, fun hpage => ?_⟩
  · have hlast : Prephv.Covers st'.avail.ranges r.limit.toNat :=
      ⟨r, hr, hwf'.proper r hr, Nat.le_refl _⟩
    obtain ⟨r', hr', -, hle⟩ := ((hcov _).mp hlast).1
    exact Nat.lt_of_le_of_lt hle (h.within r' hr')
  · rw [hends]
    exact (h.aligned hpage).diff (claim_dvd out req.size)

theorem ClaimRun.sound (halloc : AllocLocal alloc) (h : ClaimRun alloc guest mem C cs st) :
    st.Sound guest.ramSize.toNat := by
  induction h with
  | init h => exact claimInit_sound halloc h
  | claim h hc hs ih => exact ih.step halloc hs

/-! ### What a claim takes -/

/-- Where the region of a claim begins. -/
def ClaimReq.start (rom : Rom) (req : ClaimReq) : U32 :=
  if req.align ≠ 0 then (alignUp rom.claimArenaPtr (req.align.setWidth 64)).setWidth 32
  else req.addr

theorem claimOut_start {rom rom' : Rom} (h : claimOut rom req = .ok (out, rom')) :
    out = req.start rom := by
  unfold ClaimReq.start
  rcases claimOut_eq_ok h with ⟨halign, hout, -⟩ | ⟨halign, ptr, hptr, -, -, hout, -⟩
  · rw [if_neg (not_not.mpr halign)]
    exact hout
  · rw [if_pos halign, hout, hptr]

/-- The claim is for some bytes, or what a request for none takes is not in the list. -/
def ClaimReq.Spares (st : ClaimState) (req : ClaimReq) : Prop :=
  req.size = 0 → ∀ a, Prephv.Covers st.avail.ranges a → ¬ EmptyTakes (req.start st.rom) a

/-- **What a claim takes.**  After any claims, no page leaves the list that the region of the next
one does not touch, just when that is a claim for some bytes, or there is nothing for it to take. -/
theorem ClaimRun.takes_iff (halloc : AllocLocal alloc)
    (h : ClaimRun alloc guest mem (fun _ _ => True) cs st)
    (hs : romClaim alloc st req = .ok (out, st')) :
    (∀ a, Prephv.Covers st.avail.ranges a → ¬ Prephv.Covers st'.avail.ranges a →
        Claimed.Touches ⟨req, out⟩ (a / 4096)) ↔ req.Spares st := by
  obtain ⟨hlt, -, -, hcov⟩ := romClaim_covers halloc (h.sound halloc).inOrder hs
  have hout := claimOut_start (romClaim_eq_ok hs).1
  constructor
  · intro hall hsize a ha htakes
    rw [hsize] at hlt hcov
    rw [← hout, ← emptyTakes_iff hlt] at htakes
    refine Claimed.not_touches (c := ⟨req, out⟩) hsize _ (hall a ha fun hc => ?_)
    exact ((hcov a).mp hc).2 htakes
  · intro hspares a ha hgone
    obtain ⟨hlo, hhi⟩ : (claimBase out).toNat ≤ a ∧ a ≤ (claimLimit out req.size).toNat := by
      by_contra hin
      exact hgone ((hcov a).mpr ⟨ha, hin⟩)
    by_cases hsize : req.size = 0
    · rw [hsize] at hlt hhi
      refine absurd ?_ (hspares hsize a ha)
      rw [← hout, ← emptyTakes_iff hlt]
      exact ⟨hlo, hhi⟩
    · exact Claimed.touches_of_request (c := ⟨req, out⟩) hsize hlo hhi

end Runs

/-- The state of `rom_init`'s list in a guest of 32 MiB. -/
theorem stateOf_init : claimInit freshNode (guestOn 0x2000000 0x8000000040000000) (rangeState []) =
    .ok (stateOf [⟨1, 0, 0x1ffffff⟩]) := by decide +kernel

/-- In a guest of 32 MiB, a claim of a page. -/
theorem ClaimRun.takes_iff_sample :
    (∀ a, Prephv.Covers [⟨1, 0, 0x1ffffff⟩] a →
        ¬ Prephv.Covers [⟨2, 0, 0x4ffff⟩, ⟨1, 0x51000, 0x1ffffff⟩] a →
        Claimed.Touches ⟨⟨0x50000, 0x1000, 0⟩, 0x50000⟩ (a / 4096)) ↔
      ClaimReq.Spares (stateOf [⟨1, 0, 0x1ffffff⟩]) ⟨0x50000, 0x1000, 0⟩ := by
  have hs : romClaim freshNode (stateOf [⟨1, 0, 0x1ffffff⟩]) ⟨0x50000, 0x1000, 0⟩ =
      .ok (0x50000, stateOf [⟨2, 0, 0x4ffff⟩, ⟨1, 0x51000, 0x1ffffff⟩]) := by decide +kernel
  exact ClaimRun.takes_iff freshNode_total.allocLocal (.init stateOf_init) hs

/-- In a guest of 32 MiB, a claim of no bytes at 0: the list is empty after it. -/
theorem ClaimRun.takes_all : ¬ ∀ alloc guest mem cs st req out st',
    AllocLocal alloc → ClaimRun alloc guest mem (fun _ _ => True) cs st →
    romClaim alloc st req = .ok (out, st') →
    ∀ a, Prephv.Covers st.avail.ranges a → ¬ Prephv.Covers st'.avail.ranges a →
      Claimed.Touches ⟨req, out⟩ (a / 4096) := by
  intro hall
  obtain ⟨st', hs, hnil⟩ : ∃ st', romClaim freshNode (stateOf [⟨1, 0, 0x1ffffff⟩]) ⟨0, 0, 0⟩ =
      .ok (0, st') ∧ st'.avail.ranges = [] := ⟨_, by rfl, by rfl⟩
  have h := hall freshNode _ _ [] _ _ _ _ freshNode_total.allocLocal (.init stateOf_init) hs
    0x50000 ⟨⟨1, 0, 0x1ffffff⟩, List.mem_singleton.mpr rfl, by decide, by decide⟩
  refine Claimed.not_touches (c := ⟨⟨0, 0, 0⟩, 0⟩) rfl _ (h ?_)
  rintro ⟨r, hr, -⟩
  rw [hnil] at hr
  cases hr

end Prephv
