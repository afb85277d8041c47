import Prephv.Lib.Fuel
import Prephv.Mem.Pages

/-!
# Mem — Fit

When `mem_get_pages` returns a block, of the free list that `mem_init` left or of a later one.

Its check rounds both ends of a range to pages, and the limit is the last address of the range: a
block that ends on the limit is not seen, so the last page of a range that ends on a page is never
given (`fits_iff`).  And where the first range that passes starts one byte before a page, the piece
on the left of the block is a single address, which `range_add` does not take.

What more fuel returns is what less fuel does (`memGetPages_mono`), so `Gets` says that a call
returns without naming the fuel.
-/

set_option autoImplicit false

namespace Prephv

open SafeList Fuel

/-! ### More fuel -/

section Mono

variable {alloc alloc' : MemState → MemRes (Nat × MemState)} {base limit : U64}

theorem removeBody_keeps (h : ∀ s, Keeps (alloc s) (alloc' s)) (x : Range) (s : MemState) :
    Keeps (removeBody alloc base limit x s) (removeBody alloc' base limit x s) := by
  unfold removeBody
  split_ifs with hmiss hinside hleft hright
  · exact Keeps.refl _
  · exact Keeps.refl _
  · exact Keeps.refl _
  · exact Keeps.refl _
  · exact Keeps.bind (h _) fun a => Keeps.refl _

theorem removeLoop_keeps (h : ∀ s, Keeps (alloc s) (alloc' s)) {m n : Nat} (hmn : m ≤ n)
    (c : Cursor Nat) (s : MemState) :
    Keeps (removeLoop alloc base limit m c s) (removeLoop alloc' base limit n c s) := by
  induction m generalizing n c s with
  | zero => exact Keeps.error _ _
  | succ m ih =>
    obtain ⟨n, rfl⟩ : ∃ k, n = k + 1 := ⟨n - 1, by omega⟩
    cases c with
    | head => exact Keeps.refl _
    | poison => exact Keeps.refl _
    | entry node =>
      unfold removeLoop
      split
      · exact Keeps.refl _
      · exact Keeps.bind (removeBody_keeps h _ s) fun s' => ih (by omega) _ s'

theorem rangeRemove_keeps (h : ∀ s, Keeps (alloc s) (alloc' s)) {m n : Nat} (hmn : m ≤ n)
    (s : MemState) :
    Keeps (rangeRemove alloc m base limit s) (rangeRemove alloc' n base limit s) :=
  Keeps.bind (Keeps.refl _) fun _ => removeLoop_keeps h hmn _ s

end Mono

theorem runGets_keeps {get get' : U64 → MemState → MemRes (Option U64 × MemState)}
    (h : ∀ length s, Keeps (get length s) (get' length s)) (lengths : List U64) (s : MemState) :
    Keeps (runGets get lengths s) (runGets get' lengths s) := by
  induction lengths generalizing s with
  | nil => exact Keeps.refl _
  | cons length lengths ih => exact Keeps.bind (h length s) fun r => ih r.2

theorem rangeAlloc_keeps {env : MemEnv} {get get' : U64 → MemState → MemRes (Option U64 × MemState)}
    (h : ∀ length s, Keeps (get length s) (get' length s)) (s : MemState) :
    Keeps (rangeAlloc env get s) (rangeAlloc env get' s) :=
  Keeps.bind (runGets_keeps h _ _) fun _ => Keeps.refl _

theorem memGetPages_keeps (env : MemEnv) (img : Image) {m n : Nat} (hmn : m ≤ n) (length : U64)
    (s : MemState) : Keeps (memGetPages env img m length s) (memGetPages env img n length s) := by
  induction m generalizing n length s with
  | zero => exact Keeps.error _ _
  | succ m ih =>
    obtain ⟨n, rfl⟩ : ∃ k, n = k + 1 := ⟨n - 1, by omega⟩
    have hmn : m ≤ n := by omega
    -- The loop of `range_remove` and the calls nested in it have one less on both sides.
    unfold memGetPages
    refine Keeps.bind (Keeps.refl _) fun _ => Keeps.bind (Keeps.refl _) fun _ => ?_
    split
    · exact Keeps.refl _
    · split
      · refine Keeps.bind ?_ fun _ => Keeps.refl _
        exact rangeRemove_keeps (rangeAlloc_keeps fun length s => ih hmn length s) hmn s
      · exact Keeps.refl _

theorem memGetPages_mono (env : MemEnv) (img : Image) (length : U64) (s : MemState) :
    Mono fun fuel => memGetPages env img fuel length s :=
  fun _ _ hmn => memGetPages_keeps env img hmn length s

theorem rangeAlloc_mono (env : MemEnv) (img : Image) (s : MemState) :
    Mono fun fuel => rangeAlloc env (memGetPages env img fuel) s :=
  fun _ _ hmn => rangeAlloc_keeps (fun length s => memGetPages_keeps env img hmn length s) s

/-! ### Removing a block, with enough fuel -/

section Loop

variable {base limit : U64} {s : MemState}

/-- Past the nodes `m` that the request does not meet, the loop comes to the node `x`. -/
theorem removeLoop_past (alloc : MemState → MemRes (Nat × MemState)) (hnd : (nodes s.ranges).Nodup)
    {x : Range} {m l₂ : List Range} (hm : ∀ r ∈ m, ¬ r.Hit base limit) (fuel : Nat) :
    ∀ l₀, s.ranges = l₀ ++ (m ++ x :: l₂) →
      removeLoop alloc base limit (fuel + 1 + m.length) (first (nodes (m ++ x :: l₂))) s =
        (removeBody alloc base limit x s >>=
          removeLoop alloc base limit fuel (first (nodes l₂))) := by
  induction m with
  | nil =>
    intro l₀ h
    exact removeLoop_entry alloc base limit fuel h hnd
  | cons y m ih =>
    intro l₀ h
    have hrest : s.ranges = (l₀ ++ [y]) ++ (m ++ x :: l₂) := by
      rw [h, List.append_assoc]
      rfl
    rw [List.cons_append, nodes_cons, first_cons, List.length_cons, ← Nat.add_assoc,
      removeLoop_entry alloc base limit _ h hnd, removeBody_miss alloc (hm y List.mem_cons_self)]
    exact ih (fun r hr => hm r (List.mem_cons_of_mem _ hr)) _ hrest

/-- The loop ends after the nodes `m`, where the request meets none of them. -/
theorem removeLoop_done (alloc : MemState → MemRes (Nat × MemState)) (hnd : (nodes s.ranges).Nodup)
    {m : List Range} (hm : ∀ r ∈ m, ¬ r.Hit base limit) : ∀ l₀, s.ranges = l₀ ++ m →
      removeLoop alloc base limit (m.length + 1) (first (nodes m)) s = .ok s := by
  induction m with
  | nil => exact fun _ _ => rfl
  | cons y m ih =>
    intro l₀ h
    have hrest : s.ranges = (l₀ ++ [y]) ++ m := by
      rw [h, List.append_assoc]
      rfl
    rw [nodes_cons, first_cons, List.length_cons, removeLoop_entry alloc base limit _ h hnd,
      removeBody_miss alloc (hm y List.mem_cons_self)]
    exact ih (fun r hr => hm r (List.mem_cons_of_mem _ hr)) _ hrest

/-- Where the request meets no range the loop ends, from wherever it goes on. -/
theorem removeLoop_rest (hnd : (nodes s.ranges).Nodup)
    (hclear : ∀ r ∈ s.ranges, ¬ r.Hit base limit) {c : Cursor Nat}
    (hc : c = .head ∨ ∃ i ∈ nodes s.ranges, c = .entry i) :
    ∃ k, ∀ alloc, removeLoop alloc base limit k c s = .ok s := by
  rcases hc with rfl | ⟨i, hi, rfl⟩
  · exact ⟨1, fun _ => rfl⟩
  · obtain ⟨x, hx, rfl⟩ := List.mem_map.mp hi
    obtain ⟨l₁, l₂, hsplit⟩ := List.append_of_mem hx
    refine ⟨(x :: l₂).length + 1, fun alloc => removeLoop_done alloc hnd (fun r hr => ?_) l₁ hsplit⟩
    exact hclear r (by rw [hsplit]; exact List.mem_append_right _ hr)

end Loop

section Ends

variable {alloc : Nat → MemState → MemRes (Nat × MemState)} {s : MemState} {x : Range}
  {l₁ l₂ : List Range} {base limit : U64} {b : Block}
variable (hmono : ∀ s, Mono fun n => alloc n s) (hlate : ∀ n, AllocLate (alloc n)) (hs : s.Late)
  (h : s.ranges = l₁ ++ x :: l₂) (hb : x.base.toNat ≤ base.toNat)
  (hle : base.toNat < limit.toNat) (hl : limit.toNat < x.limit.toNat) (hblock : b.At base limit)

include hlate hs h hb hle hl in
/-- The visit to the range that the block is inside of ends when the block is the left end of it, or
the piece on the left is more than one address and gets its node. -/
theorem removeBody_ends_iff :
    (∃ s', Ends (fun n => removeBody (alloc n) base limit x s) s') ↔
      x.base = base ∨ (x.base.toNat + 1 < base.toNat ∧ ∃ r, Ends (fun n =>
        alloc n (setNode x.node (fun r => { r with base := limit + 1 }) s)) r) := by
  have hbody : (fun n => removeBody (alloc n) base limit x s) = fun n =>
      if x.base = base then .ok (setNode x.node (fun r => { r with base := limit + 1 }) s)
      else rangeAdd (alloc n) x.base (base - 1)
        (setNode x.node (fun r => { r with base := limit + 1 }) s) :=
    funext fun n => removeBody_inside (alloc n) hb (Nat.le_of_lt hle) hl s
  rw [hbody]
  by_cases e : x.base = base
  · simp only [if_pos e]
    exact iff_of_true ⟨_, 0, rfl⟩ (Or.inl e)
  · have hne : x.base.toNat ≠ base.toNat := fun h => e (BitVec.eq_of_toNat_eq h)
    have hpred : (base - 1).toNat = base.toNat - 1 := pred_toNat (by omega)
    have hadd : x.base ≥ base - 1 ↔ ¬ x.base.toNat + 1 < base.toNat := by
      rw [ge_iff_le, BitVec.le_def]
      omega
    obtain ⟨hs₁, -, hcov⟩ := hs.trim h (hb.trans (Nat.le_of_lt hle)) hl rfl
    simp only [if_neg e, or_iff_right e]
    -- What is left is `range_add` of the left piece: its allocation, its assertion and the walk.
    constructor
    · rintro ⟨s', n, hn⟩
      obtain ⟨r, hr, hn⟩ := bind_eq_ok.mp hn
      obtain ⟨hroom, -⟩ := memBugOn_bind_eq_ok.mp hn
      rw [hadd, not_not] at hroom
      exact ⟨hroom, r, n, hr⟩
    · rintro ⟨hroom, ⟨node, s₂⟩, n, hn⟩
      dsimp only at hn
      have hsafe := hlate n _ hs₁
      rw [hn] at hsafe
      obtain ⟨-, bs, htook⟩ := hsafe
      obtain ⟨l, hins⟩ := htook.insert_ok (Nat.le_of_lt hle) (by omega) hcov node
      refine ⟨{ s₂ with ranges := l }, n, bind_eq_ok.mpr ⟨_, hn, ?_⟩⟩
      refine memBugOn_bind_eq_ok.mpr ⟨?_, bind_eq_ok.mpr ⟨l, hins, rfl⟩⟩
      rw [hadd, not_not]
      exact hroom

include hmono hlate hs h hb hle hl hblock in
/-- `range_remove` of the block ends when the visit to the range does. -/
theorem rangeRemove_ends_iff :
    (∃ s', Ends (fun n => rangeRemove (alloc n) n base limit s) s') ↔
      ∃ s', Ends (fun n => removeBody (alloc n) base limit x s) s' := by
  have hord : ¬ base ≥ limit := by
    rw [ge_iff_le, BitVec.le_def]
    omega
  have hremove : ∀ n, rangeRemove (alloc (n + 1 + l₁.length)) (n + 1 + l₁.length) base limit s =
      (removeBody (alloc (n + 1 + l₁.length)) base limit x s >>=
        removeLoop (alloc (n + 1 + l₁.length)) base limit n (first (nodes l₂))) := by
    intro n
    rw [rangeRemove, memBugOn, if_neg hord, h]
    exact removeLoop_past _ hs.nodup (hs.miss h hb) n [] h
  have hbody : Mono fun n => removeBody (alloc n) base limit x s :=
    fun m n hmn => removeBody_keeps (fun s => hmono s m n hmn) x s
  have hloop : ∀ s₃, Mono fun n =>
      removeLoop (alloc (n + 1 + l₁.length)) base limit n (first (nodes l₂)) s₃ :=
    fun s₃ m n hmn => removeLoop_keeps (fun s => hmono s _ _ (by omega)) hmn _ s₃
  have hall : Mono fun n => rangeRemove (alloc n) n base limit s :=
    fun m n hmn => rangeRemove_keeps (fun s => hmono s m n hmn) hmn s
  have hvisit : ∀ s₃, Ends (fun n => removeBody (alloc (n + 1 + l₁.length)) base limit x s) s₃ ↔
      Ends (fun n => removeBody (alloc n) base limit x s) s₃ := by
    intro s₃
    rw [← Ends.shift hbody (1 + l₁.length)]
    simp only [← Nat.add_assoc]
  have hends : ∀ s', Ends (fun n => rangeRemove (alloc n) n base limit s) s' ↔
      ∃ s₃, Ends (fun n => removeBody (alloc n) base limit x s) s₃ ∧
        Ends (fun n => removeLoop (alloc (n + 1 + l₁.length)) base limit n (first (nodes l₂)) s₃)
          s' := by
    intro s'
    rw [← Ends.shift hall (1 + l₁.length)]
    simp only [← Nat.add_assoc, hremove]
    rw [Ends.bind_iff (fun m n hmn => hbody _ _ (by omega)) hloop]
    exact exists_congr fun s₃ => and_congr_left' (hvisit s₃)
  constructor
  · rintro ⟨s', hs'⟩
    obtain ⟨s₃, hs₃, -⟩ := (hends s').mp hs'
    exact ⟨s₃, hs₃⟩
  · rintro ⟨s₃, m, hm⟩
    -- After the visit the loop has only ranges to pass that the request does not meet.
    have hsafe := removeBody_late (hlate m) hs h hb hle hl hblock
    change removeBody (alloc m) base limit x s = _ at hm
    rw [hm] at hsafe
    obtain ⟨bs, htook⟩ := hsafe
    obtain ⟨hclear, hnd, hcursor⟩ := htook.rest h hle hblock
    obtain ⟨k, hk⟩ := removeLoop_rest hnd hclear hcursor
    exact ⟨s₃, (hends s₃).mpr ⟨s₃, ⟨m, hm⟩, k, hk _⟩⟩

end Ends

/-! ### The first range that fits -/

/-- The range holds a block of the length that starts on a page. -/
def Range.Holds (r : Range) (length : U64) : Prop :=
  ∃ b, 4096 ∣ b ∧ r.base.toNat ≤ b ∧ b + length.toNat ≤ r.limit.toNat + 1

/-- The range holds one that ends before its limit. -/
def Range.HasRoom (r : Range) (length : U64) : Prop :=
  ∃ b, 4096 ∣ b ∧ r.base.toNat ≤ b ∧ b + length.toNat ≤ r.limit.toNat

/-- With enough fuel, `mem_get_pages` returns `p`. -/
def Gets (env : MemEnv) (img : Image) (length : U64) (s : MemState) (p : Option U64)
    (s' : MemState) : Prop :=
  Ends (fun fuel => memGetPages env img fuel length s) (p, s')

/-- The range keeps what is on the left of the block: nothing, or more than one address, for which
the heap has a node. -/
def KeepsLeft (env : MemEnv) (img : Image) (length : U64) (s : MemState) (r : Range) : Prop :=
  4096 ∣ r.base.toNat ∨ (¬ 4096 ∣ r.base.toNat + 1 ∧ ∃ i, Ends (fun fuel =>
    rangeAlloc env (memGetPages env img fuel)
      (setNode r.node (fun r' => { r' with base := alignUp r.base pageSize + length }) s)) i)

section Fit

variable {env : MemEnv} {img : Image} {s : MemState} {length : U64}

/-- The check of `mem_get_pages` sees a block that ends before the limit. -/
theorem fits_iff_hasRoom {r : Range} (hp : r.base.toNat ≤ r.limit.toNat)
    (hbelow : r.limit.toNat < hvAspace.toNat) (hpos : 0 < length.toNat)
    (hpage : length.toNat % 4096 = 0) : fits length r = true ↔ r.HasRoom length := by
  have hup := alignUp_pageSize_toNat (x := r.base) (by omega)
  rw [fits_iff hp hbelow hpos hpage]
  constructor
  · intro hend
    exact ⟨_, ⟨(r.base.toNat + (2 ^ 12 - 1)) / 2 ^ 12, by omega⟩, by omega, hend⟩
  · rintro ⟨b, ⟨k, rfl⟩, hb, hend⟩
    omega

/-- After `mem_init`, a call of a legal length is the search of the list. -/
theorem memGetPages_succ (hlate : s.early = false) (hpos : length ≠ 0)
    (hpage : length % pageSize = 0) (fuel : Nat) :
    memGetPages env img (fuel + 1) length s =
      match s.ranges.find? (fits length) with
      | some r => do
        let s ← rangeRemove (rangeAlloc env (memGetPages env img fuel)) fuel
          (alignUp r.base pageSize) (alignUp r.base pageSize + length - 1) s
        let ptr ← ra2Ptr (alignUp r.base pageSize)
        .ok (some ptr, s.give ⟨ptr, length⟩)
      | none => .ok (none, s) := by
  rw [memGetPages, memBugOn, if_neg hpos, ok_bind, memBugOn, if_neg (not_not.mpr hpage),
    ok_bind]
  exact if_neg (by rw [hlate]; exact Bool.false_ne_true)

/-- The piece on the left of the block, in numbers. -/
theorem alignUp_left_iff {x : U64} (hx : x.toNat < hvAspace.toNat) (P : Prop) :
    (x = alignUp x pageSize ∨ (x.toNat + 1 < (alignUp x pageSize).toNat ∧ P)) ↔
      4096 ∣ x.toNat ∨ (¬ 4096 ∣ x.toNat + 1 ∧ P) := by
  have hup := alignUp_pageSize_toNat hx
  have heq : x = alignUp x pageSize ↔ 4096 ∣ x.toNat := by
    rw [← BitVec.toNat_inj]
    omega
  rw [heq]
  -- A piece of one address is the case that the page starts right after `x`.
  by_cases hdvd : 4096 ∣ x.toNat
  · exact iff_of_true (Or.inl hdvd) (Or.inl hdvd)
  · have hlt : x.toNat + 1 < (alignUp x pageSize).toNat ↔ ¬ 4096 ∣ x.toNat + 1 := by omega
    rw [or_iff_right hdvd, or_iff_right hdvd, hlt]

/-- The call that takes the range `r` returns when `range_remove` does. -/
theorem gets_iff_rangeRemove (hs : s.Late) (hpos : length ≠ 0) (hpage : length % pageSize = 0)
    {r : Range} (hfind : s.ranges.find? (fits length) = some r)
    (hlt : (alignUp r.base pageSize).toNat < hvAspace.toNat) :
    (∃ p s', Gets env img length s (some p) s') ↔
      ∃ s', Ends (fun fuel => rangeRemove (rangeAlloc env (memGetPages env img fuel)) fuel
        (alignUp r.base pageSize) (alignUp r.base pageSize + length - 1) s) s' := by
  have hptr : ra2Ptr (alignUp r.base pageSize) = .ok (alignUp r.base pageSize ||| hvAspace) := by
    rw [ra2Ptr, memBugOn, if_neg (by rw [ge_iff_le, BitVec.le_def]; omega), ok_bind]
  have hget : ∀ fuel, memGetPages env img (fuel + 1) length s =
      (rangeRemove (rangeAlloc env (memGetPages env img fuel)) fuel
        (alignUp r.base pageSize) (alignUp r.base pageSize + length - 1) s >>= fun s =>
          .ok (some (alignUp r.base pageSize ||| hvAspace),
            s.give ⟨alignUp r.base pageSize ||| hvAspace, length⟩)) := by
    intro fuel
    rw [memGetPages_succ hs.late hpos hpage, hfind]
    simp only [hptr, ok_bind]
  have hall : Mono fun fuel => rangeRemove (rangeAlloc env (memGetPages env img fuel)) fuel
      (alignUp r.base pageSize) (alignUp r.base pageSize + length - 1) s :=
    fun m n hmn => rangeRemove_keeps (fun s => rangeAlloc_mono env img s m n hmn) hmn s
  have hends : ∀ p s', Gets env img length s (some p) s' ↔ ∃ s₁,
      Ends (fun fuel => rangeRemove (rangeAlloc env (memGetPages env img fuel)) fuel
        (alignUp r.base pageSize) (alignUp r.base pageSize + length - 1) s) s₁ ∧
      (.ok (some (alignUp r.base pageSize ||| hvAspace),
        s₁.give ⟨alignUp r.base pageSize ||| hvAspace, length⟩) : MemRes _) = .ok (some p, s') := by
    intro p s'
    rw [Gets, ← Ends.shift (memGetPages_mono env img length s) 1]
    simp only [hget]
    rw [Ends.bind_iff hall fun _ => Mono.const _]
    simp only [Ends, exists_const]
  constructor
  · rintro ⟨p, s', hgets⟩
    obtain ⟨s₁, hremove, -⟩ := (hends p s').mp hgets
    exact ⟨s₁, hremove⟩
  · rintro ⟨s₁, hremove⟩
    exact ⟨_, _, (hends _ _).mpr ⟨s₁, hremove, rfl⟩⟩

/-- A call returns a block just when a range passes the check, and it keeps its left piece. -/
theorem gets_iff (hs : s.Late) (hpos : length ≠ 0) (hpage : length % pageSize = 0) :
    (∃ p s', Gets env img length s (some p) s') ↔
      ∃ r, s.ranges.find? (fits length) = some r ∧ KeepsLeft env img length s r := by
  cases hfind : s.ranges.find? (fits length) with
  | none =>
    refine iff_of_false ?_ nofun
    rintro ⟨p, s', hgets⟩
    obtain ⟨n, hn⟩ := (Ends.shift (memGetPages_mono env img length s) 1).mpr hgets
    dsimp only at hn
    rw [memGetPages_succ hs.late hpos hpage, hfind] at hn
    cases hn
  | some r =>
    obtain ⟨hfit, l₁, l₂, hsplit, -⟩ := List.find?_eq_some_iff_append.mp hfind
    have hr : r ∈ s.ranges := by rw [hsplit]; simp
    have hposn : 0 < length.toNat := BitVec.toNat_pos_of_ne_zero hpos
    have hbelow := hs.below r hr
    obtain ⟨hb, hle, hl, hblock⟩ := fits_block (hs.proper r hr) hbelow hposn
      (length_toNat_mod (not_not.mpr hpage)) hfit
    have halloc : ∀ n, AllocLate (rangeAlloc env (memGetPages env img n)) :=
      fun n => rangeAlloc_late fun length s => memGetPages_late n length
    rw [gets_iff_rangeRemove hs hpos hpage hfind (by omega),
      rangeRemove_ends_iff (rangeAlloc_mono env img) halloc hs hsplit hb hle hl hblock,
      removeBody_ends_iff halloc hs hsplit hb hle hl, BitVec.sub_add_cancel,
      alignUp_left_iff (lt_of_le_of_lt (hs.proper r hr) hbelow)]
    simp only [Option.some.injEq, exists_eq_left', KeepsLeft]

/-- The first range with room, in the list. -/
theorem find_fits_iff (hs : s.Late) (hpos : length ≠ 0) (hpage : length % pageSize = 0)
    {r : Range} : s.ranges.find? (fits length) = some r ↔ ∃ l₁ l₂, s.ranges = l₁ ++ r :: l₂ ∧
      (∀ x ∈ l₁, ¬ x.HasRoom length) ∧ r.HasRoom length := by
  have hposn : 0 < length.toNat := BitVec.toNat_pos_of_ne_zero hpos
  have hfits : ∀ x ∈ s.ranges, (fits length x = true ↔ x.HasRoom length) := fun x hx =>
    fits_iff_hasRoom (hs.proper x hx) (hs.below x hx) hposn (length_toNat_mod (not_not.mpr hpage))
  rw [List.find?_eq_some_iff_append]
  constructor
  · rintro ⟨hfit, l₁, l₂, hsplit, hbefore⟩
    refine ⟨l₁, l₂, hsplit, fun x hx hroom => ?_, (hfits r (by rw [hsplit]; simp)).mp hfit⟩
    have hno := hbefore x hx
    rw [(hfits x (by rw [hsplit]; simp [hx])).mpr hroom] at hno
    exact Bool.false_ne_true hno
  · rintro ⟨l₁, l₂, hsplit, hbefore, hroom⟩
    refine ⟨(hfits r (by rw [hsplit]; simp)).mpr hroom, l₁, l₂, hsplit, fun x hx => ?_⟩
    rw [Bool.not_eq_true', Bool.eq_false_iff]
    exact fun hfit => hbefore x hx ((hfits x (by rw [hsplit]; simp [hx])).mp hfit)

/-- **First fit.**  A call returns a block whenever some range holds one, just when no range does,
or the first range with a block that ends before its limit keeps what is on the left of it. -/
theorem memGetPages_complete_iff (hs : s.Late) (hpos : length ≠ 0) (hpage : length % pageSize = 0) :
    ((∃ r ∈ s.ranges, r.Holds length) → ∃ p s', Gets env img length s (some p) s') ↔
      (∀ r ∈ s.ranges, ¬ r.Holds length) ∨ ∃ l₁ r l₂, s.ranges = l₁ ++ r :: l₂ ∧
        (∀ x ∈ l₁, ¬ x.HasRoom length) ∧ r.HasRoom length ∧ KeepsLeft env img length s r := by
  have hfirst : (∃ r, s.ranges.find? (fits length) = some r ∧ KeepsLeft env img length s r) ↔
      ∃ l₁ r l₂, s.ranges = l₁ ++ r :: l₂ ∧ (∀ x ∈ l₁, ¬ x.HasRoom length) ∧ r.HasRoom length ∧
        KeepsLeft env img length s r := by
    constructor
    · rintro ⟨r, hfind, hkeeps⟩
      obtain ⟨l₁, l₂, hsplit, hbefore, hroom⟩ := (find_fits_iff hs hpos hpage).mp hfind
      exact ⟨l₁, r, l₂, hsplit, hbefore, hroom, hkeeps⟩
    · rintro ⟨l₁, r, l₂, hsplit, hbefore, hroom, hkeeps⟩
      exact ⟨r, (find_fits_iff hs hpos hpage).mpr ⟨l₁, l₂, hsplit, hbefore, hroom⟩, hkeeps⟩
  have hnone : ¬ (∃ r ∈ s.ranges, r.Holds length) ↔ ∀ r ∈ s.ranges, ¬ r.Holds length := by
    simp only [not_exists, not_and]
  rw [gets_iff hs hpos hpage, hfirst, imp_iff_not_or, hnone]

end Fit

/-- The state after `mem_init`, with a free list of one range. -/
def oneRange (base limit : U64) : MemState := ⟨false, 0, [⟨0, base, limit⟩], 1, [], []⟩

theorem oneRange_late {base limit : U64} (hp : base.toNat ≤ limit.toNat)
    (hbelow : limit.toNat < hvAspace.toNat) : (oneRange base limit).Late where
  late := rfl
  ordered := List.pairwise_singleton _ _
  proper r hr := by
    rw [List.mem_singleton.mp hr]
    exact hp
  below r hr := by
    rw [List.mem_singleton.mp hr]
    exact hbelow
  nodup := List.nodup_singleton _
  fresh i hi := by
    rw [List.mem_singleton.mp hi]
    exact Nat.one_pos

/-- The heap takes two pages for the node of the left piece. -/
theorem memGetPages_complete_iff_sample : ∃ p s',
    Gets sampleMemEnv sampleImage 0x1000 (oneRange 0x100800 0x1fffff) (some p) s' := by
  refine (memGetPages_complete_iff (oneRange_late (by decide) (by decide)) (by decide)
    (by decide)).mpr (Or.inr ?_) ⟨_, List.mem_singleton_self _, 0x101000, by decide, by decide,
      by decide⟩
  refine ⟨[], _, [], rfl, nofun, ⟨0x101000, by decide, by decide, by decide⟩,
    Or.inr ⟨by decide, ?_⟩⟩
  exact ⟨_, 8, rfl⟩

/-- A free page that ends on the limit of its range is not given. -/
theorem memGetPages_misses : (∃ r ∈ (oneRange 0x1000 0x1fff).ranges, r.Holds 0x1000) ∧
    ¬ ∃ p s', Gets sampleMemEnv sampleImage 0x1000 (oneRange 0x1000 0x1fff) (some p) s' := by
  refine ⟨⟨_, List.mem_singleton_self _, 0x1000, by decide, by decide, by decide⟩, fun h => ?_⟩
  obtain ⟨r, hfind, -⟩ :=
    (gets_iff (oneRange_late (by decide) (by decide)) (by decide) (by decide)).mp h
  have hnone : (oneRange 0x1000 0x1fff).ranges.find? (fits 0x1000) = none := by decide
  rw [hnone] at hfind
  cases hfind

end Prephv
