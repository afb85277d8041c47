import Mathlib.Data.List.TakeWhile
import Prephv.Fdt.Nodes
import Prephv.Rom.Taken
import Prephv.Rom.Walk

/-!
# Rom — Properties

`rom_getprop`, with which the guest asks for the length of a property and then for its value.  The
value comes from the device tree, but for `reg` and `available` of the memory node: these are
written from the range lists, a big-endian word for the base and one for the size of each range.

A copy from the tree is clipped to the caller's buffer.  The two loops over the lists are not: they
count down the length of the whole list, and `max_data` only goes into the length that is reported.
So a buffer shorter than the list is overrun (`romGetprop_within_iff`).  With a buffer of just the
length asked for before, the value is all there, and the words of the two lists give the ranges
back (`ClaimRun.properties`).

A call may stop at an assertion when it has written something, so it gives what it wrote beside its
return value.
-/

set_option autoImplicit false

namespace Prephv

open Intervals

/-! ### The source -/

/-- `strlen`. -/
def strlen (m : Memory) : Nat → U64 → MemRes Nat
  | 0, _ => .error .fuel
  | n + 1, p => if m p = 0 then .ok 0 else (strlen m n (p + 1)).map (· + 1)

/-- `fdt_get_name`: the name, or nothing, and `*len`. -/
def Fdt.getName (fdt : Fdt) (nodeoffset : FdtInt) : MemRes (Option U64 × FdtInt) :=
  let nh := fdt.offsetPtr' nodeoffset
  if fdt.checkHeader ≠ 0 then .ok (none, fdt.checkHeader)
  else do
    let err ← fdt.checkNodeOffset nodeoffset
    if err.neg then .ok (none, err)
    else
      let len ← strlen fdt.mem Fdt.steps (nh + 4)
      .ok (some (nh + 4), BitVec.ofNat 32 len)

/-- What `rom_getprop` reads: `prep_dtb`, `memory_node`, `guest_mem_reg_ranges` and
`guest_mem_avail_ranges`. -/
structure PropState where
  prepDtb : Fdt
  memoryNode : FdtInt
  regRanges : List Range
  availRanges : List Range

/-- A call of `rom_getprop`: what it stored at `dest_len`, the bytes it wrote from `dest_data` on,
and how it ended. -/
structure PropCall where
  destLen : Option U32
  wrote : List (BitVec 8)
  ret : MemRes (BitVec 32)

/-- The length is stored and the data copied, as much of it as the buffer holds. -/
def propCopy (m : Memory) (data : U64) (len destLen : U32) (dest : Bool) (maxData : U32) :
    PropCall :=
  ⟨some destLen, if dest then memBytes m data (minU32 len maxData).toNat else [], .ok 0⟩

/-- What follows a call of libfdt, which gives the data and `len`: without data the call ends as
`missing` says. -/
def propFound (x : MemRes (Option U64 × FdtInt)) (missing : MemRes (BitVec 32))
    (found : U64 → U32 → PropCall) : PropCall :=
  match x with
  | .error e => ⟨none, [], .error e⟩
  | .ok (none, _) => ⟨none, [], missing⟩
  | .ok (some data, len) => found data len

/-- `rom_memory_getprop`'s loop over `guest_mem_reg_ranges`, with `len` bytes left. -/
def regWords : List Range → BitVec 32 → List U32
  | [], _ => []
  | r :: l, len =>
    if len.toInt ≤ 0 then []
    else if (len - 4).toInt ≤ 0 then [r.base.setWidth 32]
    else r.base.setWidth 32 :: (r.limit - r.base + 1).setWidth 32 :: regWords l (len - 4 - 4)

/-- `rom_memory_getprop`. -/
def romMemoryGetprop (s : PropState) (name : String) (dest : Bool) (maxData : U32) : PropCall :=
  if ascii name = ascii "reg" then
    let len := rangesLen s.regRanges
    ⟨some (memoryDestLen len maxData),
      if dest then wordBytes (regWords s.regRanges len) else [], .ok 0⟩
  else if ascii name = ascii "available" then
    let len := rangesLen s.availRanges
    let (ws, bug) := if dest then availStores s.availRanges len else ([], none)
    ⟨some (memoryDestLen len maxData), wordBytes ws,
      match bug with
      | none => .ok 0
      | some b => .error (.bug b)⟩
  else
    propFound (s.prepDtb.getprop s.memoryNode name) (.ok (-1)) fun data len =>
      propCopy s.prepDtb.mem data len (memoryDestLen len maxData) dest maxData

/-- The memory that holds the string `"/"`. -/
def rootName : Memory := fun p => if p = 0 then 0x2f else 0

/-- `rom_getprop`. -/
def romGetprop (s : PropState) (node : FdtInt) (name : String) (dest : Bool) (maxData : U32) :
    PropCall :=
  if ascii name = ascii "name" then
    if node = 0 then propCopy rootName 0 1 1 dest maxData
    else
      propFound (s.prepDtb.getName node) (.error (.bug ⟨"fdt_get_name failed for 0x%x"⟩))
        fun data len => propCopy s.prepDtb.mem data len len dest maxData
  else if node = s.memoryNode then romMemoryGetprop s name dest maxData
  else
    propFound (s.prepDtb.getprop node name) (.ok (-1)) fun data len =>
      propCopy s.prepDtb.mem data len len dest maxData

/-- `rom_call`, `getproplen`. -/
def romGetproplenCall (s : PropState) (node : U32) (name : String) : PropCall :=
  romGetprop s (nodeDemunge node) name false 0

/-- `rom_call`, `getprop`, with the buffer of `datalen` bytes at `datap`. -/
def romGetpropCall (s : PropState) (node : U32) (name : String) (datap datalen : U32) : PropCall :=
  romGetprop s (nodeDemunge node) name (decide (datap ≠ 0)) datalen

/-! ### The loops -/

/-- The two words of a range. -/
def rangeWords (r : Range) : List U32 :=
  [r.base.setWidth 32, (r.limit - r.base + 1).setWidth 32]

@[simp] theorem length_wordBytes (ws : List U32) : (wordBytes ws).length = 4 * ws.length := by
  induction ws with
  | nil => rfl
  | cons w ws ih =>
    rw [wordBytes, List.flatMap_cons, List.length_append, ← wordBytes, ih, List.length_cons]
    simp only [List.length_cons, List.length_nil]
    omega

/-- The ranges for which the loop with `len` bytes has room. -/
def rangeRoom (len : BitVec 32) : Nat := len.toInt.toNat / 8

/-- A length that is a multiple of 8, as an `int`: nothing is left, or a range is. -/
theorem int_cases {len : BitVec 32} (h : 8 ∣ len.toNat) :
    (len.toInt ≤ 0 ∧ rangeRoom len = 0) ∨
      (¬ len.toInt ≤ 0 ∧ ¬ (len - 4).toInt ≤ 0 ∧ 8 ∣ (len - 4 - 4).toNat ∧
        rangeRoom len = rangeRoom (len - 4 - 4) + 1) := by
  have hlen := len.isLt
  have hint := BitVec.toInt_eq_toNat_cond len
  by_cases hpos : len.toInt ≤ 0
  · refine Or.inl ⟨hpos, ?_⟩
    rw [rangeRoom, Int.toNat_eq_zero.mpr hpos]
  · have hsmall : len.toNat < 2 ^ 31 ∧ 8 ≤ len.toNat := by
      split at hint <;> omega
    have h4 : (len - 4).toNat = len.toNat - 4 :=
      BitVec.toNat_sub_of_le (show (4 : U32).toNat ≤ len.toNat by show 4 ≤ _; omega)
    have h8 : (len - 4 - 4).toNat = len.toNat - 8 := by
      rw [BitVec.toNat_sub_of_le (show (4 : U32).toNat ≤ (len - 4).toNat by show 4 ≤ _; omega), h4]
      show len.toNat - 4 - 4 = _
      omega
    have hint4 := BitVec.toInt_eq_toNat_cond (len - 4)
    have hint8 := BitVec.toInt_eq_toNat_cond (len - 4 - 4)
    rw [if_pos (by omega)] at hint hint4 hint8
    refine Or.inr ⟨hpos, ?_, by omega, ?_⟩
    · rw [hint4]
      omega
    · rw [rangeRoom, rangeRoom, hint, hint8]
      omega

theorem regWords_eq (l : List Range) {len : BitVec 32} (h : 8 ∣ len.toNat) :
    regWords l len = (l.take (rangeRoom len)).flatMap rangeWords := by
  induction l generalizing len with
  | nil => simp [regWords]
  | cons r l ih =>
    rw [regWords]
    rcases int_cases h with ⟨h₁, hroom⟩ | ⟨h₁, h₂, h₃, hroom⟩
    · rw [if_pos h₁, hroom]
      rfl
    · rw [if_neg h₁, if_neg h₂, hroom, ih h₃]
      rfl

/-- The loop over the available ranges writes what the other one does for the ranges before the
first that is not in whole pages. -/
theorem availStores_words (l : List Range) (len : BitVec 32) :
    (availStores l len).1 = regWords (l.takeWhile fun r => decide r.Paged) len := by
  induction l generalizing len with
  | nil => rfl
  | cons r l ih =>
    unfold availStores
    dsimp only
    rw [List.takeWhile_cons]
    by_cases hb : (r.base.setWidth 32 : U32) % 4096 = 0
    · by_cases hbs : ((r.limit - r.base + 1).setWidth 32 : U32) % 4096 = 0
      · have hpaged : decide r.Paged = true := decide_eq_true ⟨hb, hbs⟩
        rw [hpaged, if_pos rfl, if_neg (not_not.mpr hb), if_neg (not_not.mpr hbs), regWords]
        by_cases h₁ : len.toInt ≤ 0
        · rw [if_pos h₁, if_pos h₁]
        · by_cases h₂ : (len - 4).toInt ≤ 0
          · rw [if_neg h₁, if_neg h₁, if_pos h₂, if_pos h₂]
          · rw [if_neg h₁, if_neg h₁, if_neg h₂, if_neg h₂, ← ih]
      · have hpaged : decide r.Paged = false := decide_eq_false fun h => hbs h.2
        rw [hpaged, if_neg (not_not.mpr hb), if_pos hbs]
        rfl
    · have hpaged : decide r.Paged = false := decide_eq_false fun h => hb h.1
      rw [hpaged, if_pos hb]
      rfl

theorem rangesLen_dvd (l : List Range) : 8 ∣ (rangesLen l).toNat := by
  rw [rangesLen, BitVec.toNat_ofNat]
  omega

theorem length_rangeWords (l : List Range) : (l.flatMap rangeWords).length = 2 * l.length := by
  induction l with
  | nil => rfl
  | cons r l ih =>
    rw [List.flatMap_cons, List.length_append, ih, List.length_cons]
    show 2 + 2 * l.length = _
    omega

theorem length_regWords (l : List Range) {len : BitVec 32} (h : 8 ∣ len.toNat) :
    (regWords l len).length = 2 * min l.length (rangeRoom len) := by
  rw [regWords_eq l h, length_rangeWords, List.length_take, Nat.min_comm]

/-! ### The caller's buffer -/

theorem minU32_toNat (x y : U32) : (minU32 x y).toNat = min x.toNat y.toNat := by
  unfold minU32
  split
  · next h =>
    have h : x.toNat < y.toNat := h
    omega
  · next h =>
    have h : ¬ x.toNat < y.toNat := h
    omega

theorem length_propCopy (m : Memory) (data : U64) (len destLen maxData : U32) :
    (propCopy m data len destLen true maxData).wrote.length = min len.toNat maxData.toNat := by
  show (memBytes m data (minU32 len maxData).toNat).length = _
  rw [memBytes, List.length_map, List.length_range, minU32_toNat]

theorem propFound_length {x : MemRes (Option U64 × FdtInt)} {missing : MemRes (BitVec 32)}
    {found : U64 → U32 → PropCall} {n : Nat} (h : ∀ data len, (found data len).wrote.length ≤ n) :
    (propFound x missing found).wrote.length ≤ n := by
  unfold propFound
  split
  · exact Nat.zero_le _
  · exact Nat.zero_le _
  · exact h _ _

/-- The bytes that the loop over the list writes, of which `l'` are the ranges it comes to: eight
for each of these, as far as the length of the list goes as an `int`. -/
def listBytes (l l' : List Range) : Nat := 8 * min l'.length (rangeRoom (rangesLen l))

/-- The buffer has room for what the loops over the lists write. -/
def PropState.RoomFor (s : PropState) (node : FdtInt) (name : String) (maxData : U32) : Prop :=
  node = s.memoryNode →
    (ascii name = ascii "reg" → listBytes s.regRanges s.regRanges ≤ maxData.toNat) ∧
    (ascii name = ascii "available" →
      listBytes s.availRanges (s.availRanges.takeWhile fun r => decide r.Paged) ≤ maxData.toNat)

theorem romMemoryGetprop_reg (s : PropState) {name : String} (h : ascii name = ascii "reg")
    (maxData : U32) : (romMemoryGetprop s name true maxData).wrote.length =
      listBytes s.regRanges s.regRanges := by
  rw [romMemoryGetprop, if_pos h]
  show (wordBytes (regWords s.regRanges (rangesLen s.regRanges))).length = _
  rw [length_wordBytes, length_regWords _ (rangesLen_dvd _), listBytes]
  omega

theorem ascii_available_ne_reg : ascii "available" ≠ ascii "reg" := by decide

theorem romMemoryGetprop_available (s : PropState) {name : String}
    (h : ascii name = ascii "available") (maxData : U32) :
    (romMemoryGetprop s name true maxData).wrote.length =
      listBytes s.availRanges (s.availRanges.takeWhile fun r => decide r.Paged) := by
  rw [romMemoryGetprop, if_neg (by rw [h]; exact ascii_available_ne_reg), if_pos h]
  show (wordBytes (availStores s.availRanges (rangesLen s.availRanges)).1).length = _
  rw [length_wordBytes, availStores_words, length_regWords _ (rangesLen_dvd _), listBytes]
  omega

/-- **The caller's buffer.**  A call writes no more than the buffer holds just when it does not come
to a loop over a list that writes more. -/
theorem romGetprop_within_iff (s : PropState) (node : FdtInt) (name : String) (maxData : U32) :
    (romGetprop s node name true maxData).wrote.length ≤ maxData.toNat ↔
      s.RoomFor node name maxData := by
  have hcopy : ∀ m data len destLen,
      (propCopy m data len destLen true maxData).wrote.length ≤ maxData.toNat := by
    intro m data len destLen
    rw [length_propCopy]
    exact Nat.min_le_right _ _
  unfold PropState.RoomFor romGetprop
  split
  · -- the node's name
    next hname =>
    refine iff_of_true ?_ fun _ => ⟨fun h => ?_, fun h => ?_⟩
    · split
      · exact hcopy ..
      · exact propFound_length fun data len => hcopy ..
    · exact absurd (hname.symm.trans h) (by decide)
    · exact absurd (hname.symm.trans h) (by decide)
  · split
    · next hnode =>
      rw [forall_prop_of_true hnode]
      by_cases hreg : ascii name = ascii "reg"
      · rw [romMemoryGetprop_reg s hreg]
        refine ⟨fun h => ⟨fun _ => h, fun havail => ?_⟩, fun h => h.1 hreg⟩
        exact absurd (havail.symm.trans hreg) ascii_available_ne_reg
      · by_cases havail : ascii name = ascii "available"
        · rw [romMemoryGetprop_available s havail]
          exact ⟨fun h => ⟨fun hr => absurd hr hreg, fun _ => h⟩, fun h => h.2 havail⟩
        · refine iff_of_true ?_ ⟨fun h => absurd h hreg, fun h => absurd h havail⟩
          rw [romMemoryGetprop, if_neg hreg, if_neg havail]
          exact propFound_length fun data len => hcopy ..
    · next hnode =>
      refine iff_of_true ?_ fun h => absurd h hnode
      exact propFound_length fun data len => hcopy ..

/-- The available list of a guest of 32 MiB, and a buffer for one word. -/
theorem romGetprop_overruns : ¬ ∀ s node name maxData,
    (romGetprop s node name true maxData).wrote.length ≤ maxData.toNat := by
  intro h
  have h := h ⟨⟨fun _ => 0, 0⟩, 8, [⟨0, 0, 0x1ffffff⟩], [⟨0, 0, 0x1ffffff⟩]⟩ 8 "available" 4
  exact absurd h (by decide)

/-! ### Reading the words back -/

/-- Bytes as big-endian words. -/
def decodeWords : List (BitVec 8) → List U32
  | b₀ :: b₁ :: b₂ :: b₃ :: bs => (b₀ ++ b₁ ++ b₂ ++ b₃) :: decodeWords bs
  | _ => []

/-- Words in pairs, each the base and the size of an interval. -/
def decodePairs : List U32 → List Interval
  | base :: size :: ws => (base.toNat, base.toNat + size.toNat - 1) :: decodePairs ws
  | _ => []

/-- The intervals that bytes describe as base and size. -/
def decodeRanges (bytes : List (BitVec 8)) : List Interval := decodePairs (decodeWords bytes)

theorem decodeWords_wordBytes (ws : List U32) : decodeWords (wordBytes ws) = ws := by
  induction ws with
  | nil => rfl
  | cons w ws ih =>
    have h₁ : w.extractLsb' 24 8 ++ w.extractLsb' 16 8 = w.extractLsb' 16 16 :=
      BitVec.extractLsb'_append_extractLsb'_eq_extractLsb' rfl
    have h₂ : w.extractLsb' 16 16 ++ w.extractLsb' 8 8 = w.extractLsb' 8 24 :=
      BitVec.extractLsb'_append_extractLsb'_eq_extractLsb' rfl
    have h₃ : w.extractLsb' 8 24 ++ w.extractLsb' 0 8 = w.extractLsb' 0 32 :=
      BitVec.extractLsb'_append_extractLsb'_eq_extractLsb' rfl
    show (_ ++ _ ++ _ ++ _) :: decodeWords (wordBytes ws) = _
    rw [h₁, h₂, h₃, ih]
    exact congrArg (· :: ws) BitVec.extractLsb'_eq_self

/-- The words of ranges below 4 GiB, read back. -/
theorem decodeRanges_rangeWords {l : List Range} (hp : Prephv.Proper l)
    (hl : ∀ r ∈ l, r.limit.toNat + 1 < 2 ^ 32) :
    decodeRanges (wordBytes (l.flatMap rangeWords)) = ends l := by
  rw [decodeRanges, decodeWords_wordBytes]
  induction l with
  | nil => rfl
  | cons r l ih =>
    obtain ⟨hr, hp⟩ := Prephv.proper_cons.mp hp
    have hlimit := hl r List.mem_cons_self
    have hbase : (r.base.setWidth 32 : U32).toNat = r.base.toNat := by
      rw [BitVec.toNat_setWidth]
      omega
    have hsize : ((r.limit - r.base + 1).setWidth 32 : U32).toNat =
        r.limit.toNat - r.base.toNat + 1 := by
      rw [BitVec.toNat_setWidth, BitVec.toNat_add, BitVec.toNat_sub_of_le (BitVec.le_def.mpr hr)]
      show (r.limit.toNat - r.base.toNat + 1) % 2 ^ 64 % 2 ^ 32 = _
      omega
    have hrest := ih hp fun r hr => hl r (List.mem_cons_of_mem _ hr)
    show (_, _) :: decodePairs (l.flatMap rangeWords) = r.ends :: ends l
    rw [hrest, hbase, hsize, Range.ends]
    refine congrArg (· :: ends l) (Prod.ext rfl ?_)
    show r.base.toNat + (r.limit.toNat - r.base.toNat + 1) - 1 = r.limit.toNat
    omega

/-! ### The length and the value -/

/-- A list that the memory node's properties can describe. -/
structure Describable (l : List Range) : Prop where
  proper : Prephv.Proper l
  below : ∀ r ∈ l, r.limit.toNat + 1 < 2 ^ 32
  paged : ∀ r ∈ l, r.Paged
  few : l.length * 8 < 2 ^ 31

theorem ClaimState.Sound.describable {st : ClaimState} {ramSize : Nat} (h : st.Sound ramSize)
    (hpage : 4096 ∣ ramSize) (hmax : ramSize < 2 ^ 32) : Describable st.avail.ranges := by
  have haligned := h.aligned hpage
  refine ⟨h.inOrder.proper, fun r hr => ?_, paged_of_ends haligned, ?_⟩
  · have := h.within r hr
    omega
  · have hends : ∀ i ∈ ends st.avail.ranges, i.2 < ramSize := by
      intro i hi
      obtain ⟨r, hr, rfl⟩ := List.mem_map.mp hi
      exact h.within r hr
    have hcount := haligned.length_mul_le (sorted_ends.mpr h.inOrder.ordered)
      (proper_ends.mpr h.inOrder.proper) (fun _ _ => Nat.zero_le _) hends (Nat.zero_le _)
    rw [ends, List.length_map] at hcount
    omega

section Describable

variable {l : List Range} (hl : Describable l)
include hl

theorem Describable.rangesLen_toNat : (rangesLen l).toNat = 8 * l.length := by
  have := hl.few
  rw [rangesLen, BitVec.toNat_ofNat]
  omega

theorem Describable.regWords_eq : regWords l (rangesLen l) = l.flatMap rangeWords := by
  have hfew := hl.few
  have hlen := hl.rangesLen_toNat
  have hint := BitVec.toInt_eq_toNat_cond (rangesLen l)
  rw [if_pos (by omega)] at hint
  have hroom : rangeRoom (rangesLen l) = l.length := by
    rw [rangeRoom, hint, hlen]
    omega
  rw [Prephv.regWords_eq l (rangesLen_dvd l), hroom, List.take_length]

theorem Describable.availStores_eq :
    availStores l (rangesLen l) = (l.flatMap rangeWords, none) := by
  have htake : l.takeWhile (fun r => decide r.Paged) = l :=
    List.takeWhile_eq_self_iff.mpr fun r hr => decide_eq_true (hl.paged r hr)
  have hstores := availStores_words l (rangesLen l)
  rw [htake, hl.regWords_eq] at hstores
  exact Prod.ext hstores (availStores_returns hl.paged (rangesLen l))

/-- The list's bytes, and what they give back. -/
theorem Describable.bytes : (wordBytes (l.flatMap rangeWords)).length = (rangesLen l).toNat ∧
    decodeRanges (wordBytes (l.flatMap rangeWords)) = ends l := by
  refine ⟨?_, decodeRanges_rangeWords hl.proper hl.below⟩
  rw [length_wordBytes, length_rangeWords, hl.rangesLen_toNat]
  omega

end Describable

/-- The call succeeded, reported `len` bytes and wrote just these. -/
structure PropCall.Whole (c : PropCall) (len : U32) : Prop where
  ret : c.ret = .ok 0
  destLen : c.destLen = some len
  wrote : c.wrote.length = len.toNat

theorem minU32_self (x : U32) : minU32 x x = x := by
  unfold minU32
  split <;> rfl

theorem memoryDestLen_self (x : U32) : memoryDestLen x x = x := by
  rw [memoryDestLen, minU32_self]
  split <;> rfl

/-- A copy into a buffer of the length asked for. -/
theorem propCopy_whole {m : Memory} {data : U64} {len destLen L : U32} (hL : len = L)
    (hdest : destLen = L) : (propCopy m data len destLen true L).Whole L := by
  subst hL hdest
  refine ⟨rfl, rfl, ?_⟩
  rw [length_propCopy, Nat.min_self]

/-- What a lookup of the length found, the lookup of the value copies. -/
theorem propFound_whole {x : MemRes (Option U64 × FdtInt)} {missing : MemRes (BitVec 32)}
    (hmissing : missing ≠ .ok 0) {m : Memory} {f : U32 → U32 → U32} {L : U32}
    (hf : f L L = L) (hf₀ : ∀ len, f len 0 = len)
    (hret : (propFound x missing fun data len => propCopy m data len (f len 0) false 0).ret = .ok 0)
    (hlen : (propFound x missing fun data len => propCopy m data len (f len 0) false 0).destLen =
      some L) :
    (propFound x missing fun data len => propCopy m data len (f len L) true L).Whole L := by
  cases x with
  | error e => cases hret
  | ok r =>
    obtain ⟨data, len⟩ := r
    cases data with
    | none => exact absurd hret hmissing
    | some data =>
      have hlen : f len 0 = L := Option.some.inj hlen
      rw [hf₀] at hlen
      subst hlen
      exact propCopy_whole rfl hf

/-- The properties of the memory node. -/
theorem romMemoryGetprop_agrees {s : PropState} {name : String} {L : U32}
    (hreg : Describable s.regRanges) (havail : Describable s.availRanges)
    (hret : (romMemoryGetprop s name false 0).ret = .ok 0)
    (hlen : (romMemoryGetprop s name false 0).destLen = some L) :
    (romMemoryGetprop s name true L).Whole L ∧
      (ascii name = ascii "available" →
        decodeRanges (romMemoryGetprop s name true L).wrote = ends s.availRanges) ∧
      (ascii name = ascii "reg" →
        decodeRanges (romMemoryGetprop s name true L).wrote = ends s.regRanges) := by
  unfold romMemoryGetprop at hret hlen ⊢
  by_cases h₁ : ascii name = ascii "reg"
  · rw [if_pos h₁] at hlen ⊢
    obtain rfl : rangesLen s.regRanges = L := Option.some.inj hlen
    dsimp only
    rw [if_pos rfl, hreg.regWords_eq]
    refine ⟨⟨rfl, congrArg some (memoryDestLen_self _), hreg.bytes.1⟩, fun h => ?_,
      fun _ => hreg.bytes.2⟩
    exact absurd (h.symm.trans h₁) ascii_available_ne_reg
  · by_cases h₂ : ascii name = ascii "available"
    · rw [if_neg h₁, if_pos h₂] at hlen ⊢
      obtain rfl : rangesLen s.availRanges = L := Option.some.inj hlen
      dsimp only
      rw [if_pos rfl, havail.availStores_eq]
      exact ⟨⟨rfl, congrArg some (memoryDestLen_self _), havail.bytes.1⟩,
        fun _ => havail.bytes.2, fun h => absurd h h₁⟩
    · rw [if_neg h₁, if_neg h₂] at hret hlen ⊢
      refine ⟨?_, fun h => absurd h h₂, fun h => absurd h h₁⟩
      exact propFound_whole (by decide) (memoryDestLen_self L) (fun _ => rfl) hret hlen

/-- **`getproplen` and `getprop` agree, and the lists come back.**  After any claims, where
`getproplen` succeeds with a length, `getprop` with a buffer of that length succeeds, reports the
length and writes as many bytes; and those of the memory node's `available` and `reg` describe the
ranges of the list, in order. -/
theorem ClaimRun.properties {alloc : MemState → MemRes (Nat × MemState)} {guest : Guest}
    {mem mem' reg : MemState} {st : ClaimState} {cs : List Claimed} (halloc : AllocLocal alloc)
    (h16 : 2 ^ 24 ∣ guest.ramSize.toNat) (hmax : guest.ramSize.toNat < 2 ^ 32)
    (h : ClaimRun alloc guest mem (fun _ _ => True) cs st)
    (hreg : rangeAdd alloc 0 (guest.ramSize - 1) { mem' with ranges := [] } = .ok reg)
    {s : PropState} (hregs : s.regRanges = reg.ranges) (havails : s.availRanges = st.avail.ranges)
    (node : U32) (name : String) {L : U32}
    (hret : (romGetproplenCall s node name).ret = .ok 0)
    (hlen : (romGetproplenCall s node name).destLen = some L) {datap : U32} (hdatap : datap ≠ 0) :
    (romGetpropCall s node name datap L).Whole L ∧
      (nodeDemunge node = s.memoryNode → ascii name = ascii "available" →
        decodeRanges (romGetpropCall s node name datap L).wrote = ends st.avail.ranges) ∧
      (nodeDemunge node = s.memoryNode → ascii name = ascii "reg" →
        decodeRanges (romGetpropCall s node name datap L).wrote = ends reg.ranges) := by
  have hpage : 4096 ∣ guest.ramSize.toNat := Nat.dvd_trans (by decide) h16
  have havail : Describable s.availRanges := by
    rw [havails]
    exact (h.sound halloc).describable hpage hmax
  have hregd : Describable s.regRanges := by
    obtain ⟨i, hranges⟩ := rangeAdd_nil_ok halloc rfl hreg
    rw [hregs]
    exact (@ClaimState.Sound.all ⟨st.rom, reg⟩ _ h.size _ hranges).describable hpage hmax
  have hdest : decide (datap ≠ 0) = true := decide_eq_true hdatap
  rw [← hregs, ← havails]
  unfold romGetproplenCall at hret hlen
  unfold romGetpropCall
  rw [hdest]
  unfold romGetprop at hret hlen ⊢
  by_cases hname : ascii name = ascii "name"
  · rw [if_pos hname] at hret hlen ⊢
    refine ⟨?_, fun _ h => absurd (hname.symm.trans h) (by decide),
      fun _ h => absurd (hname.symm.trans h) (by decide)⟩
    by_cases hroot : nodeDemunge node = 0
    · rw [if_pos hroot] at hlen ⊢
      obtain rfl : (1 : U32) = L := Option.some.inj hlen
      exact propCopy_whole rfl rfl
    · rw [if_neg hroot] at hret hlen ⊢
      exact @propFound_whole _ _ (by simp) _ (fun len _ => len) L rfl (fun _ => rfl) hret hlen
  · rw [if_neg hname] at hret hlen ⊢
    by_cases hnode : nodeDemunge node = s.memoryNode
    · rw [if_pos hnode] at hret hlen ⊢
      obtain ⟨hwhole, h₁, h₂⟩ := romMemoryGetprop_agrees hregd havail hret hlen
      exact ⟨hwhole, fun _ => h₁, fun _ => h₂⟩
    · rw [if_neg hnode] at hret hlen ⊢
      refine ⟨?_, fun h => absurd h hnode, fun h => absurd h hnode⟩
      exact @propFound_whole _ _ (by decide) _ (fun len _ => len) L rfl (fun _ => rfl) hret hlen

/-- A guest of 32 MiB, after a claim of the page at 0x50000. -/
def sampleProps : PropState where
  prepDtb := ⟨fun _ => 0, 0⟩
  memoryNode := 8
  regRanges := [⟨1, 0, 0x1ffffff⟩]
  availRanges := [⟨2, 0, 0x4ffff⟩, ⟨1, 0x51000, 0x1ffffff⟩]

theorem ClaimRun.properties_sample :
    (romGetpropCall sampleProps 0x10000008 "available" 0x8000 16).Whole 16 ∧
      decodeRanges (romGetpropCall sampleProps 0x10000008 "available" 0x8000 16).wrote =
        [(0, 0x4ffff), (0x51000, 0x1ffffff)] := by
  have hs : romClaim freshNode (stateOf [⟨1, 0, 0x1ffffff⟩]) ⟨0x50000, 0x1000, 0⟩ =
      .ok (0x50000, stateOf [⟨2, 0, 0x4ffff⟩, ⟨1, 0x51000, 0x1ffffff⟩]) := by decide +kernel
  have hrun := (ClaimRun.init (C := fun _ _ => True) stateOf_init).claim
    (c := ⟨⟨0x50000, 0x1000, 0⟩, 0x50000⟩) trivial hs
  obtain ⟨reg, hreg, hranges⟩ : ∃ reg,
      rangeAdd freshNode 0 (0x2000000 - 1) { rangeState [] with ranges := [] } = .ok reg ∧
        reg.ranges = [⟨1, 0, 0x1ffffff⟩] := ⟨_, by rfl, by rfl⟩
  obtain ⟨hwhole, havail, -⟩ := @ClaimRun.properties _ _ _ _ _ _ _ freshNode_total.allocLocal
    (by decide) (by decide) hrun hreg sampleProps hranges.symm rfl 0x10000008 "available" 16
    (by rfl) (by rfl) 0x8000 (by decide)
  exact ⟨hwhole, havail (by decide) rfl⟩

end Prephv
