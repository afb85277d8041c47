import Prephv.Mem.Init

/-!
# Rom — Media

The guest's disk is the initrd.  `rom_disk_init` finds it in the device tree, and `guest_disk_read`
is how the FAT library reads sectors of it.

`mem_init` has read the same two properties, to take the initrd out of the free list.  It looks at
their lengths; `rom_disk_init` reads a word of each, whatever their length
(`romDiskInit_agrees_iff`).

`guest_disk_read` copies one sector in each iteration of its loop, and each copy is as long as the
whole request.  So a request for more than one sector writes past the end of the buffer; nothing
checks that the sectors are there (`guestDiskRead_exact_iff`).
-/

set_option autoImplicit false

namespace Prephv

/-! ### `rom_disk_init` -/

/-- What `rom_disk_init` reads of a property of `/chosen`. -/
def diskProp (fdt : Fdt) (node : FdtInt) (name : String) : MemRes U64 := do
  let (be32Data, _) ← fdt.getprop node name
  .ok (match be32Data with
    | none => 0
    | some p => (be32 fdt.mem p).setWidth 64)

/-- `rom_disk_init`: `guest_disk` and `guest_disk_len`, or nothing where it returns
`ERR_NOT_FOUND`. -/
def romDiskInit (fdt : Fdt) : MemRes (Option (U64 × U64)) := do
  let node ← fdt.pathOffset ["chosen"]
  if node.neg then .ok none
  else do
    let initrdStart ← diskProp fdt node "linux,initrd-start"
    let initrdEnd ← diskProp fdt node "linux,initrd-end"
    if initrdEnd - initrdStart = 0 then .ok none
    else do
      let guestDisk ← ra2Ptr initrdStart
      .ok (some (guestDisk, initrdEnd - initrdStart))

/-- The byte at a real address is in the guest's disk. -/
def Fdt.DiskByte (fdt : Fdt) (a : Nat) : Prop :=
  ∃ guestDisk guestDiskLen, romDiskInit fdt = .ok (some (guestDisk, guestDiskLen)) ∧
    guestDisk.toNat ≤ hvAspace.toNat + a ∧
      hvAspace.toNat + a < guestDisk.toNat + guestDiskLen.toNat

/-- The property of `/chosen` has `len` bytes. -/
def Fdt.ChosenLen (fdt : Fdt) (name : String) (len : FdtInt) : Prop :=
  ∃ node prop, fdt.pathOffset ["chosen"] = .ok node ∧ fdt.getprop node name = .ok (some prop, len)

section DiskInit

variable {fdt : Fdt} {node : FdtInt} {name : String} {v start end_ : U64}

theorem be64_toNat (m : Memory) (p : U64) :
    (be64 m p).toNat = 2 ^ 32 * (be32 m p).toNat + (be32 m (p + 4)).toNat :=
  Words.append_toNat ..

/-- What the two readers make of a property of four or eight bytes. -/
theorem initrdProp_eq_ok (h : initrdProp fdt node name = .ok v) :
    ∃ prop len word, fdt.getprop node name = .ok (some prop, len) ∧
      diskProp fdt node name = .ok word ∧ word.toNat < 2 ^ 32 ∧
      ((len = 4 ∧ v = word) ∨ (len = 8 ∧ len ≠ 4 ∧ v.toNat / 2 ^ 32 = word.toNat)) := by
  obtain ⟨⟨prop, len⟩, hget, h⟩ := bind_eq_ok.mp h
  obtain ⟨hprop, h⟩ := memBugOn_bind_eq_ok.mp h
  obtain ⟨hlen, h⟩ := memBugOn_bind_eq_ok.mp h
  cases prop with
  | none => exact absurd rfl hprop
  | some prop =>
    have hword := (be32 fdt.mem prop).isLt
    have hwide : ((be32 fdt.mem prop).setWidth 64 : U64).toNat = (be32 fdt.mem prop).toNat := by
      rw [BitVec.toNat_setWidth]
      omega
    refine ⟨prop, len, (be32 fdt.mem prop).setWidth 64, hget, ?_, by omega, ?_⟩
    · rw [diskProp, hget]
      rfl
    · cases h
      by_cases hfour : len = 4
      · exact Or.inl ⟨hfour, if_pos hfour⟩
      · have height : len = 8 := by
          by_contra hne
          exact hlen ⟨hfour, hne⟩
        refine Or.inr ⟨height, hfour, ?_⟩
        have hlow := (be32 fdt.mem (prop + 4)).isLt
        dsimp only [Option.getD_some]
        rw [if_neg hfour, be64_toNat, hwide]
        omega

/-- `rom_disk_init` where the first words of the two properties are `start` and `end_`. -/
theorem romDiskInit_eq (hnode : fdt.pathOffset ["chosen"] = .ok node) (hneg : node.neg = false)
    (hstart : diskProp fdt node "linux,initrd-start" = .ok start)
    (hend : diskProp fdt node "linux,initrd-end" = .ok end_) (hlt : start.toNat < 2 ^ 32) :
    romDiskInit fdt = .ok (if end_ - start = 0 then none
      else some (start ||| hvAspace, end_ - start)) := by
  have hra : ra2Ptr start = .ok (start ||| hvAspace) := by
    have hbug : ¬ start ≥ hvAspace := fun h => by
      have h : 2 ^ 63 ≤ start.toNat := h
      omega
    rw [ra2Ptr, memBugOn, if_neg hbug]
    rfl
  rw [romDiskInit, hnode, ok_bind, if_neg (by rw [hneg]; exact Bool.false_ne_true), hstart,
    ok_bind, hend, ok_bind]
  split
  · rfl
  · rw [hra]
    rfl

/-- The bytes of the disk, by the first words of the two properties. -/
theorem diskByte_iff (hnode : fdt.pathOffset ["chosen"] = .ok node) (hneg : node.neg = false)
    (hstart : diskProp fdt node "linux,initrd-start" = .ok start)
    (hend : diskProp fdt node "linux,initrd-end" = .ok end_) (hlt : start.toNat < 2 ^ 32)
    (a : Nat) : fdt.DiskByte a ↔
      start.toNat ≤ a ∧ a < start.toNat + (end_ - start).toNat := by
  have hdisk : (start ||| hvAspace).toNat = hvAspace.toNat + start.toNat := by
    rw [Words.or_toNat (show start.toNat < 2 ^ 63 by omega) (by decide), Nat.add_comm]
  rw [Fdt.DiskByte, romDiskInit_eq hnode hneg hstart hend hlt]
  by_cases hsame : end_ - start = 0
  · rw [if_pos hsame, hsame]
    refine iff_of_false (fun ⟨_, _, h, _⟩ => by cases h) fun ⟨h₁, h₂⟩ => ?_
    have h₂ : a < start.toNat + 0 := h₂
    omega
  · rw [if_neg hsame]
    constructor
    · rintro ⟨_, _, h, h₁, h₂⟩
      cases h
      omega
    · rintro ⟨h₁, h₂⟩
      exact ⟨_, _, rfl, by omega, by omega⟩

/-- Two ranges of addresses, of which one is not empty. -/
theorem spans_eq_iff {a b c d : Nat} (h : a < b) :
    (∀ x, (c ≤ x ∧ x < d) ↔ (a ≤ x ∧ x < b)) ↔ c = a ∧ d = b := by
  constructor
  · intro hall
    have h₁ := hall a
    have h₂ := hall (b - 1)
    have h₃ := hall c
    have h₄ := hall (d - 1)
    omega
  · rintro ⟨rfl, rfl⟩ x
    exact Iff.rfl

theorem chosenLen_iff (hnode : fdt.pathOffset ["chosen"] = .ok node) {prop : U64}
    {len len' : FdtInt} (hget : fdt.getprop node name = .ok (some prop, len)) :
    fdt.ChosenLen name len' ↔ len = len' := by
  constructor
  · rintro ⟨node', prop', hnode', hget'⟩
    rw [hnode] at hnode'
    cases hnode'
    rw [hget] at hget'
    cases hget'
    rfl
  · rintro rfl
    exact ⟨node, prop, hnode, hget⟩

/-- What `mem_init` removes for an initrd that has an end beyond its start. -/
theorem initrdSpan_iff (h : initrd fdt = .ok (start, end_)) (hlt : start.toNat < end_.toNat)
    (a : Nat) : fdt.InitrdSpan a ↔ start.toNat ≤ a ∧ a < end_.toNat := by
  have hlast : (end_ - 1).toNat = end_.toNat - 1 := pred_toNat (by omega)
  constructor
  · rintro ⟨_, _, h', h₁, h₂⟩
    rw [h] at h'
    cases h'
    omega
  · rintro ⟨h₁, h₂⟩
    exact ⟨start, end_, h, h₁, by omega⟩

/-- **The two readers of the initrd's location** agree just when the end has four bytes, and the
start has four bytes too or is 0. -/
theorem romDiskInit_agrees_iff (h : initrd fdt = .ok (start, end_))
    (hlt : start.toNat < end_.toNat) :
    (∀ a, fdt.DiskByte a ↔ fdt.InitrdSpan a) ↔
      fdt.ChosenLen "linux,initrd-end" 4 ∧
        (fdt.ChosenLen "linux,initrd-start" 4 ∨ start = 0) := by
  obtain ⟨node, hnode, hparts⟩ := bind_eq_ok.mp h
  obtain ⟨-, hparts⟩ := memBugOn_bind_eq_ok.mp hparts
  obtain ⟨start', hstart, hparts⟩ := bind_eq_ok.mp hparts
  obtain ⟨end', hend, hparts⟩ := bind_eq_ok.mp hparts
  cases hparts
  obtain ⟨sprop, slen, sword, hsget, hsword, hslt, hs⟩ := initrdProp_eq_ok hstart
  obtain ⟨eprop, elen, eword, heget, heword, helt, he⟩ := initrdProp_eq_ok hend
  have hneg : node.neg = false := by
    by_contra hneg
    obtain ⟨len, hnone⟩ := Fdt.getprop_neg (Bool.not_eq_false _ ▸ hneg) "linux,initrd-start"
    rw [hsget] at hnone
    cases hnone
  have hz : start = 0 ↔ start.toNat = 0 := Words.eq_zero_iff
  have hdiff : (eword - sword).toNat = (2 ^ 64 - sword.toNat + eword.toNat) % 2 ^ 64 :=
    BitVec.toNat_sub ..
  have hstop := end_.isLt
  -- the regions are the same just when the first words of the properties are their values
  have hagree : (∀ a, fdt.DiskByte a ↔ fdt.InitrdSpan a) ↔
      sword.toNat = start.toNat ∧ eword.toNat = end_.toNat := by
    simp only [diskByte_iff hnode hneg hsword heword hslt, initrdSpan_iff h hlt]
    rw [spans_eq_iff hlt]
    omega
  rw [hagree, chosenLen_iff hnode hsget, chosenLen_iff hnode heget, hz]
  rcases hs with ⟨hs, rfl⟩ | ⟨hs, hs4, hsv⟩ <;> rcases he with ⟨he, rfl⟩ | ⟨he, he4, hev⟩
  · simp [hs, he]
  · simp only [he4, false_and, iff_false, not_and]
    omega
  · simp only [he, hs4, true_and, false_or, and_true]
    omega
  · simp only [he4, false_and, iff_false, not_and]
    omega

end DiskInit

/-- In the tree of 236 bytes the two properties have four bytes. -/
theorem romDiskInit_agrees_iff_sample :
    (∀ a, sampleTree.DiskByte a ↔ sampleTree.InitrdSpan a) ↔
      sampleTree.ChosenLen "linux,initrd-end" 4 ∧
        (sampleTree.ChosenLen "linux,initrd-start" 4 ∨ (0x10000000 : U64) = 0) := by
  have h : initrd sampleTree = .ok (0x10000000, 0x11000000) := by decide +kernel
  exact romDiskInit_agrees_iff h (by decide)

/-- A tree of 244 bytes with a memory node of a gigabyte and an initrd, whose start and end have
eight bytes each. -/
def wideBlob : List (BitVec 8) :=
  wordBytes [
    0xd00dfeed, 244, 56, 192, 40, 17, 16, 0, 52, 136,
    0, 0, 0, 0,
    1, 0,
    1, 0x6d656d6f, 0x72790000, 3, 7, 0, 0x6d656d6f, 0x72790000, 3, 16, 12, 0, 0, 0, 0x40000000, 2,
    1, 0x63686f73, 0x656e0000, 3, 8, 16, 0, 0x10000000, 3, 8, 35, 0, 0x11000000, 2,
    2, 9] ++
  ascii "device_type" ++ [0] ++ ascii "reg" ++ [0] ++ ascii "linux,initrd-start" ++ [0] ++
    ascii "linux,initrd-end" ++ [0]

/-- The tree at the real address `0x30000000`. -/
def wideTree : Fdt where
  mem p := wideBlob.getD (p - 0x8000000030000000).toNat 0
  ptr := 0x8000000030000000

/-- `mem_init` keeps the initrd of that tree, and `rom_disk_init` finds no disk. -/
theorem romDiskInit_misses : ¬ ∀ fdt start end_, initrd fdt = .ok (start, end_) →
    start.toNat < end_.toNat → ∀ a, fdt.DiskByte a ↔ fdt.InitrdSpan a := by
  intro hall
  have h : initrd wideTree = .ok (0x10000000, 0x11000000) := by decide +kernel
  have hdisk : romDiskInit wideTree = .ok none := by decide +kernel
  have hspan : wideTree.InitrdSpan 0x10000000 := ⟨_, _, h, by decide, by decide⟩
  obtain ⟨_, _, hsome, -⟩ := (hall wideTree _ _ h (by decide) 0x10000000).mpr hspan
  rw [hdisk] at hsome
  cases hsome

/-! ### `guest_disk_read` -/

/-- `FAT_SECTOR_SIZE`. -/
def fatSectorSize : U32 := 512

/-- A call `memcpy(dst, guest_disk + src, len)`. -/
structure MediaCopy where
  dst : U64
  src : U32
  len : U32
  deriving DecidableEq, Repr

/-- `guest_disk_read`'s loop, with `n` iterations to go. -/
def mediaLoop (sectorCount : U32) : Nat → U32 → U64 → List MediaCopy
  | 0, _, _ => []
  | n + 1, sector, buffer =>
    -- each iteration copies `sector_count` sectors, and goes on by one
    ⟨buffer, sector * fatSectorSize, sectorCount * fatSectorSize⟩ ::
      mediaLoop sectorCount n (sector + 1) (buffer + fatSectorSize.setWidth 64)

/-- `guest_disk_read`: its return value, and the copies it makes. -/
def guestDiskRead (sector : U32) (buffer : U64) (sectorCount : U32) : BitVec 32 × List MediaCopy :=
  (1, mediaLoop sectorCount sectorCount.toNat sector buffer)

/-- The copy writes the byte at the address. -/
def MediaCopy.Writes (c : MediaCopy) (a : U64) : Prop := (a - c.dst).toNat < c.len.toNat

instance (c : MediaCopy) (a : U64) : Decidable (c.Writes a) :=
  inferInstanceAs (Decidable (_ < _))

/-- The memory after a copy from `disk`, the bytes from `guest_disk` on. -/
def MediaCopy.exec (disk : Nat → BitVec 8) (m : Memory) (c : MediaCopy) : Memory := fun a =>
  if c.Writes a then disk (c.src.toNat + (a - c.dst).toNat) else m a

/-- The requested sectors are in the disk's `len` bytes. -/
def SectorsInside (len : Nat) (sector count : U32) : Prop :=
  ∀ k < count.toNat, 512 * (sector.toNat + k + 1) ≤ len

/-- What `guest_disk_read` should do. -/
structure ReadsExactly (disk : Nat → BitVec 8) (len : Nat) (sector : U32) (buffer : U64)
    (count : U32) : Prop where
  ret : SectorsInside len sector count → (guestDiskRead sector buffer count).1 = 1
  writes : SectorsInside len sector count → ∀ a,
    (∃ c ∈ (guestDiskRead sector buffer count).2, c.Writes a) ↔
      (a - buffer).toNat < 512 * count.toNat
  content : SectorsInside len sector count → ∀ m a,
    (guestDiskRead sector buffer count).2.foldl (MediaCopy.exec disk) m a =
      if (a - buffer).toNat < 512 * count.toNat
      then disk (512 * sector.toNat + (a - buffer).toNat) else m a
  refused : ¬ SectorsInside len sector count → (guestDiskRead sector buffer count).1 = 0 ∧
    ∀ c ∈ (guestDiskRead sector buffer count).2, c.len = 0 ∨ c.src.toNat + c.len.toNat ≤ len

/-- The request is empty, or it is for one sector, or as good as for one in 32 bits: its sectors are
there, and the bytes at their offsets in 32 bits are theirs. -/
def MediaOk (disk : Nat → BitVec 8) (len : Nat) (sector count : U32) : Prop :=
  count = 0 ∨ (count.toNat % 2 ^ 23 = 1 ∧ SectorsInside len sector count ∧
    ∀ k < 512 * count.toNat,
      disk ((512 * sector.toNat + k) % 2 ^ 32) = disk (512 * sector.toNat + k))

section Read

variable {disk : Nat → BitVec 8} {len : Nat} {sector count : U32} {buffer : U64}

theorem sectorBytes_toNat (x : U32) : (x * fatSectorSize).toNat = 512 * x.toNat % 2 ^ 32 := by
  have hsize : fatSectorSize.toNat = 512 := rfl
  rw [BitVec.toNat_mul, hsize, Nat.mul_comm]

/-- The copies of the loop: one for each sector, at its place in the buffer. -/
theorem mem_mediaLoop {n : Nat} {c : MediaCopy} : c ∈ mediaLoop count n sector buffer ↔
    ∃ i < n, c = ⟨buffer + BitVec.ofNat 64 (512 * i), (sector + BitVec.ofNat 32 i) * fatSectorSize,
      count * fatSectorSize⟩ := by
  induction n generalizing sector buffer with
  | zero => simp [mediaLoop]
  | succ n ih =>
    have hb : ∀ i, buffer + fatSectorSize.setWidth 64 + BitVec.ofNat 64 (512 * i) =
        buffer + BitVec.ofNat 64 (512 * (i + 1)) := by
      intro i
      have hsize : fatSectorSize.setWidth 64 = BitVec.ofNat 64 512 := by decide
      rw [BitVec.add_assoc, hsize, ← BitVec.ofNat_add, Nat.mul_add, Nat.add_comm]
    have hs : ∀ i, sector + 1 + BitVec.ofNat 32 i = sector + BitVec.ofNat 32 (i + 1) := by
      intro i
      rw [BitVec.add_assoc, Nat.add_comm i 1, BitVec.ofNat_add]
      rfl
    rw [mediaLoop, List.mem_cons, ih]
    simp only [hb, hs]
    constructor
    · rintro (rfl | ⟨i, hi, rfl⟩)
      · exact ⟨0, Nat.zero_lt_succ n, by simp⟩
      · exact ⟨i + 1, Nat.succ_lt_succ hi, rfl⟩
    · rintro ⟨i, hi, rfl⟩
      cases i with
      | zero => exact Or.inl (by simp)
      | succ i => exact Or.inr ⟨i, Nat.lt_of_succ_lt_succ hi, rfl⟩

/-- The offset of an address in the buffer, from a place in it. -/
theorem offset_toNat {b : U64} (a : U64) {k : Nat} (hk : k < 2 ^ 64) :
    (a - (b + BitVec.ofNat 64 k)).toNat =
      if k ≤ (a - b).toNat then (a - b).toNat - k else (a - b).toNat + 2 ^ 64 - k := by
  have ha := a.isLt
  have hb := b.isLt
  simp only [BitVec.toNat_sub, BitVec.toNat_add, BitVec.toNat_ofNat]
  split <;> omega

/-- The addresses that the loop writes. -/
theorem mediaLoop_writes {a : U64} :
    (∃ c ∈ mediaLoop count count.toNat sector buffer, c.Writes a) ↔
      ∃ i < count.toNat, 512 * i ≤ (a - buffer).toNat ∧
        (a - buffer).toNat < 512 * i + 512 * count.toNat % 2 ^ 32 := by
  have hcount := count.isLt
  have hlt := (a - buffer).isLt
  constructor
  · rintro ⟨c, hc, hw⟩
    obtain ⟨i, hi, rfl⟩ := mem_mediaLoop.mp hc
    unfold MediaCopy.Writes at hw
    dsimp only at hw
    rw [sectorBytes_toNat, offset_toNat a (by omega)] at hw
    refine ⟨i, hi, ?_⟩
    split at hw <;> omega
  · rintro ⟨i, hi, h₁, h₂⟩
    refine ⟨_, mem_mediaLoop.mpr ⟨i, hi, rfl⟩, ?_⟩
    unfold MediaCopy.Writes
    dsimp only
    rw [sectorBytes_toNat, offset_toNat a (by omega), if_pos h₁]
    omega

/-- Where the copies are of a sector each, every address gets the byte of its own sector. -/
theorem mediaLoop_content (hone : count.toNat % 2 ^ 23 = 1) (m : Memory) (a : U64) {n : Nat}
    (hn : n ≤ 2 ^ 32) :
    (mediaLoop count n sector buffer).foldl (MediaCopy.exec disk) m a =
      if (a - buffer).toNat < 512 * n
      then disk ((512 * sector.toNat + (a - buffer).toNat) % 2 ^ 32) else m a := by
  have hlen : (count * fatSectorSize).toNat = 512 := by
    rw [sectorBytes_toNat]
    omega
  induction n generalizing sector buffer m with
  | zero => simp [mediaLoop]
  | succ n ih =>
    have hnext : 512 * (sector + 1).toNat % 2 ^ 32 = (512 * sector.toNat + 512) % 2 ^ 32 := by
      have hadd : (sector + 1).toNat = (sector.toNat + 1) % 2 ^ 32 := BitVec.toNat_add ..
      rw [hadd]
      omega
    have hnext64 : fatSectorSize.setWidth 64 = BitVec.ofNat 64 512 := by decide
    have hoff := offset_toNat (b := buffer) a (show 512 < 2 ^ 64 by decide)
    have hlt := (a - buffer).isLt
    have hfirst : MediaCopy.exec disk m ⟨buffer, sector * fatSectorSize, count * fatSectorSize⟩ a =
        if (a - buffer).toNat < 512
        then disk (512 * sector.toNat % 2 ^ 32 + (a - buffer).toNat) else m a := by
      rw [← sectorBytes_toNat]
      refine if_congr ?_ rfl rfl
      rw [MediaCopy.Writes, hlen]
    rw [mediaLoop, List.foldl_cons, ih _ (by omega), hnext64, hoff, hfirst]
    generalize (a - buffer).toNat = off at hlt ⊢
    by_cases hoff : 512 ≤ off
    · -- a later copy writes there
      rw [if_pos hoff, if_neg (show ¬ off < 512 by omega)]
      have hbyte : (512 * (sector + 1).toNat + (off - 512)) % 2 ^ 32 =
          (512 * sector.toNat + off) % 2 ^ 32 := by omega
      rw [hbyte]
      exact if_congr (by omega) rfl rfl
    · rw [if_neg hoff, if_neg (by omega), if_pos (by omega), if_pos (by omega)]
      exact congrArg disk (by omega)

/-- **The media read callback** is exact just when `MediaOk` holds. -/
theorem guestDiskRead_exact_iff (disk : Nat → BitVec 8) (len : Nat) (sector : U32) (buffer : U64)
    (count : U32) : ReadsExactly disk len sector buffer count ↔ MediaOk disk len sector count := by
  have hcount := count.isLt
  have hz : count = 0 ↔ count.toNat = 0 := Words.eq_zero_iff
  have hoff : ∀ k, k < 2 ^ 64 → (buffer + BitVec.ofNat 64 k - buffer).toNat = k :=
    fun k hk => Words.add_ofNat_sub_toNat buffer hk
  constructor
  · intro h
    by_cases hzero : count = 0
    · exact Or.inl hzero
    rw [hz] at hzero
    have hinside : SectorsInside len sector count := by
      by_contra hout
      exact absurd (h.refused hout).1 (by simp [guestDiskRead])
    have hone : count.toNat % 2 ^ 23 = 1 := by
      -- the byte past the buffer is not written, and the first byte is
      have hpast := (h.writes hinside (buffer + BitVec.ofNat 64 (512 * count.toNat))).mp
      have hfirst := (h.writes hinside (buffer + BitVec.ofNat 64 0)).mpr
      rw [guestDiskRead] at hpast hfirst
      dsimp only at hpast hfirst
      rw [mediaLoop_writes, hoff _ (by omega)] at hpast hfirst
      by_contra hne
      by_cases hsmall : 512 * count.toNat % 2 ^ 32 = 0
      · obtain ⟨i, hi, h₁, h₂⟩ := hfirst (by omega)
        omega
      · have := hpast ⟨count.toNat - 1, by omega, by omega, by omega⟩
        omega
    refine Or.inr ⟨hone, hinside, fun k hk => ?_⟩
    have hcontent := h.content hinside
      (fun a => ~~~ disk (512 * sector.toNat + (a - buffer).toNat)) (buffer + BitVec.ofNat 64 k)
    rw [guestDiskRead] at hcontent
    dsimp only at hcontent
    rw [mediaLoop_content hone _ _ (Nat.le_of_lt hcount), hoff k (by omega), if_pos hk,
      if_pos hk] at hcontent
    exact hcontent
  · rintro (rfl | ⟨hone, hinside, hperiodic⟩)
    · have hall : SectorsInside len sector 0 := fun k hk => absurd hk (Nat.not_lt_zero k)
      refine ⟨fun _ => rfl, fun _ a => ?_, fun _ m a => ?_, fun hno => absurd hall hno⟩
      · exact iff_of_false (fun ⟨c, hc, _⟩ => by cases hc) (by simp)
      · exact (if_neg (by simp)).symm
    · refine ⟨fun _ => rfl, fun _ a => ?_, fun _ m a => ?_, fun hno => absurd hinside hno⟩
      · have hbytes : 512 * count.toNat % 2 ^ 32 = 512 := by omega
        rw [guestDiskRead]
        dsimp only
        rw [mediaLoop_writes, hbytes]
        generalize (a - buffer).toNat = off
        constructor
        · rintro ⟨i, hi, h₁, h₂⟩
          omega
        · intro ha
          exact ⟨off / 512, by omega, by omega, by omega⟩
      · rw [guestDiskRead]
        dsimp only
        rw [mediaLoop_content hone _ _ (Nat.le_of_lt hcount)]
        split
        · next ha => exact hperiodic _ ha
        · rfl

end Read

/-- A request for the first two sectors of a disk of two: 512 bytes after the buffer are written. -/
theorem guestDiskRead_overruns : ¬ ∀ disk len sector buffer count,
    ReadsExactly disk len sector buffer count := by
  intro h
  have hinside : SectorsInside 1024 0 2 := by
    intro k hk
    have hk : k < 2 := hk
    show 512 * (0 + k + 1) ≤ 1024
    omega
  have hwrites := ((h (fun _ => 0) 1024 0 0x8000000030000000 2).writes hinside
    0x8000000030000400).mp ⟨⟨0x8000000030000200, 512, 1024⟩, by decide, by decide⟩
  exact absurd hwrites (by decide)

end Prephv
