import Prephv.Fat.Access
import Prephv.Rom.Read

/-!
# Fat — File

`fl_fread` and `fl_fseek` on an open file.  Whole sectors go from the disk to the reader's buffer,
as many at a time as there are in the cluster; the rest goes through the file's own buffer of one
sector.  The file also remembers the last cluster it looked up.

What is read is the bytes of the chain of clusters at the file's position, whatever was read or
sought before (`flFread_reads`).  A read is short only where the chain ends before the file does.
Its return value, its bytes and its position are those of the `fl_fread` that `rom_call`'s `read`
has (`flFread_view`).
-/

set_option autoImplicit false

namespace Prephv.Fat

open Cache (Right Reads Ensures follow)

/-! ### The open file -/

/-- `struct cluster_lookup`. -/
structure ClusterLookup where
  clusterIdx : U32
  currentCluster : U32

/-- `FL_FILE`. -/
structure FlFile where
  startcluster : U32
  bytenum : U32
  filelength : U32
  lastFatLookup : ClusterLookup
  fileDataSector : Sector
  fileDataAddress : U32
  /-- `flags & FILE_READ`. -/
  readable : Bool

/-- `ClusterIdx`, `Sector` and `count` of `_read_sectors`: no more sectors than the cluster has. -/
def Volume.place (vol : Volume) (offset count : U32) : U32 × U32 × U32 :=
  let spc := vol.sectorsPerCluster.setWidth 32
  let clusterIdx := offset / spc
  let sector := offset - clusterIdx * spc
  (clusterIdx, sector, if sector + count > spc then spc - sector else count)

/-- The cluster that `_read_sectors` finds for an index, and what the file remembers of it. -/
def lookupCluster (disk : Disk) (file : FlFile) (clusterIdx : U32) :
    StateM Fatfs (U32 × FlFile) := do
  let last := file.lastFatLookup
  if clusterIdx = last.clusterIdx then
    return (last.currentCluster, file)
  else
    -- from the cluster that was looked up last if it is the one before, or from the first
    let start := if clusterIdx ≠ 0 ∧ clusterIdx = last.clusterIdx + 1 then last
      else ⟨0, file.startcluster⟩
    let cluster ← follow (fatfsFindNextCluster disk) (clusterIdx - start.clusterIdx).toNat
      start.currentCluster
    return (cluster, if cluster ≠ lastCluster
      then { file with lastFatLookup := ⟨clusterIdx, cluster⟩ } else file)

/-- `_read_sectors`: the first sector and the number of sectors that it reads from the disk, or
nothing at the end of the chain. -/
def readSectors (disk : Disk) (file : FlFile) (offset count : U32) :
    StateM Fatfs (Option (U32 × U32) × FlFile) := do
  let fs ← get
  let (clusterIdx, sector, count) := fs.vol.place offset count
  let (cluster, file) ← lookupCluster disk file clusterIdx
  if cluster = lastCluster then
    return (none, file)
  else
    return (some (fs.vol.lbaOfCluster cluster + sector, count), file)

/-! ### `fl_fread` -/

/-- The variables of `fl_fread`'s loop, and the memory that it writes. -/
structure ReadLoop where
  mem : Memory
  file : FlFile
  sector : U32
  offset : U32
  bytesRead : U32

/-- The loop goes on after `copyCount` bytes. -/
def ReadLoop.advance (l : ReadLoop) (mem : Memory) (file : FlFile) (sectors copyCount : U32) :
    ReadLoop where
  mem := mem
  file := { file with bytenum := file.bytenum + copyCount }
  sector := l.sector + sectors
  offset := 0
  bytesRead := l.bytesRead + copyCount

/-- Whole sectors are read into the target buffer.  The loop stops where none is read. -/
def freadWhole (disk : Disk) (buffer : U64) (count : U32) (l : ReadLoop) :
    StateM Fatfs (ReadLoop × Bool) := do
  let (sectors, file) ← readSectors disk l.file l.sector
    ((count - l.bytesRead).sdiv fatSectorSize)
  match sectors with
  | none => return ({ l with file := file }, false)
  | some (lba, sectorsRead) =>
    let copies := (guestDiskRead lba (buffer + l.bytesRead.signExtend 64) sectorsRead).2
    let mem := copies.foldl (MediaCopy.exec disk) l.mem
    if sectorsRead ≠ 0 then
      return (l.advance mem file sectorsRead (fatSectorSize * sectorsRead), true)
    else
      return ({ l with mem := mem, file := file }, false)

/-- A part of a sector is read through the file's buffer, which may have the sector already. -/
def freadPart (disk : Disk) (buffer : U64) (count : U32) (l : ReadLoop) :
    StateM Fatfs (ReadLoop × Bool) := do
  let (file, ok) ← (if l.file.fileDataAddress ≠ l.sector then do
      let (sectors, file) ← readSectors disk l.file l.sector 1
      match sectors with
      | none => return (file, false)
      | some (lba, _) =>
        return ({ file with fileDataSector := readMedia disk lba, fileDataAddress := l.sector },
          true)
    else return (l.file, true))
  if ok then
    let copyCount := fatSectorSize - l.offset
    let copyCount := if (count - l.bytesRead).slt copyCount then count - l.bytesRead else copyCount
    let bytes := (List.range copyCount.toNat).map fun k => file.fileDataSector (l.offset.toNat + k)
    let mem := storeBytes l.mem (buffer + l.bytesRead.signExtend 64) bytes
    return (l.advance mem file 1 copyCount, true)
  else
    return ({ l with file := file }, false)

/-- `fl_fread`'s loop, with `n` iterations to go. -/
def freadLoop (disk : Disk) (buffer : U64) (count : U32) : Nat → ReadLoop → StateM Fatfs ReadLoop
  | 0, l => return l
  | n + 1, l => do
    if l.bytesRead.slt count then
      let (l, more) ← (if l.offset = 0 ∧ ¬ (count - l.bytesRead).slt fatSectorSize
        then freadWhole disk buffer count l else freadPart disk buffer count l)
      if more then freadLoop disk buffer count n l else return l
    else
      return l

/-- Before the first iteration: the loop reads on from where the file is. -/
def freadStart (file : FlFile) (mem : Memory) : ReadLoop where
  mem := mem
  file := file
  sector := file.bytenum / fatSectorSize
  offset := file.bytenum % fatSectorSize
  bytesRead := 0

/-- `fl_fread`: its return value, the memory and the file after it.  Every iteration reads a byte at
least, so there are no more of them than bytes. -/
def flFread (disk : Disk) (buffer : U64) (size length : U32) (file : FlFile) (mem : Memory) :
    StateM Fatfs (U32 × Memory × FlFile) := do
  let count := size * length
  if buffer = 0 then return (-1, mem, file)
  else if ¬ file.readable then return (-1, mem, file)
  else if count = 0 then return (0, mem, file)
  else if file.bytenum ≥ file.filelength then return (-1, mem, file)
  else
    let count := if file.bytenum + count > file.filelength then file.filelength - file.bytenum
      else count
    let l ← freadLoop disk buffer count count.toNat (freadStart file mem)
    return (l.bytesRead, l.mem, l.file)

/-! ### `fl_fseek` -/

/-- `SEEK_SET`, `SEEK_CUR` and `SEEK_END`. -/
def seekSet : U32 := 0
def seekCur : U32 := 1
def seekEnd : U32 := 2

/-- `fl_fseek`. -/
def flFseek (offset : U64) (origin : U32) (file : FlFile) : U32 × FlFile :=
  if origin = seekEnd ∧ offset ≠ 0 then (-1, file)
  else
    let file := { file with fileDataAddress := 0xffffffff }
    if origin = seekSet then
      let bytenum := offset.setWidth 32
      (0, { file with bytenum := if bytenum > file.filelength then file.filelength else bytenum })
    else if origin = seekCur then
      if ¬ offset.msb then
        let bytenum := file.bytenum + offset.setWidth 32
        (0, { file with bytenum := if bytenum > file.filelength then file.filelength else bytenum })
      else
        let offset := (-offset).setWidth 32
        (0, { file with bytenum := if offset > file.bytenum then 0 else file.bytenum - offset })
    else if origin = seekEnd then (0, { file with bytenum := file.filelength })
    else (-1, file)

/-! ### What the chain has -/

/-- The file's chain of clusters has a `k`th sector. -/
def Volume.HasSector (vol : Volume) (disk : Disk) (start : U32) (k : Nat) : Prop :=
  vol.chain disk start (k / vol.spc) ≠ lastCluster

instance (vol : Volume) (disk : Disk) (start : U32) (k : Nat) :
    Decidable (vol.HasSector disk start k) := inferInstanceAs (Decidable (_ ≠ _))

/-- Where the file's `k`th sector is. -/
def Volume.fileLba (vol : Volume) (disk : Disk) (start : U32) (k : Nat) : U32 :=
  vol.lbaOfCluster (vol.chain disk start (k / vol.spc)) + BitVec.ofNat 32 (k % vol.spc)

/-- The file's `k`th sector. -/
def Volume.fileSector (vol : Volume) (disk : Disk) (start : U32) (k : Nat) : Sector :=
  readMedia disk (vol.fileLba disk start k)

/-- The byte at a position of the file. -/
def Volume.fileByte (vol : Volume) (disk : Disk) (start : U32) (i : Nat) : U8 :=
  vol.fileSector disk start (i / 512) (i % 512)

/-- What the file remembers is right. -/
structure FlFile.Sound (disk : Disk) (vol : Volume) (file : FlFile) : Prop where
  lookup : Right (fun i : U32 => vol.chain disk file.startcluster i.toNat) lastCluster
    file.lastFatLookup.clusterIdx file.lastFatLookup.currentCluster
  data : Right (fun k : U32 => vol.fileSector disk file.startcluster k.toNat) lastCluster
    file.fileDataAddress file.fileDataSector
  present : file.fileDataAddress ≠ lastCluster →
    vol.HasSector disk file.startcluster file.fileDataAddress.toNat

section Lookup

variable {disk : Disk} {vol : Volume} {file : FlFile}

/-- **The last lookup** makes no difference to the cluster that is found. -/
theorem lookupCluster_reads (hfile : file.Sound disk vol) {clusterIdx : U32}
    (hidx : clusterIdx ≠ lastCluster) :
    ∃ lookup, FlFile.Sound disk vol { file with lastFatLookup := lookup } ∧
      Reads (Fatfs.Sound disk vol) (lookupCluster disk file clusterIdx)
        (vol.chain disk file.startcluster clusterIdx.toNat,
          { file with lastFatLookup := lookup }) := by
  rw [lookupCluster]
  by_cases hlast : clusterIdx = file.lastFatLookup.clusterIdx
  · refine ⟨file.lastFatLookup, hfile, ?_⟩
    dsimp only
    rw [if_pos hlast, hfile.lookup.hit (hlast ▸ hidx), hlast]
    exact Reads.pure _ _
  · dsimp only
    rw [if_neg hlast]
    -- where the walk starts is on the chain, and not beyond the cluster
    generalize hstart : (if clusterIdx ≠ 0 ∧ clusterIdx = file.lastFatLookup.clusterIdx + 1
      then file.lastFatLookup else ⟨0, file.startcluster⟩) = start
    have hchain : start.clusterIdx.toNat ≤ clusterIdx.toNat ∧
        start.currentCluster = vol.chain disk file.startcluster start.clusterIdx.toNat := by
      split at hstart
      · next hnext =>
        subst hstart
        obtain ⟨hzero, hnext⟩ := hnext
        have hvalid : file.lastFatLookup.clusterIdx ≠ lastCluster := by
          intro h
          rw [h] at hnext
          exact hzero hnext
        refine ⟨?_, hfile.lookup.hit hvalid⟩
        have hlt : file.lastFatLookup.clusterIdx.toNat + 1 < 2 ^ 32 := by
          have hmax : lastCluster.toNat = 2 ^ 32 - 1 := rfl
          have hne := mt BitVec.eq_of_toNat_eq hvalid
          omega
        rw [hnext, Words.succ_toNat hlt]
        exact Nat.le_succ _
      · subst hstart
        exact ⟨Nat.zero_le _, rfl⟩
    obtain ⟨hle, hat⟩ := hchain
    have hwalk : vol.chain disk start.currentCluster (clusterIdx - start.clusterIdx).toNat =
        vol.chain disk file.startcluster clusterIdx.toNat := by
      rw [hat, Volume.chain, Volume.chain, Volume.chain, ← Function.iterate_add_apply,
        BitVec.toNat_sub_of_le hle, Nat.sub_add_cancel hle]
    have hfollow : Reads (Fatfs.Sound disk vol) _ _ :=
      follow_reads (clusterIdx - start.clusterIdx).toNat start.currentCluster
    rw [hwalk] at hfollow
    by_cases hend : vol.chain disk file.startcluster clusterIdx.toNat = lastCluster
    · refine ⟨file.lastFatLookup, hfile, Reads.bind hfollow ?_⟩
      rw [if_neg (not_not.mpr hend)]
      exact Reads.pure _ _
    · refine ⟨⟨clusterIdx, vol.chain disk file.startcluster clusterIdx.toNat⟩,
        ⟨fun _ => rfl, hfile.data, hfile.present⟩, Reads.bind hfollow ?_⟩
      rw [if_pos hend]
      exact Reads.pure _ _

/-- The place of a sector: the remainder in its cluster, and as many sectors as are left there. -/
theorem place_eq (vol : Volume) (offset : U32) {count : U32} (hcount : count.toNat < 2 ^ 31) :
    (vol.place offset count).1.toNat = offset.toNat / vol.spc ∧
      (vol.place offset count).2.1 = BitVec.ofNat 32 (offset.toNat % vol.spc) ∧
      (vol.place offset count).2.2.toNat = min count.toNat (vol.spc - offset.toNat % vol.spc) := by
  have hspc : (vol.sectorsPerCluster.setWidth 32 : U32).toNat = vol.spc := by
    rw [BitVec.toNat_setWidth, Nat.mod_eq_of_lt (by have := vol.sectorsPerCluster.isLt; omega)]
    rfl
  have hlt := offset.isLt
  have hspos := vol.spc_pos
  have hslt := vol.spc_lt
  have hmod := Nat.mod_lt offset.toNat hspos
  have hsplit := Nat.div_add_mod' offset.toNat vol.spc
  rw [Volume.place]
  generalize (vol.sectorsPerCluster.setWidth 32 : U32) = spc at hspc
  have hmul : (offset / spc * spc).toNat = offset.toNat / vol.spc * vol.spc := by
    rw [BitVec.toNat_mul, BitVec.toNat_udiv, hspc, Nat.mod_eq_of_lt (by omega)]
  have hsector : (offset - offset / spc * spc).toNat = offset.toNat % vol.spc := by
    rw [BitVec.toNat_sub_of_le (by rw [BitVec.le_def, hmul]; omega), hmul]
    omega
  refine ⟨by dsimp only; rw [BitVec.toNat_udiv, hspc], ?_, ?_⟩
  · apply BitVec.eq_of_toNat_eq
    dsimp only
    rw [hsector, BitVec.toNat_ofNat,
      Nat.mod_eq_of_lt (show offset.toNat % vol.spc < 2 ^ 32 by omega)]
  · dsimp only
    have hsum : (offset - offset / spc * spc + count).toNat =
        offset.toNat % vol.spc + count.toNat := by
      rw [BitVec.toNat_add, hsector, Nat.mod_eq_of_lt (by omega)]
    split
    · next h =>
      have h : spc.toNat < _ := h
      rw [BitVec.toNat_sub_of_le (by rw [BitVec.le_def, hsector]; omega), hsector, hspc]
      omega
    · next h =>
      have h : ¬ spc.toNat < _ := h
      omega

/-- **`_read_sectors`** finds the sectors of the chain. -/
theorem readSectors_reads (hfile : file.Sound disk vol) (offset count : U32)
    (hoffset : offset.toNat < 2 ^ 32 - 1) (hcount : count.toNat < 2 ^ 31) :
    ∃ lookup n, FlFile.Sound disk vol { file with lastFatLookup := lookup } ∧
      n.toNat = min count.toNat (vol.spc - offset.toNat % vol.spc) ∧
      Reads (Fatfs.Sound disk vol) (readSectors disk file offset count)
        (if vol.HasSector disk file.startcluster offset.toNat
          then some (vol.fileLba disk file.startcluster offset.toNat, n) else none,
          { file with lastFatLookup := lookup }) := by
  obtain ⟨hidx, hsector, hn⟩ := place_eq vol offset hcount
  have hvalid : (vol.place offset count).1 ≠ lastCluster := by
    intro h
    have hle := Nat.div_le_self offset.toNat vol.spc
    have hlast : lastCluster.toNat = 2 ^ 32 - 1 := rfl
    rw [h, hlast] at hidx
    omega
  obtain ⟨lookup, hsound, hreads⟩ := lookupCluster_reads hfile hvalid
  refine ⟨lookup, _, hsound, hn, ?_⟩
  rw [readSectors]
  refine Reads.get_bind fun fs hs => ?_
  rw [hs.vol]
  generalize vol.place offset count = place at hidx hsector hreads
  obtain ⟨clusterIdx, sector, n⟩ := place
  refine Reads.bind hreads ?_
  dsimp only at hidx hsector ⊢
  rw [hidx, hsector]
  by_cases hend : vol.chain disk file.startcluster (offset.toNat / vol.spc) = lastCluster
  · have hhas : ¬ vol.HasSector disk file.startcluster offset.toNat := not_not.mpr hend
    rw [if_pos hend, if_neg hhas]
    exact Reads.pure _ _
  · have hhas : vol.HasSector disk file.startcluster offset.toNat := hend
    rw [if_neg hend, if_pos hhas]
    exact Reads.pure _ _

end Lookup

/-! ### The loop -/

section Signed

variable {x y : U32}

theorem msb_false (h : x.toNat < 2 ^ 31) : x.msb = false := by
  rw [BitVec.msb_eq_decide]
  exact decide_eq_false (by omega)

theorem slt_of_lt (hx : x.toNat < 2 ^ 31) (hy : y.toNat < 2 ^ 31) :
    x.slt y = decide (x.toNat < y.toNat) := by
  rw [BitVec.slt_eq_ult_of_msb_eq (by rw [msb_false hx, msb_false hy])]
  rfl

theorem sdiv_sectorSize (hx : x.toNat < 2 ^ 31) : (x.sdiv fatSectorSize).toNat = x.toNat / 512 := by
  rw [BitVec.sdiv_eq, msb_false hx, show fatSectorSize.msb = false from rfl]
  exact BitVec.toNat_udiv

theorem signExtend_eq (hx : x.toNat < 2 ^ 31) : x.signExtend 64 = BitVec.ofNat 64 x.toNat := by
  rw [BitVec.signExtend_eq_setWidth_of_msb_false (msb_false hx)]
  apply BitVec.eq_of_toNat_eq
  rw [BitVec.toNat_setWidth, BitVec.toNat_ofNat]

end Signed

/-- The loop has read `r` of `count` bytes of a file, from where the file was. -/
structure ReadLoop.At (disk : Disk) (vol : Volume) (buffer : U64) (count : Nat) (file : FlFile)
    (mem : Memory) (r : Nat) (l : ReadLoop) : Prop where
  bytesRead : l.bytesRead.toNat = r
  le : r ≤ count
  startcluster : l.file.startcluster = file.startcluster
  filelength : l.file.filelength = file.filelength
  readable : l.file.readable = file.readable
  bytenum : l.file.bytenum.toNat = file.bytenum.toNat + r
  sound : l.file.Sound disk vol
  /-- The loop is at the byte after those it has read. -/
  place : r < count → 512 * l.sector.toNat + l.offset.toNat = file.bytenum.toNat + r ∧
    l.offset.toNat < 512
  content : ∀ a, (a - buffer).toNat < r →
    l.mem a = vol.fileByte disk file.startcluster (file.bytenum.toNat + (a - buffer).toNat)
  present : ∀ k < r, vol.HasSector disk file.startcluster ((file.bytenum.toNat + k) / 512)
  /-- What the copies write beyond the bytes is less than a cluster. -/
  frame : ∀ a, r + 512 * (vol.spc - 1) ≤ (a - buffer).toNat → l.mem a = mem a

section Loop

variable {disk : Disk} {vol : Volume} {buffer : U64} {count : U32} {file : FlFile} {mem : Memory}
  {r : Nat} {l : ReadLoop}

/-- What an iteration does: it reads some more, or it is at the end of the chain. -/
def ReadLoop.Step (disk : Disk) (vol : Volume) (buffer : U64) (count : Nat) (file : FlFile)
    (mem : Memory) (r : Nat) (l : ReadLoop) (more : Bool) : Prop :=
  if more then ∃ r', r < r' ∧ l.At disk vol buffer count file mem r'
  else l.At disk vol buffer count file mem r ∧
    ¬ vol.HasSector disk file.startcluster ((file.bytenum.toNat + r) / 512)

/-- What is remembered does not matter to where the loop is. -/
theorem ReadLoop.At.remember (h : l.At disk vol buffer count.toNat file mem r) {lookup : ClusterLookup}
    (hsound : FlFile.Sound disk vol { l.file with lastFatLookup := lookup }) :
    ReadLoop.At disk vol buffer count.toNat file mem r
      { l with file := { l.file with lastFatLookup := lookup } } :=
  { h with sound := hsound }

/-- The loop goes on, after `copyCount` more bytes of the file. -/
theorem ReadLoop.At.advance (h : l.At disk vol buffer count.toNat file mem r) {mem' : Memory}
    {file' : FlFile} {sectors copyCount : U32}
    (hfile : ∃ lookup sector address, file' = { l.file with
      lastFatLookup := lookup, fileDataSector := sector, fileDataAddress := address })
    (hsound : file'.Sound disk vol) (hpos : file.bytenum.toNat + count.toNat < 2 ^ 32)
    (hle : r + copyCount.toNat ≤ count.toNat)
    (hplace : r + copyCount.toNat < count.toNat →
      512 * (l.sector + sectors).toNat = file.bytenum.toNat + (r + copyCount.toNat))
    (hold : ∀ a, (a - buffer).toNat < r → mem' a = l.mem a)
    (hnew : ∀ a, r ≤ (a - buffer).toNat → (a - buffer).toNat < r + copyCount.toNat →
      mem' a = vol.fileByte disk file.startcluster (file.bytenum.toNat + (a - buffer).toNat))
    (hpresent : ∀ k, r ≤ k → k < r + copyCount.toNat →
      vol.HasSector disk file.startcluster ((file.bytenum.toNat + k) / 512))
    (hframe : ∀ a, r + copyCount.toNat + 512 * (vol.spc - 1) ≤ (a - buffer).toNat →
      mem' a = l.mem a) :
    (l.advance mem' file' sectors copyCount).At disk vol buffer count.toNat file mem
      (r + copyCount.toNat) := by
  obtain ⟨lookup, sector, address, rfl⟩ := hfile
  have hcount := count.isLt
  refine
    { bytesRead := ?_
      le := hle
      startcluster := h.startcluster
      filelength := h.filelength
      readable := h.readable
      bytenum := ?_
      sound := ⟨hsound.lookup, hsound.data, hsound.present⟩
      place := fun hlt => ⟨hplace hlt, show (0 : U32).toNat < 512 by decide⟩
      content := fun a ha => ?_
      present := fun k hk => ?_
      frame := fun a ha => (hframe a ha).trans (h.frame a (by omega)) }
  · show (l.bytesRead + copyCount).toNat = _
    rw [BitVec.toNat_add, h.bytesRead, Nat.mod_eq_of_lt (by omega)]
  · show (l.file.bytenum + copyCount).toNat = _
    rw [BitVec.toNat_add, h.bytenum, Nat.mod_eq_of_lt (by omega), Nat.add_assoc]
  · by_cases hr : (a - buffer).toNat < r
    · exact (hold a hr).trans (h.content a hr)
    · exact hnew a (by omega) ha
  · by_cases hr : k < r
    · exact h.present k hr
    · exact hpresent k (by omega) hk

/-- The sectors of a cluster are one after another. -/
theorem fileLba_add {start : U32} {k j : Nat} (hj : j < vol.spc - k % vol.spc) :
    vol.fileLba disk start (k + j) = vol.fileLba disk start k + BitVec.ofNat 32 j ∧
      (vol.HasSector disk start (k + j) ↔ vol.HasSector disk start k) := by
  have hspc := vol.spc_pos
  have hmod := Nat.mod_lt k hspc
  have hsplit := Nat.div_add_mod k vol.spc
  have hsum : k + j = vol.spc * (k / vol.spc) + (k % vol.spc + j) := by omega
  have hdiv : (k + j) / vol.spc = k / vol.spc := by
    rw [hsum, Nat.mul_add_div hspc, Nat.div_eq_of_lt (show k % vol.spc + j < vol.spc by omega),
      Nat.add_zero]
  have hrem : (k + j) % vol.spc = k % vol.spc + j := by
    rw [hsum, Nat.mul_add_mod, Nat.mod_eq_of_lt (by omega)]
  refine ⟨?_, by rw [Volume.HasSector, Volume.HasSector, hdiv]⟩
  rw [Volume.fileLba, Volume.fileLba, hdiv, hrem, BitVec.ofNat_add, BitVec.add_assoc]

/-- **Whole sectors**: as many as the cluster has go into the buffer. -/
theorem freadWhole_step (h : l.At disk vol buffer count.toNat file mem r)
    (hcount : count.toNat < 2 ^ 31) (hpos : file.bytenum.toNat + count.toNat < 2 ^ 32)
    (hoffset : l.offset = 0) (hleft : r + 512 ≤ count.toNat) :
    ∃ l' more, Reads (Fatfs.Sound disk vol) (freadWhole disk buffer count l) (l', more) ∧
      l'.Step disk vol buffer count.toNat file mem r more := by
  have hspc := vol.spc_lt
  obtain ⟨hplace, -⟩ := h.place (by omega)
  have hzero : (0 : U32).toNat = 0 := rfl
  rw [hoffset, hzero, Nat.add_zero] at hplace
  have hbytes : (count - l.bytesRead).toNat = count.toNat - r := by
    rw [BitVec.toNat_sub_of_le (by rw [BitVec.le_def, h.bytesRead]; omega), h.bytesRead]
  have hq : ((count - l.bytesRead).sdiv fatSectorSize).toNat = (count.toNat - r) / 512 := by
    rw [sdiv_sectorSize (by omega), hbytes]
  obtain ⟨lookup, n, hsound, hn, hreads⟩ := readSectors_reads h.sound l.sector
    ((count - l.bytesRead).sdiv fatSectorSize) (by omega) (by omega)
  have hstart := h.startcluster
  have hsector : (file.bytenum.toNat + r) / 512 = l.sector.toNat := by omega
  by_cases hhas : vol.HasSector disk l.file.startcluster l.sector.toNat
  · rw [if_pos hhas] at hreads
    have hmod := Nat.mod_lt l.sector.toNat vol.spc_pos
    have hnpos : n ≠ 0 := fun h0 => by
      have : n.toNat = 0 := by rw [h0]; rfl
      omega
    have hcopy : (fatSectorSize * n).toNat = 512 * n.toNat := by
      rw [BitVec.mul_comm, sectorBytes_toNat, Nat.mod_eq_of_lt (by omega)]
    refine ⟨l.advance ((guestDiskRead (vol.fileLba disk l.file.startcluster l.sector.toNat)
        (buffer + l.bytesRead.signExtend 64) n).2.foldl (MediaCopy.exec disk) l.mem)
      { l.file with lastFatLookup := lookup } n (fatSectorSize * n), true,
      Reads.bind hreads ?_, ?_⟩
    · dsimp only
      rw [if_pos hnpos]
      exact Reads.pure _ _
    rw [hstart] at hhas ⊢
    rw [guestDiskRead, signExtend_eq (by have := h.bytesRead; omega), h.bytesRead, ReadLoop.Step,
      if_pos rfl]
    dsimp only
    have hoff := fun a : U64 => offset_toNat (b := buffer) a (show r < 2 ^ 64 by omega)
    refine ⟨r + (fatSectorSize * n).toNat, by omega, h.advance ⟨lookup, _, _, rfl⟩ hsound hpos
      (by omega) (fun _ => ?_) (fun a ha => ?_) (fun a hr ha => ?_) (fun k hk hlt => ?_)
      (fun a ha => ?_)⟩
    · rw [BitVec.toNat_add, Nat.mod_eq_of_lt (by omega)]
      omega
    · exact mediaLoop_untouched (by omega) (by omega)
        (Or.inr (by rw [hoff, if_neg (by omega)]; have := (a - buffer).isLt; omega))
    · have hrel := hoff a
      rw [if_pos hr] at hrel
      rw [mediaLoop_sector (by omega) (by omega) (by omega) (by rw [hrel]; omega), hrel,
        Volume.fileByte, Volume.fileSector]
      have hk : (file.bytenum.toNat + (a - buffer).toNat) / 512 =
          l.sector.toNat + ((a - buffer).toNat - r) / 512 := by omega
      have hrem : (file.bytenum.toNat + (a - buffer).toNat) % 512 =
          ((a - buffer).toNat - r) % 512 := by omega
      rw [hk, hrem, (fileLba_add (by omega)).1]
    · have hsec : (file.bytenum.toNat + k) / 512 = l.sector.toNat + (k - r) / 512 := by omega
      rw [hsec, (fileLba_add (by omega)).2]
      exact hhas
    · exact mediaLoop_untouched (by omega) (by omega)
        (Or.inr (by rw [hoff, if_pos (by omega)]; omega))
  · rw [if_neg hhas] at hreads
    refine ⟨_, false, Reads.bind hreads (Reads.pure _ _), ?_⟩
    rw [ReadLoop.Step, if_neg Bool.false_ne_true]
    exact ⟨h.remember hsound, by rwa [hsector, ← hstart]⟩

/-- `copyCount` of a part: to the end of the sector, or as much as is wanted. -/
theorem copyCount_toNat {offset : U32} (left : U32) (hoffset : offset.toNat < 512)
    (hleft : left.toNat < 2 ^ 31) :
    (if left.slt (fatSectorSize - offset) then left else fatSectorSize - offset).toNat =
      min (512 - offset.toNat) left.toNat := by
  have hsize : fatSectorSize.toNat = 512 := rfl
  have hsub : (fatSectorSize - offset).toNat = 512 - offset.toNat := by
    rw [BitVec.toNat_sub_of_le (by rw [BitVec.le_def, hsize]; omega), hsize]
  rw [slt_of_lt hleft (by omega), hsub]
  by_cases h : left.toNat < 512 - offset.toNat
  · rw [if_pos (decide_eq_true h)]
    omega
  · rw [if_neg (by rw [decide_eq_false h]; exact Bool.false_ne_true), hsub]
    omega

theorem storeBytes_range (m : Memory) (p : U64) (n : Nat) (f : Nat → U8) (a : U64) :
    storeBytes m p ((List.range n).map f) a = if (a - p).toNat < n then f (a - p).toNat else m a := by
  rw [storeBytes, List.getD_eq_getElem?_getD, List.getElem?_map]
  by_cases h : (a - p).toNat < n
  · rw [List.getElem?_range h, if_pos h]
    rfl
  · rw [List.getElem?_eq_none (by rw [List.length_range]; omega), if_neg h]
    rfl

/-- The part of the sector that is in the file's buffer goes to the reader's. -/
theorem freadPart_copy (h : l.At disk vol buffer count.toNat file mem r) {file' : FlFile}
    (hcount : count.toNat < 2 ^ 31) (hpos : file.bytenum.toNat + count.toNat < 2 ^ 32)
    (hr : r < count.toNat)
    (hfile : ∃ lookup sector address, file' = { l.file with
      lastFatLookup := lookup, fileDataSector := sector, fileDataAddress := address })
    (hsound : file'.Sound disk vol)
    (hdata : file'.fileDataSector = vol.fileSector disk file.startcluster l.sector.toNat)
    (hhas : vol.HasSector disk file.startcluster l.sector.toNat) {c : U32}
    (hc : c.toNat = min (512 - l.offset.toNat) (count.toNat - r)) :
    (l.advance (storeBytes l.mem (buffer + l.bytesRead.signExtend 64)
        ((List.range c.toNat).map fun k => file'.fileDataSector (l.offset.toNat + k)))
      file' 1 c).At disk vol buffer count.toNat file mem (r + c.toNat) := by
  obtain ⟨hplace, hoffset⟩ := h.place hr
  have hone : (1 : U32).toNat = 1 := rfl
  rw [signExtend_eq (by have := h.bytesRead; omega), h.bytesRead]
  have hoff := fun a : U64 => offset_toNat (b := buffer) a (show r < 2 ^ 64 by omega)
  have hspc := vol.spc_pos
  refine h.advance hfile hsound hpos (by omega) (fun hlt => ?_) (fun a ha => ?_)
    (fun a hra ha => ?_) (fun k hk hlt => ?_) (fun a ha => ?_)
  · rw [BitVec.toNat_add, hone, Nat.mod_eq_of_lt (by omega)]
    omega
  · have hlt := (a - buffer).isLt
    rw [storeBytes_range, hoff, if_neg (show ¬ r ≤ (a - buffer).toNat by omega)]
    exact if_neg (by omega)
  · have hsec : (file.bytenum.toNat + (a - buffer).toNat) / 512 = l.sector.toNat := by omega
    have hrem : (file.bytenum.toNat + (a - buffer).toNat) % 512 =
        l.offset.toNat + ((a - buffer).toNat - r) := by omega
    rw [storeBytes_range, hoff, if_pos hra, hdata, Volume.fileByte, hsec, hrem]
    exact if_pos (by omega)
  · have hsec : (file.bytenum.toNat + k) / 512 = l.sector.toNat := by omega
    rwa [hsec]
  · rw [storeBytes_range, hoff, if_pos (show r ≤ (a - buffer).toNat by omega)]
    exact if_neg (by omega)

/-- **A part of a sector** goes through the file's buffer. -/
theorem freadPart_step (h : l.At disk vol buffer count.toNat file mem r)
    (hcount : count.toNat < 2 ^ 31) (hpos : file.bytenum.toNat + count.toNat < 2 ^ 32)
    (hr : r < count.toNat) :
    ∃ l' more, Reads (Fatfs.Sound disk vol) (freadPart disk buffer count l) (l', more) ∧
      l'.Step disk vol buffer count.toNat file mem r more := by
  obtain ⟨hplace, hoffset⟩ := h.place hr
  have hlast : lastCluster.toNat = 2 ^ 32 - 1 := rfl
  have hvalid : l.sector ≠ lastCluster := fun heq => by
    rw [heq, hlast] at hplace
    omega
  have hsector : (file.bytenum.toNat + r) / 512 = l.sector.toNat := by omega
  have hbytes : (count - l.bytesRead).toNat = count.toNat - r := by
    rw [BitVec.toNat_sub_of_le (by rw [BitVec.le_def, h.bytesRead]; omega), h.bytesRead]
  have hc := copyCount_toNat (count - l.bytesRead) hoffset (by omega)
  rw [hbytes] at hc
  have hstart := h.startcluster
  rw [freadPart]
  by_cases hin : l.file.fileDataAddress = l.sector
  · -- the sector is in the file's buffer
    have hdata := h.sound.data.hit (hin ▸ hvalid)
    have hhas := h.sound.present (hin ▸ hvalid)
    rw [hin, hstart] at hdata hhas
    refine ⟨_, true, Reads.bind (a := (l.file, true)) ?_ (Reads.pure _ _), ?_⟩
    · rw [if_neg (not_not.mpr hin)]
      exact Reads.pure _ _
    · rw [ReadLoop.Step, if_pos rfl]
      exact ⟨_, by omega, freadPart_copy h hcount hpos hr ⟨_, _, _, rfl⟩ h.sound hdata hhas hc⟩
  · obtain ⟨lookup, n, hsound, -, hreads⟩ := readSectors_reads h.sound l.sector 1
      (by omega) (by decide)
    by_cases hhas : vol.HasSector disk l.file.startcluster l.sector.toNat
    · rw [if_pos hhas] at hreads
      refine ⟨_, true, Reads.bind (a := ({ l.file with
          lastFatLookup := lookup
          fileDataSector := vol.fileSector disk l.file.startcluster l.sector.toNat
          fileDataAddress := l.sector }, true)) ?_ (Reads.pure _ _), ?_⟩
      · rw [if_pos hin]
        exact Reads.bind hreads (Reads.pure _ _)
      · rw [ReadLoop.Step, if_pos rfl]
        have hdata := congrArg (fun start => vol.fileSector disk start l.sector.toNat) hstart
        rw [hstart] at hhas
        refine ⟨_, ?_, freadPart_copy h hcount hpos hr ⟨lookup,
            vol.fileSector disk l.file.startcluster l.sector.toNat, l.sector, rfl⟩
          ⟨hsound.lookup, fun _ => rfl, fun _ => ?_⟩ hdata hhas hc⟩
        · omega
        · show vol.HasSector disk l.file.startcluster l.sector.toNat
          rwa [hstart]
    · rw [if_neg hhas] at hreads
      refine ⟨_, false, Reads.bind (a := ({ l.file with lastFatLookup := lookup }, false)) ?_
        (Reads.pure _ _), ?_⟩
      · rw [if_pos hin]
        exact Reads.bind hreads (Reads.pure _ _)
      · rw [ReadLoop.Step, if_neg Bool.false_ne_true]
        exact ⟨h.remember hsound, by rwa [hsector, ← hstart]⟩

/-- The loop ends with all the bytes, or at the end of the chain. -/
theorem freadLoop_reads {n : Nat} (h : l.At disk vol buffer count.toNat file mem r)
    (hcount : count.toNat < 2 ^ 31) (hpos : file.bytenum.toNat + count.toNat < 2 ^ 32)
    (hn : count.toNat ≤ r + n) :
    ∃ l' r', Reads (Fatfs.Sound disk vol) (freadLoop disk buffer count n l) l' ∧
      l'.At disk vol buffer count.toNat file mem r' ∧
      (r' = count.toNat ∨
        ¬ vol.HasSector disk file.startcluster ((file.bytenum.toNat + r') / 512)) := by
  induction n generalizing r l with
  | zero => exact ⟨l, r, Reads.pure _ _, h, Or.inl (Nat.le_antisymm h.le hn)⟩
  | succ n ih =>
    have hr := h.bytesRead
    have hle := h.le
    rw [freadLoop, slt_of_lt (by omega) hcount, hr]
    by_cases hmore : r < count.toNat
    · rw [if_pos (decide_eq_true hmore)]
      have hstep : ∃ l' more, Reads (Fatfs.Sound disk vol)
          (if l.offset = 0 ∧ ¬ (count - l.bytesRead).slt fatSectorSize
            then freadWhole disk buffer count l else freadPart disk buffer count l) (l', more) ∧
          l'.Step disk vol buffer count.toNat file mem r more := by
        have hbytes : (count - l.bytesRead).toNat = count.toNat - r := by
          rw [BitVec.toNat_sub_of_le (by rw [BitVec.le_def, hr]; omega), hr]
        split
        · next hwhole =>
          obtain ⟨hoffset, hfull⟩ := hwhole
          rw [slt_of_lt (by omega) (by decide), decide_eq_true_eq, hbytes] at hfull
          have hsize : fatSectorSize.toNat = 512 := rfl
          exact freadWhole_step h hcount hpos hoffset (by omega)
        · exact freadPart_step h hcount hpos hmore
      obtain ⟨l', more, hreads, hstep⟩ := hstep
      cases more with
      | true =>
        rw [ReadLoop.Step, if_pos rfl] at hstep
        obtain ⟨r', hlt, hat⟩ := hstep
        obtain ⟨l'', r'', hrest, hend⟩ := ih hat (by omega)
        exact ⟨l'', r'', Reads.bind hreads hrest, hend⟩
      | false =>
        rw [ReadLoop.Step, if_neg Bool.false_ne_true] at hstep
        exact ⟨l', r, Reads.bind hreads (Reads.pure _ _), hstep.1, Or.inr hstep.2⟩
    · rw [if_neg (by rw [decide_eq_false hmore]; exact Bool.false_ne_true)]
      exact ⟨l, r, Reads.pure _ _, h, Or.inl (by omega)⟩

end Loop

/-! ### Whole reads -/

/-- The number of bytes that `fl_fread` is after: no more than the file has.  A sum that wraps is
not cut, and a count that is negative as an `int` reads nothing. -/
def FlFile.wanted (file : FlFile) (count : U32) : Nat :=
  let count := if file.bytenum + count > file.filelength then file.filelength - file.bytenum
    else count
  if count.msb then 0 else count.toNat

section Fread

variable {disk : Disk} {vol : Volume} {file : FlFile}

/-- Nothing is read where the count is negative. -/
theorem freadLoop_negative {buffer : U64} {count : U32} (h : count.msb = true) (n : Nat)
    {l : ReadLoop} (hl : l.bytesRead = 0 := by rfl) :
    freadLoop disk buffer count n l = pure l := by
  cases n with
  | zero => rfl
  | succ n =>
    have hslt : l.bytesRead.slt count = false := by
      have hneg := BitVec.toInt_neg_of_msb_true h
      have hzero : (0 : U32).toInt = 0 := rfl
      rw [hl, BitVec.slt, decide_eq_false_iff_not, hzero]
      omega
    rw [freadLoop, hslt, if_neg Bool.false_ne_true]

theorem ReadLoop.At.start (hfile : file.Sound disk vol) (buffer : U64) (count : Nat) (mem : Memory) :
    ReadLoop.At disk vol buffer count file mem 0 (freadStart file mem) where
  bytesRead := rfl
  le := Nat.zero_le _
  startcluster := rfl
  filelength := rfl
  readable := rfl
  bytenum := rfl
  sound := hfile
  place _ := by
    have hsize : fatSectorSize.toNat = 512 := rfl
    rw [freadStart, BitVec.toNat_udiv, BitVec.toNat_umod, hsize]
    omega
  content _ h := absurd h (Nat.not_lt_zero _)
  present _ h := absurd h (Nat.not_lt_zero _)
  frame _ _ := rfl

/-- **`fl_fread`** from inside the file: it leaves `r` bytes of the file's chain in the buffer, goes
on by as many, and says so.  There are fewer than wanted only where the chain ends. -/
theorem flFread_reads (hfile : file.Sound disk vol) (hlen : file.filelength.toNat < 2 ^ 31)
    {buffer : U64} {size length : U32} (mem : Memory) (hbuffer : buffer ≠ 0)
    (hread : file.readable = true) (hcount : size * length ≠ 0)
    (hin : file.bytenum < file.filelength) :
    ∃ (l : ReadLoop) (r : Nat),
      Reads (Fatfs.Sound disk vol) (flFread disk buffer size length file mem)
        (l.bytesRead, l.mem, l.file) ∧
      l.At disk vol buffer (file.wanted (size * length)) file mem r ∧
      (r = file.wanted (size * length) ∨
        ¬ vol.HasSector disk file.startcluster ((file.bytenum.toNat + r) / 512)) := by
  have hpos : file.bytenum.toNat < file.filelength.toNat := hin
  rw [flFread, FlFile.wanted]
  simp only [if_neg hbuffer, hread, not_true_eq_false, if_false, if_neg hcount,
    if_neg (BitVec.not_le.mpr hin), ge_iff_le]
  generalize hc : (if file.bytenum + size * length > file.filelength
    then file.filelength - file.bytenum else size * length) = count
  cases hmsb : count.msb with
  | true =>
    rw [if_pos rfl]
    refine ⟨_, 0, ?_, ReadLoop.At.start hfile buffer 0 mem, Or.inl rfl⟩
    rw [freadLoop_negative hmsb]
    exact Reads.bind (Reads.pure _ _) (Reads.pure _ _)
  | false =>
    rw [if_neg Bool.false_ne_true]
    have hlt : count.toNat < 2 ^ 31 := by
      rw [BitVec.msb_eq_decide, decide_eq_false_iff_not] at hmsb
      omega
    have hsum : file.bytenum.toNat + count.toNat < 2 ^ 32 := by omega
    obtain ⟨l, r, hreads, hat, hend⟩ := freadLoop_reads (n := count.toNat)
      (ReadLoop.At.start hfile buffer count.toNat mem) hlt hsum (by omega)
    exact ⟨l, r, Reads.bind hreads (Reads.pure _ _), hat, hend⟩

/-- **What a read leaves.**  From inside a file below 2 GiB, at any point of a session, `fl_fread`
returns how many bytes it read and moves the position by as many; they are the bytes of the file's
chain from the position on, and they are all that were wanted unless the chain ends there.  Beyond
them it writes less than a cluster, and what the library and the file remember stays right. -/
theorem flFread_exact (hfile : file.Sound disk vol) (hlen : file.filelength.toNat < 2 ^ 31)
    (buffer : U64) (size length : U32) (mem : Memory) (fs : Fatfs) (hfs : fs.Sound disk vol)
    (hbuffer : buffer ≠ 0) (hread : file.readable = true) (hcount : size * length ≠ 0)
    (hin : file.bytenum < file.filelength) :
    ∃ (ret : U32) (mem' : Memory) (file' : FlFile) (fs' : Fatfs),
      flFread disk buffer size length file mem fs = ((ret, mem', file'), fs') ∧
      ret.toNat ≤ file.wanted (size * length) ∧
      (ret.toNat = file.wanted (size * length) ∨
        ¬ vol.HasSector disk file.startcluster ((file.bytenum.toNat + ret.toNat) / 512)) ∧
      (∀ k < ret.toNat, mem' (buffer + BitVec.ofNat 64 k) =
        vol.fileByte disk file.startcluster (file.bytenum.toNat + k)) ∧
      (∀ a, ret.toNat + 512 * (vol.spc - 1) ≤ (a - buffer).toNat → mem' a = mem a) ∧
      file'.bytenum.toNat = file.bytenum.toNat + ret.toNat ∧
      file'.startcluster = file.startcluster ∧ file'.filelength = file.filelength ∧
      file'.Sound disk vol ∧ fs'.Sound disk vol := by
  obtain ⟨l, r, hreads, hat, hend⟩ := flFread_reads hfile hlen mem hbuffer hread hcount hin
  obtain ⟨hres, hinv⟩ := hreads fs hfs
  have hr := hat.bytesRead
  refine ⟨l.bytesRead, l.mem, l.file, _, Prod.ext hres rfl, hr ▸ hat.le, hr ▸ hend,
    fun k hk => ?_, hr ▸ hat.frame, hr ▸ hat.bytenum, hat.startcluster, hat.filelength, hat.sound, hinv⟩
  have hoff := Words.add_ofNat_sub_toNat buffer (show k < 2 ^ 64 by have := l.bytesRead.isLt; omega)
  have hcontent := hat.content (buffer + BitVec.ofNat 64 k) (by omega)
  rwa [hoff] at hcontent

end Fread

/-- The file of the sample disk, opened. -/
def sampleFile : FlFile where
  startcluster := 2
  bytenum := 0
  filelength := 3
  lastFatLookup := ⟨0xffffffff, 0xffffffff⟩
  fileDataSector := fun _ => 0
  fileDataAddress := 0xffffffff
  readable := true

theorem sampleFile_sound : sampleFile.Sound sampleDisk sampleVolume :=
  ⟨Right.of_invalid _ _ _, Right.of_invalid _ _ _, fun hno => absurd rfl hno⟩

theorem flFread_exact_sample :
    ∃ (ret : U32) (mem' : Memory) (file' : FlFile) (fs' : Fatfs),
      flFread sampleDisk 0x1000 1 8 sampleFile (fun _ => 0)
        (Fatfs.attach sampleDisk sampleVolume) = ((ret, mem', file'), fs') ∧
      ret.toNat ≤ sampleFile.wanted (1 * 8) ∧
      (ret.toNat = sampleFile.wanted (1 * 8) ∨
        ¬ sampleVolume.HasSector sampleDisk sampleFile.startcluster
          ((sampleFile.bytenum.toNat + ret.toNat) / 512)) ∧
      (∀ k < ret.toNat, mem' ((0x1000 : U64) + BitVec.ofNat 64 k) =
        sampleVolume.fileByte sampleDisk sampleFile.startcluster (sampleFile.bytenum.toNat + k)) ∧
      (∀ a, ret.toNat + 512 * (sampleVolume.spc - 1) ≤ (a - (0x1000 : U64)).toNat →
        mem' a = 0) ∧
      file'.bytenum.toNat = sampleFile.bytenum.toNat + ret.toNat ∧
      file'.startcluster = sampleFile.startcluster ∧ file'.filelength = sampleFile.filelength ∧
      file'.Sound sampleDisk sampleVolume ∧ fs'.Sound sampleDisk sampleVolume :=
  flFread_exact sampleFile_sound (by decide) 0x1000 1 8 (fun _ => 0) _
    (Fatfs.attach_sound sampleDisk sampleVolume) (by decide) rfl (by decide) (by decide)

/-! ### What `rom_call` sees of a read

Its model of `fl_fread` has the loop over the sectors as a parameter.  It is the loop above. -/

/-- What `rom_call` sees of an open file. -/
def FlFile.view (file : FlFile) : Prephv.FlFile := ⟨file.readable, file.bytenum, file.filelength⟩

/-- The bytes that the loop leaves in the buffer. -/
def fatFill (disk : Disk) (file : FlFile) (mem : Memory) (fs : Fatfs) :
    Prephv.FlFile → U64 → U32 → List U8 := fun _ buffer count =>
  let l := (freadLoop disk buffer count count.toNat (freadStart file mem) fs).1
  memBytes l.mem buffer l.bytesRead.toNat

/-- The loop has read no more than it is to, and the file has moved on as far. -/
structure ReadLoop.Within (file : FlFile) (count : U32) (l : ReadLoop) : Prop where
  le : l.bytesRead.toNat ≤ count.toNat
  lt : l.bytesRead.toNat < 2 ^ 31
  offset : l.offset.toNat < 512
  view : l.file.view = { file.view with bytenum := file.bytenum + l.bytesRead }

section View

variable {disk : Disk} {file : FlFile} {buffer : U64} {count : U32} {l : ReadLoop}

theorem lookupCluster_view (clusterIdx : U32) :
    Ensures (lookupCluster disk file clusterIdx) (fun r => r.2.view = file.view) := by
  rw [lookupCluster]
  dsimp only
  split
  · exact Ensures.pure rfl
  · refine Ensures.bind (p := fun _ => True) (fun _ => trivial) fun cluster _ => Ensures.pure ?_
    dsimp only
    split <;> rfl

/-- No more sectors are read than asked for. -/
theorem readSectors_view (offset : U32) (hcount : count.toNat < 2 ^ 31) :
    Ensures (readSectors disk file offset count)
      (fun r => r.2.view = file.view ∧ ∀ x ∈ r.1, x.2.toNat ≤ count.toNat) := by
  rw [readSectors]
  refine Ensures.bind (p := fun _ => True) (fun _ => trivial) fun fs _ => ?_
  obtain ⟨-, -, hn⟩ := place_eq fs.vol offset hcount
  generalize fs.vol.place offset count = place at hn
  obtain ⟨clusterIdx, sector, n⟩ := place
  refine Ensures.bind (lookupCluster_view clusterIdx) fun r hr => ?_
  dsimp only at hn ⊢
  split
  · exact Ensures.pure ⟨hr, by simp⟩
  · refine Ensures.pure ⟨hr, ?_⟩
    simp only [Option.mem_some_iff, forall_eq']
    omega

/-- The loop goes on after some of the bytes that are left. -/
theorem ReadLoop.Within.advance (h : l.Within file count) {file' : FlFile}
    (hview : file'.view = l.file.view) {copyCount : U32}
    (hle : l.bytesRead.toNat + copyCount.toNat ≤ count.toNat) (hcount : count.toNat < 2 ^ 31)
    (mem : Memory) (sectors : U32) : (l.advance mem file' sectors copyCount).Within file count := by
  have hsum : (l.bytesRead + copyCount).toNat = l.bytesRead.toNat + copyCount.toNat :=
    BitVec.toNat_add_of_lt (by omega)
  have hfile : file'.view = { file.view with bytenum := file.bytenum + l.bytesRead } :=
    hview.trans h.view
  refine ⟨?_, ?_, show (0 : U32).toNat < 512 by decide, ?_⟩
  · show (l.bytesRead + copyCount).toNat ≤ _
    omega
  · show (l.bytesRead + copyCount).toNat < _
    omega
  · obtain ⟨hreadable, hbytenum, hlength⟩ := Prephv.FlFile.mk.inj hfile
    show (⟨file'.readable, file'.bytenum + copyCount, file'.filelength⟩ : Prephv.FlFile) = _
    rw [hreadable, hbytenum, hlength, BitVec.add_assoc]
    rfl

/-- The loop stops where it is. -/
theorem ReadLoop.Within.stop (h : l.Within file count) {file' : FlFile}
    (hview : file'.view = l.file.view) (mem : Memory) :
    ReadLoop.Within file count { l with mem := mem, file := file' } :=
  ⟨h.le, h.lt, h.offset, hview.trans h.view⟩

theorem freadWhole_within (h : l.Within file count) (hcount : count.toNat < 2 ^ 31)
    (hmore : l.bytesRead.toNat < count.toNat) :
    Ensures (freadWhole disk buffer count l) (fun r => r.1.Within file count) := by
  have hleft : (count - l.bytesRead).toNat = count.toNat - l.bytesRead.toNat :=
    BitVec.toNat_sub_of_le (BitVec.le_def.mpr h.le)
  have hsectors := sdiv_sectorSize (x := count - l.bytesRead) (by omega)
  rw [freadWhole]
  refine Ensures.bind (readSectors_view l.sector (by omega)) fun r hr => ?_
  obtain ⟨sectors, file'⟩ := r
  obtain ⟨hview, hle⟩ := hr
  cases sectors with
  | none => exact Ensures.pure (h.stop hview _)
  | some place =>
    obtain ⟨lba, sectorsRead⟩ := place
    have hle : sectorsRead.toNat ≤ _ := hle _ rfl
    have hcopy : (fatSectorSize * sectorsRead).toNat = 512 * sectorsRead.toNat := by
      rw [BitVec.mul_comm, sectorBytes_toNat, Nat.mod_eq_of_lt (by omega)]
    dsimp only
    split
    · exact Ensures.pure (h.advance hview (by omega) hcount _ _)
    · exact Ensures.pure (h.stop hview _)

theorem freadPart_within (h : l.Within file count) (hcount : count.toNat < 2 ^ 31)
    (hmore : l.bytesRead.toNat < count.toNat) :
    Ensures (freadPart disk buffer count l) (fun r => r.1.Within file count) := by
  have hleft : (count - l.bytesRead).toNat = count.toNat - l.bytesRead.toNat :=
    BitVec.toNat_sub_of_le (BitVec.le_def.mpr h.le)
  have hcopy := copyCount_toNat (count - l.bytesRead) h.offset (by omega)
  rw [freadPart]
  refine Ensures.bind (p := fun r => r.1.view = l.file.view) ?_ fun r hview => ?_
  · split
    · refine Ensures.bind (readSectors_view l.sector (by decide)) fun r hr => ?_
      obtain ⟨sectors, file'⟩ := r
      cases sectors with
      | none => exact Ensures.pure hr.1
      | some place => exact Ensures.pure hr.1
    · exact Ensures.pure rfl
  · obtain ⟨file', ok⟩ := r
    dsimp only
    split
    · exact Ensures.pure (h.advance hview (by omega) hcount _ _)
    · exact Ensures.pure (h.stop hview _)

/-- The loop reads no more than it is to, whatever the disk has and the library remembers. -/
theorem freadLoop_within (n : Nat) (h : l.Within file count) :
    Ensures (freadLoop disk buffer count n l) (fun l' => l'.Within file count) := by
  induction n generalizing l with
  | zero => exact Ensures.pure h
  | succ n ih =>
    rw [freadLoop]
    by_cases hslt : l.bytesRead.slt count
    · rw [if_pos hslt]
      -- a count that is negative as an `int` stops the loop at once
      have hcount : count.toNat < 2 ^ 31 := by
        have hint : l.bytesRead.toInt < count.toInt := of_decide_eq_true hslt
        have hlt := h.lt
        rw [BitVec.toInt_eq_toNat_cond, BitVec.toInt_eq_toNat_cond] at hint
        split at hint <;> split at hint <;> omega
      have hmore : l.bytesRead.toNat < count.toNat := by
        rw [slt_of_lt h.lt hcount] at hslt
        exact of_decide_eq_true hslt
      refine Ensures.bind (p := fun r => r.1.Within file count) ?_ fun r hr => ?_
      · split
        · exact freadWhole_within h hcount hmore
        · exact freadPart_within h hcount hmore
      · obtain ⟨l', more⟩ := r
        dsimp only
        split
        · exact ih hr
        · exact Ensures.pure hr
    · rw [if_neg hslt]
      exact Ensures.pure h

theorem freadStart_within (file : FlFile) (mem : Memory) (count : U32) :
    (freadStart file mem).Within file count where
  le := Nat.zero_le _
  lt := show (0 : U32).toNat < 2 ^ 31 by decide
  offset := by
    show (file.bytenum % fatSectorSize).toNat < 512
    rw [BitVec.toNat_umod]
    exact Nat.mod_lt _ (by decide)
  view := by
    show file.view = ⟨file.readable, file.bytenum + 0#32, file.filelength⟩
    rw [BitVec.add_zero, FlFile.view]

/-- The loop leaves no more than it is asked for. -/
theorem fatFill_length_le (disk : Disk) (file : FlFile) (mem : Memory) (fs : Fatfs)
    (view : Prephv.FlFile) (buffer : U64) (count : U32) :
    (fatFill disk file mem fs view buffer count).length ≤ count.toNat := by
  rw [fatFill, memBytes_length]
  exact (freadLoop_within count.toNat (freadStart_within file mem count) fs).le

/-- **The two models of `fl_fread`** are one function: what it returns, the bytes it leaves and the
file after it. -/
theorem flFread_view (disk : Disk) (buffer : U64) (size length : U32) (file : FlFile)
    (mem : Memory) (fs : Fatfs) :
    Prephv.flFread (fatFill disk file mem fs) buffer size length file.view =
      let (ret, mem', file') := (flFread disk buffer size length file mem fs).1
      (ret, if ret.msb then [] else memBytes mem' buffer ret.toNat, file'.view) := by
  have hfail : ∀ bytes : List U8, (if (-1 : U32).msb then [] else bytes) = [] := fun _ =>
    if_pos (by decide)
  have hleave : ∀ ret : U32, ret.toNat < 2 ^ 31 → ∀ bytes : List U8,
      (if ret.msb then [] else bytes) = bytes := fun _ hlt _ =>
    if_neg (by rw [msb_false hlt]; exact Bool.false_ne_true)
  rw [Prephv.flFread, flFread]
  by_cases hbuffer : buffer = 0
  · rw [if_pos hbuffer, if_pos hbuffer]
    exact congrArg (fun bytes => (-1, bytes, file.view)) (hfail _).symm
  rw [if_neg hbuffer, if_neg hbuffer]
  by_cases hreadable : file.readable = true
  swap
  · rw [if_pos hreadable, if_pos (show ¬ file.view.readable = true from hreadable)]
    exact congrArg (fun bytes => (-1, bytes, file.view)) (hfail _).symm
  rw [if_neg (not_not.mpr hreadable),
    if_neg (show ¬ ¬ file.view.readable = true from not_not.mpr hreadable)]
  by_cases hcount : size * length = 0
  · rw [if_pos hcount, if_pos hcount]
    exact congrArg (fun bytes => ((0 : U32), bytes, file.view))
      (hleave 0 (by decide) []).symm
  rw [if_neg hcount, if_neg hcount]
  by_cases hend : file.bytenum ≥ file.filelength
  · rw [if_pos hend, if_pos (show file.view.bytenum ≥ file.view.filelength from hend)]
    exact congrArg (fun bytes => (-1, bytes, file.view)) (hfail _).symm
  rw [if_neg hend, if_neg (show ¬ file.view.bytenum ≥ file.view.filelength from hend)]
  have hcut : (if file.view.bytenum + size * length > file.view.filelength
      then file.view.filelength - file.view.bytenum else size * length) =
    if file.bytenum + size * length > file.filelength then file.filelength - file.bytenum
      else size * length := rfl
  rw [hcut]
  generalize (if file.bytenum + size * length > file.filelength then
    file.filelength - file.bytenum else size * length) = count
  have hat : ReadLoop.Within file count
      (freadLoop disk buffer count count.toNat (freadStart file mem) fs).1 :=
    freadLoop_within count.toNat (freadStart_within file mem count) fs
  have hlen : BitVec.ofNat 32 (fatFill disk file mem fs file.view buffer count).length =
      (freadLoop disk buffer count count.toNat (freadStart file mem) fs).1.bytesRead := by
    rw [fatFill, memBytes_length, BitVec.ofNat_toNat, BitVec.setWidth_eq]
  refine Prod.ext hlen (Prod.ext (hleave _ hat.lt _).symm ?_)
  dsimp only
  rw [hlen]
  exact hat.view.symm

/-- A `read` of the open file, over the loop: it does what it should just when it has what it
needs. -/
theorem fatFill_respects_iff {disk : Disk} {file : FlFile} {mem : Memory} {fs : Fatfs}
    {s s' : ReadState} {cia : U64} {reply : ReadReply} (hih : readIh s cia = 0xffffffff)
    (h : romReadCall (fatFill disk file mem fs) s cia = .ok (reply, s')) :
    Respects s cia reply s' ↔ ReadOk s cia :=
  respects_file_iff (fatFill_length_le disk file mem fs) hih h

end View

end Prephv.Fat
