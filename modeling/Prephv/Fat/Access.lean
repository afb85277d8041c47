import Prephv.Fat.Volume
import Prephv.Lib.Cache
import Mathlib.Tactic.Ring

/-!
# Fat — Access

The way from a cluster to its sectors: the links of the file allocation table, and the sectors of a
chain of clusters.  Both keep the last sector they read in a buffer of `struct fatfs`.

The buffers are nothing but caches.  Each function here returns what the plain function over the
disk returns, whatever was read before (`fatfsFindNextCluster_reads`, `fatfsReadDirSector_reads`),
and the links are those of the table on the disk, one entry after another (`nextCluster_eq_entry`).
-/

set_option autoImplicit false

namespace Prephv.Fat

open Cache (Right Reads follow)

/-- `FAT32_LAST_CLUSTER`, which is also `FAT32_INVALID_CLUSTER`. -/
def lastCluster : U32 := 0xffffffff

/-- `struct fat_buffer`. -/
structure FatBuffer where
  sector : Sector
  address : U32

/-- `struct fatfs`: the volume, the working buffer, and the one buffer for the tables. -/
structure Fatfs where
  vol : Volume
  currentsector : FatBuffer
  fatBuffer : FatBuffer

/-- The volume that `fl_attach_media` attaches.  `fatfs_init` leaves the boot sector in the working
buffer, under an address that is not valid. -/
def Fatfs.attach (disk : Disk) (vol : Volume) : Fatfs where
  vol := vol
  currentsector := ⟨readMedia disk vol.lbaBegin, lastCluster⟩
  fatBuffer := ⟨fun _ => 0, lastCluster⟩

/-! ### The file allocation table -/

/-- `fatfs_fat_read_sector`. -/
def fatfsFatReadSector (disk : Disk) (sector : U32) : StateM Fatfs Sector := do
  let fs ← get
  if sector ≥ fs.fatBuffer.address ∧ sector < fs.fatBuffer.address + 1 then
    return fs.fatBuffer.sector
  else
    set { fs with fatBuffer := ⟨readMedia disk sector, sector⟩ }
    return readMedia disk sector

/-- `fat_sector_offset`. -/
def Volume.fatSectorOffset (vol : Volume) (cluster : U32) : U32 :=
  match vol.fatType with
  | .fat16 => cluster / 256
  | .fat32 => cluster / 128

/-- What `fatfs_find_next_cluster` makes of the sector of the table that has the entry. -/
def Volume.fatEntry (vol : Volume) (pbuf : Sector) (cluster : U32) : U32 :=
  match vol.fatType with
  | .fat16 =>
    let position := (cluster - vol.fatSectorOffset cluster * 256) * 2
    let nextcluster := (get16BitWord pbuf (position.setWidth 16).toNat).setWidth 32
    if nextcluster ≥ 0xfff8 ∧ nextcluster ≤ 0xffff then lastCluster else nextcluster
  | .fat32 =>
    let position := (cluster - vol.fatSectorOffset cluster * 128) * 4
    -- the addresses have 28 bits
    let nextcluster := get32BitWord pbuf (position.setWidth 16).toNat &&& 0x0fffffff
    if nextcluster ≥ 0x0ffffff8 ∧ nextcluster ≤ 0x0fffffff then lastCluster else nextcluster

/-- The cluster whose entry is read: `..` of a directory in the root has cluster 0. -/
def startOf (cluster : U32) : U32 := if cluster = 0 then 2 else cluster

/-- `fatfs_find_next_cluster`. -/
def fatfsFindNextCluster (disk : Disk) (currentCluster : U32) : StateM Fatfs U32 := do
  let fs ← get
  let cluster := startOf currentCluster
  let pbuf ← fatfsFatReadSector disk (fs.vol.fatBeginLba + fs.vol.fatSectorOffset cluster)
  return fs.vol.fatEntry pbuf cluster

/-! ### Chains of clusters -/

/-- `lba` of `fatfs_sector_reader`, unless it returns 0. -/
def fatfsSectorLba (disk : Disk) (startCluster offset : U32) : StateM Fatfs (Option U32) := do
  let fs ← get
  if fs.vol.fatType = .fat16 ∧ startCluster = 0 then
    -- the root directory of FAT16 is not a chain
    return (if offset < fs.vol.rootdirSectors
      then some (fs.vol.lbaBegin + fs.vol.rootdirFirstSector + offset) else none)
  else
    let clusterToRead := offset / fs.vol.sectorsPerCluster.setWidth 32
    let sectorToRead := offset - clusterToRead * fs.vol.sectorsPerCluster.setWidth 32
    let clusterChain ← follow (fatfsFindNextCluster disk) clusterToRead.toNat startCluster
    return (if clusterChain = lastCluster then none
      else some (fs.vol.lbaOfCluster clusterChain + sectorToRead))

/-- The end of `fatfs_sector_reader`: the sector is read if it is not already there. -/
def loadSector (disk : Disk) (lba : U32) : StateM Fatfs Unit := do
  let fs ← get
  if lba ≠ fs.currentsector.address then
    set { fs with currentsector := ⟨readMedia disk lba, lba⟩ }

/-- `fatfs_sector_reader`, to the working buffer. -/
def fatfsSectorReader (disk : Disk) (startCluster offset : U32) : StateM Fatfs Bool := do
  match ← fatfsSectorLba disk startCluster offset with
  | none => return false
  | some lba =>
    loadSector disk lba
    return true

/-- `fatfs_sector_reader`, and the working buffer as its callers read it. -/
def fatfsReadDirSector (disk : Disk) (startCluster offset : U32) : StateM Fatfs (Option Sector) := do
  if ← fatfsSectorReader disk startCluster offset then
    return some (← get).currentsector.sector
  else
    return none

/-! ### What the disk says -/

/-- The link of a cluster, from the disk. -/
def Volume.nextCluster (vol : Volume) (disk : Disk) (cluster : U32) : U32 :=
  vol.fatEntry (readMedia disk (vol.fatBeginLba + vol.fatSectorOffset (startOf cluster)))
    (startOf cluster)

/-- The cluster after `n` links. -/
def Volume.chain (vol : Volume) (disk : Disk) (start : U32) (n : Nat) : U32 :=
  (vol.nextCluster disk)^[n] start

/-- The sector at an offset of a directory, unless its chain has ended. -/
def Volume.dirLba (vol : Volume) (disk : Disk) (startCluster offset : U32) : Option U32 :=
  if vol.fatType = .fat16 ∧ startCluster = 0 then
    if offset < vol.rootdirSectors then some (vol.lbaBegin + vol.rootdirFirstSector + offset)
    else none
  else
    let clusterToRead := offset / vol.sectorsPerCluster.setWidth 32
    let cluster := vol.chain disk startCluster clusterToRead.toNat
    if cluster = lastCluster then none
    else some (vol.lbaOfCluster cluster +
      (offset - clusterToRead * vol.sectorsPerCluster.setWidth 32))

/-- The entry of a cluster in the table on the disk. -/
def Volume.tableEntry (vol : Volume) (disk : Disk) (cluster : Nat) : U32 :=
  let table : Sector := fun k => disk (512 * vol.fatBeginLba.toNat + k)
  match vol.fatType with
  | .fat16 => (get16BitWord table (2 * cluster)).setWidth 32
  | .fat32 => get32BitWord table (4 * cluster) &&& 0x0fffffff

/-- The entries from here on end a chain. -/
def Volume.endMark (vol : Volume) : U32 :=
  match vol.fatType with
  | .fat16 => 0xfff8
  | .fat32 => 0x0ffffff8

/-- The number of entries in a sector of the table. -/
def Volume.entriesPerSector (vol : Volume) : Nat :=
  match vol.fatType with
  | .fat16 => 256
  | .fat32 => 128

/-- The buffers hold what the disk has. -/
structure Fatfs.Sound (disk : Disk) (vol : Volume) (fs : Fatfs) : Prop where
  vol : fs.vol = vol
  working : Right (readMedia disk) lastCluster fs.currentsector.address fs.currentsector.sector
  tables : Right (readMedia disk) lastCluster fs.fatBuffer.address fs.fatBuffer.sector

section Sound

variable {disk : Disk} {vol : Volume}

theorem Fatfs.attach_sound (disk : Disk) (vol : Volume) : (Fatfs.attach disk vol).Sound disk vol :=
  ⟨rfl, Right.of_invalid _ _ _, Right.of_invalid _ _ _⟩

/-- No sector is in a buffer that is not valid: the address after it is 0. -/
theorem fatBuffer_hit {sector address : U32} :
    sector ≥ address ∧ sector < address + 1 ↔ sector = address ∧ address ≠ lastCluster := by
  have hs := sector.isLt
  have ha := address.isLt
  have hone : (1 : U32).toNat = 1 := rfl
  have hlast : lastCluster.toNat = 2 ^ 32 - 1 := rfl
  rw [ge_iff_le, BitVec.le_def, BitVec.lt_def, BitVec.toNat_add, hone, ne_eq,
    BitVec.toNat_inj.symm, BitVec.toNat_inj.symm, hlast]
  omega

theorem fatfsFatReadSector_reads (sector : U32) :
    Reads (Fatfs.Sound disk vol) (fatfsFatReadSector disk sector) (readMedia disk sector) := by
  refine Reads.get_bind fun fs hs => ?_
  split
  · next hhit =>
    obtain ⟨rfl, hvalid⟩ := fatBuffer_hit.mp hhit
    rw [← hs.tables.hit hvalid]
    exact Reads.pure _ _
  · exact Reads.set_bind ⟨hs.vol, hs.working, Right.filled _ _ _⟩ (Reads.pure _ _)

/-- **The buffer of the tables** makes no difference to the links. -/
theorem fatfsFindNextCluster_reads (cluster : U32) :
    Reads (Fatfs.Sound disk vol) (fatfsFindNextCluster disk cluster)
      (vol.nextCluster disk cluster) := by
  refine Reads.get_bind fun fs hs => ?_
  rw [hs.vol]
  exact Reads.bind (fatfsFatReadSector_reads _) (Reads.pure _ _)

theorem follow_reads (n : Nat) (cluster : U32) :
    Reads (Fatfs.Sound disk vol) (follow (fatfsFindNextCluster disk) n cluster)
      (vol.chain disk cluster n) :=
  Reads.follow fatfsFindNextCluster_reads n cluster

theorem fatfsSectorLba_reads (startCluster offset : U32) :
    Reads (Fatfs.Sound disk vol) (fatfsSectorLba disk startCluster offset)
      (vol.dirLba disk startCluster offset) := by
  refine Reads.get_bind fun fs hs => ?_
  rw [hs.vol]
  exact Reads.ite (fun _ => Reads.pure _ _)
    fun _ => Reads.bind (follow_reads _ _) (Reads.pure _ _)

theorem loadSector_run (lba : U32) (fs : Fatfs) : loadSector disk lba fs =
    ((), if lba = fs.currentsector.address then fs
      else { fs with currentsector := ⟨readMedia disk lba, lba⟩ }) := by
  show (if lba ≠ fs.currentsector.address then
    set { fs with currentsector := ⟨readMedia disk lba, lba⟩ } else pure () : StateM Fatfs Unit) fs = _
  by_cases h : lba = fs.currentsector.address
  · rw [if_neg (not_not.mpr h), if_pos h]
    rfl
  · rw [if_pos h, if_neg h]
    rfl

/-- The sector is in the working buffer after it was loaded.  The address of an empty buffer is not
one to load from. -/
theorem loadSector_reads {lba : U32} (hlba : lba ≠ lastCluster) :
    Reads (Fatfs.Sound disk vol) (do loadSector disk lba; return (← get).currentsector.sector)
      (readMedia disk lba) := by
  intro fs hs
  show (loadSector disk lba fs).2.currentsector.sector = _ ∧
    Fatfs.Sound disk vol (loadSector disk lba fs).2
  rw [loadSector_run]
  dsimp only
  split
  · next heq =>
    subst heq
    exact ⟨hs.working.hit hlba, hs⟩
  · exact ⟨rfl, hs.vol, Right.filled _ _ _, hs.tables⟩

/-- **The working buffer** makes no difference to the sectors of a directory. -/
theorem fatfsReadDirSector_reads {startCluster offset : U32}
    (hlba : vol.dirLba disk startCluster offset ≠ some lastCluster) :
    Reads (Fatfs.Sound disk vol) (fatfsReadDirSector disk startCluster offset)
      ((vol.dirLba disk startCluster offset).map (readMedia disk)) := by
  have hsplit : fatfsReadDirSector disk startCluster offset =
      fatfsSectorLba disk startCluster offset >>= fun lba => match lba with
        | none => pure none
        | some lba => (do loadSector disk lba; return (← get).currentsector.sector) >>=
            fun sector => pure (some sector) := by
    rw [fatfsReadDirSector, fatfsSectorReader, bind_assoc]
    congr 1
    funext lba
    cases lba <;> rfl
  rw [hsplit]
  refine Reads.bind (fatfsSectorLba_reads startCluster offset) ?_
  cases hat : vol.dirLba disk startCluster offset with
  | none => exact Reads.pure _ _
  | some lba =>
    have hne : lba ≠ lastCluster := fun h => hlba (by rw [hat, h])
    exact Reads.bind (loadSector_reads hne) (Reads.pure _ _)

/-! ### The table -/

theorem readMedia_eq {lba : U32} (hlba : lba.toNat < 2 ^ 23) (k : Nat) :
    readMedia disk lba k = disk (512 * lba.toNat + k) := by
  rw [readMedia, sectorBytes_toNat, Nat.mod_eq_of_lt (by omega)]

/-- The position of an entry in its sector: the remainder of the cluster. -/
theorem position_toNat {cluster : U32} {n w : U32} (hn : 0 < n.toNat) (hw : n.toNat * w.toNat ≤ 512) :
    (((cluster - cluster / n * n) * w).setWidth 16).toNat = cluster.toNat % n.toNat * w.toNat := by
  have hdiv : (cluster / n * n).toNat = cluster.toNat / n.toNat * n.toNat := by
    have hle := Nat.div_mul_le_self cluster.toNat n.toNat
    have hlt := cluster.isLt
    rw [BitVec.toNat_mul, BitVec.toNat_udiv, Nat.mod_eq_of_lt (by omega)]
  have hmod : (cluster - cluster / n * n).toNat = cluster.toNat % n.toNat := by
    have hsplit := Nat.div_add_mod' cluster.toNat n.toNat
    rw [BitVec.toNat_sub_of_le (by rw [BitVec.le_def, hdiv]; omega), hdiv]
    omega
  have hlt : cluster.toNat % n.toNat * w.toNat ≤ 512 :=
    (Nat.mul_le_mul_right _ (Nat.mod_lt _ hn).le).trans hw
  rw [BitVec.toNat_setWidth, BitVec.toNat_mul, hmod, Nat.mod_eq_of_lt (by omega),
    Nat.mod_eq_of_lt (by omega)]

/-- A byte of the sector of an entry is a byte of the table. -/
theorem tableByte_eq {begin_ cluster n : U32} {w : Nat} (hw : n.toNat * w = 512)
    (hin : begin_.toNat + cluster.toNat / n.toNat < 2 ^ 23) (j : Nat) :
    readMedia disk (begin_ + cluster / n) (cluster.toNat % n.toNat * w + j) =
      disk (512 * begin_.toNat + (w * cluster.toNat + j)) := by
  have hsum : (begin_ + cluster / n).toNat = begin_.toNat + cluster.toNat / n.toNat := by
    rw [BitVec.toNat_add, BitVec.toNat_udiv, Nat.mod_eq_of_lt (by omega)]
  rw [readMedia_eq (by omega), hsum]
  congr 1
  calc 512 * (begin_.toNat + cluster.toNat / n.toNat) + (cluster.toNat % n.toNat * w + j)
      = 512 * begin_.toNat + (w * (n.toNat * (cluster.toNat / n.toNat) + cluster.toNat % n.toNat) +
          j) := by rw [← hw]; ring
    _ = 512 * begin_.toNat + (w * cluster.toNat + j) := by rw [Nat.div_add_mod]

/-- **The links are those of the table.**  The sector of an entry, and its position there, are its
place in the table on the disk. -/
theorem nextCluster_eq_entry {cluster : U32}
    (hin : vol.fatBeginLba.toNat + (startOf cluster).toNat / vol.entriesPerSector < 2 ^ 23) :
    vol.nextCluster disk cluster =
      if vol.tableEntry disk (startOf cluster).toNat ≥ vol.endMark then lastCluster
      else vol.tableEntry disk (startOf cluster).toNat := by
  generalize hc : startOf cluster = c at hin
  rw [Volume.nextCluster, hc]
  cases hfat : vol.fatType with
  | fat16 =>
    simp only [Volume.fatSectorOffset, Volume.fatEntry, Volume.tableEntry, Volume.endMark,
      Volume.entriesPerSector, hfat] at hin ⊢
    have hbyte := @tableByte_eq disk vol.fatBeginLba c 256 2 rfl hin
    have hpos : (((c - c / 256 * 256) * 2).setWidth 16).toNat = c.toNat % 256 * 2 :=
      position_toNat (by decide) (by decide)
    have hentry : get16BitWord (readMedia disk (vol.fatBeginLba + c / 256))
          (((c - c / 256 * 256) * 2).setWidth 16).toNat =
        get16BitWord (fun k => disk (512 * vol.fatBeginLba.toNat + k)) (2 * c.toNat) := by
      rw [hpos, get16BitWord, get16BitWord]
      exact congrArg₂ _ (hbyte 1) (hbyte 0)
    have hle : ∀ e : U16, (e.setWidth 32 : U32) ≤ 0xffff := fun e => by
      have h := e.isLt
      rw [BitVec.le_def, BitVec.toNat_setWidth]
      show e.toNat % 2 ^ 32 ≤ 65535
      omega
    simp only [hentry, hle, and_true]
  | fat32 =>
    simp only [Volume.fatSectorOffset, Volume.fatEntry, Volume.tableEntry, Volume.endMark,
      Volume.entriesPerSector, hfat] at hin ⊢
    have hbyte := @tableByte_eq disk vol.fatBeginLba c 128 4 rfl hin
    have hpos : (((c - c / 128 * 128) * 4).setWidth 16).toNat = c.toNat % 128 * 4 :=
      position_toNat (by decide) (by decide)
    have hentry : get32BitWord (readMedia disk (vol.fatBeginLba + c / 128))
          (((c - c / 128 * 128) * 4).setWidth 16).toNat =
        get32BitWord (fun k => disk (512 * vol.fatBeginLba.toNat + k)) (4 * c.toNat) := by
      rw [hpos, get32BitWord, get32BitWord]
      exact congrArg₂ _ (congrArg₂ _ (congrArg₂ _ (hbyte 3) (hbyte 2)) (hbyte 1)) (hbyte 0)
    have hle : ∀ e : U32, e &&& 0x0fffffff ≤ 0x0fffffff := fun e => by
      rw [BitVec.le_def, BitVec.toNat_and]
      exact Nat.and_le_right
    simp only [hentry, hle, and_true]

/-- The clusters that are looked up one after another. -/
def findNextClusters (disk : Disk) : List U32 → StateM Fatfs (List U32)
  | [] => return []
  | cluster :: clusters => do
    let next ← fatfsFindNextCluster disk cluster
    return next :: (← findNextClusters disk clusters)

theorem findNextClusters_reads (clusters : List U32) :
    Reads (Fatfs.Sound disk vol) (findNextClusters disk clusters)
      (clusters.map (vol.nextCluster disk)) := by
  induction clusters with
  | nil => exact Reads.pure _ _
  | cons cluster clusters ih =>
    exact Reads.bind (fatfsFindNextCluster_reads cluster) (Reads.bind ih (Reads.pure _ _))

/-- **Every run of lookups** gives the links that the table has on the disk, entry by entry, whatever
was looked up before it. -/
theorem findNextClusters_table (disk : Disk) (vol : Volume) (clusters : List U32)
    (hin : ∀ c ∈ clusters,
      vol.fatBeginLba.toNat + (startOf c).toNat / vol.entriesPerSector < 2 ^ 23)
    (fs : Fatfs) (hfs : fs.Sound disk vol) :
    (findNextClusters disk clusters fs).1 = clusters.map fun c =>
      if vol.tableEntry disk (startOf c).toNat ≥ vol.endMark then lastCluster
      else vol.tableEntry disk (startOf c).toNat := by
  rw [(findNextClusters_reads clusters fs hfs).1]
  exact List.map_congr_left fun c hc => nextCluster_eq_entry (hin c hc)

end Sound

theorem findNextClusters_table_sample :
    (findNextClusters sampleDisk ([2, 3, 300, 2] : List U32)
        (Fatfs.attach sampleDisk sampleVolume)).1 =
      ([2, 3, 300, 2] : List U32).map fun c =>
        if sampleVolume.tableEntry sampleDisk (startOf c).toNat ≥ sampleVolume.endMark
        then lastCluster else sampleVolume.tableEntry sampleDisk (startOf c).toNat := by
  refine findNextClusters_table sampleDisk sampleVolume ([2, 3, 300, 2] : List U32)
    (fun c hc => ?_) _ (Fatfs.attach_sound sampleDisk sampleVolume)
  have hper : sampleVolume.entriesPerSector = 256 := rfl
  have hfat : sampleVolume.fatBeginLba.toNat = 1 := rfl
  rw [hper, hfat]
  simp only [List.mem_cons, List.not_mem_nil, or_false] at hc
  rcases hc with rfl | rfl | rfl | rfl <;> simp [startOf]

end Prephv.Fat
