import Prephv.Rom.Media

/-!
# Fat — Volume

`fatfs_init` reads the first sector of the guest's disk and the first sector of the partition it
finds there, and keeps where the tables, the root directory and the clusters of the volume are.  The
sectors come from `guest_disk_read`, which always returns 1, so the branches for a failed read are
not taken.

The fields of `struct fatfs` that only code without write support would read are left out, and so
are the locks, which nothing attaches.
-/

set_option autoImplicit false

namespace Prephv.Fat

/-! ### Sectors -/

/-- `uint8` and `uint16`. -/
abbrev U8 := BitVec 8
abbrev U16 := BitVec 16

/-- The bytes of the guest's disk, from `guest_disk` on. -/
abbrev Disk := Nat → U8

/-- A buffer of `FAT_SECTOR_SIZE` bytes. -/
abbrev Sector := Nat → U8

/-- `GET_16BIT_WORD`. -/
def get16BitWord (buffer : Sector) (location : Nat) : U16 :=
  buffer (location + 1) ++ buffer location

/-- `GET_32BIT_WORD`. -/
def get32BitWord (buffer : Sector) (location : Nat) : U32 :=
  buffer (location + 3) ++ buffer (location + 2) ++ buffer (location + 1) ++ buffer location

/-- `read_media(lba, sector, 1)`, what it puts into a buffer of one sector. -/
def readMedia (disk : Disk) (lba : U32) : Sector := fun k =>
  disk ((lba * fatSectorSize).toNat + k)

section Request

variable {disk : Disk} {count sector : U32} {buffer : U64}

/-- A byte that no copy writes is as it was. -/
theorem exec_untouched {copies : List MediaCopy} {m : Memory} {a : U64}
    (h : ¬ ∃ c ∈ copies, c.Writes a) : copies.foldl (MediaCopy.exec disk) m a = m a := by
  induction copies generalizing m with
  | nil => rfl
  | cons c copies ih =>
    rw [List.foldl_cons, ih fun ⟨c', hc', hw⟩ => h ⟨c', List.mem_cons_of_mem _ hc', hw⟩]
    exact if_neg fun hw => h ⟨c, List.mem_cons_self, hw⟩

/-- The copies write no further than the last of them. -/
theorem mediaLoop_untouched {n : Nat} (hn : n < 2 ^ 23) (hcount : count.toNat < 2 ^ 23) {m : Memory}
    {a : U64} (h : n = 0 ∨ 512 * (n - 1) + 512 * count.toNat ≤ (a - buffer).toNat) :
    (mediaLoop count n sector buffer).foldl (MediaCopy.exec disk) m a = m a := by
  refine exec_untouched fun ⟨c, hc, hw⟩ => ?_
  obtain ⟨i, hi, rfl⟩ := mem_mediaLoop.mp hc
  unfold MediaCopy.Writes at hw
  dsimp only at hw
  rw [sectorBytes_toNat, offset_toNat a (by omega), Nat.mod_eq_of_lt (by omega)] at hw
  have hlt := (a - buffer).isLt
  split at hw <;> omega

/-- Every sector of the buffer gets its own sector of the disk: the copy that starts there is the
last that writes to it. -/
theorem mediaLoop_sector {n : Nat} (hn : n < 2 ^ 23) (hpos : 0 < count.toNat)
    (hcount : count.toNat < 2 ^ 23) {m : Memory} {a : U64} (h : (a - buffer).toNat < 512 * n) :
    (mediaLoop count n sector buffer).foldl (MediaCopy.exec disk) m a =
      readMedia disk (sector + BitVec.ofNat 32 ((a - buffer).toNat / 512))
        ((a - buffer).toNat % 512) := by
  induction n generalizing sector buffer m with
  | zero => omega
  | succ n ih =>
    have hnext : fatSectorSize.setWidth 64 = BitVec.ofNat 64 512 := by decide
    have hoff := offset_toNat (b := buffer) a (show 512 < 2 ^ 64 by decide)
    rw [mediaLoop, List.foldl_cons, hnext]
    by_cases hfirst : 512 ≤ (a - buffer).toNat
    · rw [if_pos hfirst] at hoff
      rw [ih (by omega) (by rw [hoff]; omega), hoff]
      have hdiv : (a - buffer).toNat / 512 = ((a - buffer).toNat - 512) / 512 + 1 := by omega
      have hmod : ((a - buffer).toNat - 512) % 512 = (a - buffer).toNat % 512 := by omega
      rw [hdiv, hmod, BitVec.add_assoc, Nat.add_comm _ 1, BitVec.ofNat_add]
      rfl
    · rw [if_neg hfirst] at hoff
      rw [mediaLoop_untouched (by omega) hcount (by rw [hoff]; omega)]
      have hdiv : (a - buffer).toNat / 512 = 0 := by omega
      have hmod : (a - buffer).toNat % 512 = (a - buffer).toNat := by omega
      rw [hdiv, hmod, BitVec.add_zero]
      refine if_pos ?_
      show (a - buffer).toNat < (count * fatSectorSize).toNat
      rw [sectorBytes_toNat, Nat.mod_eq_of_lt (by omega)]
      omega

end Request

/-! ### `fatfs_init` -/

/-- `tFatType`. -/
inductive FatType where
  | fat16 | fat32
  deriving DecidableEq, Repr

/-- The results of `fatfs_init` other than `FAT_INIT_OK`. -/
inductive FatInit where
  | mediaAccessError | invalidSectorSize | invalidSignature | endianError | wrongFilesysType
  | wrongPartitionType | structPacking
  deriving DecidableEq, Repr

/-- What `fatfs_init` keeps of a volume in `struct fatfs`. -/
structure Volume where
  sectorsPerCluster : U8
  clusterBeginLba : U32
  rootdirFirstCluster : U32
  rootdirFirstSector : U32
  rootdirSectors : U32
  fatBeginLba : U32
  fsInfoSector : U16
  lbaBegin : U32
  fatSectors : U32
  rootEntryCount : U16
  fatType : FatType
  /-- A volume whose clusters have no sectors is refused. -/
  sectorsPerCluster_ne : sectorsPerCluster ≠ 0
  deriving DecidableEq, Repr

/-- The partition type codes that `fatfs_init` takes. -/
def validPartition (code : U8) : Bool :=
  code ∈ [0x0b#8, 0x06, 0x0c, 0x0e, 0x0f, 0x05] || (code ≠ 0 && code ≤ 0x06)

/-- What `fatfs_init` reads of a boot sector. -/
structure Bpb where
  bytsPerSec : U16
  secPerClus : U8
  rsvdSecCnt : U16
  numFats : U8
  rootEntCnt : U16
  /-- `BPB_FATSZ16`, or `BPB_FAT32_FATSZ32` where that is 0. -/
  fatSz : U32
  /-- `BPB_TOTSEC16`, or `BPB_TOTSEC32` where that is 0. -/
  totSec : U32
  rootClus : U32
  fsInfo : U16
  signature : U16
  deriving DecidableEq, Repr

/-- The fields of a boot sector, at their offsets. -/
def Bpb.ofSector (s : Sector) : Bpb where
  bytsPerSec := get16BitWord s 11
  secPerClus := s 13
  rsvdSecCnt := get16BitWord s 14
  numFats := s 16
  rootEntCnt := get16BitWord s 17
  fatSz := if get16BitWord s 22 ≠ 0 then (get16BitWord s 22).setWidth 32 else get32BitWord s 36
  totSec := if get16BitWord s 19 ≠ 0 then (get16BitWord s 19).setWidth 32 else get32BitWord s 32
  rootClus := get32BitWord s 44
  fsInfo := get16BitWord s 48
  signature := get16BitWord s 510

/-- The sectors of the file allocation tables. -/
def Bpb.tables (b : Bpb) : U32 := b.numFats.setWidth 32 * b.fatSz

/-- `root_dir_sectors`. -/
def Bpb.rootDirSectors (b : Bpb) : U32 :=
  (b.rootEntCnt.setWidth 32 * 32 + (b.bytsPerSec.setWidth 32 - 1)) / b.bytsPerSec.setWidth 32

/-- `data_sectors`. -/
def Bpb.dataSectors (b : Bpb) : U32 :=
  b.totSec - (b.rsvdSecCnt.setWidth 32 + b.tables + b.rootDirSectors)

/-- `count_of_clusters`. -/
def Bpb.countOfClusters (b : Bpb) : U32 := b.dataSectors / b.secPerClus.setWidth 32

/-- The volume at `lbaBegin`, once it is known that its clusters have sectors. -/
def Bpb.volume (b : Bpb) (lbaBegin : U32) (h : b.secPerClus ≠ 0) (fatType : FatType) : Volume where
  sectorsPerCluster := b.secPerClus
  clusterBeginLba := lbaBegin + b.rsvdSecCnt.setWidth 32 + b.tables
  -- `rootdir_first_cluster` means nothing on FAT16
  rootdirFirstCluster := if fatType = .fat16 then 0 else b.rootClus
  rootdirFirstSector := b.rsvdSecCnt.setWidth 32 + b.tables
  rootdirSectors := (b.rootEntCnt.setWidth 32 * 32 + (fatSectorSize - 1)) / fatSectorSize
  fatBeginLba := lbaBegin + b.rsvdSecCnt.setWidth 32
  fsInfoSector := b.fsInfo
  lbaBegin := lbaBegin
  fatSectors := b.fatSz
  rootEntryCount := b.rootEntCnt
  fatType := fatType
  sectorsPerCluster_ne := h

/-- `fatfs_init`, from the boot sector of the partition on. -/
def fatfsInitPartition (disk : Disk) (lbaBegin : U32) : Except FatInit Volume :=
  let b := Bpb.ofSector (readMedia disk lbaBegin)
  if b.bytsPerSec.setWidth 32 ≠ fatSectorSize then .error .invalidSectorSize
  else if b.signature ≠ 0xaa55 then .error .invalidSignature
  else if h : b.secPerClus ≠ 0 then
    if b.countOfClusters < 4085 then .error .wrongFilesysType
    else if b.countOfClusters < 65525 then .ok (b.volume lbaBegin h .fat16)
    else .ok (b.volume lbaBegin h .fat32)
  else .error .wrongFilesysType

/-- `lba_begin`: the first partition of a disk with a table of them, or the disk. -/
def lbaBegin (mbr : Sector) : U32 := if validPartition (mbr 450) then get32BitWord mbr 454 else 0

/-- `fatfs_init`. -/
def fatfsInit (disk : Disk) : Except FatInit Volume :=
  let mbr := readMedia disk 0
  if mbr 510 ≠ 0x55 ∨ mbr 511 ≠ 0xaa then .error .invalidSignature
  else if get16BitWord mbr 510 ≠ 0xaa55 then .error .endianError
  else fatfsInitPartition disk (lbaBegin mbr)

/-- `fatfs_lba_of_cluster`. -/
def Volume.lbaOfCluster (vol : Volume) (cluster : U32) : U32 :=
  match vol.fatType with
  | .fat16 =>
    -- the root directory is before the clusters
    vol.clusterBeginLba + vol.rootEntryCount.setWidth 32 * 32 / fatSectorSize +
      (cluster - 2) * vol.sectorsPerCluster.setWidth 32
  | .fat32 => vol.clusterBeginLba + (cluster - 2) * vol.sectorsPerCluster.setWidth 32

/-- `fatfs_get_root_cluster`. -/
def Volume.getRootCluster (vol : Volume) : U32 := vol.rootdirFirstCluster

/-- The number of sectors of a cluster. -/
def Volume.spc (vol : Volume) : Nat := vol.sectorsPerCluster.toNat

theorem Volume.spc_pos (vol : Volume) : 0 < vol.spc := by
  have h := vol.sectorsPerCluster_ne
  rw [Volume.spc]
  by_contra hz
  exact h (BitVec.eq_of_toNat_eq (by simpa using hz))

theorem Volume.spc_lt (vol : Volume) : vol.spc < 256 := vol.sectorsPerCluster.isLt

/-! ### Layout -/

/-- The boot sector is consistent: what is before the clusters fits into the volume, the volume into
32 bits, and the root directory into whole sectors. -/
structure Bpb.Consistent (b : Bpb) (lbaBegin : U32) : Prop where
  inside : b.rsvdSecCnt.toNat + b.numFats.toNat * b.fatSz.toNat + b.rootDirSectors.toNat ≤
    b.totSec.toNat
  fits : lbaBegin.toNat + b.totSec.toNat < 2 ^ 32
  whole : b.rootEntCnt.toNat % 16 = 0

/-- The sector after the tables, where the root directory of FAT16 is. -/
def Bpb.rootStart (b : Bpb) (lbaBegin : U32) : Nat :=
  lbaBegin.toNat + b.rsvdSecCnt.toNat + b.numFats.toNat * b.fatSz.toNat

/-- The first sector of the first cluster. -/
def Bpb.dataStart (b : Bpb) (lbaBegin : U32) (fatType : FatType) : Nat :=
  b.rootStart lbaBegin + match fatType with
    | .fat16 => b.rootEntCnt.toNat / 16
    | .fat32 => 0

/-- Where the parts of a volume are. -/
structure Volume.Layout (vol : Volume) (b : Bpb) : Prop where
  tables : vol.fatBeginLba.toNat = vol.lbaBegin.toNat + b.rsvdSecCnt.toNat
  root : (vol.lbaBegin + vol.rootdirFirstSector).toNat = b.rootStart vol.lbaBegin
  /-- The root directory of FAT16 ends where the clusters begin. -/
  rootEnd : vol.fatType = .fat16 → b.rootStart vol.lbaBegin + vol.rootdirSectors.toNat =
    b.dataStart vol.lbaBegin vol.fatType
  /-- The clusters are one after another, and inside the volume. -/
  clusters : ∀ c < b.countOfClusters.toNat,
    (vol.lbaOfCluster (BitVec.ofNat 32 (c + 2))).toNat =
        b.dataStart vol.lbaBegin vol.fatType + c * vol.spc ∧
      b.dataStart vol.lbaBegin vol.fatType + (c + 1) * vol.spc ≤
        vol.lbaBegin.toNat + b.totSec.toNat

section Layout

variable {disk : Disk} {vol : Volume} {b : Bpb} {lba : U32}

/-- What a volume that `fatfs_init` takes is made from. -/
theorem fatfsInit_eq_ok (h : fatfsInit disk = .ok vol) :
    ∃ (hspc : (Bpb.ofSector (readMedia disk vol.lbaBegin)).secPerClus ≠ 0) (fatType : FatType),
      (Bpb.ofSector (readMedia disk vol.lbaBegin)).bytsPerSec = 512 ∧
        vol = (Bpb.ofSector (readMedia disk vol.lbaBegin)).volume vol.lbaBegin hspc fatType := by
  have hbytes : ∀ x : U16, ¬ (x.setWidth 32 : U32) ≠ fatSectorSize → x = 512 := by
    intro x hx
    have hx := congrArg BitVec.toNat (not_not.mp hx)
    have hlt := x.isLt
    have hsize : fatSectorSize.toNat = 512 := rfl
    rw [BitVec.toNat_setWidth, hsize] at hx
    apply BitVec.eq_of_toNat_eq
    show x.toNat = 512
    omega
  rw [fatfsInit] at h
  split_ifs at h
  rw [fatfsInitPartition] at h
  split_ifs at h with hsize hsig hspc h12 h16
  · obtain rfl := Except.ok.inj h
    exact ⟨hspc, .fat16, hbytes _ hsize, rfl⟩
  · obtain rfl := Except.ok.inj h
    exact ⟨hspc, .fat32, hbytes _ hsize, rfl⟩

/-- The quantities of a consistent boot sector, none of which wraps. -/
theorem Bpb.Consistent.toNat (h : b.Consistent lba) (hbytes : b.bytsPerSec = 512) :
    b.tables.toNat = b.numFats.toNat * b.fatSz.toNat ∧
      b.rootDirSectors.toNat = b.rootEntCnt.toNat / 16 ∧
      b.dataSectors.toNat = b.totSec.toNat -
        (b.rsvdSecCnt.toNat + b.numFats.toNat * b.fatSz.toNat + b.rootEntCnt.toNat / 16) := by
  have hinside := h.inside
  have hwhole := h.whole
  have htot := b.totSec.isLt
  have hent := b.rootEntCnt.isLt
  have hrsvd := b.rsvdSecCnt.isLt
  have hnum := b.numFats.isLt
  have h512 : (BitVec.setWidth 32 (512 : U16)).toNat = 512 := rfl
  have h511 : (BitVec.setWidth 32 (512 : U16) - 1).toNat = 511 := rfl
  have h32 : (32 : U32).toNat = 32 := rfl
  have htables : b.tables.toNat = b.numFats.toNat * b.fatSz.toNat := by
    rw [Bpb.tables, BitVec.toNat_mul, BitVec.toNat_setWidth,
      Nat.mod_eq_of_lt (show b.numFats.toNat < 2 ^ 32 by omega), Nat.mod_eq_of_lt (by omega)]
  have hroot : b.rootDirSectors.toNat = b.rootEntCnt.toNat / 16 := by
    rw [Bpb.rootDirSectors, hbytes, BitVec.toNat_udiv, BitVec.toNat_add, BitVec.toNat_mul,
      BitVec.toNat_setWidth, h512, h511, h32]
    omega
  refine ⟨htables, hroot, ?_⟩
  have hbefore : (b.rsvdSecCnt.setWidth 32 + b.tables + b.rootDirSectors : U32).toNat =
      b.rsvdSecCnt.toNat + b.numFats.toNat * b.fatSz.toNat + b.rootEntCnt.toNat / 16 := by
    rw [BitVec.toNat_add, BitVec.toNat_add, BitVec.toNat_setWidth, htables, hroot]
    rw [hroot] at hinside
    omega
  rw [Bpb.dataSectors, BitVec.toNat_sub_of_le (by rw [BitVec.le_def, hbefore]; omega), hbefore]

/-- **The layout of a volume** that `fatfs_init` takes, from a consistent boot sector: the tables,
the root directory and the clusters do not overlap, and the clusters are inside the volume. -/
theorem fatfsInit_layout (h : fatfsInit disk = .ok vol)
    (hok : (Bpb.ofSector (readMedia disk vol.lbaBegin)).Consistent vol.lbaBegin) :
    vol.Layout (Bpb.ofSector (readMedia disk vol.lbaBegin)) := by
  obtain ⟨hspc, fatType, hbytes, hvol⟩ := fatfsInit_eq_ok h
  generalize hb : Bpb.ofSector (readMedia disk vol.lbaBegin) = b at hok hspc hbytes hvol ⊢
  generalize hlba : vol.lbaBegin = lba at hok hvol ⊢
  subst hvol
  obtain ⟨htables, hroot, hdata⟩ := hok.toNat hbytes
  have hinside := hok.inside
  have hfits := hok.fits
  have hwhole := hok.whole
  have hent := b.rootEntCnt.isLt
  have hrsvd := b.rsvdSecCnt.isLt
  have hrsvd32 : (b.rsvdSecCnt.setWidth 32 : U32).toNat = b.rsvdSecCnt.toNat := by
    rw [BitVec.toNat_setWidth, Nat.mod_eq_of_lt (by omega)]
  have hfirst : (lba + b.rsvdSecCnt.setWidth 32 : U32).toNat = lba.toNat + b.rsvdSecCnt.toNat := by
    rw [BitVec.toNat_add, hrsvd32, Nat.mod_eq_of_lt (by omega)]
  have hbegin : (lba + b.rsvdSecCnt.setWidth 32 + b.tables).toNat = b.rootStart lba := by
    rw [BitVec.toNat_add, hfirst, htables, Bpb.rootStart, Nat.mod_eq_of_lt (by omega)]
  have hsize : fatSectorSize.toNat = 512 := rfl
  have h32 : (32 : U32).toNat = 32 := rfl
  have hentries : (b.rootEntCnt.setWidth 32 * 32 : U32).toNat = b.rootEntCnt.toNat * 32 := by
    rw [BitVec.toNat_mul, BitVec.toNat_setWidth, h32]
    omega
  refine ⟨hfirst, ?_, fun h16 => ?_, fun c hc => ?_⟩
  · show (lba + (b.rsvdSecCnt.setWidth 32 + b.tables)).toNat = _
    rw [← BitVec.add_assoc]
    exact hbegin
  · have h16 : fatType = .fat16 := h16
    subst h16
    show b.rootStart lba + ((b.rootEntCnt.setWidth 32 * 32 + (fatSectorSize - 1)) /
      fatSectorSize : U32).toNat = b.rootStart lba + b.rootEntCnt.toNat / 16
    have h511 : (fatSectorSize - 1).toNat = 511 := rfl
    rw [BitVec.toNat_udiv, BitVec.toNat_add, hentries, h511, hsize]
    omega
  · have hspos : 0 < b.secPerClus.toNat := (b.volume lba hspc fatType).spc_pos
    have hcount : b.countOfClusters.toNat * b.secPerClus.toNat ≤ b.dataSectors.toNat := by
      rw [Bpb.countOfClusters, BitVec.toNat_udiv, BitVec.toNat_setWidth,
        Nat.mod_eq_of_lt (by have := b.secPerClus.isLt; omega)]
      exact Nat.div_mul_le_self _ _
    have hmul : (c + 1) * b.secPerClus.toNat ≤ b.dataSectors.toNat :=
      (Nat.mul_le_mul_right _ hc).trans hcount
    have hsucc : (c + 1) * b.secPerClus.toNat = c * b.secPerClus.toNat + b.secPerClus.toNat :=
      Nat.succ_mul _ _
    have hnum : BitVec.ofNat 32 (c + 2) - 2 = BitVec.ofNat 32 c := by
      rw [BitVec.ofNat_add]
      exact BitVec.add_sub_cancel _ _
    have hcle : c ≤ c * b.secPerClus.toNat := Nat.le_mul_of_pos_right c hspos
    have hplace : (BitVec.ofNat 32 c * b.secPerClus.setWidth 32 : U32).toNat =
        c * b.secPerClus.toNat := by
      rw [BitVec.toNat_mul, BitVec.toNat_ofNat, BitVec.toNat_setWidth,
        Nat.mod_eq_of_lt (show c < 2 ^ 32 by omega),
        Nat.mod_eq_of_lt (show b.secPerClus.toNat < 2 ^ 32 by omega), Nat.mod_eq_of_lt (by omega)]
    have hend : b.rootStart lba + b.rootEntCnt.toNat / 16 + (c + 1) * b.secPerClus.toNat ≤
        lba.toNat + b.totSec.toNat := by
      rw [Bpb.rootStart]
      omega
    show (Volume.lbaOfCluster _ _).toNat = b.dataStart lba fatType + c * b.secPerClus.toNat ∧
      b.dataStart lba fatType + (c + 1) * b.secPerClus.toNat ≤ lba.toNat + b.totSec.toNat
    cases fatType with
    | fat16 =>
      have hdir : (b.rootEntCnt.setWidth 32 * 32 / fatSectorSize : U32).toNat =
          b.rootEntCnt.toNat / 16 := by
        rw [BitVec.toNat_udiv, hentries, hsize]
        omega
      refine ⟨?_, hend⟩
      show (lba + b.rsvdSecCnt.setWidth 32 + b.tables + b.rootEntCnt.setWidth 32 * 32 /
        fatSectorSize + (BitVec.ofNat 32 (c + 2) - 2) * b.secPerClus.setWidth 32 : U32).toNat =
          b.rootStart lba + b.rootEntCnt.toNat / 16 + c * b.secPerClus.toNat
      rw [hnum, BitVec.toNat_add, hplace, BitVec.toNat_add, hbegin, hdir]
      omega
    | fat32 =>
      refine ⟨?_, by show b.rootStart lba + 0 + _ ≤ _; omega⟩
      show (lba + b.rsvdSecCnt.setWidth 32 + b.tables +
        (BitVec.ofNat 32 (c + 2) - 2) * b.secPerClus.setWidth 32 : U32).toNat =
          b.rootStart lba + 0 + c * b.secPerClus.toNat
      rw [hnum, BitVec.toNat_add, hplace, hbegin]
      omega

end Layout

/-- A disk of 4200 sectors without a table of partitions: FAT16, with one table of 17 sectors, a root
directory of one sector, and in it the file `a.txt` of three bytes, in the first cluster. -/
def sampleDisk : Disk := fun i =>
  let at_ (base : Nat) (bytes : List U8) : Option U8 := if base ≤ i then bytes[i - base]? else none
  ((at_ 11 [0, 2, 1, 1, 0, 1, 16, 0, 0x68, 0x10, 0, 17, 0]).or <|
    (at_ 510 [0x55, 0xaa, 0xf8, 0xff, 0xff, 0xff, 0xff, 0xff]).or <|
    (at_ 9216 (ascii "A       TXT" ++ [0x20])).or <|
    (at_ 9242 [2, 0, 3, 0, 0, 0]).or <|
    at_ 9728 (ascii "abc")).getD 0

/-- Its volume. -/
def sampleVolume : Volume where
  sectorsPerCluster := 1
  clusterBeginLba := 18
  rootdirFirstCluster := 0
  rootdirFirstSector := 18
  rootdirSectors := 1
  fatBeginLba := 1
  fsInfoSector := 0
  lbaBegin := 0
  fatSectors := 17
  rootEntryCount := 16
  fatType := .fat16
  sectorsPerCluster_ne := by decide

theorem fatfsInit_layout_sample :
    sampleVolume.Layout (Bpb.ofSector (readMedia sampleDisk sampleVolume.lbaBegin)) :=
  @fatfsInit_layout sampleDisk sampleVolume (by decide +kernel)
    ⟨by decide +kernel, by decide +kernel, by decide +kernel⟩

end Prephv.Fat
