import Prephv.Fat.Access
import Prephv.Fat.Names

/-!
# Fat — Directory

The directories of a volume are chains of sectors of 16 entries each.  `fatfs_get_file_entry` looks
for a name in one, and `fatfs_list_directory_next` goes through its entries from where it last
stopped.  Neither looks for the mark at the end of the entries: a directory ends where its chain
does.

A lookup finds the first entry that is shown and whose name compares equal
(`getFileEntry_reads`), and repeated calls list the entries that are shown, in order
(`listDirectory_reads`).
-/

set_option autoImplicit false

namespace Prephv.Fat

open Cache (Right Reads)

/-! ### Entries -/

/-- What is read of a `struct fat_dir_entry`. -/
structure DirEntry where
  name : List U8
  attr : U8
  fstClusHI : U16
  fstClusLO : U16
  fileSize : U32
  deriving DecidableEq, Repr

/-- `FAT_DIR_ENTRIES_PER_SECTOR`. -/
def dirEntriesPerSector : Nat := 16

/-- The directory entry that is laid over the sector at an item. -/
def DirEntry.over (sector : Sector) (item : Nat) : DirEntry where
  name := (List.range 11).map fun i => sector (32 * item + i)
  attr := sector (32 * item + 11)
  fstClusHI := get16BitWord sector (32 * item + 20)
  fstClusLO := get16BitWord sector (32 * item + 26)
  fileSize := get32BitWord sector (32 * item + 28)

/-- `fatfs_entry_sfn_only`. -/
def DirEntry.sfnOnly (e : DirEntry) : Bool :=
  e.attr ≠ 0x0f && e.name.headD 0 ≠ 0 && e.name.headD 0 ≠ 0xe5 && e.attr ≠ 0x08 &&
    e.attr &&& 0x06 = 0

/-- `fatfs_entry_is_dir`. -/
def DirEntry.isDir (e : DirEntry) : Bool := e.attr &&& 0x10 ≠ 0

/-- `fatfs_entry_is_file`: it has the attribute of an archive. -/
def DirEntry.isFile (e : DirEntry) : Bool := e.attr &&& 0x20 ≠ 0

/-- The first cluster of the entry. -/
def DirEntry.cluster (e : DirEntry) : U32 := e.fstClusHI ++ e.fstClusLO

/-- `short_filename`: the name and the extension, and between them a dot if there is an extension and
the entry is not `.` or `..`. -/
def DirEntry.shortFilename (e : DirEntry) : List U8 :=
  let ext := e.name.drop 8
  let dotRequired := ext.any (· ≠ space)
  let mark := if dotRequired ∧ e.name.headD 0 ≠ dot then dot else space
  (e.name.take 8 ++ mark :: ext).takeWhile (· ≠ 0)

/-- `fatfs_get_sfn_display_name`'s loop: the characters other than spaces, in lower case, and twelve
of them at most. -/
def displayLoop : List U8 → Nat → List U8
  | [], _ => []
  | c :: in_, len =>
    if len ≤ 11 then
      if c = space then displayLoop in_ len else lower c :: displayLoop in_ (len + 1)
    else []

/-- What a listing says of an entry, `struct fs_dir_ent`. -/
structure DirEnt where
  filename : List U8
  isDir : Bool
  cluster : U32
  size : U32
  deriving DecidableEq, Repr

/-- The entry as it is listed. -/
def DirEntry.listed (e : DirEntry) : DirEnt where
  filename := displayLoop e.shortFilename 0
  isDir := e.isDir
  cluster := e.cluster
  size := e.fileSize

/-! ### `fatfs_get_file_entry` -/

/-- The entry matches a name that is looked for. -/
def DirEntry.matches_ (name : List U8) (e : DirEntry) : Bool :=
  e.sfnOnly && compareNames e.shortFilename name

/-- The entries of a sector, from an item on. -/
def sectorEntries (sector : Sector) (item : Nat) : List DirEntry :=
  (List.range' item (dirEntriesPerSector - item)).map (DirEntry.over sector)

/-- `fatfs_get_file_entry`, from sector `x` on, with `fuel` sectors to go.  `none`: it has not come
to the end of the chain. -/
def getFileEntry (disk : Disk) (cluster : U32) (nameToFind : List U8) :
    Nat → Nat → StateM Fatfs (Option (Option DirEntry))
  | 0, _ => return none
  | fuel + 1, x => do
    match ← fatfsReadDirSector disk cluster (BitVec.ofNat 32 x) with
    | none => return some none
    | some sector =>
      match (sectorEntries sector 0).find? (DirEntry.matches_ nameToFind) with
      | some e => return some (some e)
      | none => getFileEntry disk cluster nameToFind fuel (x + 1)

/-! ### `fatfs_list_directory_next` -/

/-- `struct fs_dir_list_status`. -/
structure DirListStatus where
  sector : Nat
  cluster : U32
  offset : Nat
  deriving DecidableEq, Repr

/-- `fatfs_list_directory_start`. -/
def listDirectoryStart (cluster : U32) : DirListStatus := ⟨0, cluster, 0⟩

/-- `fatfs_list_directory_next`: the next entry that is shown, and where to go on. -/
def listDirectoryNext (disk : Disk) :
    Nat → DirListStatus → StateM Fatfs (Option (Option DirEnt × DirListStatus))
  | 0, _ => return none
  | fuel + 1, dirls => do
    match ← fatfsReadDirSector disk dirls.cluster (BitVec.ofNat 32 dirls.sector) with
    | none => return some (none, dirls)
    | some sector =>
      match (sectorEntries sector dirls.offset).findIdx? DirEntry.sfnOnly with
      | some i =>
        let item := dirls.offset + i
        return some (some (DirEntry.over sector item).listed, { dirls with offset := item + 1 })
      | none => listDirectoryNext disk fuel { dirls with sector := dirls.sector + 1, offset := 0 }

/-- `fl_listdirectory`'s loop: it calls `fl_readdir` until nothing is left. -/
def listDirectory (disk : Disk) (sectors : Nat) :
    Nat → DirListStatus → StateM Fatfs (Option (List DirEnt))
  | 0, _ => return none
  | calls + 1, dirls => do
    match ← listDirectoryNext disk sectors dirls with
    | none => return none
    | some (none, _) => return some []
    | some (some dirent, dirls) =>
      return (← listDirectory disk sectors calls dirls).map (dirent :: ·)

/-! ### The entries of a directory -/

/-- The directory has `n` sectors, and its chain ends after them. -/
structure Volume.DirSectors (vol : Volume) (disk : Disk) (cluster : U32) (n : Nat) : Prop where
  inside : ∀ k < n, ∃ lba, vol.dirLba disk cluster (BitVec.ofNat 32 k) = some lba ∧
    lba ≠ lastCluster
  last : vol.dirLba disk cluster (BitVec.ofNat 32 n) = none

/-- The entries of a sector of the directory. -/
def Volume.entriesOf (vol : Volume) (disk : Disk) (cluster : U32) (k : Nat) : List DirEntry :=
  match vol.dirLba disk cluster (BitVec.ofNat 32 k) with
  | none => []
  | some lba => sectorEntries (readMedia disk lba) 0

/-- The entries of the directory from sector `x` to sector `n`. -/
def Volume.entriesFrom (vol : Volume) (disk : Disk) (cluster : U32) (x n : Nat) : List DirEntry :=
  (List.range' x (n - x)).flatMap (vol.entriesOf disk cluster)

/-- The entries of a directory of `n` sectors. -/
def Volume.dirEntries (vol : Volume) (disk : Disk) (cluster : U32) (n : Nat) : List DirEntry :=
  vol.entriesFrom disk cluster 0 n

section Entries

variable {disk : Disk} {vol : Volume} {cluster : U32} {n x fuel : Nat}

theorem entriesFrom_cons (h : x < n) : vol.entriesFrom disk cluster x n =
    vol.entriesOf disk cluster x ++ vol.entriesFrom disk cluster (x + 1) n := by
  have hsub : n - x = n - (x + 1) + 1 := by omega
  rw [Volume.entriesFrom, Volume.entriesFrom, hsub, List.range'_succ, List.flatMap_cons]

theorem entriesFrom_self (n : Nat) : vol.entriesFrom disk cluster n n = [] := by
  rw [Volume.entriesFrom, Nat.sub_self]
  rfl

/-- A sector of the directory, or its end. -/
theorem readDirSector_reads (hdir : vol.DirSectors disk cluster n) (hx : x ≤ n) :
    Reads (Fatfs.Sound disk vol) (fatfsReadDirSector disk cluster (BitVec.ofNat 32 x))
      ((vol.dirLba disk cluster (BitVec.ofNat 32 x)).map (readMedia disk)) := by
  refine fatfsReadDirSector_reads fun h => ?_
  rcases Nat.lt_or_eq_of_le hx with hlt | rfl
  · obtain ⟨lba, hlba, hne⟩ := hdir.inside x hlt
    rw [h] at hlba
    exact hne (Option.some.inj hlba).symm
  · rw [hdir.last] at h
    cases h

theorem getFileEntry_from (hdir : vol.DirSectors disk cluster n) (name : List U8) (hx : x ≤ n)
    (hfuel : n < x + fuel) :
    Reads (Fatfs.Sound disk vol) (getFileEntry disk cluster name fuel x)
      (some ((vol.entriesFrom disk cluster x n).find? (DirEntry.matches_ name))) := by
  induction fuel generalizing x with
  | zero => omega
  | succ fuel ih =>
    rw [getFileEntry]
    refine Reads.bind (readDirSector_reads hdir hx) ?_
    rcases Nat.lt_or_eq_of_le hx with hlt | rfl
    · obtain ⟨lba, hlba, -⟩ := hdir.inside x hlt
      have hof : vol.entriesOf disk cluster x = sectorEntries (readMedia disk lba) 0 := by
        rw [Volume.entriesOf, hlba]
      rw [hlba, entriesFrom_cons hlt, List.find?_append, hof]
      dsimp only [Option.map_some]
      cases (sectorEntries (readMedia disk lba) 0).find? (DirEntry.matches_ name) with
      | none => exact ih hlt (by omega)
      | some e => exact Reads.pure _ _
    · rw [hdir.last, entriesFrom_self]
      exact Reads.pure _ _

/-- **A lookup** finds the first entry of the directory that matches. -/
theorem getFileEntry_reads (hdir : vol.DirSectors disk cluster n) (name : List U8)
    (hfuel : n < fuel) :
    Reads (Fatfs.Sound disk vol) (getFileEntry disk cluster name fuel 0)
      (some ((vol.dirEntries disk cluster n).find? (DirEntry.matches_ name))) :=
  getFileEntry_from hdir name (Nat.zero_le _) (by omega)

/-! ### Listing -/

/-- The first element with a property, and those after it. -/
theorem filter_of_findIdx? {α : Type} {p : α → Bool} {l : List α} {i : Nat}
    (h : l.findIdx? p = some i) :
    ∃ hi : i < l.length, l.filter p = l[i] :: (l.drop (i + 1)).filter p := by
  induction l generalizing i with
  | nil => cases h
  | cons a l ih =>
    rw [List.findIdx?_cons] at h
    by_cases ha : p a = true
    · rw [if_pos ha] at h
      cases h
      exact ⟨Nat.zero_lt_succ _, List.filter_cons_of_pos ha⟩
    · rw [if_neg ha] at h
      obtain ⟨j, hj, rfl⟩ := Option.map_eq_some_iff.mp h
      obtain ⟨hlt, hfilter⟩ := ih hj
      exact ⟨Nat.succ_lt_succ hlt, (List.filter_cons_of_neg ha).trans hfilter⟩

theorem filter_of_findIdx?_none {α : Type} {p : α → Bool} {l : List α}
    (h : l.findIdx? p = none) : l.filter p = [] := by
  rw [List.findIdx?_eq_none_iff] at h
  exact List.filter_eq_nil_iff.mpr fun a ha => by simp [h a ha]

theorem sectorEntries_eq_drop (sector : Sector) (item : Nat) :
    sectorEntries sector item = (sectorEntries sector 0).drop item := by
  rw [sectorEntries, sectorEntries, ← List.map_drop, List.drop_range']
  congr 1
  rw [Nat.sub_zero, Nat.zero_add, Nat.mul_one]

theorem sectorEntries_get {sector : Sector} {item i : Nat}
    (h : i < (sectorEntries sector item).length) :
    (sectorEntries sector item)[i] = DirEntry.over sector (item + i) := by
  simp only [sectorEntries, List.getElem_map, List.getElem_range', Nat.one_mul]

/-- What a listing has not come to yet. -/
def Volume.remaining (vol : Volume) (disk : Disk) (n : Nat) (dirls : DirListStatus) :
    List DirEntry :=
  (vol.entriesOf disk dirls.cluster dirls.sector).drop dirls.offset ++
    vol.entriesFrom disk dirls.cluster (dirls.sector + 1) n

theorem entriesFrom_beyond (n : Nat) : vol.entriesFrom disk cluster (n + 1) n = [] := by
  rw [Volume.entriesFrom, Nat.sub_eq_zero_of_le (Nat.le_succ n)]
  rfl

/-- Nothing is left at the end of the chain. -/
theorem remaining_last {dirls : DirListStatus} (hdir : vol.DirSectors disk dirls.cluster n)
    (hx : dirls.sector = n) : vol.remaining disk n dirls = [] := by
  rw [Volume.remaining, Volume.entriesOf, hx, hdir.last, entriesFrom_beyond, List.drop_nil,
    List.append_nil]

/-- At the start of a sector everything from there is left. -/
theorem remaining_start (dirls : DirListStatus) (hdir : vol.DirSectors disk dirls.cluster n)
    (hx : dirls.sector ≤ n) (hoffset : dirls.offset = 0) :
    vol.remaining disk n dirls = vol.entriesFrom disk dirls.cluster dirls.sector n := by
  rcases Nat.lt_or_eq_of_le hx with hlt | hend
  · rw [Volume.remaining, hoffset, List.drop_zero, entriesFrom_cons hlt]
  · rw [remaining_last hdir hend, hend, entriesFrom_self]

/-- What a call of `fatfs_list_directory_next` does: it is at the end, or at the next entry. -/
def Volume.Next (vol : Volume) (disk : Disk) (n : Nat) (dirls : DirListStatus) :
    Option DirEnt × DirListStatus → Prop
  | (none, _) => (vol.remaining disk n dirls).filter DirEntry.sfnOnly = []
  | (some dirent, dirls') => ∃ e : DirEntry, dirent = e.listed ∧ dirls'.cluster = dirls.cluster ∧
      dirls'.sector ≤ n ∧ (vol.remaining disk n dirls).filter DirEntry.sfnOnly =
        e :: (vol.remaining disk n dirls').filter DirEntry.sfnOnly

theorem listDirectoryNext_reads (fuel : Nat) {dirls : DirListStatus}
    (hdir : vol.DirSectors disk dirls.cluster n) (hx : dirls.sector ≤ n)
    (hfuel : n < dirls.sector + fuel) :
    ∃ next, vol.Next disk n dirls next ∧
      Reads (Fatfs.Sound disk vol) (listDirectoryNext disk fuel dirls) (some next) := by
  induction fuel generalizing dirls with
  | zero => omega
  | succ fuel ih =>
    have hread := readDirSector_reads hdir hx
    rcases Nat.lt_or_eq_of_le hx with hlt | hend
    · obtain ⟨lba, hlba, -⟩ := hdir.inside _ hlt
      have hof : vol.entriesOf disk dirls.cluster dirls.sector =
          sectorEntries (readMedia disk lba) 0 := by rw [Volume.entriesOf, hlba]
      rw [hlba] at hread
      have hrest : vol.remaining disk n dirls =
          sectorEntries (readMedia disk lba) dirls.offset ++
            vol.entriesFrom disk dirls.cluster (dirls.sector + 1) n := by
        rw [Volume.remaining, hof, ← sectorEntries_eq_drop]
      cases hfind : (sectorEntries (readMedia disk lba) dirls.offset).findIdx? DirEntry.sfnOnly with
      | some i =>
        obtain ⟨hi, hfilter⟩ := filter_of_findIdx? hfind
        refine ⟨(some (DirEntry.over (readMedia disk lba) (dirls.offset + i)).listed,
          { dirls with offset := dirls.offset + i + 1 }), ⟨_, rfl, rfl, hx, ?_⟩, ?_⟩
        · rw [hrest, List.filter_append, hfilter, sectorEntries_get hi, Volume.remaining, hof,
            List.filter_append, sectorEntries_eq_drop, List.drop_drop, List.cons_append]
          rfl
        · rw [listDirectoryNext]
          refine Reads.bind hread ?_
          dsimp only [Option.map_some]
          rw [hfind]
          exact Reads.pure _ _
      | none =>
        obtain ⟨next, hnext, hreads⟩ := @ih { dirls with
          sector := dirls.sector + 1, offset := 0 } hdir hlt (by dsimp only; omega)
        have hskip : (vol.remaining disk n dirls).filter DirEntry.sfnOnly =
            (vol.remaining disk n { dirls with
              sector := dirls.sector + 1, offset := 0 }).filter DirEntry.sfnOnly := by
          rw [hrest, List.filter_append, filter_of_findIdx?_none hfind, List.nil_append,
            remaining_start { dirls with sector := dirls.sector + 1, offset := 0 } hdir hlt rfl]
        refine ⟨next, ?_, ?_⟩
        · match next, hnext with
          | (none, _), h => exact hskip.trans h
          | (some _, _), ⟨e, h₁, h₂, h₃, h₄⟩ => exact ⟨e, h₁, h₂, h₃, hskip.trans h₄⟩
        · rw [listDirectoryNext]
          refine Reads.bind hread ?_
          dsimp only [Option.map_some]
          rw [hfind]
          exact hreads
    · rw [hend, hdir.last] at hread
      refine ⟨(none, dirls), ?_, ?_⟩
      · rw [Volume.Next, remaining_last hdir hend]
        rfl
      · rw [listDirectoryNext, hend]
        exact Reads.bind hread (Reads.pure _ _)

/-- From a place in a directory, `fl_listdirectory` lists what is left of it. -/
theorem listDirectory_remaining {calls : Nat} (dirls : DirListStatus)
    (hdir : vol.DirSectors disk dirls.cluster n) (hx : dirls.sector ≤ n) (hfuel : n < fuel)
    (hcalls : ((vol.remaining disk n dirls).filter DirEntry.sfnOnly).length < calls) :
    Reads (Fatfs.Sound disk vol) (listDirectory disk fuel calls dirls)
      (some (((vol.remaining disk n dirls).filter DirEntry.sfnOnly).map DirEntry.listed)) := by
  induction calls generalizing dirls with
  | zero => omega
  | succ calls ih =>
    obtain ⟨next, hnext, hreads⟩ := listDirectoryNext_reads fuel hdir hx (by omega)
    rw [listDirectory]
    refine Reads.bind hreads ?_
    match next, hnext with
    | (none, _), h =>
      rw [Volume.Next] at h
      rw [h]
      exact Reads.pure _ _
    | (some _, dirls'), ⟨e, rfl, hcluster, hle, hrest⟩ =>
      rw [hrest] at hcalls ⊢
      rw [← hcluster] at hdir
      refine Reads.bind (ih _ hdir hle ?_) (Reads.pure _ _)
      rw [List.length_cons] at hcalls
      omega

theorem entriesOf_length_le (k : Nat) :
    (vol.entriesOf disk cluster k).length ≤ dirEntriesPerSector := by
  rw [Volume.entriesOf]
  split
  · exact Nat.zero_le _
  · rw [sectorEntries, List.length_map, List.length_range']
    exact Nat.sub_le _ _

theorem entriesFrom_length_le {k : Nat} (hk : x + k = n) :
    (vol.entriesFrom disk cluster x n).length ≤ dirEntriesPerSector * k := by
  induction k generalizing x with
  | zero =>
    obtain rfl : x = n := hk
    rw [entriesFrom_self]
    exact Nat.zero_le _
  | succ k ih =>
    have hfirst : (vol.entriesOf disk cluster x).length ≤ _ := entriesOf_length_le x
    have hrest := @ih (x + 1) (by omega)
    rw [entriesFrom_cons (by omega), List.length_append, Nat.mul_succ]
    omega

/-- **A listing** shows the entries of the directory that are shown, in order, and each once. -/
theorem listDirectory_reads (hdir : vol.DirSectors disk cluster n) (hfuel : n < fuel)
    {calls : Nat} (hcalls : dirEntriesPerSector * n < calls) :
    Reads (Fatfs.Sound disk vol) (listDirectory disk fuel calls (listDirectoryStart cluster))
      (some (((vol.dirEntries disk cluster n).filter DirEntry.sfnOnly).map DirEntry.listed)) := by
  have hstart : vol.remaining disk n (listDirectoryStart cluster) = vol.dirEntries disk cluster n :=
    remaining_start (listDirectoryStart cluster) hdir (Nat.zero_le _) rfl
  rw [← hstart]
  refine listDirectory_remaining (listDirectoryStart cluster) hdir (Nat.zero_le _) hfuel ?_
  refine Nat.lt_of_le_of_lt (List.length_filter_le _ _) ?_
  rw [hstart]
  exact Nat.lt_of_le_of_lt (entriesFrom_length_le (by omega)) hcalls

end Entries

/-- The root directory of the sample disk. -/
theorem sampleSectors : sampleVolume.DirSectors sampleDisk 0 1 where
  inside k hk := by
    obtain rfl := Nat.lt_one_iff.mp hk
    exact ⟨18, rfl, by decide⟩
  last := rfl

/-- The entry of its file. -/
def sampleEntry : DirEntry where
  name := ascii "A       TXT"
  attr := 0x20
  fstClusHI := 0
  fstClusLO := 2
  fileSize := 3

end Prephv.Fat
