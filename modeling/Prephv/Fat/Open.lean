import Prephv.Fat.Directory
import Prephv.Fat.Runs

/-!
# Fat — Open

`fl_fopen` goes down the directories of a path and opens the file it finds there.  There is one file
object, `_files[0]`, and nothing else is open when it is taken, so `_check_file_open` finds nothing.

The file is the first entry of its directory that matches the last component, when every component
before it matches a directory (`flFopen_reads`).
-/

set_option autoImplicit false

namespace Prephv.Fat

open Cache (Right Reads)

/-- `FATFS_MAX_LONG_FILENAME`. -/
def maxLongFilename : Nat := 260

/-! ### `_open_directory` -/

/-- `_open_directory`'s loop, with `n` levels to go.  `none`: a directory's chain does not end. -/
def openDirectoryLoop (disk : Disk) (fuel : Nat) (path : List U8) :
    Nat → Nat → U32 → StateM Fatfs (Option (Option U32))
  | 0, _, startcluster => return some (some startcluster)
  | n + 1, sublevel, startcluster =>
    match getSubstring path sublevel maxLongFilename with
    | none => return some none
    | some currentfolder => do
      match ← getFileEntry disk startcluster currentfolder fuel 0 with
      | none => return none
      | some none => return some none
      | some (some sfEntry) =>
        if sfEntry.isDir then openDirectoryLoop disk fuel path n (sublevel + 1) sfEntry.cluster
        else return some none

/-- `_open_directory`. -/
def openDirectory (disk : Disk) (fuel : Nat) (path : List U8) :
    StateM Fatfs (Option (Option U32)) := do
  let fs ← get
  openDirectoryLoop disk fuel path (totalPathLevels path + 1).toNat 0 fs.vol.getRootCluster

/-! ### `fl_fopen` -/

/-- The flags of a file. -/
def fileRead : U8 := 1
def fileWrite : U8 := 2
def fileAppend : U8 := 4
def fileBinary : U8 := 8
def fileErase : U8 := 16
def fileCreate : U8 := 32

/-- The flags of a mode of `fl_fopen`. -/
def modeFlags : List U8 → U8 → U8
  | [], flags => flags
  | c :: mode, flags =>
    modeFlags mode
      (if c = 0x72 ∨ c = 0x52 then flags ||| fileRead
      else if c = 0x77 ∨ c = 0x57 then flags ||| fileWrite ||| fileErase ||| fileCreate
      else if c = 0x61 ∨ c = 0x41 then flags ||| fileWrite ||| fileAppend ||| fileCreate
      else if c = 0x2b then
        if flags &&& fileRead ≠ 0 then flags ||| fileWrite
        else if flags &&& fileWrite ≠ 0 then flags ||| fileRead ||| fileErase ||| fileCreate
        else if flags &&& fileAppend ≠ 0 then
          flags ||| fileRead ||| fileWrite ||| fileAppend ||| fileCreate
        else flags
      else if c = 0x62 ∨ c = 0x42 then flags ||| fileBinary
      else flags)

/-- The file object that is opened: what was in its buffer is forgotten. -/
def FlFile.opened (slot : FlFile) (sfEntry : DirEntry) (flags : U8) : FlFile :=
  { slot with
    startcluster := sfEntry.cluster
    bytenum := 0
    filelength := sfEntry.fileSize
    lastFatLookup := ⟨0xffffffff, 0xffffffff⟩
    fileDataAddress := 0xffffffff
    readable := flags &&& fileRead ≠ 0 }

/-- `_open_file`, and the flags that `fl_fopen` gives the file. -/
def openFile (disk : Disk) (fuel : Nat) (slot : FlFile) (flags : U8) (path : List U8) :
    StateM Fatfs (Option (Option FlFile)) := do
  match splitPath path maxLongFilename maxLongFilename with
  | none => return some none
  | some (dir, filename) =>
    let fs ← get
    let parent ← (if dir.headD 0 = 0 then return some (some fs.vol.getRootCluster)
      else openDirectory disk fuel dir)
    match parent with
    | none => return none
    | some none => return some none
    | some (some parentcluster) =>
      match ← getFileEntry disk parentcluster filename fuel 0 with
      | none => return none
      | some none => return some none
      | some (some sfEntry) =>
        return some (if sfEntry.isFile then some (slot.opened sfEntry flags) else none)

/-- `fl_fopen`, of a library that is attached: without write support only the flag to read is left
to open a file. -/
def flFopen (disk : Disk) (fuel : Nat) (slot : FlFile) (path mode : List U8) :
    StateM Fatfs (Option (Option FlFile)) :=
  let flags := modeFlags mode 0 &&& ~~~(fileCreate ||| fileWrite ||| fileAppend)
  if flags &&& fileRead ≠ 0 then openFile disk fuel slot flags path else return some none

/-! ### Where a path leads -/

/-- The directory has fewer than `fuel` sectors, and these are its entries. -/
def Volume.Dir (vol : Volume) (disk : Disk) (fuel : Nat) (cluster : U32) (entries : List DirEntry) :
    Prop :=
  ∃ n < fuel, vol.DirSectors disk cluster n ∧ entries = vol.dirEntries disk cluster n

/-- Where components lead from a directory: to another one, or to nothing. -/
inductive Volume.Leads (vol : Volume) (disk : Disk) (fuel : Nat) :
    U32 → List (List U8) → Option U32 → Prop where
  | here (cluster : U32) : Leads vol disk fuel cluster [] (some cluster)
  | down {cluster : U32} {entries : List DirEntry} {name : List U8} {names : List (List U8)}
      {e : DirEntry} {r : Option U32} (hdir : vol.Dir disk fuel cluster entries)
      (hfind : entries.find? (DirEntry.matches_ name) = some e) (his : e.isDir = true)
      (hrest : Leads vol disk fuel e.cluster names r) :
      Leads vol disk fuel cluster (name :: names) r
  | missing {cluster : U32} {entries : List DirEntry} {name : List U8} {names : List (List U8)}
      (hdir : vol.Dir disk fuel cluster entries)
      (hno : ∀ e ∈ entries.find? (DirEntry.matches_ name), e.isDir = false) :
      Leads vol disk fuel cluster (name :: names) none

section Open

variable {disk : Disk} {vol : Volume} {fuel : Nat} {cluster : U32} {entries : List DirEntry}

theorem getFileEntry_dir (hdir : vol.Dir disk fuel cluster entries) (name : List U8) :
    Reads (Fatfs.Sound disk vol) (getFileEntry disk cluster name fuel 0)
      (some (entries.find? (DirEntry.matches_ name))) := by
  obtain ⟨n, hn, hsectors, rfl⟩ := hdir
  exact getFileEntry_reads hsectors name hn

theorem openDirectoryLoop_reads {path : List U8} {names : List (List U8)} {r : Option U32}
    (hleads : vol.Leads disk fuel cluster names r) {sublevel : Nat}
    (hpath : ∀ i, getSubstring path (sublevel + i) maxLongFilename = names[i]?) :
    Reads (Fatfs.Sound disk vol) (openDirectoryLoop disk fuel path names.length sublevel cluster)
      (some r) := by
  induction hleads generalizing sublevel with
  | here cluster => exact Reads.pure _ _
  | down hdir hfind his hrest ih =>
    have hfirst := hpath 0
    rw [Nat.add_zero, List.getElem?_cons_zero] at hfirst
    rw [List.length_cons, openDirectoryLoop, hfirst]
    refine Reads.bind (getFileEntry_dir hdir _) ?_
    rw [hfind]
    dsimp only
    rw [if_pos his]
    refine ih fun i => ?_
    rw [Nat.add_assoc, Nat.add_comm 1 i, hpath (i + 1), List.getElem?_cons_succ]
  | missing hdir hno =>
    have hfirst := hpath 0
    rw [Nat.add_zero, List.getElem?_cons_zero] at hfirst
    rw [List.length_cons, openDirectoryLoop, hfirst]
    refine Reads.bind (getFileEntry_dir hdir _) ?_
    split
    · next h => cases h
    · exact Reads.pure _ _
    · next e h =>
      rw [if_neg (by rw [hno e (Option.some.inj h)]; exact Bool.false_ne_true)]
      exact Reads.pure _ _

/-- **`_open_directory`** goes where the components of the path lead. -/
theorem openDirectory_reads {names : List (List U8)} {r : Option U32} (hne : names ≠ [])
    (hnames : ∀ c ∈ names, c ≠ [] ∧ slash ∉ c) (hlen : ∀ c ∈ names, c.length < maxLongFilename)
    (hleads : vol.Leads disk fuel vol.getRootCluster names r) :
    Reads (Fatfs.Sound disk vol) (openDirectory disk fuel (joinPath names)) (some r) := by
  have hlevels : (totalPathLevels (joinPath names) + 1).toNat = names.length := by
    rw [totalPathLevels_join hnames]
    omega
  refine Reads.get_bind fun fs hs => ?_
  rw [hs.vol, hlevels]
  refine openDirectoryLoop_reads hleads fun i => ?_
  rw [Nat.zero_add, getSubstring_join hne hnames (by decide)]
  cases hget : names[i]? with
  | none => rfl
  | some c =>
    have hc := hlen c (List.mem_of_getElem? hget)
    rw [Option.map_some, List.take_of_length_le (by omega)]

/-- What a path opens: the entry of a file, or nothing. -/
inductive Volume.Opens (vol : Volume) (disk : Disk) (fuel : Nat) :
    List (List U8) → List U8 → Option DirEntry → Prop where
  | entry {names : List (List U8)} {name : List U8} {cluster : U32} {entries : List DirEntry}
      (hleads : vol.Leads disk fuel vol.getRootCluster names (some cluster))
      (hdir : vol.Dir disk fuel cluster entries) :
      Opens vol disk fuel names name
        ((entries.find? (DirEntry.matches_ name)).filter DirEntry.isFile)
  | nowhere {names : List (List U8)} {name : List U8}
      (hleads : vol.Leads disk fuel vol.getRootCluster names none) :
      Opens vol disk fuel names name none

/-- The components of a path that `fl_fopen` has room for. -/
structure PathOk (names : List (List U8)) (name : List U8) : Prop where
  component : ∀ c ∈ names ++ [name], c ≠ [] ∧ slash ∉ c
  length : ∀ c ∈ names ++ [name], c.length < maxLongFilename
  path : (joinPath names).length < maxLongFilename

/-- The directory of the path. -/
theorem parent_reads {names : List (List U8)} {name : List U8} {r : Option U32}
    (hok : PathOk names name) (hleads : vol.Leads disk fuel vol.getRootCluster names r) :
    Reads (Fatfs.Sound disk vol)
      (if (if names = [] then [] else joinPath names).headD 0 = 0
        then return some (some vol.getRootCluster)
        else openDirectory disk fuel (if names = [] then [] else joinPath names)) (some r) := by
  by_cases hroot : names = []
  · subst hroot
    have hempty : ([] : List U8).headD 0 = 0 := rfl
    rw [if_pos rfl, if_pos hempty]
    cases hleads
    exact Reads.pure _ _
  · have hslash : ¬ (joinPath names).headD 0 = 0 := by
      show ¬ slash = 0
      decide
    rw [if_neg hroot, if_neg hslash]
    exact openDirectory_reads hroot (fun c hc => hok.component c (List.mem_append_left _ hc))
      (fun c hc => hok.length c (List.mem_append_left _ hc)) hleads

/-- **`fl_fopen`** opens what its path leads to. -/
theorem flFopen_reads {names : List (List U8)} {name : List U8} {found : Option DirEntry}
    (hok : PathOk names name) (hopens : vol.Opens disk fuel names name found) (slot : FlFile) :
    Reads (Fatfs.Sound disk vol) (flFopen disk fuel slot (joinPath (names ++ [name])) (ascii "r"))
      (some (found.map fun e => slot.opened e fileRead)) := by
  have hflags : modeFlags (ascii "r") 0 &&& ~~~(fileCreate ||| fileWrite ||| fileAppend) = fileRead :=
    by decide
  have hsplit := splitPath_join hok.component (hok.length name (by simp)) hok.path
  rw [flFopen, hflags, if_pos (by decide), openFile, hsplit]
  refine Reads.get_bind fun fs hs => ?_
  rw [hs.vol]
  cases hopens with
  | entry hleads hdir =>
    refine Reads.bind (parent_reads hok hleads) (Reads.bind (getFileEntry_dir hdir name) ?_)
    cases List.find? (DirEntry.matches_ name) _ with
    | none => exact Reads.pure _ _
    | some e =>
      cases hfile : e.isFile <;> simp only [hfile, Option.filter] <;> exact Reads.pure _ _
  | nowhere hleads => exact Reads.bind (parent_reads hok hleads) (Reads.pure _ _)

/-! ### The file that is opened -/

/-- The file of a directory entry is below 2 GiB, and its chain of clusters is long enough. -/
structure Volume.Whole (vol : Volume) (disk : Disk) (e : DirEntry) : Prop where
  size : e.fileSize.toNat < 2 ^ 31
  chain : ∀ i < e.fileSize.toNat, vol.HasSector disk e.cluster (i / 512)

/-- The bytes of the file of a directory entry, read from the start. -/
def Volume.byteFile (vol : Volume) (disk : Disk) (e : DirEntry) (h : e.fileSize.toNat < 2 ^ 31) :
    ByteFile where
  content := (List.range e.fileSize.toNat).map (vol.fileByte disk e.cluster)
  pos := 0
  pos_le := Nat.zero_le _
  length_lt := by simpa using h

/-- The file that is opened holds the bytes of the entry. -/
theorem opened_holds {e : DirEntry} (h : vol.Whole disk e) (slot : FlFile) :
    (slot.opened e fileRead).Holds disk vol (vol.byteFile disk e h.size) where
  sound := ⟨Right.of_invalid _ _ _, Right.of_invalid _ _ _, fun hno => absurd rfl hno⟩
  readable := by
    show decide (fileRead &&& fileRead ≠ 0) = true
    decide
  pos := rfl
  length := by
    show e.fileSize.toNat = ((List.range e.fileSize.toNat).map _).length
    rw [List.length_map, List.length_range]
  content i hi := by
    have hi' : i < e.fileSize.toNat := by simpa [Volume.byteFile] using hi
    exact ⟨h.chain i hi', by simp [Volume.byteFile, FlFile.opened]⟩

end Open

/-! ### The file of the sample disk -/

theorem sampleOpens :
    sampleVolume.Opens sampleDisk 2 [] (ascii "a.txt") (some sampleEntry) := by
  have hfound : ((sampleVolume.dirEntries sampleDisk 0 1).find?
      (DirEntry.matches_ (ascii "a.txt"))).filter DirEntry.isFile = some sampleEntry := by
    decide +kernel
  rw [← hfound]
  exact .entry (.here _) ⟨1, by decide, sampleSectors, rfl⟩

theorem sampleWhole : sampleVolume.Whole sampleDisk sampleEntry := ⟨by decide, by decide +kernel⟩

end Prephv.Fat
