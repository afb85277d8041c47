import Prephv.Fat.File

/-!
# Fat — Runs

What a reader of an open file sees: a list of bytes and a position in it.  Every run of `fl_fread`,
`fl_fseek`, `fl_ftell` and `fl_feof` returns what it would on the list (`runOps_refines`), for a
file below 2 GiB whose chain of clusters is as long as the directory says.

The position is never beyond the end.  A request so long that the position and it do not fit in 32
bits reads nothing, however much is left.
-/

set_option autoImplicit false

namespace Prephv.Fat

open Cache (Right Reads)

/-! ### The operations -/

/-- What is done with an open file. -/
inductive FileOp where
  | read (buffer : U64) (size length : U32)
  | seek (offset : U64) (origin : U32)
  | tell
  | eof
  deriving DecidableEq, Repr

/-- What an operation returns, and the bytes that a read says it has left in the buffer. -/
structure Outcome where
  ret : U32
  bytes : List U8
  deriving DecidableEq, Repr

/-- `fl_ftell`. -/
def flFtell (file : FlFile) : U32 := file.bytenum

/-- `fl_feof`. -/
def flFeof (file : FlFile) : U32 := if file.bytenum = file.filelength then -1 else 0

/-- One operation on the open file. -/
def runOp (disk : Disk) (mem : Memory) (file : FlFile) :
    FileOp → StateM Fatfs (Outcome × Memory × FlFile)
  | .read buffer size length => do
    let (ret, mem, file) ← flFread disk buffer size length file mem
    return (⟨ret, if ret.msb then [] else memBytes mem buffer ret.toNat⟩, mem, file)
  | .seek offset origin =>
    let (ret, file) := flFseek offset origin file
    return (⟨ret, []⟩, mem, file)
  | .tell => return (⟨flFtell file, []⟩, mem, file)
  | .eof => return (⟨flFeof file, []⟩, mem, file)

/-- A run of operations. -/
def runOps (disk : Disk) : List FileOp → Memory → FlFile →
    StateM Fatfs (List Outcome × Memory × FlFile)
  | [], mem, file => return ([], mem, file)
  | op :: ops, mem, file => do
    let (outcome, mem, file) ← runOp disk mem file op
    let (outcomes, mem, file) ← runOps disk ops mem file
    return (outcome :: outcomes, mem, file)

/-! ### The file of its reader -/

/-- A list of bytes, and a position in it. -/
structure ByteFile where
  content : List U8
  pos : Nat
  pos_le : pos ≤ content.length
  /-- `int` counts its bytes. -/
  length_lt : content.length < 2 ^ 31

namespace ByteFile

variable (f : ByteFile)

/-- The position is moved, to the end at most. -/
def moveTo (pos : Nat) : ByteFile :=
  { f with pos := min pos f.content.length, pos_le := Nat.min_le_right _ _ }

/-- The bytes that a request gets. -/
def available (count : Nat) : List U8 :=
  if f.pos + count < 2 ^ 32 then (f.content.drop f.pos).take count else []

theorem available_get {count k : Nat} (hk : k < (f.available count).length) :
    ∃ h : f.pos + k < f.content.length, (f.available count)[k] = f.content[f.pos + k] := by
  unfold available at hk ⊢
  by_cases hsum : f.pos + count < 2 ^ 32
  · simp only [if_pos hsum, List.length_take, List.length_drop] at hk ⊢
    exact ⟨by omega, by rw [List.getElem_take, List.getElem_drop]⟩
  · simp only [if_neg hsum] at hk
    exact absurd hk (Nat.not_lt_zero k)

/-- A request for `count` bytes. -/
def read (buffer : U64) (count : U32) : Outcome × ByteFile :=
  if buffer = 0 then (⟨-1, []⟩, f)
  else if count = 0 then (⟨0, []⟩, f)
  else if f.content.length ≤ f.pos then (⟨-1, []⟩, f)
  else
    let bytes := f.available count.toNat
    (⟨BitVec.ofNat 32 bytes.length, bytes⟩, f.moveTo (f.pos + bytes.length))

/-- Seeking: an offset counts in 32 bits, and one from the end is 0. -/
def seek (offset : U64) (origin : U32) : U32 × ByteFile :=
  if origin = seekSet then (0, f.moveTo (offset.toNat % 2 ^ 32))
  else if origin = seekCur then
    if offset.msb then (0, f.moveTo (f.pos - (-offset).toNat % 2 ^ 32))
    else (0, f.moveTo ((f.pos + offset.toNat % 2 ^ 32) % 2 ^ 32))
  else if origin = seekEnd ∧ offset = 0 then (0, f.moveTo f.content.length)
  else (-1, f)

/-- One operation on the list. -/
def runOp : FileOp → Outcome × ByteFile
  | .read buffer size length => f.read buffer (size * length)
  | .seek offset origin => (⟨(f.seek offset origin).1, []⟩, (f.seek offset origin).2)
  | .tell => (⟨BitVec.ofNat 32 f.pos, []⟩, f)
  | .eof => (⟨if f.pos = f.content.length then -1 else 0, []⟩, f)

/-- A run of operations on the list. -/
def runOps : List FileOp → ByteFile → List Outcome × ByteFile
  | [], f => ([], f)
  | op :: ops, f =>
    ((f.runOp op).1 :: (runOps ops (f.runOp op).2).1, (runOps ops (f.runOp op).2).2)

end ByteFile

/-! ### Refinement -/

/-- The open file has the bytes of the list, at the list's position. -/
structure FlFile.Holds (disk : Disk) (vol : Volume) (file : FlFile) (f : ByteFile) : Prop where
  sound : file.Sound disk vol
  readable : file.readable = true
  pos : file.bytenum.toNat = f.pos
  length : file.filelength.toNat = f.content.length
  content : ∀ i, (h : i < f.content.length) →
    vol.HasSector disk file.startcluster (i / 512) ∧
      f.content[i] = vol.fileByte disk file.startcluster i

section Refine

variable {disk : Disk} {vol : Volume} {file : FlFile} {f : ByteFile}

/-- The file still holds the list after it has moved. -/
theorem FlFile.Holds.moveTo (h : file.Holds disk vol f) {file' : FlFile} {pos : Nat}
    (hsound : file'.Sound disk vol) (hstart : file'.startcluster = file.startcluster)
    (hlength : file'.filelength = file.filelength) (hreadable : file'.readable = file.readable)
    (hpos : file'.bytenum.toNat = min pos f.content.length) :
    file'.Holds disk vol (f.moveTo pos) where
  sound := hsound
  readable := hreadable.trans h.readable
  pos := hpos
  length := by rw [hlength]; exact h.length
  content := by rw [hstart]; exact h.content

/-- The bytes that `fl_fread` is after are those that the list gives. -/
theorem wanted_eq (h : file.Holds disk vol f) (hin : f.pos < f.content.length) (count : U32) :
    file.wanted count = (f.available count.toNat).length ∧
      file.wanted count ≤ f.content.length - f.pos := by
  have hlt := f.length_lt
  have hpos := h.pos
  have hlen := h.length
  have hcount := count.isLt
  have hsum := BitVec.toNat_add file.bytenum count
  have hsub : (file.filelength - file.bytenum).toNat = f.content.length - f.pos := by
    rw [BitVec.toNat_sub_of_le (by rw [BitVec.le_def]; omega), hlen, hpos]
  have hcut : file.bytenum + count > file.filelength ↔
      f.content.length < (file.bytenum + count).toNat := by
    rw [gt_iff_lt, BitVec.lt_def, hlen]
  rw [hpos] at hsum
  rw [FlFile.wanted, ByteFile.available]
  by_cases hwrap : f.pos + count.toNat < 2 ^ 32
  · rw [if_pos hwrap, List.length_take, List.length_drop]
    rw [Nat.mod_eq_of_lt hwrap] at hsum
    by_cases hc : file.bytenum + count > file.filelength
    · have hc' := hcut.mp hc
      rw [if_pos hc, msb_false (by omega), if_neg Bool.false_ne_true, hsub]
      omega
    · have hc' := mt hcut.mpr hc
      rw [if_neg hc, msb_false (by omega), if_neg Bool.false_ne_true]
      omega
  · have hneg : count.msb = true := by
      rw [BitVec.msb_eq_decide, decide_eq_true_eq]
      omega
    have hc : ¬ file.bytenum + count > file.filelength := fun hc => by
      have := hcut.mp hc
      omega
    rw [if_neg hwrap, if_neg hc, if_pos hneg]
    exact ⟨rfl, Nat.zero_le _⟩

/-- A read returns the bytes of the list, and moves as far. -/
theorem read_refines (h : file.Holds disk vol f) (mem : Memory) (buffer : U64) (size length : U32) :
    ∃ mem' file', Reads (Fatfs.Sound disk vol) (runOp disk mem file (.read buffer size length))
        ((f.read buffer (size * length)).1, mem', file') ∧
      file'.Holds disk vol (f.read buffer (size * length)).2 := by
  have hlen := h.length
  have hposlt := f.length_lt
  rw [ByteFile.read, runOp]
  by_cases hbuffer : buffer = 0
  · refine ⟨mem, file, ?_, by rwa [if_pos hbuffer]⟩
    rw [flFread, if_pos hbuffer, if_pos hbuffer]
    exact Reads.pure _ _
  by_cases hcount : size * length = 0
  · refine ⟨mem, file, ?_, by rwa [if_neg hbuffer, if_pos hcount]⟩
    rw [flFread, if_neg hbuffer, if_neg hbuffer, if_neg (not_not.mpr h.readable), if_pos hcount,
      if_pos hcount]
    exact Reads.pure _ _
  by_cases hend : f.content.length ≤ f.pos
  · have hge : file.bytenum ≥ file.filelength := by
      rw [ge_iff_le, BitVec.le_def, h.pos, hlen]
      exact hend
    refine ⟨mem, file, ?_, by rwa [if_neg hbuffer, if_neg hcount, if_pos hend]⟩
    rw [flFread, if_neg hbuffer, if_neg hbuffer, if_neg (not_not.mpr h.readable), if_neg hcount,
      if_neg hcount, if_pos hge, if_pos hend]
    exact Reads.pure _ _
  rw [if_neg hbuffer, if_neg hcount, if_neg hend]
  have hin : file.bytenum < file.filelength := by
    rw [BitVec.lt_def, h.pos, hlen]
    omega
  obtain ⟨hwanted, hleft⟩ := wanted_eq h (by omega) (size * length)
  obtain ⟨l, r, hreads, hat, hshort⟩ := flFread_reads h.sound (by omega) mem hbuffer h.readable
    hcount hin
  -- the chain is as long as the file, so nothing is missing
  have hr : r = (f.available (size * length).toNat).length := by
    have hle := hat.le
    rcases hshort with hr | hno
    · exact hr.trans hwanted
    · by_contra hne
      rw [h.pos] at hno
      exact hno (h.content (f.pos + r) (by omega)).1
  have hret : l.bytesRead.toNat = (f.available (size * length).toNat).length :=
    hat.bytesRead.trans hr
  have hbytes : memBytes l.mem buffer l.bytesRead.toNat = f.available (size * length).toNat := by
    refine List.ext_getElem (by rw [memBytes_length, hret]) fun k hk hk' => ?_
    obtain ⟨hlt, hget⟩ := f.available_get hk'
    have hoff := Words.add_ofNat_sub_toNat buffer (show k < 2 ^ 64 by omega)
    have hcontent := hat.content (buffer + BitVec.ofNat 64 k) (by omega)
    rw [hoff, h.pos] at hcontent
    rw [hget, (h.content _ hlt).2, ← hcontent]
    simp only [memBytes, List.getElem_map, List.getElem_range]
  refine ⟨l.mem, l.file, Reads.bind hreads ?_, h.moveTo hat.sound hat.startcluster hat.filelength
    (hat.readable) ?_⟩
  · dsimp only
    rw [msb_false (by omega), if_neg Bool.false_ne_true, hbytes, ← hret, BitVec.ofNat_toNat,
      BitVec.setWidth_eq]
    exact Reads.pure _ _
  · rw [hat.bytenum, h.pos]
    omega

/-- The buffer is forgotten, and the position moves, to the end at most. -/
theorem FlFile.Holds.seekTo (h : file.Holds disk vol f) {bytenum : U32} {pos : Nat}
    (hpos : bytenum.toNat = min pos f.content.length) :
    FlFile.Holds disk vol { file with fileDataAddress := 0xffffffff, bytenum := bytenum }
      (f.moveTo pos) :=
  h.moveTo ⟨h.sound.lookup, Right.of_invalid _ _ _, fun hno => absurd rfl hno⟩ rfl rfl rfl hpos

/-- A position that is cut to the length of the file. -/
theorem cut_toNat (h : file.Holds disk vol f) (bytenum : U32) :
    (if bytenum > file.filelength then file.filelength else bytenum).toNat =
      min bytenum.toNat f.content.length := by
  have hlen := h.length
  have hgt : bytenum > file.filelength ↔ f.content.length < bytenum.toNat := by
    rw [gt_iff_lt, BitVec.lt_def, hlen]
  by_cases hc : bytenum > file.filelength
  · have := hgt.mp hc
    rw [if_pos hc]
    omega
  · have := mt hgt.mpr hc
    rw [if_neg hc]
    omega

/-- Seeking moves the position as it does on the list. -/
theorem seek_refines (h : file.Holds disk vol f) (offset : U64) (origin : U32) :
    (flFseek offset origin file).1 = (f.seek offset origin).1 ∧
      (flFseek offset origin file).2.Holds disk vol (f.seek offset origin).2 := by
  have hlow : ∀ x : U64, (x.setWidth 32 : U32).toNat = x.toNat % 2 ^ 32 := fun x =>
    BitVec.toNat_setWidth ..
  have hend : seekEnd ≠ seekSet ∧ seekEnd ≠ seekCur := by decide
  rw [flFseek, ByteFile.seek]
  by_cases hset : origin = seekSet
  · have hne : ¬ (origin = seekEnd ∧ offset ≠ 0) := fun hno => hend.1 (hno.1.symm.trans hset)
    rw [if_neg hne, if_pos hset, if_pos hset]
    exact ⟨rfl, h.seekTo (by rw [cut_toNat h, hlow])⟩
  by_cases hcur : origin = seekCur
  · have hne : ¬ (origin = seekEnd ∧ offset ≠ 0) := fun hno => hend.2 (hno.1.symm.trans hcur)
    rw [if_neg hne, if_neg hset, if_neg hset, if_pos hcur, if_pos hcur]
    cases hmsb : offset.msb with
    | true =>
      refine ⟨rfl, h.seekTo ?_⟩
      have hle := f.pos_le
      have hback : (-offset).setWidth 32 > file.bytenum ↔ f.pos < (-offset).toNat % 2 ^ 32 := by
        rw [gt_iff_lt, BitVec.lt_def, hlow, h.pos]
      dsimp only
      by_cases hc : (-offset).setWidth 32 > file.bytenum
      · have := hback.mp hc
        rw [if_pos hc]
        show 0 = _
        omega
      · have := mt hback.mpr hc
        rw [if_neg hc, BitVec.toNat_sub_of_le (BitVec.not_lt.mp hc), hlow, h.pos]
        omega
    | false =>
      refine ⟨rfl, h.seekTo ?_⟩
      dsimp only
      rw [cut_toNat h, BitVec.toNat_add, hlow, h.pos]
  by_cases hlast : origin = seekEnd
  · by_cases hzero : offset = 0
    · rw [if_neg (fun hno => hno.2 hzero), if_neg hset, if_neg hset, if_neg hcur, if_neg hcur,
        if_pos hlast, if_pos ⟨hlast, hzero⟩]
      exact ⟨rfl, h.seekTo (by rw [h.length, Nat.min_self])⟩
    · rw [if_pos ⟨hlast, hzero⟩, if_neg hset, if_neg hcur, if_neg (fun hno => hzero hno.2)]
      exact ⟨rfl, h⟩
  · rw [if_neg (fun hno => hlast hno.1), if_neg hset, if_neg hset, if_neg hcur, if_neg hcur,
      if_neg hlast, if_neg (fun hno => hlast hno.1)]
    exact ⟨rfl, { h with
      sound := ⟨h.sound.lookup, Right.of_invalid _ _ _, fun hno => absurd rfl hno⟩ }⟩

/-- **One operation** returns what it would on the list. -/
theorem runOp_refines (h : file.Holds disk vol f) (mem : Memory) (op : FileOp) :
    ∃ mem' file', Reads (Fatfs.Sound disk vol) (runOp disk mem file op)
        ((f.runOp op).1, mem', file') ∧ file'.Holds disk vol (f.runOp op).2 := by
  cases op with
  | read buffer size length => exact read_refines h mem buffer size length
  | seek offset origin =>
    obtain ⟨hret, hholds⟩ := seek_refines h offset origin
    refine ⟨mem, _, ?_, hholds⟩
    rw [ByteFile.runOp, ← hret]
    exact Reads.pure _ _
  | tell =>
    refine ⟨mem, file, ?_, h⟩
    have hpos : flFtell file = BitVec.ofNat 32 f.pos := by
      rw [flFtell, ← h.pos, BitVec.ofNat_toNat, BitVec.setWidth_eq]
    rw [runOp, hpos]
    exact Reads.pure _ _
  | eof =>
    refine ⟨mem, file, ?_, h⟩
    have heof : flFeof file = if f.pos = f.content.length then -1 else 0 := by
      rw [flFeof, ← h.pos, ← h.length]
      exact if_congr BitVec.toNat_inj.symm rfl rfl
    rw [runOp, heof]
    exact Reads.pure _ _

/-- A run of operations returns what it would on the list. -/
theorem runOps_reads (ops : List FileOp) (h : file.Holds disk vol f) (mem : Memory) :
    ∃ mem' file', Reads (Fatfs.Sound disk vol) (runOps disk ops mem file)
        ((ByteFile.runOps ops f).1, mem', file') ∧
      file'.Holds disk vol (ByteFile.runOps ops f).2 := by
  induction ops generalizing f file mem with
  | nil => exact ⟨mem, file, Reads.pure _ _, h⟩
  | cons op ops ih =>
    obtain ⟨mem₁, file₁, hop, hholds⟩ := runOp_refines h mem op
    obtain ⟨mem₂, file₂, hrest, hend⟩ := ih hholds mem₁
    exact ⟨mem₂, file₂, Reads.bind hop (Reads.bind hrest (Reads.pure _ _)), hend⟩

end Refine

/-- The bytes of the file of the sample disk. -/
def sampleBytes : ByteFile where
  content := ascii "abc"
  pos := 0
  pos_le := by decide
  length_lt := by decide

/-- Reads of two bytes and of eight, a seek back to the second byte and a read of it, and one that
finds nothing. -/
def sampleOps : List FileOp :=
  [.read 0x1000 1 2, .read 0x1000 8 1, .eof, .seek (-2) seekCur, .read 0x1000 1 1, .tell,
    .read 0x1000 1 0xffffffff]

theorem sampleFile_holds : sampleFile.Holds sampleDisk sampleVolume sampleBytes := by
  have hcontent : ∀ i (h : i < sampleBytes.content.length),
      sampleVolume.HasSector sampleDisk sampleFile.startcluster (i / 512) ∧
        sampleBytes.content[i] = sampleVolume.fileByte sampleDisk sampleFile.startcluster i := by
    decide +kernel
  exact ⟨sampleFile_sound, rfl, rfl, rfl, hcontent⟩

example : (ByteFile.runOps sampleOps sampleBytes).1.map Outcome.bytes =
    [ascii "ab", ascii "c", [], [], ascii "b", [], []] := by decide

end Prephv.Fat
