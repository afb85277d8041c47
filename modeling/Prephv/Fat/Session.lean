import Prephv.Fat.Open
import Prephv.Rom.Console
import Prephv.Rom.Disk

/-!
# Fat — Session

The guest's handles of `/fake-storage`: `open`, `read`, `seek` and `close` of `rom_call` on the open
file, the raw disk and `disk:0`.  A `read` of any other handle is the console's.

A session is a run of such calls.  It replies what it would if the files were lists of bytes
(`session_refines`), in any order of calls on the handles, whatever was read before it, up to the
first `BUG_ON`: there is one file at a time, and none to read where none is open.  Its `read` is
that of `romReadCall`, over the loop of `fl_fread` (`handleCall_read`).
-/

set_option autoImplicit false

namespace Prephv.Fat

open Cache (Right Reads)

/-! ### The calls -/

/-- The handles. -/
def fileIh : U32 := 0xffffffff
def disk0Ih : U32 := 0xcccccccc

/-- A call, with the words of its argument block.  Of a `read` these are also what its result cell
has from before. -/
inductive HandleCall where
  | open (path : List U8)
  | read (ih data len outlen : U32)
  | seek (ih hi lo : U32)
  | close (ih : U32)
  deriving DecidableEq, Repr

/-- What a call gives back: `frame->r3`, the words it writes to the argument block, the bytes that it
leaves in the buffer, and what it copies from the raw disk. -/
structure HandleReply where
  r3 : U64
  ih : Option U32
  outlen : Option U32
  bytes : List U8
  copied : Option DiskCopy
  deriving DecidableEq, Repr

/-- A reply with `frame->r3` only. -/
def HandleReply.plain (r3 : U64) : HandleReply := ⟨r3, none, none, [], none⟩

/-- What the raw disk replies. -/
def HandleReply.ofDisk (r : DiskReply) : HandleReply := ⟨r.r3, r.ih, r.outlen, [], r.copied⟩

/-- Why a call does not return: an assertion, or the chain of a directory that does not end. -/
inductive Stop where
  | bug (b : Bug)
  | running
  deriving DecidableEq, Repr

/-- `cur_file`, `guest_disk_offset` and `guest_disk_len`, and the state of the console. -/
structure Handles (F : Type) where
  curFile : Option F
  raw : DiskState
  stdin : Stdin

/-- Files that are opened by a path, read and sought. -/
structure FileService (m : Type → Type) (F : Type) where
  open_ : List U8 → m (Except Stop (Option F))
  run : F → FileOp → m (Outcome × F)
  close : F → m Unit

/-- `rom_call`, for the handles of `/fake-storage`, over a service of files. -/
def handleCall {m : Type → Type} [Monad m] {F : Type} (files : FileService m F) (s : Handles F) :
    HandleCall → m (Except Stop (HandleReply × Handles F))
  | .open path =>
    -- `strstr(path, "/fake-storage/disk:1,")`
    if ascii "/fake-storage/disk:1," <:+: path then
      if s.curFile.isSome then return .error (.bug ⟨"1 open allowed at a time"⟩)
      else do
        -- the comma before the name becomes the root
        match ← files.open_ (slash :: path.drop 21) with
        | .error stop => return .error stop
        | .ok none => return .ok (.plain (-1), s)
        | .ok (some file) =>
          return .ok (⟨0, some fileIh, none, [], none⟩, { s with curFile := some file })
    else if path = ascii "/fake-storage/disk:1" then
      let (reply, raw) := romOpen s.raw
      return .ok (.ofDisk reply, { s with raw := raw })
    else if path = ascii "/fake-storage/disk:0" then
      return .ok (⟨0, some disk0Ih, none, [], none⟩, s)
    else return .ok (⟨-1, some 0, none, [], none⟩, s)
  | .read ih data len outlen =>
    if ih = fileIh then
      match s.curFile with
      | none => return .error (.bug ⟨"file not open"⟩)
      | some file => do
        let (outcome, file) ← files.run file (.read (data.setWidth 64) len 1)
        return .ok (⟨0, none, some outcome.ret, outcome.bytes, none⟩,
          { s with curFile := some file })
    else if ih = rawDiskIh then
      let (reply, raw) := romRead s.raw len
      return .ok (.ofDisk reply, { s with raw := raw })
    else if ih = disk0Ih then
      -- as many bytes as the result cell says, which is left as it is
      return .ok (⟨0, none, none, List.replicate outlen.toNat 0xff, none⟩, s)
    else
      let (bytes, stdin) := romStdin len s.stdin
      return .ok (⟨0, none, some (BitVec.ofNat 32 bytes.length), bytes, none⟩,
        { s with stdin := stdin })
  | .seek ih hi lo =>
    if ih = fileIh then
      match s.curFile with
      | none => return .error (.bug ⟨"file not open"⟩)
      | some file => do
        let offset : U64 := (hi.setWidth 64 <<< 32) ||| lo.setWidth 64
        let (outcome, file) ← files.run file (.seek offset seekSet)
        return .ok (.plain (if outcome.ret ≠ 0 then -1 else 0), { s with curFile := some file })
    else if ih = rawDiskIh then
      let (reply, raw) := romSeek s.raw hi lo
      return .ok (.ofDisk reply, { s with raw := raw })
    else if ih = disk0Ih then return .ok (.plain 0, s)
    else return .ok (.plain (-1), s)
  | .close ih =>
    if ih = fileIh then
      match s.curFile with
      | none => return .error (.bug ⟨"file not open"⟩)
      | some file => do
        files.close file
        return .ok (.plain 0, { s with curFile := none })
    else if ih = rawDiskIh then
      let (reply, raw) := romClose s.raw
      return .ok (.ofDisk reply, { s with raw := raw })
    else if ih = disk0Ih then return .ok (.plain 0, s)
    else return .ok (.plain (-1), s)

/-- A session: the replies up to the call that does not return. -/
def runCalls {m : Type → Type} [Monad m] {F : Type} (files : FileService m F) :
    List HandleCall → Handles F → m (List HandleReply × Except Stop (Handles F))
  | [], s => return ([], .ok s)
  | call :: calls, s => do
    match ← handleCall files s call with
    | .error stop => return ([], .error stop)
    | .ok (reply, s) =>
      let (replies, s) ← runCalls files calls s
      return (reply :: replies, s)

/-! ### Two services that reply the same -/

section Simulation

variable {σ F G : Type}

/-- Two results of opening a path: the same, and where there are files they are related. -/
inductive Opened (R : F → G → Prop) : Except Stop (Option F) → Except Stop (Option G) → Prop where
  | stop (stop : Stop) : Opened R (.error stop) (.error stop)
  | none : Opened R (.ok none) (.ok none)
  | file {f : F} {g : G} (h : R f g) : Opened R (.ok (some f)) (.ok (some g))

/-- A service over a state replies as one without does, to the paths that are asked for. -/
structure Simulates (inv : σ → Prop) (R : F → G → Prop) (paths : List U8 → Prop)
    (files : FileService (StateM σ) F) (spec : FileService Id G) : Prop where
  open_ : ∀ path, paths path → ∀ s, inv s →
    Opened R (files.open_ path s).1 (spec.open_ path) ∧ inv (files.open_ path s).2
  run : ∀ f g, R f g → ∀ op s, inv s → (files.run f op s).1.1 = (spec.run g op).1 ∧
    R (files.run f op s).1.2 (spec.run g op).2 ∧ inv (files.run f op s).2
  close : ∀ f s, inv s → inv (files.close f s).2

/-- The handles are the same, but for the file. -/
structure SameHandles (R : F → G → Prop) (h : Handles F) (h' : Handles G) : Prop where
  raw : h.raw = h'.raw
  stdin : h.stdin = h'.stdin
  curFile : Option.Rel R h.curFile h'.curFile

/-- Two results of a call: the same, with the same handles after it. -/
inductive SameReply (R : F → G → Prop) :
    Except Stop (HandleReply × Handles F) → Except Stop (HandleReply × Handles G) → Prop where
  | stop (stop : Stop) : SameReply R (.error stop) (.error stop)
  | reply (reply : HandleReply) {h : Handles F} {h' : Handles G} (same : SameHandles R h h') :
      SameReply R (.ok (reply, h)) (.ok (reply, h'))

/-- Two ends of a session: at the same `BUG_ON`, or with the same handles. -/
inductive SameEnd (R : F → G → Prop) :
    Except Stop (Handles F) → Except Stop (Handles G) → Prop where
  | stop (stop : Stop) : SameEnd R (.error stop) (.error stop)
  | handles {h : Handles F} {h' : Handles G} (same : SameHandles R h h') :
      SameEnd R (.ok h) (.ok h')

/-- The path that `open` of a file asks the service for. -/
def HandleCall.Asks (paths : List U8 → Prop) : HandleCall → Prop
  | .open path => ascii "/fake-storage/disk:1," <:+: path → paths (slash :: path.drop 21)
  | _ => True

variable {inv : σ → Prop} {R : F → G → Prop} {paths : List U8 → Prop}
  {files : FileService (StateM σ) F} {spec : FileService Id G}

/-- **One call** is replied the same. -/
theorem handleCall_same (hsim : Simulates inv R paths files spec) {h : Handles F} {h' : Handles G}
    (hsame : SameHandles R h h') {call : HandleCall} (hasks : call.Asks paths) {s : σ}
    (hs : inv s) :
    SameReply R (handleCall files h call s).1 (handleCall spec h' call) ∧
      inv (handleCall files h call s).2 := by
  obtain ⟨file, raw, stdin⟩ := h
  obtain ⟨file', raw', stdin'⟩ := h'
  obtain ⟨rfl, rfl, hfile⟩ := hsame
  cases call with
  | «open» path =>
    simp only [handleCall]
    by_cases hpath : ascii "/fake-storage/disk:1," <:+: path
    · rw [if_pos hpath, if_pos hpath]
      cases hfile with
      | some hfg => exact ⟨.stop _, hs⟩
      | none =>
        obtain ⟨hopened, hinv⟩ := hsim.open_ _ (hasks hpath) s hs
        rcases hx : files.open_ (slash :: path.drop 21) s with ⟨r, s'⟩
        rw [hx] at hopened hinv
        generalize hy : spec.open_ (slash :: path.drop 21) = r' at hopened
        simp only [Option.isSome_none, Bool.false_eq_true, if_false, bind, StateT.bind, hx]
        cases hopened with
        | stop stop => exact ⟨.stop _, hinv⟩
        | none => exact ⟨.reply _ ⟨rfl, rfl, .none⟩, hinv⟩
        | file hfg => exact ⟨.reply _ ⟨rfl, rfl, .some hfg⟩, hinv⟩
    · rw [if_neg hpath, if_neg hpath]
      split_ifs <;> exact ⟨.reply _ ⟨rfl, rfl, hfile⟩, hs⟩
  | read ih data len outlen =>
    simp only [handleCall]
    by_cases hih : ih = fileIh
    · rw [if_pos hih, if_pos hih]
      cases hfile with
      | none => exact ⟨.stop _, hs⟩
      | some hfg =>
        obtain ⟨hout, hrel, hinv⟩ := hsim.run _ _ hfg (.read (data.setWidth 64) len 1) s hs
        refine ⟨?_, hinv⟩
        show SameReply R
          (.ok (⟨0, none, some (files.run _ _ s).1.1.ret, (files.run _ _ s).1.1.bytes, none⟩,
            ⟨some (files.run _ _ s).1.2, raw, stdin⟩))
          (.ok (⟨0, none, some (spec.run _ _).1.ret, (spec.run _ _).1.bytes, none⟩,
            ⟨some (spec.run _ _).2, raw, stdin⟩))
        rw [hout]
        exact .reply _ ⟨rfl, rfl, .some hrel⟩
    · rw [if_neg hih, if_neg hih]
      split_ifs <;> exact ⟨.reply _ ⟨rfl, rfl, hfile⟩, hs⟩
  | seek ih hi lo =>
    simp only [handleCall]
    by_cases hih : ih = fileIh
    · rw [if_pos hih, if_pos hih]
      cases hfile with
      | none => exact ⟨.stop _, hs⟩
      | some hfg =>
        obtain ⟨hout, hrel, hinv⟩ :=
          hsim.run _ _ hfg (.seek ((hi.setWidth 64 <<< 32) ||| lo.setWidth 64) seekSet) s hs
        refine ⟨?_, hinv⟩
        show SameReply R
          (.ok (.plain (if (files.run _ _ s).1.1.ret ≠ 0 then -1 else 0),
            ⟨some (files.run _ _ s).1.2, raw, stdin⟩))
          (.ok (.plain (if (spec.run _ _).1.ret ≠ 0 then -1 else 0),
            ⟨some (spec.run _ _).2, raw, stdin⟩))
        rw [hout]
        exact .reply _ ⟨rfl, rfl, .some hrel⟩
    · rw [if_neg hih, if_neg hih]
      split_ifs <;> exact ⟨.reply _ ⟨rfl, rfl, hfile⟩, hs⟩
  | close ih =>
    simp only [handleCall]
    by_cases hih : ih = fileIh
    · rw [if_pos hih, if_pos hih]
      cases hfile with
      | none => exact ⟨.stop _, hs⟩
      | some hfg => exact ⟨.reply _ ⟨rfl, rfl, .none⟩, hsim.close _ s hs⟩
    · rw [if_neg hih, if_neg hih]
      split_ifs <;> exact ⟨.reply _ ⟨rfl, rfl, hfile⟩, hs⟩

/-- **A session** gets the same replies, and ends the same. -/
theorem runCalls_same (hsim : Simulates inv R paths files spec) {calls : List HandleCall}
    {h : Handles F} {h' : Handles G} (hsame : SameHandles R h h')
    (hasks : ∀ call ∈ calls, call.Asks paths) {s : σ} (hs : inv s) :
    (runCalls files calls h s).1.1 = (runCalls spec calls h').1 ∧
      SameEnd R (runCalls files calls h s).1.2 (runCalls spec calls h').2 ∧
      inv (runCalls files calls h s).2 := by
  induction calls generalizing h h' s with
  | nil => exact ⟨rfl, .handles hsame, hs⟩
  | cons call calls ih =>
    obtain ⟨hreply, hinv⟩ := handleCall_same hsim hsame (hasks call List.mem_cons_self) hs
    rcases hx : handleCall files h call s with ⟨r, s'⟩
    rw [hx] at hreply hinv
    generalize hy : handleCall spec h' call = r' at hreply
    simp only [runCalls, bind, StateT.bind, hx]
    rw [show (handleCall spec h' call : Id _) = r' from hy]
    cases hreply with
    | stop stop => exact ⟨rfl, .stop stop, hinv⟩
    | reply reply same =>
      obtain ⟨hreplies, hend, hrest⟩ :=
        ih same (fun call hmem => hasks call (List.mem_cons_of_mem _ hmem)) hinv
      exact ⟨congrArg (reply :: ·) hreplies, hend, hrest⟩

end Simulation

/-! ### Files of a volume -/

/-- What the files of a volume are read with: the volume, the one file object and the memory. -/
structure Machine where
  fs : Fatfs
  slot : FlFile
  mem : Memory

/-- `fl_fclose`, of a file without anything to write. -/
def FlFile.closed (file : FlFile) : FlFile :=
  { file with startcluster := 0, bytenum := 0, filelength := 0, fileDataAddress := 0xffffffff }

/-- The files of the volume. -/
def fatFiles (disk : Disk) (fuel : Nat) : FileService (StateM Machine) FlFile where
  open_ path := fun s =>
    let (file, fs) := flFopen disk fuel s.slot path (ascii "r") s.fs
    (match file with
      | none => .error .running
      | some file => .ok file, { s with fs := fs })
  run file op := fun s =>
    let ((outcome, mem, file), fs) := runOp disk s.mem file op s.fs
    ((outcome, file), { s with fs := fs, mem := mem })
  close file := fun s => ((), { s with slot := file.closed })

/-! ### The `read` of `rom_call` -/

/-- The variables that a `read` reads are those of the handles. -/
structure Handles.Seen (h : Handles FlFile) (s : ReadState) : Prop where
  curFile : s.curFile = h.curFile.map FlFile.view
  raw : s.disk = h.raw
  stdin : s.stdin = h.stdin

/-- The bytes that a reply puts into the buffer: those it has, or a part of the raw disk. -/
def HandleReply.wrote (r : HandleReply) (s : ReadState) : List U8 :=
  match r.copied with
  | none => r.bytes
  | some c => memBytes s.mem (s.guestDisk + BitVec.ofInt 64 c.start) c.len

/-- A `read` of a session and one of `rom_call`: the same stop, or the same bytes and count. -/
inductive SameRead (s : ReadState) : Except Stop (HandleReply × Handles FlFile) →
    MemRes (ReadReply × ReadState) → Prop where
  | stop (b : Bug) : SameRead s (.error (.bug b)) (.error (.bug b))
  | reply {reply : HandleReply} {h : Handles FlFile} {r : ReadReply} {s' : ReadState}
      (seen : h.Seen s') (wrote : r.wrote = reply.wrote s) (outlen : r.outlen = reply.outlen) :
      SameRead s (.ok (reply, h)) (.ok (r, s'))

/-- **The `read` of a session** does what the branches of `rom_call`'s `read` do, with the loop that
reads the open file. -/
theorem handleCall_read (disk : Disk) (fuel : Nat) {h : Handles FlFile} {s : ReadState}
    (hseen : h.Seen s) (machine : Machine) (cia : U64)
    {fill : Prephv.FlFile → U64 → U32 → List U8}
    (hfill : ∀ file ∈ h.curFile, fill = fatFill disk file machine.mem machine.fs) :
    SameRead s (handleCall (fatFiles disk fuel) h (.read (readIh s cia) (le32 s.mem (cia + 16))
      (readLen s cia) (readOutlen s cia)) machine).1 (readBranch fill s cia) := by
  obtain ⟨curFile, raw, stdin⟩ := h
  obtain ⟨hfile, rfl, rfl⟩ := hseen
  rw [handleCall, readBranch]
  by_cases hih : readIh s cia = fileIh
  · rw [if_pos hih, if_pos (show readIh s cia = 0xffffffff from hih), hfile]
    cases curFile with
    | none => exact .stop _
    | some file =>
      obtain rfl := hfill file rfl
      dsimp only [Option.map_some]
      rw [flFread_view disk (readData s cia) (readLen s cia) 1 file machine.mem machine.fs]
      exact .reply ⟨rfl, rfl, rfl⟩ rfl rfl
  rw [if_neg hih, if_neg (show ¬ readIh s cia = 0xffffffff from hih)]
  by_cases hraw : readIh s cia = rawDiskIh
  · rw [if_pos hraw, if_pos (show readIh s cia = 0xdddddddd from hraw)]
    exact .reply ⟨hfile, rfl, rfl⟩ rfl rfl
  rw [if_neg hraw, if_neg (show ¬ readIh s cia = 0xdddddddd from hraw)]
  by_cases hzero : readIh s cia = disk0Ih
  · rw [if_pos hzero, if_pos (show readIh s cia = 0xcccccccc from hzero)]
    exact .reply ⟨hfile, rfl, rfl⟩ rfl rfl
  · rw [if_neg hzero, if_neg (show ¬ readIh s cia = 0xcccccccc from hzero)]
    exact .reply ⟨hfile, rfl, rfl⟩ rfl rfl

/-! ### Files of bytes -/

/-- Files that are lists of bytes. -/
def byteFiles (files : List U8 → Option ByteFile) : FileService Id ByteFile where
  open_ path := .ok (files path)
  run f op := f.runOp op
  close _ := ()

/-- The path leads to a whole file of the volume, whose bytes are those of the list, or to none. -/
structure Volume.Serves (vol : Volume) (disk : Disk) (fuel : Nat)
    (files : List U8 → Option ByteFile) (path : List U8) : Prop where
  resolves : ∃ names name found, path = joinPath (names ++ [name]) ∧ PathOk names name ∧
    vol.Opens disk fuel names name found ∧
    ((found = none ∧ files path = none) ∨
      ∃ e, ∃ h : vol.Whole disk e, found = some e ∧ files path = some (vol.byteFile disk e h.size))

section Serve

variable {disk : Disk} {vol : Volume} {fuel : Nat} {files : List U8 → Option ByteFile}

/-- **The files of the volume** are the lists of their bytes. -/
theorem fatFiles_simulates : Simulates (fun s : Machine => s.fs.Sound disk vol)
    (fun file f => FlFile.Holds disk vol file f) (vol.Serves disk fuel files) (fatFiles disk fuel)
    (byteFiles files) where
  open_ path hpath s hs := by
    obtain ⟨names, name, found, rfl, hok, hopens, hfound⟩ := hpath.resolves
    obtain ⟨hres, hinv⟩ := flFopen_reads hok hopens s.slot s.fs hs
    refine ⟨?_, hinv⟩
    rcases hx : flFopen disk fuel s.slot (joinPath (names ++ [name])) (ascii "r") s.fs with ⟨r, fs⟩
    rw [hx] at hres
    subst hres
    simp only [fatFiles, byteFiles, hx]
    rcases hfound with ⟨rfl, hnone⟩ | ⟨e, hwhole, rfl, hsome⟩
    · rw [hnone]
      exact .none
    · rw [hsome]
      exact .file (opened_holds hwhole s.slot)
  run file f h op s hs := by
    obtain ⟨mem, file', hreads, hholds⟩ := runOp_refines h s.mem op
    obtain ⟨hres, hinv⟩ := hreads s.fs hs
    rcases hx : runOp disk s.mem file op s.fs with ⟨⟨outcome, mem', file''⟩, fs⟩
    rw [hx] at hres hinv
    cases hres
    simp only [fatFiles, hx]
    exact ⟨rfl, hholds, hinv⟩
  close _ _ hs := hs

end Serve

/-- A read of the file that is open, which is then closed; opening it again, reading from its second
byte on, and closing it; reads of `disk:0` and of the console; and opening a file that is not
there. -/
def sampleCalls : List HandleCall :=
  [.read fileIh 0x1000 2 0, .close fileIh, .open (ascii "/fake-storage/disk:1,a.txt"),
    .seek fileIh 0 1, .read fileIh 0x1000 8 0, .close fileIh, .read disk0Ih 0x1000 8 3,
    .read 1 0x1000 8 0, .open (ascii "/fake-storage/disk:1,b.txt"), .close fileIh]

/-- The character that the console has for them. -/
def sampleStdin : Stdin := ⟨false, [⟨opalSuccess, 1, 0x61⟩]⟩

/-- Its only file. -/
def sampleFiles (path : List U8) : Option ByteFile :=
  if path = ascii "/a.txt" then some (sampleVolume.byteFile sampleDisk sampleEntry sampleWhole.size)
  else none

theorem sampleServes : ∀ call ∈ sampleCalls,
    call.Asks (sampleVolume.Serves sampleDisk 2 sampleFiles) := by
  have hfile : sampleVolume.Serves sampleDisk 2 sampleFiles (ascii "/a.txt") :=
    ⟨[], ascii "a.txt", some sampleEntry, by decide, ⟨by decide, by decide, by decide⟩, sampleOpens,
      .inr ⟨sampleEntry, sampleWhole, rfl, if_pos rfl⟩⟩
  have hnone : sampleVolume.Serves sampleDisk 2 sampleFiles (ascii "/b.txt") := by
    have hfound : ((sampleVolume.dirEntries sampleDisk 0 1).find?
        (DirEntry.matches_ (ascii "b.txt"))).filter DirEntry.isFile = none := by decide +kernel
    refine ⟨[], ascii "b.txt", none, by decide, ⟨by decide, by decide, by decide⟩, ?_,
      .inl ⟨rfl, if_neg (by decide)⟩⟩
    rw [← hfound]
    exact .entry (.here _) ⟨1, by decide, sampleSectors, rfl⟩
  simp only [sampleCalls, List.forall_mem_cons, HandleCall.Asks, true_and, List.not_mem_nil,
    IsEmpty.forall_iff, implies_true, and_true]
  exact ⟨fun _ => hfile, fun _ => hnone⟩

example : (runCalls (byteFiles sampleFiles) sampleCalls
      ⟨some sampleBytes, ⟨0, 0⟩, sampleStdin⟩).1.map HandleReply.bytes =
    [ascii "ab", [], [], [], ascii "bc", [], [0xff, 0xff, 0xff], ascii "a", []] := by
  decide +kernel

end Prephv.Fat
