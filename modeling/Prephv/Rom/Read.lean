import Prephv.Fdt.Model
import Prephv.Rom.Console
import Prephv.Rom.Disk

/-!
# Rom — Reads

The `read` call of `rom_call`, for the four kinds of handle: the open file, the raw disk, `disk:0`
and the console.  Each branch fills the guest's buffer in its own way, and is to leave the number of
bytes in the result cell, the last of the seven words of the argument block.

The console's branch always does.  A file at its end gives `-1`; the raw disk leaves the cell alone
when a request does not fit; and `disk:0` fills as many bytes as the cell says from before the
call, whatever the length of the buffer (`romReadCall_respects_iff`).

The words of the argument block are little-endian, as the hypervisor and the guest run.  Of the FAT
library the model has `fl_fread` up to its loop over the file's sectors, which is the parameter
`fill`; the loop itself is that of `Fat.flFread` (`Fat.flFread_view`).
-/

set_option autoImplicit false

namespace Prephv

/-! ### Memory -/

/-- The word at an address. -/
def le32 (m : Memory) (p : U64) : U32 :=
  m (p + 3) ++ m (p + 2) ++ m (p + 1) ++ m p

/-- The memory after the bytes are stored from `p` on. -/
def storeBytes (m : Memory) (p : U64) (bytes : List (BitVec 8)) : Memory := fun a =>
  bytes.getD (a - p).toNat (m a)

/-- The bytes of a word, as it is stored. -/
def le32Bytes (w : U32) : List (BitVec 8) :=
  [w.extractLsb' 0 8, w.extractLsb' 8 8, w.extractLsb' 16 8, w.extractLsb' 24 8]

/-! ### `fl_fread` -/

/-- What `fl_fread` reads of an open file. -/
structure FlFile where
  /-- `flags & FILE_READ`. -/
  readable : Bool
  bytenum : U32
  filelength : U32
  deriving DecidableEq, Repr

/-- `fl_fread`: its return value, the bytes it writes from `buffer` on, and the file after it. -/
def flFread (fill : FlFile → U64 → BitVec 32 → List (BitVec 8)) (buffer : U64)
    (size length : BitVec 32) (file : FlFile) : BitVec 32 × List (BitVec 8) × FlFile :=
  let count := size * length
  if buffer = 0 then (-1, [], file)
  else if ¬ file.readable then (-1, [], file)
  else if count = 0 then (0, [], file)
  else if file.bytenum ≥ file.filelength then (-1, [], file)
  else
    let count := if file.bytenum + count > file.filelength then file.filelength - file.bytenum
      else count
    let bytes := fill file buffer count
    (BitVec.ofNat 32 bytes.length, bytes,
      { file with bytenum := file.bytenum + BitVec.ofNat 32 bytes.length })

/-! ### `rom_call`, `read` -/

/-- The memory and the variables that a `read` reads. -/
structure ReadState where
  mem : Memory
  curFile : Option FlFile
  guestDisk : U64
  disk : DiskState
  stdin : Stdin

/-- What a `read` puts into the buffer, and into the result cell. -/
structure ReadReply where
  wrote : List (BitVec 8)
  outlen : Option U32

/-- The words of the argument block at `cia`. -/
def readIh (s : ReadState) (cia : U64) : U32 := le32 s.mem (cia + 12)
def readData (s : ReadState) (cia : U64) : U64 := (le32 s.mem (cia + 16)).setWidth 64
def readLen (s : ReadState) (cia : U64) : U32 := le32 s.mem (cia + 20)
def readOutlen (s : ReadState) (cia : U64) : U32 := le32 s.mem (cia + 24)

/-- The branches of `read`. -/
def readBranch (fill : FlFile → U64 → BitVec 32 → List (BitVec 8)) (s : ReadState) (cia : U64) :
    MemRes (ReadReply × ReadState) :=
  let ih := readIh s cia
  let data := readData s cia
  let len := readLen s cia
  if ih = 0xffffffff then
    match s.curFile with
    | none => .error (.bug ⟨"file not open"⟩)
    | some file =>
      -- whatever `fl_fread` returns is the count, `-1` too
      let (ret, bytes, file) := flFread fill data len 1 file
      .ok (⟨bytes, some ret⟩, { s with curFile := some file })
  else if ih = 0xdddddddd then
    let (reply, disk) := romRead s.disk len
    let bytes := match reply.copied with
      | none => []
      | some c => memBytes s.mem (s.guestDisk + BitVec.ofInt 64 c.start) c.len
    .ok (⟨bytes, reply.outlen⟩, { s with disk := disk })
  else if ih = 0xcccccccc then
    -- `memset(data, 0xff, *outlen)`, where `*outlen` is what the caller left there
    .ok (⟨List.replicate (readOutlen s cia).toNat 0xff, none⟩, s)
  else
    let (bytes, stdin) := romStdin len s.stdin
    .ok (⟨bytes, some (BitVec.ofNat 32 bytes.length)⟩, { s with stdin := stdin })

/-- `rom_call`, `read`: what it wrote to the guest, and the state after it.  The buffer is written
first, then the result cell. -/
def romReadCall (fill : FlFile → U64 → BitVec 32 → List (BitVec 8)) (s : ReadState) (cia : U64) :
    MemRes (ReadReply × ReadState) := do
  let (reply, s') ← readBranch fill s cia
  let mem := storeBytes s.mem (readData s cia) reply.wrote
  let mem := match reply.outlen with
    | none => mem
    | some outlen => storeBytes mem (cia + 24) (le32Bytes outlen)
  return (reply, { s' with mem := mem })

/-! ### The buffer and the result cell -/

/-- The address is in the argument block: seven words. -/
def InBlock (cia a : U64) : Prop := (a - cia).toNat < 28

/-- The call writes the byte at the address, for the buffer or the result cell. -/
def ReadReply.Writes (r : ReadReply) (data cia a : U64) : Prop :=
  (a - data).toNat < r.wrote.length ∨ (r.outlen ≠ none ∧ (a - (cia + 24)).toNat < 4)

/-- What a `read` at `cia` in the state `s` should do: it writes in the argument block and in the
buffer only, and leaves the number of bytes it put there in the result cell. -/
structure Respects (s : ReadState) (cia : U64) (reply : ReadReply) (s' : ReadState) : Prop where
  inBuffer : ∀ a, reply.Writes (readData s cia) cia a → ¬ InBlock cia a →
    (readData s cia).toNat ≤ a.toNat ∧
      a.toNat < (readData s cia).toNat + (readLen s cia).toNat
  outlen : (readOutlen s' cia).toNat = reply.wrote.length

/-- What a `read` needs, for each kind of handle.  `disk:0`: the bytes that are filled beyond the
buffer are in the argument block, and those of the result cell are `0xff` already. -/
def ReadOk (s : ReadState) (cia : U64) : Prop :=
  let data := readData s cia
  let len := readLen s cia
  let old := readOutlen s cia
  if readIh s cia = 0xffffffff then
    ∀ file ∈ s.curFile, data ≠ 0 ∧ file.readable = true ∧ (len = 0 ∨ file.bytenum < file.filelength)
  else if readIh s cia = 0xdddddddd then
    ((s.disk.offset + len).setWidth 64 : U64) ≤ s.disk.len ∨ old = 0
  else if readIh s cia = 0xcccccccc then
    (old.toNat ≤ len.toNat ∨
      (data + len.setWidth 64 - cia).toNat + (old.toNat - len.toNat) ≤ 28) ∧
    ∀ j < 4, (cia + 24 + BitVec.ofNat 64 j - data).toNat < old.toNat →
      s.mem (cia + 24 + BitVec.ofNat 64 j) = 0xff
  else True

section Read

variable {fill : FlFile → U64 → BitVec 32 → List (BitVec 8)} {s s' : ReadState} {cia : U64}
  {reply : ReadReply}

/-- A word is its bytes. -/
theorem le32_eq_iff {m m' : Memory} {p : U64} : le32 m p = le32 m' p ↔
    ∀ j < 4, m (p + BitVec.ofNat 64 j) = m' (p + BitVec.ofNat 64 j) := by
  unfold le32
  rw [Words.append_inj, Words.append_inj, Words.append_inj]
  constructor
  · rintro ⟨⟨⟨h3, h2⟩, h1⟩, h0⟩ j hj
    match j, hj with
    | 0, _ => simpa using h0
    | 1, _ => exact h1
    | 2, _ => exact h2
    | 3, _ => exact h3
  · intro h
    exact ⟨⟨⟨h 3 (by omega), h 2 (by omega)⟩, h 1 (by omega)⟩, by simpa using h 0 (by omega)⟩

theorem storeBytes_add (m : Memory) (p : U64) (bytes : List (BitVec 8)) {k : Nat}
    (hk : k < 2 ^ 64) : storeBytes m p bytes (p + BitVec.ofNat 64 k) =
      bytes.getD k (m (p + BitVec.ofNat 64 k)) := by
  rw [storeBytes, Words.add_ofNat_sub_toNat p hk]

theorem storeBytes_replicate (m : Memory) (p : U64) (n : Nat) (b : BitVec 8) (a : U64) :
    storeBytes m p (List.replicate n b) a = if (a - p).toNat < n then b else m a := by
  rw [storeBytes, List.getD_eq_getElem?_getD, List.getElem?_replicate]
  split <;> rfl

/-- A word that is stored is read back. -/
theorem le32_storeBytes (m : Memory) (p : U64) (w : U32) :
    le32 (storeBytes m p (le32Bytes w)) p = w := by
  have h0 : storeBytes m p (le32Bytes w) p = w.extractLsb' 0 8 := by
    simpa [le32Bytes] using storeBytes_add m p (le32Bytes w) (k := 0) (by omega)
  have h1 : storeBytes m p (le32Bytes w) (p + 1) = w.extractLsb' 8 8 :=
    storeBytes_add m p (le32Bytes w) (k := 1) (by omega)
  have h2 : storeBytes m p (le32Bytes w) (p + 2) = w.extractLsb' 16 8 :=
    storeBytes_add m p (le32Bytes w) (k := 2) (by omega)
  have h3 : storeBytes m p (le32Bytes w) (p + 3) = w.extractLsb' 24 8 :=
    storeBytes_add m p (le32Bytes w) (k := 3) (by omega)
  apply BitVec.eq_of_toNat_eq
  rw [le32, h0, h1, h2, h3]
  simp only [Words.append_toNat, BitVec.extractLsb'_toNat, Nat.shiftRight_eq_div_pow]
  omega

theorem memBytes_length (m : Memory) (p : U64) (n : Nat) : (memBytes m p n).length = n := by
  rw [memBytes, List.length_map, List.length_range]

/-- The state after a call. -/
theorem romReadCall_eq_ok (h : romReadCall fill s cia = .ok (reply, s')) :
    ∃ s₁, readBranch fill s cia = .ok (reply, s₁) ∧
      (∀ w, reply.outlen = some w → readOutlen s' cia = w) ∧
      (reply.outlen = none →
        readOutlen s' cia = le32 (storeBytes s.mem (readData s cia) reply.wrote) (cia + 24)) := by
  obtain ⟨⟨r, s₁⟩, hbranch, hrest⟩ := bind_eq_ok.mp h
  obtain ⟨rfl, rfl⟩ := Prod.mk.inj (Except.ok.inj hrest)
  refine ⟨s₁, hbranch, ?_, ?_⟩
  · intro w hw
    simp only [readOutlen, hw]
    exact le32_storeBytes _ _ _
  · intro hn
    simp only [readOutlen, hn]

/-- The result cell is the last word of the block. -/
theorem inBlock_of_outlen {a : U64} (h : (a - (cia + 24)).toNat < 4) : InBlock cia a := by
  have hsplit : a - cia = a - (cia + 24) + 24 := by
    rw [← BitVec.sub_sub, BitVec.sub_add_cancel]
  rw [InBlock, hsplit, BitVec.toNat_add]
  have h24 : (24 : U64).toNat = 24 := rfl
  omega

theorem readData_lt (s : ReadState) (cia : U64) : (readData s cia).toNat < 2 ^ 32 := by
  rw [readData, BitVec.toNat_setWidth]
  have h := (le32 s.mem (cia + 16)).isLt
  omega

/-- A byte at `n` from the buffer. -/
theorem readData_add {a : U64} {n : Nat} (hn : (a - readData s cia).toNat = n)
    (hlt : n < 2 ^ 32) : a.toNat = (readData s cia).toNat + n := by
  have hdata := readData_lt s cia
  have hsub := BitVec.toNat_sub a (readData s cia)
  have ha := a.isLt
  omega

/-- A call that puts no more than `len` bytes into the buffer writes where it may. -/
theorem inBuffer_of_length (hlen : reply.wrote.length ≤ (readLen s cia).toNat) (a : U64)
    (hw : reply.Writes (readData s cia) cia a) (hout : ¬ InBlock cia a) :
    (readData s cia).toNat ≤ a.toNat ∧
      a.toNat < (readData s cia).toNat + (readLen s cia).toNat := by
  rcases hw with hw | ⟨-, hcell⟩
  · have hbound := (readLen s cia).isLt
    have ha := readData_add rfl (hw.trans_le (by omega))
    omega
  · exact absurd (inBlock_of_outlen hcell) hout

/-- A call that sets the result cell and stays in the buffer does what it should just when it says
how much it wrote. -/
theorem respects_iff_of_outlen {w : U32} (hlen : reply.wrote.length ≤ (readLen s cia).toNat)
    (hw : reply.outlen = some w) (h : ∀ w, reply.outlen = some w → readOutlen s' cia = w) :
    Respects s cia reply s' ↔ w.toNat = reply.wrote.length := by
  constructor
  · intro hr
    rw [← h w hw]
    exact hr.outlen
  · intro he
    refine ⟨inBuffer_of_length hlen, ?_⟩
    rw [h w hw]
    exact he

/-! ### The open file -/

/-- What is left of the file is less than was asked for, where the count is cut to it. -/
theorem flFread_cut {bytenum count filelength : U32} (hpos : bytenum < filelength)
    (hcut : bytenum + count > filelength) : (filelength - bytenum).toNat ≤ count.toNat := by
  have hadd := BitVec.toNat_add bytenum count
  have hsub := BitVec.toNat_sub filelength bytenum
  have hp : bytenum.toNat < filelength.toNat := hpos
  have hc : filelength.toNat < (bytenum + count).toNat := hcut
  have hf := filelength.isLt
  omega

variable (hfill : ∀ file buffer count, (fill file buffer count).length ≤ count.toNat)
include hfill

/-- `fl_fread` reads no more than it is asked for, and says how much it read when it does not say
`-1`. -/
theorem flFread_spec (buffer : U64) (len : U32) (file : FlFile) :
    (flFread fill buffer len 1 file).2.1.length ≤ len.toNat ∧
      ((flFread fill buffer len 1 file).1.toNat = (flFread fill buffer len 1 file).2.1.length ↔
        buffer ≠ 0 ∧ file.readable = true ∧ (len = 0 ∨ file.bytenum < file.filelength)) := by
  have hone : len * 1 = len := BitVec.mul_one len
  have herr : ¬ (-1 : BitVec 32).toNat = 0 := by decide
  simp only [flFread, hone]
  split_ifs with hbuf hread hlen hend hcut
  · exact ⟨Nat.zero_le _, iff_of_false herr fun h => h.1 hbuf⟩
  · exact ⟨Nat.zero_le _, iff_of_true rfl ⟨hbuf, hread, Or.inl hlen⟩⟩
  · refine ⟨Nat.zero_le _, iff_of_false herr ?_⟩
    rintro ⟨-, -, hz | hpos⟩
    · exact hlen hz
    · exact BitVec.not_lt.2 hend hpos
  · have hpos : file.bytenum < file.filelength := BitVec.not_le.1 hend
    have hle := (hfill file buffer (file.filelength - file.bytenum)).trans (flFread_cut hpos hcut)
    have hlt := len.isLt
    refine ⟨hle, iff_of_true ?_ ⟨hbuf, hread, Or.inr hpos⟩⟩
    rw [BitVec.toNat_ofNat, Nat.mod_eq_of_lt (by omega)]
  · have hle := hfill file buffer len
    have hlt := len.isLt
    refine ⟨hle, iff_of_true ?_ ⟨hbuf, hread, Or.inr (BitVec.not_le.1 hend)⟩⟩
    rw [BitVec.toNat_ofNat, Nat.mod_eq_of_lt (by omega)]
  · exact ⟨Nat.zero_le _, iff_of_false herr fun h => hread h.2.1⟩

omit hfill

/-! ### The branches -/

theorem respects_file_iff
    (hfill : ∀ file buffer count, (fill file buffer count).length ≤ count.toNat)
    (hih : readIh s cia = 0xffffffff) (h : romReadCall fill s cia = .ok (reply, s')) :
    Respects s cia reply s' ↔ ReadOk s cia := by
  obtain ⟨s₁, hbranch, hcell, -⟩ := romReadCall_eq_ok h
  rw [readBranch, if_pos hih] at hbranch
  rw [ReadOk, if_pos hih]
  cases hfile : s.curFile with
  | none => simp [hfile] at hbranch
  | some file =>
    simp only [hfile, Except.ok.injEq, Prod.mk.injEq] at hbranch
    obtain ⟨rfl, -⟩ := hbranch
    obtain ⟨hlen, hcount⟩ := flFread_spec hfill (readData s cia) (readLen s cia) file
    rw [respects_iff_of_outlen hlen rfl hcell, hcount]
    simp only [Option.mem_some, forall_eq']

theorem respects_disk_iff (hih : readIh s cia = 0xdddddddd)
    (h : romReadCall fill s cia = .ok (reply, s')) : Respects s cia reply s' ↔ ReadOk s cia := by
  obtain ⟨s₁, hbranch, hcell, hstale⟩ := romReadCall_eq_ok h
  have hne : ¬ readIh s cia = 0xffffffff := by rw [hih]; decide
  rw [readBranch, if_neg hne, if_pos hih, romRead] at hbranch
  rw [ReadOk, if_neg hne, if_pos hih]
  by_cases hfit : ((s.disk.offset + readLen s cia).setWidth 64 : U64) ≤ s.disk.len
  · rw [if_pos hfit] at hbranch
    simp only [Except.ok.injEq, Prod.mk.injEq] at hbranch
    obtain ⟨rfl, -⟩ := hbranch
    have hlen := memBytes_length s.mem (s.guestDisk + BitVec.ofInt 64 s.disk.offset.toInt)
      (readLen s cia).toNat
    rw [respects_iff_of_outlen hlen.le rfl hcell]
    exact iff_of_true hlen.symm (Or.inl hfit)
  · rw [if_neg hfit] at hbranch
    simp only [Except.ok.injEq, Prod.mk.injEq] at hbranch
    obtain ⟨rfl, -⟩ := hbranch
    -- Nothing is written, so the cell has what it had.
    have hold : readOutlen s' cia = readOutlen s cia := hstale rfl
    constructor
    · intro hr
      refine Or.inr (BitVec.eq_of_toNat_eq ?_)
      rw [← hold]
      exact hr.outlen
    · rintro (hle | hzero)
      · exact absurd hle hfit
      · refine ⟨inBuffer_of_length (Nat.zero_le _), ?_⟩
        rw [hold, hzero]
        rfl

theorem respects_console_iff (hfile : readIh s cia ≠ 0xffffffff) (hdisk : readIh s cia ≠ 0xdddddddd)
    (hfill : readIh s cia ≠ 0xcccccccc) (h : romReadCall fill s cia = .ok (reply, s')) :
    Respects s cia reply s' := by
  obtain ⟨s₁, hbranch, hcell, -⟩ := romReadCall_eq_ok h
  rw [readBranch, if_neg hfile, if_neg hdisk, if_neg hfill] at hbranch
  simp only [Except.ok.injEq, Prod.mk.injEq] at hbranch
  obtain ⟨rfl, -⟩ := hbranch
  have hlen := romStdin_length (readLen s cia) s.stdin
  have hlt := (readLen s cia).isLt
  rw [respects_iff_of_outlen hlen rfl hcell, BitVec.toNat_ofNat, Nat.mod_eq_of_lt (by omega)]

/-- The bytes filled beyond the buffer are in the argument block just when they end there. -/
theorem fill_inBlock_iff {p : U64} {n : Nat} (hn : n < 2 ^ 32) (hpos : 0 < n) :
    (∀ k < n, InBlock cia (p + BitVec.ofNat 64 k)) ↔ (p - cia).toNat + n ≤ 28 := by
  have hoff : ∀ k < n, (p + BitVec.ofNat 64 k - cia).toNat = ((p - cia).toNat + k) % 2 ^ 64 := by
    intro k hk
    rw [BitVec.toNat_sub, BitVec.toNat_add, BitVec.toNat_sub, BitVec.toNat_ofNat]
    omega
  constructor
  · intro h
    by_contra hbeyond
    have hfirst := h 0 hpos
    rw [InBlock, hoff 0 hpos] at hfirst
    have hlt := (p - cia).isLt
    -- The first byte after the block.
    have hlast := h (28 - (p - cia).toNat) (by omega)
    rw [InBlock, hoff _ (by omega)] at hlast
    omega
  · intro h k hk
    rw [InBlock, hoff k hk]
    omega

/-- What `disk:0` fills is in the buffer and the argument block just when it is no longer than the
buffer, or ends in the block. -/
theorem fill_inBuffer_iff {n : U32} (hwrote : reply.wrote.length = n.toNat)
    (hnone : reply.outlen = none) :
    (∀ a, reply.Writes (readData s cia) cia a → ¬ InBlock cia a →
      (readData s cia).toNat ≤ a.toNat ∧
        a.toNat < (readData s cia).toNat + (readLen s cia).toNat) ↔
      n.toNat ≤ (readLen s cia).toNat ∨
        (readData s cia + (readLen s cia).setWidth 64 - cia).toNat +
          (n.toNat - (readLen s cia).toNat) ≤ 28 := by
  -- A fill that fits is in the buffer; of a longer one, only what is beyond the buffer matters.
  by_cases hle : n.toNat ≤ (readLen s cia).toNat
  · exact iff_of_true (inBuffer_of_length (hwrote.trans_le hle)) (Or.inl hle)
  have hn := n.isLt
  have hdata := readData_lt s cia
  rw [or_iff_right hle, ← fill_inBlock_iff (by omega) (by omega)]
  -- The bytes beyond the buffer, as they are counted from its end.
  have hbeyond : ∀ k < n.toNat - (readLen s cia).toNat,
      (readData s cia + (readLen s cia).setWidth 64 + BitVec.ofNat 64 k).toNat =
        (readData s cia).toNat + ((readLen s cia).toNat + k) := by
    intro k hk
    rw [BitVec.toNat_add, BitVec.toNat_add, BitVec.toNat_setWidth, BitVec.toNat_ofNat]
    omega
  constructor
  · intro h k hk
    by_contra hout
    have hoff : (readData s cia + (readLen s cia).setWidth 64 + BitVec.ofNat 64 k -
        readData s cia).toNat = (readLen s cia).toNat + k := by
      rw [BitVec.toNat_sub, hbeyond k hk]
      omega
    have hin := h _ (Or.inl (by rw [hoff, hwrote]; omega)) hout
    rw [hbeyond k hk] at hin
    omega
  · intro h a hw hout
    have hw := hw.resolve_right fun hcell => hcell.1 hnone
    rw [hwrote] at hw
    have ha : a.toNat = (readData s cia).toNat + (a - readData s cia).toNat :=
      readData_add rfl (hw.trans hn)
    by_contra hnot
    obtain ⟨k, hk⟩ : ∃ k, (a - readData s cia).toNat = (readLen s cia).toNat + k :=
      ⟨(a - readData s cia).toNat - (readLen s cia).toNat, by omega⟩
    have hpast := hbeyond k (by omega)
    have heq : a = readData s cia + (readLen s cia).setWidth 64 + BitVec.ofNat 64 k :=
      BitVec.eq_of_toNat_eq (by omega)
    rw [heq] at hout
    exact hout (h k (by omega))

theorem respects_fill_iff (hih : readIh s cia = 0xcccccccc)
    (h : romReadCall fill s cia = .ok (reply, s')) : Respects s cia reply s' ↔ ReadOk s cia := by
  obtain ⟨s₁, hbranch, -, hstale⟩ := romReadCall_eq_ok h
  have hfile : ¬ readIh s cia = 0xffffffff := by rw [hih]; decide
  have hdisk : ¬ readIh s cia = 0xdddddddd := by rw [hih]; decide
  rw [readBranch, if_neg hfile, if_neg hdisk, if_pos hih] at hbranch
  rw [ReadOk, if_neg hfile, if_neg hdisk, if_pos hih]
  simp only [Except.ok.injEq, Prod.mk.injEq] at hbranch
  obtain ⟨rfl, -⟩ := hbranch
  have hlen : (List.replicate (readOutlen s cia).toNat (0xff : BitVec 8)).length =
      (readOutlen s cia).toNat := List.length_replicate
  rw [← @fill_inBuffer_iff s cia ⟨_, none⟩ _ hlen rfl]
  -- The cell has the count it had just when the fill leaves it as it was.
  have hcell : (readOutlen s' cia).toNat = (readOutlen s cia).toNat ↔ ∀ j < 4,
      (cia + 24 + BitVec.ofNat 64 j - readData s cia).toNat < (readOutlen s cia).toNat →
        s.mem (cia + 24 + BitVec.ofNat 64 j) = 0xff := by
    rw [BitVec.toNat_inj, hstale rfl, readOutlen, le32_eq_iff]
    refine forall_congr' fun j => forall_congr' fun _ => ?_
    rw [storeBytes_replicate]
    split
    · next hlt => exact ⟨fun he _ => he.symm, fun he => (he hlt).symm⟩
    · next hlt => exact iff_of_true rfl fun hlt' => absurd hlt' hlt
  rw [← hcell]
  constructor
  · intro hr
    exact ⟨hr.inBuffer, hr.outlen.trans hlen⟩
  · rintro ⟨hin, hout⟩
    exact ⟨hin, hout.trans hlen.symm⟩

/-- A `read` that completes does what it should just when its branch has what it needs. -/
theorem romReadCall_respects_iff
    (hfill : ∀ file buffer count, (fill file buffer count).length ≤ count.toNat)
    (h : romReadCall fill s cia = .ok (reply, s')) : Respects s cia reply s' ↔ ReadOk s cia := by
  by_cases hfile : readIh s cia = 0xffffffff
  · exact respects_file_iff hfill hfile h
  by_cases hdisk : readIh s cia = 0xdddddddd
  · exact respects_disk_iff hdisk h
  by_cases hff : readIh s cia = 0xcccccccc
  · exact respects_fill_iff hff h
  · rw [ReadOk, if_neg hfile, if_neg hdisk, if_neg hff, iff_true_right trivial]
    exact respects_console_iff hfile hdisk hff h

end Read

/-- The argument block of a `read` at `0x1000`: the handle, the buffer, its length and what the
result cell has. -/
def readBlock (ih data len outlen : U32) : Memory :=
  storeBytes (fun _ => 0) 0x1000 ([0, 3, 1, ih, data, len, outlen].flatMap le32Bytes)

/-- A `read` of the handle into the 4 bytes at `0x2000`, with a file that has 6 bytes open. -/
def readSample (ih outlen : U32) : ReadState :=
  ⟨readBlock ih 0x2000 4 outlen, some ⟨true, 4, 6⟩, 0x8000, ⟨0, 0⟩, ⟨false, []⟩⟩

/-- The loop of `fl_fread`, over a file whose bytes are all `0x41`. -/
def fillSample (_ : FlFile) (_ : U64) (count : BitVec 32) : List (BitVec 8) :=
  List.replicate count.toNat 0x41

/-- The last two bytes of the file: the cell has 2. -/
theorem romReadCall_respects_iff_sample : ∃ reply s',
    romReadCall fillSample (readSample 0xffffffff 9) 0x1000 = .ok (reply, s') ∧
      Respects (readSample 0xffffffff 9) 0x1000 reply s' := by
  refine ⟨_, _, rfl, (romReadCall_respects_iff ?_ rfl).mpr ?_⟩
  · intro file buffer count
    rw [fillSample, List.length_replicate]
  · rw [ReadOk, if_pos (by decide)]
    simp only [readSample, Option.mem_some, forall_eq']
    decide

/-- `disk:0` with 8 in the result cell fills 8 bytes of a buffer of 4. -/
theorem romReadCall_overruns : ∃ reply s',
    romReadCall fillSample (readSample 0xcccccccc 8) 0x1000 = .ok (reply, s') ∧
      ¬ Respects (readSample 0xcccccccc 8) 0x1000 reply s' := by
  refine ⟨_, _, rfl, fun h => ?_⟩
  have hout := h.inBuffer 0x2004 (Or.inl (by decide)) (by unfold InBlock; decide)
  exact absurd hout.2 (by decide)

end Prephv
