import Prephv.Defs

/-!
# Rom — Disk

The raw disk handle of `rom_call`, `0xdddddddd`: a guest opens, seeks, reads and closes it, and a
read copies from the disk image that starts at `guest_disk`.

`guest_disk_offset` is an `int`, so a seek keeps the low 32 bits of its offset and a read takes
them as a signed number.  The check of a read adds the length to it as 32-bit words.  A read is
therefore inside the image unless it copies something at a negative offset, or the sum wraps past
the end (`DiskState.read_within_iff`); over a run, every copied byte is inside when no read does
either (`runDisk_within_iff`).
-/

set_option autoImplicit false

namespace Prephv

/-- `guest_disk_offset` and `guest_disk_len`. -/
structure DiskState where
  offset : BitVec 32
  len : U64
  deriving DecidableEq, Repr

/-- The bytes `memcpy(data, guest_disk + start, len)` reads. -/
structure DiskCopy where
  start : Int
  len : Nat
  deriving DecidableEq, Repr

/-- What a call gives back: `frame->r3`, and the words it writes to the guest. -/
structure DiskReply where
  r3 : U64
  ih : Option U32
  outlen : Option U32
  copied : Option DiskCopy
  deriving DecidableEq, Repr

/-- A call on the raw disk; the length and the two words of the offset are the guest's. -/
inductive DiskCall where
  | open
  | seek (hi lo : U32)
  | read (len : U32)
  | close
  deriving DecidableEq, Repr

/-- The raw disk's handle. -/
def rawDiskIh : U32 := 0xdddddddd

/-- `rom_call`, `open` of `/fake-storage/disk:1`. -/
def romOpen (s : DiskState) : DiskReply × DiskState :=
  (⟨0, some rawDiskIh, none, none⟩, { s with offset := 0 })

/-- `rom_call`, `seek`. -/
def romSeek (s : DiskState) (hi lo : U32) : DiskReply × DiskState :=
  let offset : U64 := (hi.setWidth 64 <<< 32) ||| lo.setWidth 64
  (⟨0, none, none, none⟩, { s with offset := offset.setWidth 32 })

/-- `rom_call`, `read`. -/
def romRead (s : DiskState) (len : U32) : DiskReply × DiskState :=
  if ((s.offset + len).setWidth 64 : U64) ≤ s.len then
    (⟨0, none, some len, some ⟨s.offset.toInt, len.toNat⟩⟩, { s with offset := s.offset + len })
  else
    (⟨0, none, none, none⟩, s)

/-- `rom_call`, `close`. -/
def romClose (s : DiskState) : DiskReply × DiskState :=
  (⟨0, none, none, none⟩, { s with offset := 0 })

def DiskCall.exec (s : DiskState) : DiskCall → DiskReply × DiskState
  | .open => romOpen s
  | .seek hi lo => romSeek s hi lo
  | .read len => romRead s len
  | .close => romClose s

/-- The copies of a run of calls, and the state after it. -/
def runDisk : List DiskCall → DiskState → List DiskCopy × DiskState
  | [], s => ([], s)
  | c :: cs, s =>
    let (reply, s) := c.exec s
    let (copies, s) := runDisk cs s
    (reply.copied.toList ++ copies, s)

/-! ### Confinement -/

/-- Every byte of the copy comes from `guest_disk + k` with `0 ≤ k < guest_disk_len`. -/
def DiskCopy.Within (c : DiskCopy) (diskLen : U64) : Prop :=
  ∀ i : Nat, i < c.len → 0 ≤ c.start + i ∧ c.start + i < diskLen.toNat

/-- A copy is inside when it is empty, or starts and ends inside. -/
theorem DiskCopy.within_iff (c : DiskCopy) (diskLen : U64) :
    c.Within diskLen ↔ c.len = 0 ∨ (0 ≤ c.start ∧ c.start + c.len ≤ diskLen.toNat) := by
  constructor
  · intro h
    by_cases e : c.len = 0
    · exact Or.inl e
    · have hfirst := h 0 (by omega)
      have hlast := h (c.len - 1) (by omega)
      exact Or.inr ⟨by omega, by omega⟩
  · rintro (e | ⟨h₁, h₂⟩) i hi
    · omega
    · exact ⟨by omega, by omega⟩

/-- A read that passes its check copies nothing, or starts at an offset that is not negative, where
the sum of offset and length does not wrap past the end of the disk. -/
def DiskCall.InDisk (s : DiskState) : DiskCall → Prop
  | .read len =>
    ((s.offset + len).setWidth 64 : U64) ≤ s.len → len ≠ 0 →
      0 ≤ s.offset.toInt ∧
        (s.offset.toNat + len.toNat < 2 ^ 32 ∨ s.offset.toNat + len.toNat ≤ s.len.toNat)
  | _ => True

/-- **One read.**  A read copies from inside the disk exactly when it meets `InDisk`. -/
theorem DiskState.read_within_iff (s : DiskState) (len : U32) :
    (∀ c ∈ (romRead s len).1.copied, c.Within s.len) ↔ (DiskCall.read len).InDisk s := by
  unfold romRead DiskCall.InDisk
  split
  · next hle =>
    have hsum : (s.offset.toNat + len.toNat) % 2 ^ 32 ≤ s.len.toNat := by
      have h : ((s.offset + len).setWidth 64 : U64).toNat ≤ s.len.toNat := hle
      rw [BitVec.toNat_setWidth, BitVec.toNat_add] at h
      omega
    have hoff := s.offset.isLt
    have hlen := len.isLt
    have hzero : len = 0 ↔ len.toNat = 0 := Words.eq_zero_iff
    have hint := BitVec.toInt_eq_toNat_cond s.offset
    simp only [Option.mem_some, forall_eq', hle, true_imp_iff, DiskCopy.within_iff, ne_eq, hzero]
    split at hint <;> omega
  · next hle => simp [hle]

/-- A call never changes the length of the disk, and only a read copies. -/
theorem DiskCall.exec_len (s : DiskState) (c : DiskCall) : (c.exec s).2.len = s.len := by
  cases c with
  | «open» => rfl
  | seek hi lo => rfl
  | read len =>
    simp only [exec, romRead]
    split <;> rfl
  | close => rfl

theorem DiskCall.exec_within_iff (s : DiskState) (c : DiskCall) :
    (∀ c' ∈ (c.exec s).1.copied, c'.Within s.len) ↔ c.InDisk s := by
  cases c with
  | read len => exact s.read_within_iff len
  | «open» => exact iff_of_true nofun trivial
  | seek hi lo => exact iff_of_true nofun trivial
  | close => exact iff_of_true nofun trivial

/-- Every call of the run meets `InDisk` in the state it is made in. -/
def RunInDisk : List DiskCall → DiskState → Prop
  | [], _ => True
  | c :: cs, s => c.InDisk s ∧ RunInDisk cs (c.exec s).2

/-- **Raw disk confinement.**  In a run of calls every byte copied to the guest comes from inside
the disk image if and only if every read of the run meets `InDisk`. -/
theorem runDisk_within_iff (cs : List DiskCall) (s : DiskState) :
    (∀ c ∈ (runDisk cs s).1, c.Within s.len) ↔ RunInDisk cs s := by
  induction cs generalizing s with
  | nil => exact iff_of_true nofun trivial
  | cons c cs ih =>
    have hsplit : (∀ c' ∈ (runDisk (c :: cs) s).1, c'.Within s.len) ↔
        (∀ c' ∈ (c.exec s).1.copied, c'.Within s.len) ∧
          ∀ c' ∈ (runDisk cs (c.exec s).2).1, c'.Within (c.exec s).2.len := by
      rw [c.exec_len]
      simp only [runDisk, List.mem_append, Option.mem_toList, or_imp, forall_and, Option.mem_def]
    rw [hsplit, c.exec_within_iff, ih]
    rfl

/-- A seek to `0xffffffff` and a read of one byte: the byte before the disk. -/
theorem runDisk_before_start : ¬ ∀ cs s, s.offset = 0 →
    ∀ c ∈ (runDisk cs s).1, c.Within s.len := by
  intro hall
  have h := hall [.open, .seek 0 0xffffffff, .read 1] ⟨0, 0x100000⟩ rfl ⟨-1, 1⟩ (by decide) 0
    (by decide)
  exact absurd h.1 (by decide)

end Prephv
