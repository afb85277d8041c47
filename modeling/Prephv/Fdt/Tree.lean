import Prephv.Fdt.Model
import Prephv.Lib.Forest

/-!
# Fdt — Trees

The trees a structure block holds.  `Items` is what stands inside a node, tag by tag, with
properties, nodes and `FDT_NOP`s in any order; `Items.At` says that the block holds it at an offset.
`Fdt.WellFormed` is a tree of version 17 whose root is at offset 0.

`fdt_next_tag` reads a block tag by tag: from each tag of the tree to the next one
(`Block.nextTag_prop` and its like).
-/

set_option autoImplicit false

namespace Prephv

open Words

/-! ### Trees -/

/-- What stands in a node, from some tag on. -/
inductive Items where
  | nil
  | nop (rest : Items)
  | prop (len : U32) (rest : Items)
  | node (name : List (BitVec 8)) (body rest : Items)
  deriving DecidableEq, Repr

namespace Items

/-- The number of bytes up to the next tag. -/
def pad (len : Nat) : Nat := (len + 3) / 4 * 4

/-- The bytes of `FDT_PROP` with its length, its name's offset and its value. -/
def propBytes (len : U32) : Nat := pad (12 + len.toNat)

/-- The bytes of `FDT_BEGIN_NODE` with its name and the zero byte. -/
def nameBytes (name : List (BitVec 8)) : Nat := pad (4 + (name.length + 1))

def size : Items → Nat
  | nil => 0
  | nop rest => 4 + rest.size
  | prop len rest => propBytes len + rest.size
  | node name body rest => nameBytes name + body.size + 4 + rest.size

/-- The nodes, by the offsets of their tags. -/
def forest (o : Nat) : Items → Forest Nat
  | nil => .nil
  | nop rest => rest.forest (o + 4)
  | prop len rest => rest.forest (o + propBytes len)
  | node name body rest =>
    .node o (body.forest (o + nameBytes name)) (rest.forest (o + nameBytes name + body.size + 4))

/-- The tags, with their offsets. -/
def tags (o : Nat) : Items → List (Nat × U32)
  | nil => []
  | nop rest => (o, fdtNop) :: rest.tags (o + 4)
  | prop len rest => (o, fdtProp) :: rest.tags (o + propBytes len)
  | node name body rest =>
    (o, fdtBeginNode) :: (body.tags (o + nameBytes name) ++
      (o + nameBytes name + body.size, fdtEndNode) ::
        rest.tags (o + nameBytes name + body.size + 4))

/-- This many `FDT_NOP`s. -/
def nops : Nat → Items
  | 0 => nil
  | n + 1 => nop (nops n)

end Items

/-- A tree: its root, and the `FDT_NOP`s between the root's end and `FDT_END`. -/
structure Tree where
  name : List (BitVec 8)
  body : Items
  nops : Nat
  deriving DecidableEq, Repr

namespace Tree

def items (t : Tree) : Items := .node t.name t.body (.nops t.nops)

/-- The offsets of the `FDT_BEGIN_NODE` tags, in order. -/
def nodes (t : Tree) : List Nat :=
  ((t.items.tags 0).filter fun x => x.2 = fdtBeginNode).map Prod.fst

/-- The nodes, each with what surrounds it. -/
def places (t : Tree) : List (Forest.Place Nat) := (t.items.forest 0).places []

end Tree

/-! ### Trees in a block -/

/-- The offset as an `int`. -/
def off (o : Nat) : FdtInt := BitVec.ofNat 32 o

/-- The word at the offset. -/
def Fdt.wordAt (fdt : Fdt) (o : Nat) : U32 := be32 fdt.mem (fdt.offsetPtr' (off o))

/-- The block holds the items from the offset on. -/
def Items.At (fdt : Fdt) : Items → Nat → Prop
  | nil, _ => True
  | nop rest, o => fdt.wordAt o = fdtNop ∧ rest.At fdt (o + 4)
  | prop len rest, o =>
    fdt.wordAt o = fdtProp ∧ fdt.wordAt (o + 4) = len ∧ rest.At fdt (o + propBytes len)
  | node name body rest, o =>
    fdt.wordAt o = fdtBeginNode ∧
      (0 ∉ name ∧ bytesAt fdt.mem (fdt.offsetPtr' (off (o + 4))) (name ++ [0]) = true) ∧
      body.At fdt (o + nameBytes name) ∧
      fdt.wordAt (o + nameBytes name + body.size) = fdtEndNode ∧
      rest.At fdt (o + nameBytes name + body.size + 4)

instance Items.decidableAt (fdt : Fdt) : ∀ (t : Items) (o : Nat), Decidable (t.At fdt o)
  | nil, _ => inferInstanceAs (Decidable True)
  | nop rest, o =>
    have := decidableAt fdt rest (o + 4)
    inferInstanceAs (Decidable (_ ∧ _))
  | prop len rest, o =>
    have := decidableAt fdt rest (o + propBytes len)
    inferInstanceAs (Decidable (_ ∧ _ ∧ _))
  | node name body rest, o =>
    have := decidableAt fdt body (o + nameBytes name)
    have := decidableAt fdt rest (o + nameBytes name + body.size + 4)
    inferInstanceAs (Decidable (_ ∧ _ ∧ _ ∧ _ ∧ _))

namespace Fdt

/-- A structure block of version 17 below 2^28 bytes, within the address space. -/
structure Block (fdt : Fdt) : Prop where
  version : fdt.version = 0x11
  small : fdt.sizeDtStruct.toNat < 2 ^ 28
  placed : fdt.ptr.toNat + fdt.offDtStruct.toNat + fdt.sizeDtStruct.toNat < 2 ^ 64

/-- The flattened device tree `t`. -/
structure WellFormed (fdt : Fdt) (t : Tree) : Prop extends fdt.Block where
  magic : fdt.magic = fdtMagicWord
  compatible : fdt.lastCompVersion ≤ fdtLastSupportedVersion
  holds : t.items.At fdt 0
  stop : fdt.wordAt t.items.size = fdtEnd
  fits : t.items.size + 4 ≤ fdt.sizeDtStruct.toNat

end Fdt

/-! ### Offsets -/

theorem Items.pad_dvd (len : Nat) : 4 ∣ pad len := Nat.dvd_mul_left ..

theorem Items.le_pad (len : Nat) : len ≤ pad len := by
  unfold pad
  omega

theorem Items.propBytes_pos (len : U32) : 0 < propBytes len :=
  Nat.lt_of_lt_of_le (by omega) (le_pad _)

theorem Items.nameBytes_pos (name : List (BitVec 8)) : 0 < nameBytes name :=
  Nat.lt_of_lt_of_le (by omega) (le_pad _)

/-- Where a node and what follows it end. -/
theorem Items.node_end (o : Nat) (name : List (BitVec 8)) (body rest : Items) :
    o + (node name body rest).size = o + nameBytes name + body.size + 4 + rest.size := by
  rw [size]
  omega

theorem Items.size_dvd (t : Items) : 4 ∣ t.size := by
  induction t with
  | nil => exact Nat.dvd_zero 4
  | nop rest ih => exact Nat.dvd_add (Nat.dvd_refl 4) ih
  | prop len rest ih => exact Nat.dvd_add (pad_dvd _) ih
  | node name body rest ihb ihr =>
    exact Nat.dvd_add (Nat.dvd_add (Nat.dvd_add (pad_dvd _) ihb) (Nat.dvd_refl 4)) ihr

/-- The nodes of the forest are the `FDT_BEGIN_NODE` tags. -/
theorem Items.forest_preorder (t : Items) (o : Nat) :
    (t.forest o).preorder =
      ((t.tags o).filter fun x => x.2 = fdtBeginNode).map Prod.fst := by
  have hnop : ¬ fdtNop = fdtBeginNode := by decide
  have hprop : ¬ fdtProp = fdtBeginNode := by decide
  have hend : ¬ fdtEndNode = fdtBeginNode := by decide
  induction t generalizing o with
  | nil => rfl
  | nop rest ih => simp [forest, tags, hnop, ih]
  | prop len rest ih => simp [forest, tags, hprop, ih]
  | node name body rest ihb ihr => simp [forest, tags, hend, Forest.preorder, ihb, ihr]

/-- The nodes' offsets lie within the items, and go up. -/
theorem Items.forest_sorted (t : Items) (o : Nat) :
    (∀ p ∈ (t.forest o).preorder, o ≤ p ∧ p < o + t.size) ∧
      (t.forest o).preorder.Pairwise (· < ·) := by
  induction t generalizing o with
  | nil => exact ⟨nofun, List.Pairwise.nil⟩
  | nop rest ih =>
    obtain ⟨hin, hup⟩ := ih (o + 4)
    refine ⟨fun p hp => ?_, hup⟩
    have := hin p hp
    simp only [size]
    omega
  | prop len rest ih =>
    obtain ⟨hin, hup⟩ := ih (o + propBytes len)
    refine ⟨fun p hp => ?_, hup⟩
    have := hin p hp
    simp only [size]
    omega
  | node name body rest ihb ihr =>
    obtain ⟨hbin, hbup⟩ := ihb (o + nameBytes name)
    obtain ⟨hrin, hrup⟩ := ihr (o + nameBytes name + body.size + 4)
    have hname := nameBytes_pos name
    simp only [forest, Forest.preorder, size]
    constructor
    · intro p hp
      rcases List.mem_cons.mp hp with rfl | hp
      · omega
      · rcases List.mem_append.mp hp with hp | hp
        · have := hbin p hp
          omega
        · have := hrin p hp
          omega
    · refine List.pairwise_cons.mpr ⟨fun p hp => ?_, List.pairwise_append.mpr ⟨hbup, hrup, ?_⟩⟩
      · rcases List.mem_append.mp hp with hp | hp
        · have := hbin p hp
          omega
        · have := hrin p hp
          omega
      · intro p hp q hq
        have := hbin p hp
        have := hrin q hq
        omega

theorem Items.nops_forest (n o : Nat) : (nops n).forest o = .nil := by
  induction n generalizing o with
  | zero => rfl
  | succ n ih => exact ih (o + 4)

theorem off_add (o k : Nat) : off (o + k) = off o + off k := BitVec.ofNat_add ..

theorem off_four (o : Nat) : off (o + 4) = off o + 4 := off_add o 4

theorem off_toNat {o : Nat} (h : o < 2 ^ 32) : (off o).toNat = o :=
  Nat.mod_eq_of_lt h

theorem off_neg {o : Nat} (h : o < 2 ^ 31) : (off o).neg = false := by
  rw [FdtInt.neg, BitVec.msb_eq_decide, off_toNat (by omega)]
  exact decide_eq_false (by omega)

theorem off_not_neg {o : Nat} (h : o < 2 ^ 31) : ¬ (off o).neg = true := by
  rw [off_neg h]
  exact Bool.false_ne_true

theorem tagAlign_off {o : Nat} (h : o + 3 < 2 ^ 32) : Fdt.tagAlign (off o) = off (Items.pad o) := by
  have hmask : (3 : FdtInt) = lowMask 32 2 := rfl
  apply BitVec.eq_of_toNat_eq
  have hsum : (off o + 3).toNat = o + 3 := by
    rw [BitVec.toNat_add, off_toNat (by omega)]
    exact Nat.mod_eq_of_lt h
  rw [Fdt.tagAlign, hmask, and_not_lowMask _ (by decide), ← hmask, hsum, off_toNat]
  · rfl
  · unfold Items.pad
    omega

namespace Fdt

variable {fdt : Fdt} {o k : Nat}

theorem Block.offsetPtr'_toNat (hb : fdt.Block) (h : o ≤ fdt.sizeDtStruct.toNat) :
    (fdt.offsetPtr' (off o)).toNat = fdt.ptr.toNat + fdt.offDtStruct.toNat + o := by
  have hsmall := hb.small
  have hplaced := hb.placed
  have hmsb : (off o).msb = false := off_neg (by omega)
  have hoff : ((off o).signExtend 64).toNat = o := by
    rw [BitVec.signExtend_eq_setWidth_of_msb_false hmsb, BitVec.toNat_setWidth,
      off_toNat (by omega), Nat.mod_eq_of_lt (by omega)]
  have hstruct : (fdt.offDtStruct.setWidth 64 : U64).toNat = fdt.offDtStruct.toNat := by
    rw [BitVec.toNat_setWidth]
    have := fdt.offDtStruct.isLt
    omega
  rw [offsetPtr', BitVec.toNat_add, BitVec.toNat_add, hoff, hstruct]
  omega

/-- The pointer to what lies within the block. -/
theorem Block.offsetPtr_eq (hb : fdt.Block) (h : o + k ≤ fdt.sizeDtStruct.toNat) :
    fdt.offsetPtr (off o) (off k) = some (fdt.offsetPtr' (off o)) := by
  have hsmall := hb.small
  have hplaced := hb.placed
  have hptr := hb.offsetPtr'_toNat (show o ≤ fdt.sizeDtStruct.toNat by omega)
  have hsum : (off o + off k).toNat = o + k := by
    rw [← off_add, off_toNat (by omega)]
  have hbound : ¬ (0x11 ≤ fdt.version ∧
      (off o + off k < off o ∨ fdt.sizeDtStruct < off o + off k)) := by
    rintro ⟨-, hlt | hlt⟩
    · have hlt : (off o + off k).toNat < (off o).toNat := hlt
      rw [hsum, off_toNat (by omega)] at hlt
      omega
    · have hlt : fdt.sizeDtStruct.toNat < (off o + off k).toNat := hlt
      omega
  have hwrap : ¬ fdt.offsetPtr' (off o) + (off k).setWidth 64 < fdt.offsetPtr' (off o) := by
    intro hlt
    have hlt : (fdt.offsetPtr' (off o) + (off k).setWidth 64).toNat <
      (fdt.offsetPtr' (off o)).toNat := hlt
    rw [BitVec.toNat_add, BitVec.toNat_setWidth, off_toNat (by omega), hptr] at hlt
    omega
  rw [offsetPtr, if_neg hbound]
  exact if_neg hwrap

theorem Block.offsetPtr_word (hb : fdt.Block) (h : o + 4 ≤ fdt.sizeDtStruct.toNat) :
    fdt.offsetPtr (off o) 4 = some (fdt.offsetPtr' (off o)) := hb.offsetPtr_eq h

/-! ### `fdt_next_tag` -/

theorem Block.endTag_eq (hb : fdt.Block) (h : o + k ≤ fdt.sizeDtStruct.toNat) (tag : U32) :
    fdt.endTag (off o) (off (o + k)) tag = (tag, off (Items.pad (o + k))) := by
  have hsmall := hb.small
  have hlen : off (o + k) - off o = off k := by
    rw [off_add, BitVec.add_comm, BitVec.add_sub_cancel]
  rw [endTag, hlen, hb.offsetPtr_eq h, tagAlign_off (by omega)]

theorem pad_add (h : 4 ∣ o) : Items.pad (o + k) = o + Items.pad k := by
  unfold Items.pad
  omega

/-- The loop over a name ends after its zero byte. -/
theorem Block.skipName_eq (hb : fdt.Block) {name : List (BitVec 8)} {n : Nat} (hn : name.length < n)
    (hbytes : bytesAt fdt.mem (fdt.offsetPtr' (off o)) (name ++ [0]) = true) (hzero : 0 ∉ name)
    (h : o + (name.length + 1) ≤ fdt.sizeDtStruct.toNat) :
    fdt.skipName n (off o) = .ok (some (off (o + (name.length + 1)))) := by
  have hone : off 1 = (1 : FdtInt) := rfl
  induction name generalizing o n with
  | nil =>
    obtain ⟨n, rfl⟩ := Nat.exists_eq_add_of_le' (show 1 ≤ n by omega)
    have hptr := hb.offsetPtr_eq (k := 1) h
    rw [hone] at hptr
    have hbyte : fdt.mem (fdt.offsetPtr' (off o)) = 0 := by
      simpa [bytesAt] using hbytes
    rw [skipName, hptr]
    dsimp only
    rw [if_pos hbyte, off_add]
    rfl
  | cons b name ih =>
    rw [List.length_cons] at hn h
    obtain ⟨n, rfl⟩ := Nat.exists_eq_add_of_le' (show 1 ≤ n by omega)
    have hptr := hb.offsetPtr_eq (o := o) (k := 1) (by omega)
    rw [hone] at hptr
    rw [List.cons_append, bytesAt, Bool.and_eq_true, beq_iff_eq] at hbytes
    obtain ⟨hbyte, hbytes⟩ := hbytes
    rw [List.mem_cons, not_or] at hzero
    have hnext : fdt.offsetPtr' (off (o + 1)) = fdt.offsetPtr' (off o) + 1 := by
      apply BitVec.eq_of_toNat_eq
      rw [hb.offsetPtr'_toNat (by omega), BitVec.toNat_add, hb.offsetPtr'_toNat (by omega)]
      have := hb.placed
      show _ = (_ + 1) % 2 ^ 64
      omega
    have hrest := ih (o := o + 1) (n := n) (by omega) (by rwa [hnext]) hzero.2 (by omega)
    rw [skipName, hptr]
    dsimp only
    rw [if_neg (by rw [hbyte]; exact Ne.symm hzero.1), ← hone, ← off_add, hrest,
      List.length_cons, show o + 1 + (name.length + 1) = o + (name.length + 1 + 1) by omega]

/-- The tags with nothing after them. -/
theorem Block.nextTag_plain (hb : fdt.Block) (hal : 4 ∣ o) (h : o + 4 ≤ fdt.sizeDtStruct.toNat)
    (htag : fdt.wordAt o = fdtEnd ∨ fdt.wordAt o = fdtEndNode ∨ fdt.wordAt o = fdtNop) :
    fdt.nextTag (off o) = .ok (fdt.wordAt o, off (o + 4)) := by
  have hptr := hb.offsetPtr_word h
  have hend := hb.endTag_eq h (fdt.wordAt o)
  rw [pad_add hal, off_add] at hend
  have hbegin : fdt.wordAt o ≠ fdtBeginNode ∧ fdt.wordAt o ≠ fdtProp := by
    rcases htag with h | h | h <;> rw [h] <;> decide
  rw [nextTag, hptr]
  dsimp only
  rw [← wordAt, if_neg hbegin.1, if_neg hbegin.2, if_pos htag]
  exact congrArg _ hend

theorem Block.nextTag_prop (hb : fdt.Block) {len : U32} (hal : 4 ∣ o)
    (h : o + Items.propBytes len ≤ fdt.sizeDtStruct.toNat) (htag : fdt.wordAt o = fdtProp)
    (hlen : fdt.wordAt (o + 4) = len) :
    fdt.nextTag (off o) = .ok (fdtProp, off (o + Items.propBytes len)) := by
  have hle := Items.le_pad (12 + len.toNat)
  have hsmall := hb.small
  unfold Items.propBytes at h ⊢
  have hptr := hb.offsetPtr_word (o := o) (by omega)
  have hlenp := hb.offsetPtr_word (o := o + 4) (by omega)
  have hend := hb.endTag_eq (o := o) (k := 12 + len.toNat) (by omega) fdtProp
  rw [pad_add hal] at hend
  have hoff : off (o + 4) + 8 + len = off (o + (12 + len.toNat)) := by
    apply BitVec.eq_of_toNat_eq
    rw [BitVec.toNat_add, BitVec.toNat_add, off_toNat (by omega), off_toNat (by omega)]
    show ((o + 4 + 8) % 2 ^ 32 + len.toNat) % 2 ^ 32 = _
    omega
  rw [nextTag, hptr]
  dsimp only
  rw [← wordAt, htag, if_neg (by decide), if_pos rfl, ← off_four, hlenp]
  dsimp only
  rw [← wordAt, hlen, hoff]
  exact congrArg _ hend

theorem Block.nextTag_node (hb : fdt.Block) {name : List (BitVec 8)} (hal : 4 ∣ o)
    (h : o + Items.nameBytes name ≤ fdt.sizeDtStruct.toNat) (htag : fdt.wordAt o = fdtBeginNode)
    (hzero : 0 ∉ name)
    (hname : bytesAt fdt.mem (fdt.offsetPtr' (off (o + 4))) (name ++ [0]) = true) :
    fdt.nextTag (off o) = .ok (fdtBeginNode, off (o + Items.nameBytes name)) := by
  have hle := Items.le_pad (4 + (name.length + 1))
  have hsmall := hb.small
  unfold Items.nameBytes at h ⊢
  have hptr := hb.offsetPtr_word (o := o) (by omega)
  have hskip := hb.skipName_eq (n := steps) (show name.length < 2 ^ 32 by omega) hname hzero
    (by omega)
  have hend := hb.endTag_eq (o := o) (k := 4 + (name.length + 1)) (by omega) fdtBeginNode
  rw [pad_add hal, ← Nat.add_assoc] at hend
  rw [nextTag, hptr]
  dsimp only
  rw [← wordAt, htag, if_pos rfl, ← off_four, hskip]
  exact congrArg _ hend

end Fdt

end Prephv
