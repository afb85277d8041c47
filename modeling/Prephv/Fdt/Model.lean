import Prephv.Mem.Ranges

/-!
# Fdt — Model

The read-only part of libfdt that the hypervisor uses (`fdt.c`, `fdt_ro.c`), byte by byte: the
header, the tags of the structure block, the walk from node to node, properties, the searches
by `device_type` and by path, and a node's first child, next sibling and parent.

An `int` is a word of 32 bits, and an error is a negative one.  Pointers are effective addresses.
The loops that end at a zero byte or at a tag have no bound of their own in a tree before version
17; `Fdt.steps` is more steps than there are offsets, and a loop that makes that many goes round for
ever (`MemErr.fuel`).
-/

set_option autoImplicit false

namespace Prephv

/-! ### Bytes -/

/-- The bytes at the effective addresses. -/
abbrev Memory := U64 → BitVec 8

/-- `fdt32_to_cpu(*p)`. -/
def be32 (m : Memory) (p : U64) : U32 :=
  m p ++ m (p + 1) ++ m (p + 2) ++ m (p + 3)

/-- `fdt64_to_cpu(*p)`. -/
def be64 (m : Memory) (p : U64) : U64 :=
  be32 m p ++ be32 m (p + 4)

/-- The bytes of the words. -/
def wordBytes (l : List U32) : List (BitVec 8) :=
  l.flatMap fun w =>
    [w.extractLsb' 24 8, w.extractLsb' 16 8, w.extractLsb' 8 8, w.extractLsb' 0 8]

/-- The `n` bytes from `p` on. -/
def memBytes (m : Memory) (p : U64) (n : Nat) : List (BitVec 8) :=
  (List.range n).map fun i => m (p + BitVec.ofNat 64 i)

/-- `memcmp(p, s, len) == 0`, for the `len` bytes of `s`. -/
def bytesAt (m : Memory) (p : U64) : List (BitVec 8) → Bool
  | [] => true
  | b :: s => m p == b && bytesAt m (p + 1) s

/-- The bytes of a string constant. -/
def ascii (s : String) : List (BitVec 8) := s.toList.map fun c => BitVec.ofNat 8 c.toNat

/-- `memchr(p, '\0', len)`, as an index. -/
def findNul (m : Memory) (p : U64) : Nat → Option Nat
  | 0 => none
  | len + 1 => if m p = 0 then some 0 else (findNul m (p + 1) len).map (· + 1)

/-! ### The header -/

/-- A flattened device tree: the memory it lies in, and `fdt`. -/
structure Fdt where
  mem : Memory
  ptr : U64

/-- An `int` of libfdt: an offset, or an error. -/
abbrev FdtInt := BitVec 32

def fdtErrNotfound : FdtInt := 1
def fdtErrBadoffset : FdtInt := 4
def fdtErrBadstate : FdtInt := 7
def fdtErrTruncated : FdtInt := 8
def fdtErrBadmagic : FdtInt := 9
def fdtErrBadversion : FdtInt := 10
def fdtErrBadstructure : FdtInt := 11
def fdtErrInternal : FdtInt := 13

/-- `x < 0`, for an `int`. -/
def FdtInt.neg (x : FdtInt) : Bool := x.msb

def fdtMagicWord : U32 := 0xd00dfeed
def fdtSwMagic : U32 := ~~~fdtMagicWord
def fdtFirstSupportedVersion : U32 := 0x10
def fdtLastSupportedVersion : U32 := 0x11

def fdtBeginNode : U32 := 1
def fdtEndNode : U32 := 2
def fdtProp : U32 := 3
def fdtNop : U32 := 4
def fdtEnd : U32 := 9

namespace Fdt

def magic (fdt : Fdt) : U32 := be32 fdt.mem fdt.ptr
def totalsize (fdt : Fdt) : U32 := be32 fdt.mem (fdt.ptr + 4)
def offDtStruct (fdt : Fdt) : U32 := be32 fdt.mem (fdt.ptr + 8)
def offDtStrings (fdt : Fdt) : U32 := be32 fdt.mem (fdt.ptr + 12)
def offMemRsvmap (fdt : Fdt) : U32 := be32 fdt.mem (fdt.ptr + 16)
def version (fdt : Fdt) : U32 := be32 fdt.mem (fdt.ptr + 20)
def lastCompVersion (fdt : Fdt) : U32 := be32 fdt.mem (fdt.ptr + 24)
def sizeDtStruct (fdt : Fdt) : U32 := be32 fdt.mem (fdt.ptr + 36)

/-- `fdt_check_header`. -/
def checkHeader (fdt : Fdt) : FdtInt :=
  if fdt.magic = fdtMagicWord then
    if fdt.version < fdtFirstSupportedVersion then -fdtErrBadversion
    else if fdt.lastCompVersion > fdtLastSupportedVersion then -fdtErrBadversion
    else 0
  else if fdt.magic = fdtSwMagic then
    if fdt.sizeDtStruct = 0 then -fdtErrBadstate else 0
  else -fdtErrBadmagic

/-- `_fdt_offset_ptr`. -/
def offsetPtr' (fdt : Fdt) (offset : FdtInt) : U64 :=
  fdt.ptr + fdt.offDtStruct.setWidth 64 + offset.signExtend 64

/-- `fdt_offset_ptr`. -/
def offsetPtr (fdt : Fdt) (offset : FdtInt) (len : U32) : Option U64 :=
  if 0x11 ≤ fdt.version ∧ (offset + len < offset ∨ fdt.sizeDtStruct < offset + len) then none
  else
    let p := fdt.offsetPtr' offset
    if p + len.setWidth 64 < p then none else some p

/-! ### Tags -/

/-- The steps of a loop that does not end. -/
def steps : Nat := 2 ^ 32

/-- The loop of `fdt_next_tag` over a node's name, from the offset of a byte of it: the offset after
the name, or nothing where the name does not end in the structure block. -/
def skipName (fdt : Fdt) : Nat → FdtInt → MemRes (Option FdtInt)
  | 0, _ => .error .fuel
  | n + 1, offset =>
    match fdt.offsetPtr offset 1 with
    | none => .ok none
    | some p => if fdt.mem p = 0 then .ok (some (offset + 1)) else fdt.skipName n (offset + 1)

/-- `FDT_TAGALIGN`. -/
def tagAlign (x : FdtInt) : FdtInt := (x + 3) &&& ~~~3

/-- The end of `fdt_next_tag`, where the tag's contents end at `offset`. -/
def endTag (fdt : Fdt) (startoffset offset : FdtInt) (tag : U32) : U32 × FdtInt :=
  match fdt.offsetPtr startoffset (offset - startoffset) with
  | none => (fdtEnd, -fdtErrBadstructure)
  | some _ => (tag, tagAlign offset)

/-- `fdt_next_tag`: the tag, and `*nextoffset`. -/
def nextTag (fdt : Fdt) (startoffset : FdtInt) : MemRes (U32 × FdtInt) :=
  match fdt.offsetPtr startoffset 4 with
  | none => .ok (fdtEnd, -fdtErrTruncated)
  | some tagp =>
    let tag := be32 fdt.mem tagp
    let offset := startoffset + 4
    if tag = fdtBeginNode then do
      match ← fdt.skipName steps offset with
      | none => .ok (fdtEnd, -fdtErrBadstructure)
      | some offset => .ok (fdt.endTag startoffset offset tag)
    else if tag = fdtProp then
      match fdt.offsetPtr offset 4 with
      | none => .ok (fdtEnd, -fdtErrBadstructure)
      | some lenp => .ok (fdt.endTag startoffset (offset + 8 + be32 fdt.mem lenp) tag)
    else if tag = fdtEnd ∨ tag = fdtEndNode ∨ tag = fdtNop then
      .ok (fdt.endTag startoffset offset tag)
    else .ok (fdtEnd, -fdtErrBadstructure)

/-- `_fdt_check_node_offset`. -/
def checkNodeOffset (fdt : Fdt) (offset : FdtInt) : MemRes FdtInt :=
  if offset.neg ∨ offset % 4 ≠ 0 then .ok (-fdtErrBadoffset)
  else do
    let (tag, next) ← fdt.nextTag offset
    .ok (if tag = fdtBeginNode then next else -fdtErrBadoffset)

/-- The loop of `fdt_next_node` from the tag at `offset`, with `*depth` where there is one. -/
def nextNodeLoop (fdt : Fdt) : Nat → FdtInt → Option Int → MemRes (FdtInt × Option Int)
  | 0, _, _ => .error .fuel
  | n + 1, offset, depth => do
    let (tag, nextoffset) ← fdt.nextTag offset
    if tag = fdtBeginNode then .ok (offset, depth.map (· + 1))
    else if tag = fdtEndNode then
      let depth := depth.map (· - 1)
      if ∃ d ∈ depth, d < 0 then .ok (nextoffset, depth)
      else fdt.nextNodeLoop n nextoffset depth
    else if tag = fdtEnd then
      if ¬ nextoffset.neg ∨ (nextoffset = -fdtErrTruncated ∧ depth = none) then
        .ok (-fdtErrNotfound, depth)
      else .ok (nextoffset, depth)
    else fdt.nextNodeLoop n nextoffset depth

/-- `fdt_next_node`: the node, and `*depth` after the call. -/
def nextNode (fdt : Fdt) (offset : FdtInt) (depth : Option Int) :
    MemRes (FdtInt × Option Int) :=
  if offset.neg then fdt.nextNodeLoop steps 0 depth
  else do
    let nextoffset ← fdt.checkNodeOffset offset
    if nextoffset.neg then .ok (nextoffset, depth)
    else fdt.nextNodeLoop steps nextoffset depth

/-! ### Properties -/

/-- `_fdt_string_eq`: the string at `stroffset` is `s`, which has no zero byte. -/
def stringEq (fdt : Fdt) (stroffset : U32) (s : List (BitVec 8)) : Bool :=
  bytesAt fdt.mem (fdt.ptr + fdt.offDtStrings.setWidth 64 + stroffset.signExtend 64) (s ++ [0])

/-- The loop of `fdt_get_property_namelen` from the tag at `offset`: the property and its length, or
an error. -/
def getPropertyLoop (fdt : Fdt) (name : List (BitVec 8)) :
    Nat → FdtInt → MemRes (Option U64 × FdtInt)
  | 0, _ => .error .fuel
  | n + 1, offset => do
    let (tag, nextoffset) ← fdt.nextTag offset
    if tag = fdtEnd then
      .ok (none, if nextoffset.neg then nextoffset else -fdtErrBadstructure)
    else if tag = fdtProp then
      let prop := fdt.offsetPtr' offset
      if fdt.stringEq (be32 fdt.mem (prop + 8)) name then
        .ok (some prop, be32 fdt.mem (prop + 4))
      else fdt.getPropertyLoop name n nextoffset
    else if tag = fdtBeginNode ∨ tag = fdtEndNode then .ok (none, -fdtErrNotfound)
    else fdt.getPropertyLoop name n nextoffset

/-- `fdt_getprop`: the data of the property, or nothing, and `*lenp`. -/
def getprop (fdt : Fdt) (nodeoffset : FdtInt) (name : String) :
    MemRes (Option U64 × FdtInt) :=
  if fdt.checkHeader ≠ 0 then .ok (none, fdt.checkHeader)
  else do
    let err ← fdt.checkNodeOffset nodeoffset
    if err.neg then .ok (none, err)
    else
      let (prop, len) ← fdt.getPropertyLoop (ascii name) steps err
      .ok (prop.map (· + 12), len)

/-! ### Searches -/

/-- The loop of `_fdt_stringlist_contains`. -/
def stringlistContains (m : Memory) (str : List (BitVec 8)) :
    Nat → U64 → Int → MemRes Bool
  | 0, _, _ => .error .fuel
  | n + 1, strlist, listlen =>
    if listlen ≥ str.length then
      if bytesAt m strlist (str ++ [0]) then .ok true
      else
        match findNul m strlist listlen.toNat with
        | none => .ok false
        | some i =>
          stringlistContains m str n (strlist + BitVec.ofNat 64 i + 1) (listlen - (i + 1))
    else .ok false

/-- `fdt_node_check_dtype`. -/
def nodeCheckDtype (fdt : Fdt) (nodeoffset : FdtInt) (dtype : String) : MemRes FdtInt := do
  match ← fdt.getprop nodeoffset "device_type" with
  | (none, len) => .ok len
  | (some prop, len) =>
    let found ← stringlistContains fdt.mem (ascii dtype) steps prop len.toInt
    .ok (if found then 0 else 1)

/-- The loop of `fdt_node_offset_by_dtype` from the node `offset`. -/
def byDtypeLoop (fdt : Fdt) (dtype : String) : Nat → FdtInt → MemRes FdtInt
  | 0, _ => .error .fuel
  | n + 1, offset =>
    if offset.neg then .ok offset
    else do
      let err ← fdt.nodeCheckDtype offset dtype
      if err.neg ∧ err ≠ -fdtErrNotfound then .ok err
      else if err = 0 then .ok offset
      else
        let (offset, _) ← fdt.nextNode offset none
        fdt.byDtypeLoop dtype n offset

/-- `fdt_node_offset_by_dtype`. -/
def nodeOffsetByDtype (fdt : Fdt) (startoffset : FdtInt) (dtype : String) : MemRes FdtInt :=
  if fdt.checkHeader ≠ 0 then .ok fdt.checkHeader
  else do
    let (offset, _) ← fdt.nextNode startoffset none
    fdt.byDtypeLoop dtype steps offset

/-- `_fdt_nodename_eq`. -/
def nodenameEq (fdt : Fdt) (offset : FdtInt) (s : List (BitVec 8)) : Bool :=
  match fdt.offsetPtr (offset + 4) (BitVec.ofNat 32 (s.length + 1)) with
  | none => false
  | some p =>
    let last := fdt.mem (p + BitVec.ofNat 64 s.length)
    bytesAt fdt.mem p s && (last == 0 || (!s.contains 0x40 && last == 0x40))

/-- The loop of `fdt_subnode_offset_namelen`. -/
def subnodeLoop (fdt : Fdt) (name : List (BitVec 8)) : Nat → FdtInt → Int → MemRes FdtInt
  | 0, _, _ => .error .fuel
  | n + 1, offset, depth =>
    if offset.neg ∨ depth < 0 then .ok (if depth < 0 then -fdtErrNotfound else offset)
    else if depth = 1 ∧ fdt.nodenameEq offset name then .ok offset
    else do
      let (offset, depth') ← fdt.nextNode offset (some depth)
      fdt.subnodeLoop name n offset (depth'.getD depth)

/-- `fdt_subnode_offset_namelen`. -/
def subnodeOffset (fdt : Fdt) (offset : FdtInt) (name : List (BitVec 8)) : MemRes FdtInt :=
  if fdt.checkHeader ≠ 0 then .ok fdt.checkHeader
  else fdt.subnodeLoop name steps offset 0

/-- The loop of `fdt_path_offset`, over the components of an absolute path. -/
def pathLoop (fdt : Fdt) : List String → FdtInt → MemRes FdtInt
  | [], offset => .ok offset
  | name :: path, offset => do
    let offset ← fdt.subnodeOffset offset (ascii name)
    if offset.neg then .ok offset else fdt.pathLoop path offset

/-- `fdt_path_offset`, of an absolute path. -/
def pathOffset (fdt : Fdt) (path : List String) : MemRes FdtInt :=
  if fdt.checkHeader ≠ 0 then .ok fdt.checkHeader else fdt.pathLoop path 0

/-! ### Relatives -/

/-- The loop of `fdt_subnode`.  `*depth` is there after `fdt_next_node` as it was before. -/
def subnodeScan (fdt : Fdt) : Nat → FdtInt → Int → MemRes FdtInt
  | 0, _, _ => .error .fuel
  | n + 1, offset, depth =>
    if ¬ offset.neg ∧ depth ≥ 0 then
      if depth = 1 then .ok offset
      else do
        let (offset, depth) ← fdt.nextNode offset (some depth)
        fdt.subnodeScan n offset (depth.getD 0)
    else .ok (if depth < 0 then -fdtErrNotfound else offset)

/-- `fdt_subnode`. -/
def subnode (fdt : Fdt) (offset : FdtInt) : MemRes FdtInt :=
  if fdt.checkHeader ≠ 0 then .ok fdt.checkHeader else fdt.subnodeScan steps offset 0

/-- The loop of `fdt_sibling`. -/
def siblingScan (fdt : Fdt) : Nat → FdtInt → Int → MemRes FdtInt
  | 0, _, _ => .error .fuel
  | n + 1, offset, depth =>
    if ¬ offset.neg ∧ depth ≥ 1 then
      if depth = 1 then .ok offset
      else do
        let (offset, depth) ← fdt.nextNode offset (some depth)
        fdt.siblingScan n offset (depth.getD 0)
    else .ok (if depth < 0 then -fdtErrNotfound else offset)

/-- `fdt_sibling`. -/
def sibling (fdt : Fdt) (offset : FdtInt) : MemRes FdtInt :=
  if fdt.checkHeader ≠ 0 then .ok fdt.checkHeader
  else do
    let (offset, depth) ← fdt.nextNode offset (some 1)
    fdt.siblingScan steps offset (depth.getD 0)

/-- The loop of `fdt_supernode_atdepth_offset`: what it returns, and `*nodedepth` where it is
written. -/
def supernodeScan (fdt : Fdt) (nodeoffset : FdtInt) (supernodedepth : Int) :
    Nat → FdtInt → Int → FdtInt → MemRes (FdtInt × Option Int)
  | 0, _, _, _ => .error .fuel
  | n + 1, offset, depth, supernodeoffset =>
    if ¬ offset.neg ∧ offset.toInt ≤ nodeoffset.toInt then
      let supernodeoffset := if depth = supernodedepth then offset else supernodeoffset
      if offset = nodeoffset then
        .ok (if supernodedepth > depth then -fdtErrNotfound else supernodeoffset, some depth)
      else do
        let (offset, depth) ← fdt.nextNode offset (some depth)
        fdt.supernodeScan nodeoffset supernodedepth n offset (depth.getD 0) supernodeoffset
    else if offset = -fdtErrNotfound ∨ ¬ offset.neg then .ok (-fdtErrBadoffset, none)
    else if offset = -fdtErrBadoffset then .ok (-fdtErrBadstructure, none)
    else .ok (offset, none)

/-- `fdt_supernode_atdepth_offset`. -/
def supernodeAtdepthOffset (fdt : Fdt) (nodeoffset : FdtInt) (supernodedepth : Int) :
    MemRes (FdtInt × Option Int) :=
  if fdt.checkHeader ≠ 0 then .ok (fdt.checkHeader, none)
  else if supernodedepth < 0 then .ok (-fdtErrNotfound, none)
  else fdt.supernodeScan nodeoffset supernodedepth steps 0 0 (-fdtErrInternal)

/-- `fdt_node_depth`.  The depth is written where the offset of the root is returned. -/
def nodeDepth (fdt : Fdt) (nodeoffset : FdtInt) : MemRes Int := do
  let (err, nodedepth) ← fdt.supernodeAtdepthOffset nodeoffset 0
  return if err ≠ 0 then (if err.neg then err else -fdtErrInternal).toInt else nodedepth.getD 0

/-- `fdt_parent_offset`. -/
def parentOffset (fdt : Fdt) (nodeoffset : FdtInt) : MemRes FdtInt := do
  let nodedepth ← fdt.nodeDepth nodeoffset
  if nodedepth < 0 then return BitVec.ofInt 32 nodedepth
  else
    let (offset, _) ← fdt.supernodeAtdepthOffset nodeoffset (nodedepth - 1)
    return offset

/-! ### Memory reservations -/

/-- `_fdt_mem_rsv`. -/
def memRsv (fdt : Fdt) (n : Nat) : U64 :=
  fdt.ptr + fdt.offMemRsvmap.setWidth 64 + BitVec.ofNat 64 (16 * n)

/-- `address` of the reserve entry `n`. -/
def rsvAddress (fdt : Fdt) (n : Nat) : U64 := be64 fdt.mem (fdt.memRsv n)

/-- `size` of the reserve entry `n`. -/
def rsvSize (fdt : Fdt) (n : Nat) : U64 := be64 fdt.mem (fdt.memRsv n + 8)

/-- The loop of `fdt_num_mem_rsv` from entry `i`; its counter is an `int`. -/
def numMemRsvLoop (fdt : Fdt) : Nat → Nat → MemRes Nat
  | 0, _ => .error .fuel
  | n + 1, i => if fdt.rsvSize i ≠ 0 then fdt.numMemRsvLoop n (i + 1) else .ok i

/-- `fdt_num_mem_rsv`. -/
def numMemRsv (fdt : Fdt) : MemRes Nat := fdt.numMemRsvLoop (2 ^ 31) 0

end Fdt

end Prephv
