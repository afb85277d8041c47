import Prephv.Fdt.Relatives

/-!
# Rom — The walk over the device tree

The client interface's `peer`, `child` and `parent` (`rom_call`), which go by handles: a node's
offset in `prep_dtb` and a constant, so that no handle is 0, by which `peer` is asked for the root.

In a well-formed tree the three answer as the tree says, and a client that goes from a node to its
child, and to its peer when it is done with a subtree, comes to every node once, in the order of
the nodes' tags (`Fdt.WellFormed.romWalk_complete`).
-/

set_option autoImplicit false

namespace Prephv

/-! ### `peer`, `child` and `parent` -/

/-- `NODE_MUNGE`. -/
def nodeMunge (x : FdtInt) : U32 := x + 0x10000000

/-- `NODE_DEMUNGE`. -/
def nodeDemunge (x : U32) : FdtInt := x - 0x10000000

/-- What the three calls do with the node found: `r3` is -1, or it is 0 and the handle is
stored. -/
def romNode (n : FdtInt) : Option U32 := if n.neg then none else some (nodeMunge n)

/-- The `peer` branch of `rom_call`. -/
def romPeer (fdt : Fdt) (node : U32) : MemRes (Option U32) := do
  let n ← if node = 0 then .ok 0 else fdt.sibling (nodeDemunge node)
  return romNode n

/-- The `child` branch of `rom_call`. -/
def romChild (fdt : Fdt) (node : U32) : MemRes (Option U32) :=
  if node = 0 then .ok none
  else do
    let n ← fdt.subnode (nodeDemunge node)
    return romNode n

/-- The `parent` branch of `rom_call`. -/
def romParent (fdt : Fdt) (node : U32) : MemRes (Option U32) :=
  if node = 0 then .ok none
  else do
    let n ← fdt.parentOffset (nodeDemunge node)
    return romNode n

/-- A client's walk from the root, by `child` and `peer` only, for trees of up to `n` nodes. -/
def romWalk (fdt : Fdt) (n : Nat) : MemRes (List U32) := do
  let root ← romPeer fdt 0
  Forest.walk .fuel (romChild fdt) (romPeer fdt) n root

/-! ### Handles -/

/-- The handle of the node at the offset. -/
def handle (o : Nat) : U32 := nodeMunge (off o)

theorem handle_toNat {o : Nat} (h : o < 2 ^ 28) : (handle o).toNat = o + 2 ^ 28 := by
  have hmunge : (0x10000000 : FdtInt).toNat = 2 ^ 28 := rfl
  rw [handle, nodeMunge, BitVec.toNat_add, off_toNat (by omega), hmunge]
  omega

theorem handle_ne_zero {o : Nat} (h : o < 2 ^ 28) : handle o ≠ 0 := by
  intro hz
  have hz := congrArg BitVec.toNat hz
  rw [handle_toNat h] at hz
  exact absurd hz (Nat.ne_of_gt (Nat.add_pos_right _ (by decide)))

theorem nodeDemunge_handle (o : Nat) : nodeDemunge (handle o) = off o := by
  rw [handle, nodeDemunge, nodeMunge, BitVec.add_sub_cancel]

/-- A node found becomes its handle, and `-FDT_ERR_NOTFOUND` the failure. -/
theorem romNode_found {p : Option Nat} (hp : ∀ o ∈ p, o < 2 ^ 28) :
    romNode (Fdt.found p) = p.map handle := by
  cases p with
  | none => rfl
  | some o =>
    have hlt : o < 2 ^ 28 := hp o rfl
    have hneg : (off o).neg = false := off_neg (by omega)
    rw [Fdt.found, romNode, hneg]
    rfl

/-- Only the root has no parent. -/
theorem Tree.parent_eq_none (tree : Tree) {p : Forest.Place Nat} (hp : p ∈ tree.places)
    (hparent : p.parent = none) : p.node = 0 := by
  rw [Tree.places, Tree.items, Items.forest, Items.nops_forest] at hp
  exact Forest.parent_eq_none hp hparent

/-- The root is the only node at offset 0. -/
theorem Tree.parent_root (tree : Tree) {p : Forest.Place Nat} (hp : p ∈ tree.places)
    (hnode : p.node = 0) : p.parent = none := by
  rcases Forest.mem_places_node.mp hp with rfl | hp | hp
  · rfl
  · have hname := Items.nameBytes_pos tree.name
    have hin := (Fdt.place_bounds hp).1
    omega
  · rw [Items.nops_forest] at hp
    cases hp

namespace Fdt

variable {fdt : Fdt} {tree : Tree} {p : Forest.Place Nat}

theorem WellFormed.nodes_lt (h : fdt.WellFormed tree) :
    ∀ o ∈ (tree.items.forest 0).preorder, o < 2 ^ 28 := by
  intro o ho
  have hin := ((tree.items.forest_sorted 0).1 o ho).2
  have hfits := h.fits
  have hsmall := h.small
  omega

/-- A place's node, its child, its sibling and its parent are nodes of the tree. -/
theorem WellFormed.place_lt (h : fdt.WellFormed tree) (hp : p ∈ tree.places) :
    p.node < 2 ^ 28 ∧ (∀ o ∈ p.child, o < 2 ^ 28) ∧ (∀ o ∈ p.sibling, o < 2 ^ 28) ∧
      ∀ o ∈ p.parent, o < 2 ^ 28 := by
  obtain ⟨hnode, hchild, hsibling, habove⟩ := Forest.place_mem hp
  refine ⟨h.nodes_lt _ hnode, fun o ho => h.nodes_lt _ (hchild o ho),
    fun o ho => h.nodes_lt _ (hsibling o ho), fun o ho => ?_⟩
  rcases habove o (List.mem_of_getLast? ho) with hnone | hin
  · cases hnone
  · exact h.nodes_lt _ hin

/-! ### The three calls -/

theorem WellFormed.romPeer_eq (h : fdt.WellFormed tree) (hp : p ∈ tree.places) :
    romPeer fdt (handle p.node) = .ok (p.sibling.map handle) := by
  obtain ⟨hnode, -, hsibling, -⟩ := h.place_lt hp
  rw [romPeer, if_neg (handle_ne_zero hnode), nodeDemunge_handle, h.sibling_eq hp, ok_bind]
  exact congrArg Except.ok (romNode_found hsibling)

theorem WellFormed.romChild_eq (h : fdt.WellFormed tree) (hp : p ∈ tree.places) :
    romChild fdt (handle p.node) = .ok (p.child.map handle) := by
  obtain ⟨hnode, hchild, -, -⟩ := h.place_lt hp
  rw [romChild, if_neg (handle_ne_zero hnode), nodeDemunge_handle, h.subnode_eq hp, ok_bind]
  exact congrArg Except.ok (romNode_found hchild)

theorem WellFormed.romParent_eq (h : fdt.WellFormed tree) (hp : p ∈ tree.places) :
    romParent fdt (handle p.node) = .ok (p.parent.map handle) := by
  obtain ⟨hnode, -, -, hparent⟩ := h.place_lt hp
  rw [romParent, if_neg (handle_ne_zero hnode), nodeDemunge_handle, h.parentOffset_eq hp,
    ok_bind]
  exact congrArg Except.ok (romNode_found hparent)

/-! ### The walk -/

/-- The handles are those of different nodes. -/
theorem WellFormed.handles_nodup (h : fdt.WellFormed tree) : (tree.nodes.map handle).Nodup := by
  have hnodes : tree.nodes = (tree.items.forest 0).preorder :=
    (tree.items.forest_preorder 0).symm
  have hup := (tree.items.forest_sorted 0).2
  rw [hnodes]
  refine List.Nodup.map_on (fun o ho o' ho' heq => ?_) (hup.imp fun hlt => Nat.ne_of_lt hlt)
  have heq := congrArg BitVec.toNat heq
  rw [handle_toNat (h.nodes_lt o ho), handle_toNat (h.nodes_lt o' ho')] at heq
  omega

/-- **The walk is complete.**  From the root on, `child` and `peer` take a client to the node of
each `FDT_BEGIN_NODE` tag once, in the order of the tags; they fail exactly where a node has no
child and no later sibling; and `parent` gives the node it is in, and fails for the root only. -/
theorem WellFormed.romWalk_complete (h : fdt.WellFormed tree) :
    (∀ n, tree.nodes.length ≤ n → romWalk fdt n = .ok (tree.nodes.map handle)) ∧
    (tree.nodes.map handle).Nodup ∧
    tree.places.map Forest.Place.node = tree.nodes ∧
    ∀ p ∈ tree.places,
      romChild fdt (handle p.node) = .ok (p.child.map handle) ∧
      romPeer fdt (handle p.node) = .ok (p.sibling.map handle) ∧
      romParent fdt (handle p.node) = .ok (p.parent.map handle) ∧
      (p.parent = none ↔ p.node = 0) := by
  have hnodes : tree.nodes = (tree.items.forest 0).preorder :=
    (tree.items.forest_preorder 0).symm
  refine ⟨fun n hn => ?_, h.handles_nodup, ?_, fun p hp => ⟨h.romChild_eq hp, h.romPeer_eq hp,
    h.romParent_eq hp, ?_⟩⟩
  · have hroot : romPeer fdt 0 = .ok ((tree.items.forest 0).first.map handle) := rfl
    rw [hnodes] at hn ⊢
    rw [romWalk, hroot, ok_bind]
    exact Forest.walk_first (fun p hp => h.romChild_eq hp) (fun p hp => h.romPeer_eq hp) hn
  · rw [hnodes]
    exact Forest.places_map_node _ _
  · exact ⟨tree.parent_eq_none hp, tree.parent_root hp⟩

end Fdt

/-- The bytes of the words, from the address 0x1000 on. -/
def memOfWords (words : List U32) : Memory := fun a =>
  let i := (a - 0x1000).toNat
  (words.getD (i / 4) 0 >>> (24 - 8 * (i % 4))).setWidth 8

/-- A root with a property, an `FDT_NOP` and the nodes `a` and `b`, of which `a` has a node `c`. -/
def smallTree : Tree :=
  ⟨[], .prop 4 (.nop (.node [0x61] (.node [0x63] .nil .nil) (.node [0x62] .nil .nil))), 1⟩

/-- `smallTree`, flattened. -/
def smallFdt : Fdt where
  mem := memOfWords [0xd00dfeed, 0x74, 0x28, 0x74, 0x74, 0x11, 0x10, 0, 0, 0x4c,
    1, 0, 3, 4, 0, 0x12345678, 4, 1, 0x61000000, 1, 0x63000000, 2, 2, 1, 0x62000000, 2, 2, 4, 9]
  ptr := 0x1000

/-- The walk over `smallTree`: the root, `a`, `c` and `b`. -/
theorem Fdt.WellFormed.romWalk_complete_sample : smallFdt.WellFormed smallTree ∧
    romWalk smallFdt 4 = .ok [0x10000000, 0x1000001c, 0x10000024, 0x10000034] := by
  have hsmall : smallFdt.WellFormed smallTree :=
    { version := by decide +kernel
      small := by decide +kernel
      placed := by decide +kernel
      magic := by decide +kernel
      compatible := by decide +kernel
      holds := by decide +kernel
      stop := by decide +kernel
      fits := by decide +kernel }
  have hnodes : smallTree.nodes = [0, 0x1c, 0x24, 0x34] := by decide +kernel
  obtain ⟨hwalk, -⟩ := Fdt.WellFormed.romWalk_complete hsmall
  have hfour := hwalk 4 (by rw [hnodes]; decide)
  rw [hnodes] at hfour
  exact ⟨hsmall, hfour⟩

end Prephv
