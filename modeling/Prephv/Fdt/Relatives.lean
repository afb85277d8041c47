import Prephv.Fdt.Tree

/-!
# Fdt — Relatives

`fdt_subnode`, `fdt_sibling` and `fdt_parent_offset` in a well-formed tree.  All three visit node
after node with `fdt_next_node`, which keeps the depth, and differ in where they begin to count and
in what they stop at.

`Then` says what such a loop comes to from some tag on.  Its rules follow the tags, and
`Then.items` and `Then.skip` what stands in a node: `fdt_next_node` goes to the first node there, or
past the end when there is none; and a loop that passes over the nodes from some depth on comes to
the end of a subtree at the depth it had before.
-/

set_option autoImplicit false

namespace Prephv

/-- The block holds the items, aligned, and after them a tag that ends them. -/
structure Fdt.Holds (fdt : Fdt) (t : Items) (o : Nat) : Prop where
  items : t.At fdt o
  aligned : 4 ∣ o
  fits : o + t.size + 4 ≤ fdt.sizeDtStruct.toNat
  ends : fdt.wordAt (o + t.size) = fdtEndNode ∨ fdt.wordAt (o + t.size) = fdtEnd

namespace Fdt

variable {fdt : Fdt} {o : Nat} {t body rest : Items} {name : List (BitVec 8)}

/-! ### Parts -/

theorem Holds.nop (h : fdt.Holds (.nop rest) o) : fdt.Holds rest (o + 4) := by
  obtain ⟨⟨-, hrest⟩, hal, hfit, hend⟩ := h
  rw [Items.size, ← Nat.add_assoc] at hfit hend
  exact ⟨hrest, Nat.dvd_add hal (Nat.dvd_refl 4), hfit, hend⟩

theorem Holds.prop {len : U32} (h : fdt.Holds (.prop len rest) o) :
    fdt.Holds rest (o + Items.propBytes len) := by
  obtain ⟨⟨-, -, hrest⟩, hal, hfit, hend⟩ := h
  rw [Items.size, ← Nat.add_assoc] at hfit hend
  exact ⟨hrest, Nat.dvd_add hal (Items.pad_dvd _), hfit, hend⟩

theorem Holds.inside (h : fdt.Holds (.node name body rest) o) :
    fdt.Holds body (o + Items.nameBytes name) := by
  obtain ⟨⟨-, -, hbody, hstop, -⟩, hal, hfit, -⟩ := h
  rw [Items.size] at hfit
  exact ⟨hbody, Nat.dvd_add hal (Items.pad_dvd _), by omega, Or.inl hstop⟩

theorem Holds.after (h : fdt.Holds (.node name body rest) o) :
    fdt.Holds rest (o + Items.nameBytes name + body.size + 4) := by
  obtain ⟨⟨-, -, -, -, hrest⟩, hal, hfit, hend⟩ := h
  rw [Items.node_end] at hfit hend
  refine ⟨hrest, ?_, hfit, hend⟩
  exact Nat.dvd_add (Nat.dvd_add (Nat.dvd_add hal (Items.pad_dvd _)) body.size_dvd) (Nat.dvd_refl 4)

/-- At each place there is a node with its child and its sibling. -/
theorem Holds.place (h : fdt.Holds t o) {above : List Nat} {p : Forest.Place Nat}
    (hp : p ∈ (t.forest o).places above) :
    ∃ name body rest, fdt.Holds (.node name body rest) p.node ∧
      p.child = (body.forest (p.node + Items.nameBytes name)).first ∧
      p.sibling = (rest.forest (p.node + Items.nameBytes name + body.size + 4)).first := by
  induction t generalizing o above with
  | nil => cases hp
  | nop rest ih => exact ih h.nop hp
  | prop len rest ih => exact ih h.prop hp
  | node name body rest ihb ihr =>
    rcases Forest.mem_places_node.mp hp with rfl | hp | hp
    · exact ⟨name, body, rest, h, rfl, rfl⟩
    · exact ihb h.inside hp
    · exact ihr h.after hp

theorem Holds.nextTag_nop (hb : fdt.Block) (h : fdt.Holds (.nop rest) o) :
    fdt.nextTag (off o) = .ok (fdtNop, off (o + 4)) := by
  have htag := h.items.1
  have hfit := h.fits
  rw [Items.size] at hfit
  rw [hb.nextTag_plain h.aligned (by omega) (Or.inr (Or.inr htag)), htag]

theorem Holds.nextTag_prop (hb : fdt.Block) {len : U32} (h : fdt.Holds (.prop len rest) o) :
    fdt.nextTag (off o) = .ok (fdtProp, off (o + Items.propBytes len)) := by
  obtain ⟨htag, hlen, -⟩ := h.items
  have hfit := h.fits
  rw [Items.size] at hfit
  exact hb.nextTag_prop h.aligned (by omega) htag hlen

theorem Holds.nextTag_node (hb : fdt.Block) (h : fdt.Holds (.node name body rest) o) :
    fdt.nextTag (off o) = .ok (fdtBeginNode, off (o + Items.nameBytes name)) := by
  obtain ⟨htag, ⟨hzero, hname⟩, -⟩ := h.items
  have hfit := h.fits
  rw [Items.size] at hfit
  exact hb.nextTag_node h.aligned (by omega) htag hzero hname

/-- The end of a node, after what stands in it. -/
theorem Holds.nextTag_end_node (hb : fdt.Block) (h : fdt.Holds (.node name body rest) o) :
    fdt.nextTag (off (o + Items.nameBytes name + body.size)) =
      .ok (fdtEndNode, off (o + Items.nameBytes name + body.size + 4)) := by
  obtain ⟨-, -, -, hstop, -⟩ := h.items
  have hal := Nat.dvd_add h.inside.aligned body.size_dvd
  rw [hb.nextTag_plain hal h.inside.fits (Or.inr (Or.inl hstop)), hstop]

theorem Holds.nextTag_ends (hb : fdt.Block) (h : fdt.Holds t o) :
    fdt.nextTag (off (o + t.size)) = .ok (fdtEndNode, off (o + t.size + 4)) ∨
      fdt.nextTag (off (o + t.size)) = .ok (fdtEnd, off (o + t.size + 4)) := by
  have hal := Nat.dvd_add h.aligned t.size_dvd
  rcases h.ends with hend | hend
  · exact Or.inl (by rw [hb.nextTag_plain hal h.fits (Or.inr (Or.inl hend)), hend])
  · exact Or.inr (by rw [hb.nextTag_plain hal h.fits (Or.inl hend), hend])

theorem Holds.body_lt (h : fdt.Holds (.node name body rest) o) :
    o < o + Items.nameBytes name ∧
      o + Items.nameBytes name + body.size + 4 ≤ fdt.sizeDtStruct.toNat := by
  exact ⟨Nat.lt_add_of_pos_right (Items.nameBytes_pos name), h.inside.fits⟩

/-! ### `fdt_next_node` -/

/-- From a node, `fdt_next_node` goes on after its name. -/
theorem Holds.nextNode_eq (hb : fdt.Block) (h : fdt.Holds (.node name body rest) o)
    (d : Option Int) :
    fdt.nextNode (off o) d = fdt.nextNodeLoop steps (off (o + Items.nameBytes name)) d := by
  have hsmall := hb.small
  obtain ⟨hlt, hle⟩ := h.body_lt
  have hal : ¬ (off o % 4 ≠ 0) := by
    rw [not_not]
    apply BitVec.eq_of_toNat_eq
    rw [BitVec.toNat_umod, off_toNat (by omega)]
    exact Nat.mod_eq_zero_of_dvd h.aligned
  have hneg : ¬ (off o).neg = true := off_not_neg (by omega)
  have hneg' : ¬ (off (o + Items.nameBytes name)).neg = true := off_not_neg (by omega)
  have hcheck : fdt.checkNodeOffset (off o) = .ok (off (o + Items.nameBytes name)) := by
    rw [checkNodeOffset, if_neg (not_or.mpr ⟨hneg, hal⟩), h.nextTag_node hb]
    rfl
  rw [nextNode, if_neg hneg, hcheck]
  exact if_neg hneg'

section Then

variable {β σ : Type} {k k' : Nat → FdtInt → Int → MemRes β} {o' : Nat} {d : Int} {r : β}

/-- From the tag at `o` and the depth `d` on, `fdt_next_node` goes to a node, an error or the end of
the node it was called for, and from there `k` comes to `r`.  The steps of both are enough for what
is left of the block. -/
def Then (fdt : Fdt) (k : Nat → FdtInt → Int → MemRes β) (o : Nat) (d : Int) (r : β) : Prop :=
  ∀ m n, fdt.sizeDtStruct.toNat < o + m → fdt.sizeDtStruct.toNat < o + n →
    (fdt.nextNodeLoop n (off o) (some d) >>= fun x => k m x.1 (x.2.getD 0)) = .ok r

/-- A tag that is passed over. -/
theorem Then.tag {tag : U32} (htag : fdt.nextTag (off o) = .ok (tag, off o'))
    (hpass : tag = fdtNop ∨ tag = fdtProp) (hlt : o < o') (hle : o < fdt.sizeDtStruct.toNat)
    (h : fdt.Then k o' d r) : fdt.Then k o d r := by
  intro m n hm hn
  obtain ⟨n, rfl⟩ := Nat.exists_eq_add_of_le' (show 1 ≤ n by omega)
  have hloop : fdt.nextNodeLoop (n + 1) (off o) (some d) =
      fdt.nextNodeLoop n (off o') (some d) := by
    rw [nextNodeLoop, htag]
    rcases hpass with rfl | rfl <;> rfl
  rw [hloop]
  exact h m n (by omega) (by omega)

/-- The beginning of a node. -/
theorem Then.begin_node (htag : fdt.nextTag (off o) = .ok (fdtBeginNode, off o'))
    (hle : o < fdt.sizeDtStruct.toNat)
    (h : ∀ m, fdt.sizeDtStruct.toNat < o + m → k m (off o) (d + 1) = .ok r) :
    fdt.Then k o d r := by
  intro m n hm hn
  obtain ⟨n, rfl⟩ := Nat.exists_eq_add_of_le' (show 1 ≤ n by omega)
  have hloop : fdt.nextNodeLoop (n + 1) (off o) (some d) = .ok (off o, some (d + 1)) := by
    rw [nextNodeLoop, htag]
    rfl
  rw [hloop]
  exact h m hm

/-- The end of a node below the one `fdt_next_node` was called for. -/
theorem Then.end_node (htag : fdt.nextTag (off o) = .ok (fdtEndNode, off o')) (hd : 1 ≤ d)
    (hlt : o < o') (hle : o < fdt.sizeDtStruct.toNat) (h : fdt.Then k o' (d - 1) r) :
    fdt.Then k o d r := by
  intro m n hm hn
  obtain ⟨n, rfl⟩ := Nat.exists_eq_add_of_le' (show 1 ≤ n by omega)
  have hdepth : ¬ ∃ d' ∈ (some d).map (· - 1), d' < 0 := by
    rintro ⟨d', hd', hneg⟩
    cases hd'
    have hneg : d - 1 < 0 := hneg
    omega
  have hloop : fdt.nextNodeLoop (n + 1) (off o) (some d) =
      fdt.nextNodeLoop n (off o') (some (d - 1)) := by
    rw [nextNodeLoop, htag]
    exact if_neg hdepth
  rw [hloop]
  exact h m n (by omega) (by omega)

/-- The end of the last node the depth counts. -/
theorem Then.end_last (htag : fdt.nextTag (off o) = .ok (fdtEndNode, off o')) (hd : d < 1)
    (hle : o < fdt.sizeDtStruct.toNat)
    (h : ∀ m, fdt.sizeDtStruct.toNat < o + m → k m (off o') (d - 1) = .ok r) :
    fdt.Then k o d r := by
  intro m n hm hn
  obtain ⟨n, rfl⟩ := Nat.exists_eq_add_of_le' (show 1 ≤ n by omega)
  have hdepth : ∃ d' ∈ (some d).map (· - 1), d' < 0 := ⟨d - 1, rfl, by omega⟩
  have hloop : fdt.nextNodeLoop (n + 1) (off o) (some d) = .ok (off o', some (d - 1)) := by
    rw [nextNodeLoop, htag]
    exact if_pos hdepth
  rw [hloop]
  exact h m hm

/-- The end of the tree. -/
theorem Then.end_tree (htag : fdt.nextTag (off o) = .ok (fdtEnd, off o'))
    (hneg : ¬ (off o').neg = true) (hle : o < fdt.sizeDtStruct.toNat)
    (h : ∀ m, fdt.sizeDtStruct.toNat < o + m → k m (-fdtErrNotfound) d = .ok r) :
    fdt.Then k o d r := by
  intro m n hm hn
  obtain ⟨n, rfl⟩ := Nat.exists_eq_add_of_le' (show 1 ≤ n by omega)
  have hloop : fdt.nextNodeLoop (n + 1) (off o) (some d) = .ok (-fdtErrNotfound, some d) := by
    rw [nextNodeLoop, htag]
    exact if_pos (Or.inl hneg)
  rw [hloop]
  exact h m hm

/-- A loop that passes over a node goes on from what stands in it. -/
theorem Then.pass (hb : fdt.Block) (ht : fdt.Holds (.node name body rest) o)
    (hk : ∀ m, k (m + 1) (off o) d =
      (fdt.nextNode (off o) (some d) >>= fun x => k' m x.1 (x.2.getD 0)))
    (h : fdt.Then k' (o + Items.nameBytes name) d r) {m : Nat}
    (hm : fdt.sizeDtStruct.toNat < o + m) : k m (off o) d = .ok r := by
  have hsmall := hb.small
  obtain ⟨hlt, hle⟩ := ht.body_lt
  obtain ⟨m, rfl⟩ := Nat.exists_eq_add_of_le' (show 1 ≤ m by omega)
  have hsteps : steps = 2 ^ 32 := rfl
  rw [hk, ht.nextNode_eq hb]
  exact h m steps (by omega) (by omega)

/-- **What stands in a node.**  `fdt_next_node` goes to the first node there, and past the end when
there is none. -/
theorem Then.items (hb : fdt.Block) (ht : fdt.Holds t o)
    (hnone : (t.forest o).first = none → fdt.Then k (o + t.size) d r)
    (hsome : ∀ p, (t.forest o).first = some p → ∀ m, fdt.sizeDtStruct.toNat < p + m →
      k m (off p) (d + 1) = .ok r) : fdt.Then k o d r := by
  induction t generalizing o with
  | nil => exact hnone rfl
  | nop rest ih =>
    have hle := ht.nop.fits
    rw [Items.size, ← Nat.add_assoc] at hnone
    exact .tag (ht.nextTag_nop hb) (Or.inl rfl) (by omega) (by omega) (ih ht.nop hnone hsome)
  | prop len rest ih =>
    have hle := ht.prop.fits
    have hlen := Items.propBytes_pos len
    rw [Items.size, ← Nat.add_assoc] at hnone
    exact .tag (ht.nextTag_prop hb) (Or.inr rfl) (by omega) (by omega) (ih ht.prop hnone hsome)
  | node name body rest =>
    obtain ⟨hlt, hle⟩ := ht.body_lt
    exact .begin_node (ht.nextTag_node hb) (by omega) (hsome o rfl)

/-- **A subtree is skipped.**  A loop that passes over every node below the depth `d`, keeping `Inv`
of what else it has, comes to the end of the items at the depth `d`. -/
theorem Then.skip {K : σ → Nat → FdtInt → Int → MemRes β} (Inv : σ → Prop) (hb : fdt.Block)
    (ht : fdt.Holds t o) (hd : 0 ≤ d)
    (hvisit : ∀ s p d', o ≤ p → p < o + t.size → d < d' → Inv s → ∃ s', Inv s' ∧
      ∀ m, K s (m + 1) (off p) d' =
        (fdt.nextNode (off p) (some d') >>= fun x => K s' m x.1 (x.2.getD 0)))
    (h : ∀ s, Inv s → fdt.Then (K s) (o + t.size) d r) :
    ∀ s, Inv s → fdt.Then (K s) o d r := by
  induction t generalizing o d with
  | nil => exact h
  | nop rest ih =>
    intro s hs
    have hle := ht.nop.fits
    rw [Items.size, ← Nat.add_assoc] at h hvisit
    have hrest := ih ht.nop hd (fun s p d' hp => hvisit s p d' (by omega)) h s hs
    exact .tag (ht.nextTag_nop hb) (Or.inl rfl) (by omega) (by omega) hrest
  | prop len rest ih =>
    intro s hs
    have hle := ht.prop.fits
    have hlen := Items.propBytes_pos len
    rw [Items.size, ← Nat.add_assoc] at h hvisit
    have hrest := ih ht.prop hd (fun s p d' hp => hvisit s p d' (by omega)) h s hs
    exact .tag (ht.nextTag_prop hb) (Or.inr rfl) (by omega) (by omega) hrest
  | node name body rest ihb ihr =>
    intro s hs
    obtain ⟨hlt, hle⟩ := ht.body_lt
    rw [Items.node_end] at h hvisit
    have hrest := ihr ht.after hd
      (fun s p d' hp hlt => hvisit s p d' (by omega) (by omega)) h
    -- the end of the node takes the depth back to `d`
    have hstop : ∀ s, Inv s →
        fdt.Then (K s) (o + Items.nameBytes name + body.size) (d + 1) r := by
      intro s hs
      refine .end_node (ht.nextTag_end_node hb) (by omega) (by omega) (by omega) ?_
      rw [Int.add_sub_cancel]
      exact hrest s hs
    obtain ⟨s', hs', hpass⟩ := hvisit s o (d + 1) (by omega) (by omega) (by omega) hs
    have hbody := ihb ht.inside (by omega)
      (fun s p d' hp hlt hd => hvisit s p d' (by omega) (by omega) (by omega)) hstop s' hs'
    exact .begin_node (ht.nextTag_node hb) (by omega) fun m hm => Then.pass hb ht hpass hbody hm

end Then

/-! ### `fdt_subnode` and `fdt_sibling` -/

/-- What the searches return: a node, or that there is none. -/
def found : Option Nat → FdtInt
  | some p => off p
  | none => -fdtErrNotfound

/-- The loops of `fdt_subnode` and `fdt_sibling` stop at a node of depth 1. -/
theorem scan_found {p m : Nat} (hp : p < 2 ^ 31) (hm : 1 ≤ m) :
    fdt.subnodeScan m (off p) 1 = .ok (off p) ∧ fdt.siblingScan m (off p) 1 = .ok (off p) := by
  obtain ⟨m, rfl⟩ := Nat.exists_eq_add_of_le' hm
  have hneg : ¬ (off p).neg = true := off_not_neg hp
  constructor
  · rw [subnodeScan, if_pos ⟨hneg, by decide⟩, if_pos rfl]
  · rw [siblingScan, if_pos ⟨hneg, by decide⟩, if_pos rfl]

/-- They find nothing where the depth is negative. -/
theorem scan_below {x : FdtInt} {m : Nat} (hm : 1 ≤ m) :
    fdt.subnodeScan m x (-1) = .ok (-fdtErrNotfound) ∧
      fdt.siblingScan m x (-1) = .ok (-fdtErrNotfound) := by
  obtain ⟨m, rfl⟩ := Nat.exists_eq_add_of_le' hm
  constructor
  · rw [subnodeScan, if_neg (by omega), if_pos (by decide)]
  · rw [siblingScan, if_neg (by omega), if_pos (by decide)]

/-- The loop of `fdt_subnode` from a node finds the first node in it. -/
theorem Holds.subnodeScan_eq (hb : fdt.Block) (h : fdt.Holds (.node name body rest) o) {m : Nat}
    (hm : fdt.sizeDtStruct.toNat < o + m) :
    fdt.subnodeScan m (off o) 0 =
      .ok (found (body.forest (o + Items.nameBytes name)).first) := by
  have hsmall := hb.small
  obtain ⟨hlt, hle⟩ := h.body_lt
  have hneg : ¬ (off o).neg = true := off_not_neg (by omega)
  have hpass : ∀ m, fdt.subnodeScan (m + 1) (off o) 0 =
      (fdt.nextNode (off o) (some 0) >>= fun x => fdt.subnodeScan m x.1 (x.2.getD 0)) := by
    intro m
    rw [subnodeScan, if_pos ⟨hneg, by decide⟩, if_neg (by decide)]
  refine Then.pass hb h hpass (Then.items hb h.inside (fun hnone => ?_) fun c hc m hm => ?_) hm
  · rw [hnone]
    refine .end_last (h.nextTag_end_node hb) (by decide) (by omega) fun m hm => ?_
    exact (scan_below (by omega)).1
  · have hin := ((body.forest_sorted _).1 c (Forest.first_mem hc)).2
    rw [hc]
    exact (scan_found (by omega) (by omega)).1

/-- `fdt_next_node` and the loop of `fdt_sibling` from a node find the next node beside it. -/
theorem Holds.siblingScan_eq (hb : fdt.Block) (h : fdt.Holds (.node name body rest) o) :
    (fdt.nextNode (off o) (some 1) >>= fun x => fdt.siblingScan steps x.1 (x.2.getD 0)) =
      .ok (found (rest.forest (o + Items.nameBytes name + body.size + 4)).first) := by
  have hsmall := hb.small
  obtain ⟨hlt, hle⟩ := h.body_lt
  have hsteps : steps = 2 ^ 32 := rfl
  -- after the node, at depth 0
  have hafter : fdt.Then fdt.siblingScan (o + Items.nameBytes name + body.size + 4) 0
      (found (rest.forest (o + Items.nameBytes name + body.size + 4)).first) := by
    have hend := h.after.fits
    refine Then.items hb h.after (fun hnone => ?_) fun c hc m hm => ?_
    · rw [hnone]
      rcases h.after.nextTag_ends hb with htag | htag
      · refine .end_last htag (by decide) (by omega) fun m hm => ?_
        exact (scan_below (by omega)).2
      · refine .end_tree htag (off_not_neg (by omega)) (by omega) fun m hm => ?_
        obtain ⟨m, rfl⟩ := Nat.exists_eq_add_of_le' (show 1 ≤ m by omega)
        rw [siblingScan, if_neg (by decide)]
        rfl
    · have hin := ((rest.forest_sorted _).1 c (Forest.first_mem hc)).2
      rw [hc]
      exact (scan_found (by omega) (by omega)).2
  have hinside := Then.skip (K := fun _ : Unit => fdt.siblingScan) (fun _ => True) hb
    h.inside (d := 1) (by decide)
    (fun _ p d' hp hlt hd _ => ⟨(), trivial, fun m => by
      have hneg : ¬ (off p).neg = true := off_not_neg (by omega)
      rw [siblingScan, if_pos ⟨hneg, by omega⟩, if_neg (by omega)]⟩)
    (fun _ _ => .end_node (h.nextTag_end_node hb) (by decide) (by omega) (by omega) hafter)
    () trivial
  rw [h.nextNode_eq hb]
  exact hinside steps steps (by omega) (by omega)

/-! ### `fdt_supernode_atdepth_offset` and `fdt_parent_offset` -/

/-- What `fdt_supernode_atdepth_offset` returns of the node at the place and this depth, and the
node's depth. -/
def supernodeOf (p : Forest.Place Nat) (depth : Nat) : FdtInt × Option Int :=
  (found (p.above ++ [p.node])[depth]?, some p.above.length)

section Supernode

variable {above : List Nat} {p : Forest.Place Nat} {s : Nat} {sup : FdtInt}

/-- `supernodeoffset` is the node of the depth `s` that the loop is in, if it is as deep. -/
def Kept (above : List Nat) (s : Nat) (sup : FdtInt) : Prop :=
  ∀ a, above[s]? = some a → sup = off a

/-- The loop at a node up to the one it looks for. -/
theorem supernodeScan_visit {q target : Nat} (hq : q ≤ target) (htarget : target < 2 ^ 31)
    (s d : Int) (sup : FdtInt) (m : Nat) :
    fdt.supernodeScan (off target) s (m + 1) (off q) d sup =
      if q = target then
        .ok (if s > d then -fdtErrNotfound else if d = s then off q else sup, some d)
      else
        fdt.nextNode (off q) (some d) >>= fun x =>
          fdt.supernodeScan (off target) s m x.1 (x.2.getD 0) (if d = s then off q else sup) := by
  have hneg : ¬ (off q).neg = true := off_not_neg (by omega)
  have hint : ∀ {x : Nat}, x < 2 ^ 31 → (off x).toInt = x := by
    intro x hx
    rw [BitVec.toInt_eq_toNat_of_msb (off_neg hx), off_toNat (by omega)]
  have hle : (off q).toInt ≤ (off target).toInt := by
    rw [hint (by omega), hint htarget]
    exact Int.ofNat_le.mpr hq
  have heq : off q = off target ↔ q = target := by
    constructor
    · intro h
      have h := congrArg BitVec.toNat h
      rwa [off_toNat (by omega), off_toNat (by omega)] at h
    · exact congrArg off
  rw [supernodeScan, if_pos ⟨hneg, hle⟩]
  exact if_congr heq rfl rfl

/-- The loop at the node it looks for. -/
theorem supernodeScan_self (hp : p.node < 2 ^ 31) (hkept : Kept p.above s sup) {m : Nat}
    (hm : 1 ≤ m) :
    fdt.supernodeScan (off p.node) s m (off p.node) p.above.length sup = .ok (supernodeOf p s) := by
  obtain ⟨m, rfl⟩ := Nat.exists_eq_add_of_le' hm
  rw [supernodeScan_visit (Nat.le_refl _) hp, if_pos rfl, supernodeOf]
  rcases Nat.lt_trichotomy s p.above.length with hlt | rfl | hlt
  · rw [if_neg (by omega), if_neg (by omega), List.getElem?_append_left hlt,
      hkept _ (List.getElem?_eq_getElem hlt), List.getElem?_eq_getElem hlt]
    rfl
  · rw [if_neg (by omega), if_pos rfl, List.getElem?_concat_length]
    rfl
  · have hlen : (p.above ++ [p.node]).length ≤ s := by
      rw [List.length_append, List.length_singleton]
      omega
    rw [if_pos (by omega), List.getElem?_eq_none hlen]
    rfl

/-- A node keeps `supernodeoffset` right for what stands in it. -/
theorem Kept.enter (h : Kept above s sup) (q : Nat) :
    Kept (above ++ [q]) s (if (above.length : Int) = s then off q else sup) := by
  intro a ha
  rcases Nat.lt_trichotomy s above.length with hlt | rfl | hlt
  · rw [List.getElem?_append_left hlt] at ha
    rw [if_neg (by omega)]
    exact h a ha
  · rw [List.getElem?_concat_length] at ha
    cases ha
    exact if_pos rfl
  · have hlen : (above ++ [q]).length ≤ s := by
      rw [List.length_append, List.length_singleton]
      omega
    rw [List.getElem?_eq_none hlen] at ha
    cases ha

/-- A place in the items is a node's among them. -/
theorem place_bounds (hp : p ∈ (t.forest o).places above) : o ≤ p.node ∧ p.node < o + t.size := by
  refine (t.forest_sorted o).1 _ ?_
  rw [← Forest.places_map_node _ above]
  exact List.mem_map_of_mem hp

/-- The loop at a node that is the one it looks for, or that the one it looks for is in. -/
theorem Holds.supernodeScan_node (hb : fdt.Block) (h : fdt.Holds (.node name body rest) o)
    (hp : p = ⟨o, above, (body.forest (o + Items.nameBytes name)).first, p.sibling⟩ ∨
      p ∈ (body.forest (o + Items.nameBytes name)).places (above ++ [o]))
    (hinside : p ∈ (body.forest (o + Items.nameBytes name)).places (above ++ [o]) →
      ∀ sup, Kept (above ++ [o]) s sup →
        fdt.Then (fun m x d => fdt.supernodeScan (off p.node) s m x d sup)
          (o + Items.nameBytes name) above.length (supernodeOf p s))
    (hkept : Kept above s sup) {m : Nat} (hm : fdt.sizeDtStruct.toNat < o + m) :
    fdt.supernodeScan (off p.node) s m (off o) above.length sup = .ok (supernodeOf p s) := by
  have hsmall := hb.small
  obtain ⟨hlt, hle⟩ := h.body_lt
  rcases hp with hp | hp
  · have hnode : p.node = o := congrArg Forest.Place.node hp
    have habove : p.above = above := congrArg Forest.Place.above hp
    rw [← habove] at hkept ⊢
    rw [← hnode] at hlt hle hm ⊢
    exact supernodeScan_self (by omega) hkept (by omega)
  · have hin := place_bounds hp
    have hpass : ∀ m, fdt.supernodeScan (off p.node) s (m + 1) (off o) above.length sup =
        (fdt.nextNode (off o) (some above.length) >>= fun x =>
          fdt.supernodeScan (off p.node) s m x.1 (x.2.getD 0)
            (if (above.length : Int) = s then off o else sup)) := by
      intro m
      rw [supernodeScan_visit (by omega) (by omega), if_neg (by omega)]
    exact Then.pass (k := fun m x d => fdt.supernodeScan (off p.node) s m x d sup) hb h hpass
      (hinside hp _ (hkept.enter o)) hm

/-- **The loop of `fdt_supernode_atdepth_offset` reaches its node** from the items the node is
among. -/
theorem Holds.supernodeScan_reach (hb : fdt.Block) (h : fdt.Holds t o) (habove : above ≠ [])
    (hp : p ∈ (t.forest o).places above) :
    ∀ sup, Kept above s sup →
      fdt.Then (fun m x d => fdt.supernodeScan (off p.node) s m x d sup) o (above.length - 1)
        (supernodeOf p s) := by
  have hsmall := hb.small
  induction t generalizing o above with
  | nil => cases hp
  | nop rest ih =>
    intro sup hkept
    have hle := h.nop.fits
    exact .tag (h.nextTag_nop hb) (Or.inl rfl) (by omega) (by omega)
      (ih h.nop habove hp sup hkept)
  | prop len rest ih =>
    intro sup hkept
    have hle := h.prop.fits
    have hlen := Items.propBytes_pos len
    exact .tag (h.nextTag_prop hb) (Or.inr rfl) (by omega) (by omega)
      (ih h.prop habove hp sup hkept)
  | node name body rest ihb ihr =>
    intro sup hkept
    obtain ⟨hlt, hle⟩ := h.body_lt
    refine .begin_node (h.nextTag_node hb) (by omega) fun m hm => ?_
    rw [Int.sub_add_cancel]
    have hinside : p ∈ (body.forest (o + Items.nameBytes name)).places (above ++ [o]) →
        ∀ sup, Kept (above ++ [o]) s sup →
          fdt.Then (fun m x d => fdt.supernodeScan (off p.node) s m x d sup)
            (o + Items.nameBytes name) above.length (supernodeOf p s) := by
      intro hp sup hkept
      have hthen := ihb h.inside (by simp) hp sup hkept
      rwa [List.length_append, List.length_singleton, Int.natCast_add, Int.natCast_one,
        Int.add_sub_cancel] at hthen
    rcases Forest.mem_places_node.mp hp with rfl | hp | hp
    · exact h.supernodeScan_node hb (Or.inl rfl) hinside hkept hm
    · exact h.supernodeScan_node hb (Or.inr hp) hinside hkept hm
    · -- the loop passes over the node and what stands in it
      have hbounds := place_bounds hp
      have hfits := h.after.fits
      have hpos : 0 < above.length := List.length_pos_iff.mpr habove
      have hvisit : ∀ sup q d', q < o + Items.nameBytes name + body.size →
          (above.length : Int) ≤ d' → Kept above s sup → ∃ sup', Kept above s sup' ∧
          ∀ m, fdt.supernodeScan (off p.node) s (m + 1) (off q) d' sup =
            (fdt.nextNode (off q) (some d') >>= fun x =>
              fdt.supernodeScan (off p.node) s m x.1 (x.2.getD 0) sup') := by
        intro sup q d' hq hd hkept
        refine ⟨if d' = s then off q else sup, fun a ha => ?_, fun m => ?_⟩
        · obtain ⟨hs, -⟩ := List.getElem?_eq_some_iff.mp ha
          rw [if_neg (by omega)]
          exact hkept a ha
        · rw [supernodeScan_visit (by omega) (by omega), if_neg (by omega)]
      obtain ⟨sup', hkept', hpass⟩ :=
        hvisit sup o above.length (by omega) (Int.le_refl _) hkept
      have hbody := Then.skip (K := fun sup m x d => fdt.supernodeScan (off p.node) s m x d sup)
        (r := supernodeOf p s) (Kept above s) hb h.inside (d := above.length) (by omega)
        (fun sup q d' _ hq hd hkept => hvisit sup q d' hq (by omega) hkept)
        (fun sup hkept => .end_node (h.nextTag_end_node hb) (by omega) (by omega) (by omega)
          (ihr h.after habove hp sup hkept)) sup' hkept'
      exact Then.pass (k := fun m x d => fdt.supernodeScan (off p.node) s m x d sup) hb h hpass
        hbody hm

end Supernode

/-! ### The calls -/

section Calls

variable {tree : Tree} {p : Forest.Place Nat}

theorem WellFormed.checkHeader_eq (h : fdt.WellFormed tree) : fdt.checkHeader = 0 := by
  have hcompatible : ¬ fdt.lastCompVersion > fdtLastSupportedVersion :=
    Nat.not_lt_of_le h.compatible
  rw [checkHeader, if_pos h.magic, h.version, if_neg (by decide), if_neg hcompatible]

theorem WellFormed.holdsItems (h : fdt.WellFormed tree) : fdt.Holds tree.items 0 := by
  refine ⟨h.holds, Nat.dvd_zero 4, ?_, ?_⟩
  · rw [Nat.zero_add]
    exact h.fits
  · rw [Nat.zero_add]
    exact Or.inr h.stop

/-- `fdt_subnode` returns the first child. -/
theorem WellFormed.subnode_eq (h : fdt.WellFormed tree) (hp : p ∈ tree.places) :
    fdt.subnode (off p.node) = .ok (found p.child) := by
  obtain ⟨name, body, rest, hholds, hchild, -⟩ := h.holdsItems.place hp
  have hsmall := h.small
  have hsteps : steps = 2 ^ 32 := rfl
  rw [subnode, if_neg (not_not.mpr h.checkHeader_eq), hchild]
  exact hholds.subnodeScan_eq h.toBlock (by omega)

/-- `fdt_sibling` returns the next sibling. -/
theorem WellFormed.sibling_eq (h : fdt.WellFormed tree) (hp : p ∈ tree.places) :
    fdt.sibling (off p.node) = .ok (found p.sibling) := by
  obtain ⟨name, body, rest, hholds, -, hsibling⟩ := h.holdsItems.place hp
  rw [sibling, if_neg (not_not.mpr h.checkHeader_eq), hsibling]
  exact hholds.siblingScan_eq h.toBlock

/-- `fdt_supernode_atdepth_offset` returns the node of the depth that its node is in. -/
theorem WellFormed.supernode_eq (h : fdt.WellFormed tree) (hp : p ∈ tree.places) (s : Nat) :
    fdt.supernodeAtdepthOffset (off p.node) s = .ok (supernodeOf p s) := by
  have hsmall := h.small
  have hholds := h.holdsItems
  have hsteps : steps = 2 ^ 32 := rfl
  have hkept : Kept [] s (-fdtErrInternal) := nofun
  have hinside : ∀ {p}, p ∈ (tree.body.forest (0 + Items.nameBytes tree.name)).places ([] ++ [0]) →
      ∀ sup, Kept ([] ++ [0]) s sup →
        fdt.Then (fun m x d => fdt.supernodeScan (off p.node) s m x d sup)
          (0 + Items.nameBytes tree.name) 0 (supernodeOf p s) := by
    intro p hp sup hkept
    exact hholds.inside.supernodeScan_reach h.toBlock (by simp) hp sup hkept
  rw [supernodeAtdepthOffset, if_neg (not_not.mpr h.checkHeader_eq), if_neg (by omega)]
  rcases Forest.mem_places_node.mp hp with rfl | hp | hp
  · exact hholds.supernodeScan_node h.toBlock (Or.inl rfl) hinside hkept (by omega)
  · exact hholds.supernodeScan_node h.toBlock (Or.inr hp) hinside hkept (by omega)
  · rw [Items.nops_forest] at hp
    cases hp

/-- Every node is in the root, or is the root. -/
theorem root_above (hp : p ∈ tree.places) : (p.above ++ [p.node])[0]? = some 0 := by
  rcases Forest.mem_places_node.mp hp with rfl | hp | hp
  · rfl
  · obtain ⟨above, habove⟩ := Forest.above_prefix hp
    rw [← habove]
    rfl
  · rw [Items.nops_forest] at hp
    cases hp

theorem WellFormed.nodeDepth_eq (h : fdt.WellFormed tree) (hp : p ∈ tree.places) :
    fdt.nodeDepth (off p.node) = .ok p.above.length := by
  have hroot := h.supernode_eq hp 0
  rw [supernodeOf, root_above hp] at hroot
  have hroot : fdt.supernodeAtdepthOffset (off p.node) 0 =
      .ok (0, some (p.above.length : Int)) := hroot
  rw [nodeDepth, hroot]
  rfl

/-- `fdt_parent_offset` returns the parent. -/
theorem WellFormed.parentOffset_eq (h : fdt.WellFormed tree) (hp : p ∈ tree.places) :
    fdt.parentOffset (off p.node) = .ok (found p.parent) := by
  have hdepth : ¬ (p.above.length : Int) < 0 := by omega
  have hsuper : fdt.parentOffset (off p.node) =
      (fdt.supernodeAtdepthOffset (off p.node) (p.above.length - 1) >>= fun x => .ok x.1) := by
    rw [parentOffset, h.nodeDepth_eq hp, ok_bind, if_neg hdepth]
    rfl
  rw [hsuper, Forest.Place.parent]
  rcases List.eq_nil_or_concat p.above with hnil | ⟨above, a, hcat⟩
  · rw [hnil, supernodeAtdepthOffset, if_neg (not_not.mpr h.checkHeader_eq), if_pos (by decide)]
    rfl
  · rw [List.concat_eq_append] at hcat
    have hlen : ((p.above.length : Int) - 1) = above.length := by
      rw [hcat, List.length_append, List.length_singleton]
      omega
    have hlast : (p.above ++ [p.node])[above.length]? = p.above.getLast? := by
      rw [hcat, List.append_assoc, List.getElem?_append_right (Nat.le_refl _), Nat.sub_self,
        List.getLast?_concat]
      rfl
    rw [hlen, h.supernode_eq hp, supernodeOf, hlast]
    rfl

end Calls

end Fdt

end Prephv
