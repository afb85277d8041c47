import Mathlib.Data.List.Basic

/-!
# Lib — Forests

Ordered forests, a node with its first child and its next sibling, and the walk over one by someone
who only has those two steps: after a node its first child, and after a subtree the sibling of the
subtree's root.

`places` lists each node with what surrounds it.  When the two steps go where `places` says, from
every node, the walk visits the nodes in preorder (`walk_first`).
-/

set_option autoImplicit false

/-- An ordered forest. -/
inductive Forest (α : Type) where
  | nil
  | node (a : α) (children rest : Forest α)

namespace Forest

variable {α β ε : Type}

/-! ### Nodes and their places -/

/-- The first root. -/
def first : Forest α → Option α
  | nil => none
  | node a _ _ => some a

/-- The nodes in preorder. -/
def preorder : Forest α → List α
  | nil => []
  | node a children rest => a :: (children.preorder ++ rest.preorder)

theorem first_mem {f : Forest α} {a : α} (h : f.first = some a) : a ∈ f.preorder := by
  cases f with
  | nil => cases h
  | node b children rest =>
    cases h
    exact List.mem_cons_self

/-- A node, the nodes it lies under (the outermost first), its first child and its next sibling. -/
structure Place (α : Type) where
  node : α
  above : List α
  child : Option α
  sibling : Option α

/-- The node's parent. -/
def Place.parent (p : Place α) : Option α := p.above.getLast?

/-- The places of a forest under the nodes `above`, in preorder. -/
def places (above : List α) : Forest α → List (Place α)
  | nil => []
  | node a children rest =>
    ⟨a, above, children.first, rest.first⟩ ::
      (children.places (above ++ [a]) ++ rest.places above)

/-- A place of the forest is the first node's, or one below it or after it. -/
theorem mem_places_node {above : List α} {a : α} {children rest : Forest α} {p : Place α} :
    p ∈ (node a children rest).places above ↔
      p = ⟨a, above, children.first, rest.first⟩ ∨ p ∈ children.places (above ++ [a]) ∨
        p ∈ rest.places above := by
  rw [places, List.mem_cons, List.mem_append]

theorem places_map_node (f : Forest α) (above : List α) :
    (f.places above).map Place.node = f.preorder := by
  induction f generalizing above with
  | nil => rfl
  | node a children rest ihc ihr =>
    rw [places, preorder, List.map_cons, List.map_append, ihc, ihr]

/-- What surrounds a node are nodes of the forest, or what the forest lies under. -/
theorem place_mem {f : Forest α} {above : List α} {p : Place α} (hp : p ∈ f.places above) :
    p.node ∈ f.preorder ∧ (∀ a ∈ p.child, a ∈ f.preorder) ∧ (∀ a ∈ p.sibling, a ∈ f.preorder) ∧
      ∀ a ∈ p.above, a ∈ above ∨ a ∈ f.preorder := by
  induction f generalizing above with
  | nil => cases hp
  | node b children rest ihc ihr =>
    simp only [preorder, List.mem_cons, List.mem_append]
    rcases mem_places_node.mp hp with rfl | hp | hp
    · exact ⟨Or.inl rfl, fun a ha => Or.inr (Or.inl (first_mem ha)),
        fun a ha => Or.inr (Or.inr (first_mem ha)), fun a ha => Or.inl ha⟩
    · obtain ⟨hnode, hchild, hsibling, habove⟩ := ihc hp
      refine ⟨Or.inr (Or.inl hnode), fun a ha => Or.inr (Or.inl (hchild a ha)),
        fun a ha => Or.inr (Or.inl (hsibling a ha)), fun a ha => ?_⟩
      rcases habove a ha with hin | hin
      · rcases List.mem_append.mp hin with hin | hin
        · exact Or.inl hin
        · exact Or.inr (Or.inl (List.mem_singleton.mp hin))
      · exact Or.inr (Or.inr (Or.inl hin))
    · obtain ⟨hnode, hchild, hsibling, habove⟩ := ihr hp
      exact ⟨Or.inr (Or.inr hnode), fun a ha => Or.inr (Or.inr (hchild a ha)),
        fun a ha => Or.inr (Or.inr (hsibling a ha)),
        fun a ha => (habove a ha).imp_right fun hin => Or.inr (Or.inr hin)⟩

/-- A node lies under the nodes its forest lies under. -/
theorem above_prefix {f : Forest α} {above : List α} {p : Place α} (hp : p ∈ f.places above) :
    above <+: p.above := by
  induction f generalizing above with
  | nil => cases hp
  | node a children rest ihc ihr =>
    rcases mem_places_node.mp hp with rfl | hp | hp
    · exact List.prefix_rfl
    · exact (List.prefix_append above [a]).trans (ihc hp)
    · exact ihr hp

/-- In a tree, only the root has no parent. -/
theorem parent_eq_none {a : α} {children : Forest α} {p : Place α}
    (hp : p ∈ (node a children nil).places []) (hparent : p.parent = none) : p.node = a := by
  rcases mem_places_node.mp hp with rfl | hp | hp
  · rfl
  · have hpre := above_prefix hp
    rw [List.getLast?_eq_none_iff.mp hparent] at hpre
    cases List.prefix_nil.mp hpre
  · cases hp

/-! ### The walk -/

/-- The nodes from `a` on, by its first child and its next sibling, with `out` when it takes more
than `n` nodes one below or after another. -/
def walk (out : ε) (child sibling : β → Except ε (Option β)) :
    Nat → Option β → Except ε (List β)
  | _, none => .ok []
  | 0, some _ => .error out
  | n + 1, some a => do
    let below ← walk out child sibling n (← child a)
    let after ← walk out child sibling n (← sibling a)
    return a :: (below ++ after)

/-- **The walk is the preorder**, where the steps go as in the forest. -/
theorem walk_first {out : ε} {child sibling : β → Except ε (Option β)} {g : α → β}
    {f : Forest α} {above : List α} {n : Nat}
    (hchild : ∀ p ∈ f.places above, child (g p.node) = .ok (p.child.map g))
    (hsibling : ∀ p ∈ f.places above, sibling (g p.node) = .ok (p.sibling.map g))
    (hn : f.preorder.length ≤ n) :
    walk out child sibling n (f.first.map g) = .ok (f.preorder.map g) := by
  induction f generalizing above n with
  | nil => rw [first, Option.map_none, walk, preorder, List.map_nil]
  | node a children rest ihc ihr =>
    simp only [mem_places_node, or_imp, forall_and, forall_eq] at hchild hsibling
    obtain ⟨hc, hcc, hcr⟩ := hchild
    obtain ⟨hs, hsc, hsr⟩ := hsibling
    rw [preorder, List.length_cons, List.length_append] at hn
    obtain ⟨n, rfl⟩ := Nat.exists_eq_add_of_le' (show 1 ≤ n by omega)
    have hbelow := ihc hcc hsc (show children.preorder.length ≤ n by omega)
    have hafter := ihr hcr hsr (show rest.preorder.length ≤ n by omega)
    rw [first, Option.map_some, walk, hc, hs, preorder, List.map_cons, List.map_append]
    simp only [bind, Except.bind, pure, Except.pure, hbelow, hafter]

end Forest
