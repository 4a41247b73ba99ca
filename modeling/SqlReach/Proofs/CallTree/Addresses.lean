import Mathlib.Data.List.Forall2
import Mathlib.Data.List.Lex
import SqlReach.Proofs.CallTree.Rows

/-!
# The addresses in a call tree

A node can occur in a tree more than once, and then neither its name nor the tree below
it tells the occurrences apart.  Its address does: the way down to it from the root, as
the list of the children to take.  What stands above a node and how deep it stands can be
read off its address, and in lexicographic order the addresses come in the order of the
walk, since an address is smaller than those below it and an earlier child has smaller
addresses than a later one.  This module proves that the walk goes through the addresses
of the tree in that order, without leaving one out.
-/

namespace SqlReach.CallTree

/-- The node at an address, if the address does not lead out of the tree. -/
def nodeAt? (tree : CallTree) : List Nat → Option CallTree
  | [] => some tree
  | index :: address => tree.children[index]?.bind fun child => child.nodeAt? address

/-- The visit that belongs to an address in a tree whose root stands under `above`, at a
given depth. -/
structure IsVisitAt (above : Option CallTree) (depth : Nat) (tree : CallTree)
    (address : List Nat) (visit : Visit) : Prop where
  tree_eq : tree.nodeAt? address = some visit.tree
  parent_eq : visit.parent = if address = [] then above else tree.nodeAt? address.dropLast
  depth_eq : visit.depth = depth + address.length

mutual

/-- The addresses of all nodes of a tree, a node before its children and the children
from left to right. -/
def addresses : CallTree → List (List Nat)
  | node _ _ children => [] :: addressesFrom 0 children

/-- The addresses in sibling trees, of which the leftmost one is child number `first`. -/
def addressesFrom (first : Nat) : List CallTree → List (List Nat)
  | [] => []
  | tree :: trees => (addresses tree).map (first :: ·) ++ addressesFrom (first + 1) trees

end

/-! ## Which addresses there are -/

theorem mem_addressesFrom {first : Nat} {trees : List CallTree} {address : List Nat} :
    address ∈ addressesFrom first trees ↔
      ∃ index child rest, address = (first + index) :: rest ∧ trees[index]? = some child ∧
        rest ∈ child.addresses := by
  induction trees generalizing first with
  | nil => simp [addressesFrom]
  | cons tree trees ih =>
      rw [addressesFrom, List.mem_append, List.mem_map, ih]
      constructor
      · rintro (⟨rest, hrest, rfl⟩ | ⟨index, child, rest, rfl, hchild, hrest⟩)
        · exact ⟨0, tree, rest, rfl, rfl, hrest⟩
        · refine ⟨index + 1, child, rest, ?_, hchild, hrest⟩
          rw [Nat.add_assoc, Nat.add_comm 1]
      · rintro ⟨index, child, rest, rfl, hchild, hrest⟩
        cases index with
        | zero =>
            obtain rfl : tree = child := Option.some.inj hchild
            exact Or.inl ⟨rest, hrest, rfl⟩
        | succ index =>
            refine Or.inr ⟨index, child, rest, ?_, hchild, hrest⟩
            rw [Nat.add_assoc, Nat.add_comm 1]

theorem mem_addresses_iff {tree : CallTree} {address : List Nat} :
    address ∈ tree.addresses ↔ (tree.nodeAt? address).isSome = true := by
  induction address generalizing tree with
  | nil =>
      cases tree with
      | node name usesSql children => simp [addresses, nodeAt?]
  | cons index address ih =>
      cases tree with
      | node name usesSql children =>
          rw [addresses, List.mem_cons, or_iff_right (List.cons_ne_nil index address),
            mem_addressesFrom, nodeAt?, CallTree.children]
          cases hchild : children[index]? with
          | none => simp [hchild]
          | some child => simp [hchild, ih]

/-! ## The order of the addresses -/

mutual

theorem pairwise_addresses (tree : CallTree) : tree.addresses.Pairwise (· < ·) := by
  cases tree with
  | node name usesSql children =>
      rw [addresses, List.pairwise_cons]
      refine ⟨?_, pairwise_addressesFrom 0 children⟩
      intro address haddress
      obtain ⟨index, -, rest, rfl, -⟩ := mem_addressesFrom.mp haddress
      exact List.nil_lt_cons (0 + index) rest

theorem pairwise_addressesFrom (first : Nat) (trees : List CallTree) :
    (addressesFrom first trees).Pairwise (· < ·) := by
  cases trees with
  | nil => exact List.Pairwise.nil
  | cons tree trees =>
      rw [addressesFrom, List.pairwise_append]
      refine ⟨?_, pairwise_addressesFrom (first + 1) trees, ?_⟩
      · rw [List.pairwise_map]
        exact (pairwise_addresses tree).imp
          fun hless => List.cons_lt_cons_iff.mpr (Or.inr ⟨rfl, hless⟩)
      · intro left hleft right hright
        obtain ⟨rest, -, rfl⟩ := List.mem_map.mp hleft
        obtain ⟨index, -, later, rfl, -⟩ := mem_addressesFrom.mp hright
        exact List.cons_lt_cons_iff.mpr (Or.inl (by omega))

end

/-! ## The walk along the addresses -/

/-- What is visited at an address in a child is visited in the whole tree at that address
with the number of the child in front. -/
theorem IsVisitAt.cons {above : Option CallTree} {depth index : Nat} {tree child : CallTree}
    {address : List Nat} {visit : Visit} (hchild : tree.children[index]? = some child)
    (hvisit : IsVisitAt (some tree) (depth + 1) child address visit) :
    IsVisitAt above depth tree (index :: address) visit where
  tree_eq := by rw [nodeAt?, hchild, Option.bind_some, hvisit.tree_eq]
  parent_eq := by
    rw [hvisit.parent_eq, if_neg (List.cons_ne_nil index address)]
    cases address with
    | nil => rfl
    | cons next rest =>
        rw [if_neg (List.cons_ne_nil next rest), List.dropLast_cons_cons, nodeAt?, hchild,
          Option.bind_some]
  depth_eq := by
    rw [hvisit.depth_eq, List.length_cons]
    omega

mutual

theorem forall₂_visitsFrom (above : Option CallTree) (depth : Nat) (tree : CallTree) :
    List.Forall₂ (IsVisitAt above depth tree) tree.addresses (visitsFrom above depth tree) := by
  cases tree with
  | node name usesSql children =>
      rw [addresses, visitsFrom]
      refine List.Forall₂.cons ⟨rfl, rfl, rfl⟩ ?_
      apply forall₂_visitsFromAll
      intro index child hchild
      rwa [Nat.zero_add]

/-- The siblings are the children of a tree from number `first` on. -/
theorem forall₂_visitsFromAll (above : Option CallTree) (depth : Nat) (parent : CallTree)
    (first : Nat) (trees : List CallTree)
    (hchildren : ∀ index child, trees[index]? = some child →
      parent.children[first + index]? = some child) :
    List.Forall₂ (IsVisitAt above depth parent) (addressesFrom first trees)
      (visitsFromAll parent (depth + 1) trees) := by
  cases trees with
  | nil => exact List.Forall₂.nil
  | cons tree trees =>
      have hfirst : parent.children[first]? = some tree := hchildren 0 tree rfl
      rw [addressesFrom, visitsFromAll]
      apply List.rel_append
      · rw [List.forall₂_map_left_iff]
        exact (forall₂_visitsFrom (some parent) (depth + 1) tree).imp
          fun address visit hvisit => hvisit.cons hfirst
      · apply forall₂_visitsFromAll
        intro index child hchild
        rw [Nat.add_assoc, Nat.add_comm 1]
        exact hchildren (index + 1) child hchild

end

/-- The walk visits every address of a tree once, in lexicographic order, which puts a
node in front of its children and the children from left to right.  It meets there the
node at the address, under the one that the shortened address leads to and under none at
the root, and as deep as the address is long.  Its rows are those of the recursive
description, no other tree has them, and the search for SQL, which takes the nodes in an
order of its own and stops early, says whether one of them is flagged. -/
theorem walk_visits_addresses (tree : CallTree) :
    (tree.addresses.Pairwise (· < ·) ∧
      (∀ address, address ∈ tree.addresses ↔ (tree.nodeAt? address).isSome = true) ∧
      List.Forall₂ (IsVisitAt none 0 tree) tree.addresses tree.walk) ∧
    (tree.rows = rowsFrom 0 tree ∧ ofRows? tree.rows = some tree ∧
      ∀ other : CallTree, other.rows = tree.rows ↔ other = tree) ∧
    (tree.containsSql = true ↔ ∃ row ∈ tree.rows, row.usesSql = true) := by
  refine ⟨⟨pairwise_addresses tree, fun address => mem_addresses_iff, ?_⟩,
    ⟨rows_eq_rowsFrom tree, ofRows?_rows tree, ?_⟩, ?_⟩
  · rw [walk_eq_visitsFrom]
    exact forall₂_visitsFrom none 0 tree
  · intro other
    constructor
    · intro hrows
      have hread := ofRows?_rows other
      rw [hrows, ofRows?_rows] at hread
      exact (Option.some.inj hread).symm
    · rintro rfl
      rfl
  · rw [containsSql_iff, ← map_tree_walk, rows]
    simp only [List.mem_map, exists_exists_and_eq_and, Visit.row]

end SqlReach.CallTree
