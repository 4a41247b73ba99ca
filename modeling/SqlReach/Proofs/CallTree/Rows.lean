import SqlReach.Proofs.CallTree.Walk

/-!
# The rows of a call tree

The rows of a tree are what a listing shows of it: depths, names and flags in the order
of the walk, and nothing of the nesting itself.  The nesting is in the depths.  This
module proves that the walk meets the rows of the recursive description, and that the
tree can be put together from them again, so no two trees have the same rows.
-/

namespace SqlReach.CallTree

mutual

theorem map_row_visitsFrom (parent : Option CallTree) (depth : Nat) (tree : CallTree) :
    (visitsFrom parent depth tree).map (·.row) = rowsFrom depth tree := by
  cases tree with
  | node name usesSql children =>
      rw [visitsFrom, List.map_cons, map_row_visitsFromAll, rowsFrom]
      rfl

theorem map_row_visitsFromAll (parent : CallTree) (depth : Nat) (trees : List CallTree) :
    (visitsFromAll parent depth trees).map (·.row) = rowsFromAll depth trees := by
  cases trees with
  | nil => rfl
  | cons tree trees =>
      rw [visitsFromAll, List.map_append, map_row_visitsFrom, map_row_visitsFromAll, rowsFromAll]

end

theorem rows_eq_rowsFrom (tree : CallTree) : tree.rows = rowsFrom 0 tree := by
  rw [rows, walk_eq_visitsFrom, map_row_visitsFrom]

/-! ## From the rows back to the tree -/

/-- What has been put together does not begin with a tree that is deeper than `depth`,
so a row of this depth takes none of it as a child. -/
def EndsAt (depth : Nat) (planted : List (Nat × CallTree)) : Prop :=
  ∀ first ∈ planted.head?, first.1 ≤ depth

/-- A row takes the trees one level deeper as its children, and nothing behind them. -/
theorem plant_append (row : Row) (children : List CallTree) {planted : List (Nat × CallTree)}
    (hends : EndsAt row.depth planted) :
    plant row (children.map (row.depth + 1, ·) ++ planted) =
      (row.depth, node row.name row.usesSql children) :: planted := by
  have hdeeper : ∀ entry ∈ children.map (row.depth + 1, ·),
      decide (row.depth < entry.1) = true := by
    intro entry hentry
    obtain ⟨child, -, rfl⟩ := List.mem_map.mp hentry
    exact decide_eq_true (Nat.lt_succ_self row.depth)
  have hplanted : planted.takeWhile (row.depth < ·.1) = [] ∧
      planted.dropWhile (row.depth < ·.1) = planted := by
    cases planted with
    | nil => exact ⟨rfl, rfl⟩
    | cons first rest =>
        have hfirst : ¬ row.depth < first.1 := Nat.not_lt.mpr (hends first rfl)
        simp [hfirst]
  rw [plant, List.takeWhile_append_of_pos hdeeper, List.dropWhile_append_of_pos hdeeper,
    hplanted.1, hplanted.2, List.append_nil, List.map_map]
  simp [Function.comp_def]

mutual

/-- The rows of a tree are put together to that tree, whatever stands behind them. -/
theorem foldr_plant_rowsFrom (depth : Nat) (tree : CallTree) {planted : List (Nat × CallTree)}
    (hends : EndsAt depth planted) :
    (rowsFrom depth tree).foldr plant planted = (depth, tree) :: planted := by
  cases tree with
  | node name usesSql children =>
      have hdeeper : EndsAt (depth + 1) planted :=
        fun first hfirst => Nat.le_succ_of_le (hends first hfirst)
      rw [rowsFrom, List.foldr_cons, foldr_plant_rowsFromAll (depth + 1) children hdeeper]
      exact plant_append ⟨depth, name, usesSql⟩ children hends

theorem foldr_plant_rowsFromAll (depth : Nat) (trees : List CallTree)
    {planted : List (Nat × CallTree)} (hends : EndsAt depth planted) :
    (rowsFromAll depth trees).foldr plant planted = trees.map (depth, ·) ++ planted := by
  cases trees with
  | nil => rfl
  | cons tree trees =>
      -- The next sibling is no deeper than this tree, which therefore leaves it alone.
      have hrest : EndsAt depth (trees.map (depth, ·) ++ planted) := by
        cases trees with
        | nil => exact hends
        | cons next trees =>
            rintro first ⟨⟩
            exact Nat.le_refl depth
      rw [rowsFromAll, List.foldr_append, foldr_plant_rowsFromAll depth trees hends,
        foldr_plant_rowsFrom depth tree hrest]
      rfl

end

/-- A tree can be recovered from its rows. -/
theorem ofRows?_rows (tree : CallTree) : ofRows? tree.rows = some tree := by
  have hends : EndsAt 0 [] := fun first hfirst => by cases hfirst
  rw [ofRows?, rows_eq_rowsFrom, foldr_plant_rowsFrom 0 tree hends]
  rfl

end SqlReach.CallTree
