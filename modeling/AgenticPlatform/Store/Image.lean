import AgenticPlatform.Store.Listing
import Mathlib.Data.List.Perm.Basic

/-! A table that holds an image of every row of another one, and what a query may list of it: the
rows that it selects, sorted, in any order of those that the sorting does not tell apart. -/
namespace Store

section
variable {κ α β : Type} [Keyed κ α] [Keyed κ β] {f : α → β} {k : κ} {r : α}

/-- The table of the images, where an image has the key of its row. -/
def Table.image (f : α → β) (same : ∀ r : α, (key (f r) : κ) = key r) (t : Table κ α) :
    Table κ β where
  rows := t.rows.map f
  distinct := by
    have keys : (t.rows.map f).map key = (t.rows.map key : List κ) := by
      rw [List.map_map]
      exact List.map_congr_left fun r _ => same r
    rw [keys]
    exact t.distinct

variable {same : ∀ r : α, (key (f r) : κ) = key r} {t : Table κ α} [DecidableEq κ]

theorem putRow_image (same : ∀ r : α, (key (f r) : κ) = key r) {rows : List α} :
    putRow (κ := κ) (f r) (rows.map f) = (putRow (κ := κ) r rows).map f := by
  induction rows with
  | nil => rfl
  | cons x rest ih =>
      rw [List.map_cons, putRow, putRow, same, same, ih]
      split
      · rfl
      · rfl

omit [DecidableEq κ] in
theorem Table.eq_of_rows {t u : Table κ β} (rows : t.rows = u.rows) : t = u := by
  cases t
  cases u
  cases rows
  rfl

theorem Table.image_put : (t.put r).image f same = (t.image f same).put (f r) :=
  Table.eq_of_rows (putRow_image same).symm

theorem Table.get_image : (t.image f same).get k = (t.get k).map f := by
  rw [Table.get, Table.get, Table.image, List.find?_map]
  congr 2
  funext r
  exact congrArg (fun j => decide (j = k)) (same r)

end

section
variable {α β : Type}

/-- The rows, in an order in which no row comes before one that is to come before it. -/
def Arranged (before : α → α → Prop) (rows order : List α) : Prop :=
  order.Perm rows ∧ order.Pairwise before

variable {before : α → α → Prop} {rows order : List α} {p : α → Bool} {time : α → ℕ}

theorem arranged_newestFirst : Arranged (fun a b => time b ≤ time a) rows (newestFirst time rows) :=
  ⟨List.perm_insertionSort _ _, newestFirst_sorted⟩

theorem arranged_sortedBy {κ : Type} [Keyed κ α] {t : Table κ α} :
    Arranged (fun a b => time a ≤ time b) (t.rows.filter p) (t.sortedBy p time) :=
  haveI : Std.Total (fun a b : α => time a ≤ time b) := ⟨fun _ _ => Nat.le_total _ _⟩
  haveI : IsTrans α (fun a b => time a ≤ time b) := ⟨fun _ _ _ => Nat.le_trans⟩
  ⟨List.perm_insertionSort _ _, List.pairwise_insertionSort _ _⟩

/-- A permutation of images is the image of a permutation. -/
theorem exists_perm_of_perm_map {f : α → β} {images : List β} (perm : images.Perm (rows.map f)) :
    ∃ order : List α, order.Perm rows ∧ images = order.map f := by
  have paired : List.Forall₂ (fun b a => b = f a) (rows.map f) rows :=
    List.forall₂_map_left_iff.mpr (List.forall₂_same.mpr fun _ _ => rfl)
  obtain ⟨order, inOrder, perm'⟩ := List.perm_comp_forall₂ perm paired
  exact ⟨order, perm', List.forall₂_eq_eq_eq ▸ List.forall₂_map_right_iff.mpr inOrder⟩

/-- The images in an order are the image of the rows in an order. -/
theorem Arranged.of_map {f : α → β} {before' : β → β → Prop} {images : List β}
    (arranged : Arranged before' (rows.map f) images)
    (kept : ∀ a b, before' (f a) (f b) → before a b) : ∃ order, Arranged before rows order ∧
      images = order.map f := by
  obtain ⟨order, perm, rfl⟩ := exists_perm_of_perm_map arranged.1
  exact ⟨order, ⟨perm, (List.pairwise_map.mp arranged.2).imp (kept _ _)⟩, rfl⟩

/-- Two listings, cut after the same number of rows, that differ in the order of the rows that the
sorting does not tell apart. -/
def UpToTies (before : α → α → Prop) (rows : List α) (limit : Option Nat)
    (listed listed' : List α) : Prop :=
  ∃ order order', Arranged before rows order ∧ Arranged before rows order' ∧
    listed = limit.elim order order.take ∧ listed' = limit.elim order' order'.take

end
end Store
