import AgenticPlatform.Counting.Grouped

/-! The items of a list in buckets by a key: every item is in the bucket of its key, and in no other
one. -/
namespace Counting
variable {α κ : Type} [DecidableEq κ] {key : α → κ} {keys : List κ} {xs : List α} {k : κ} {x : α}

/-- The items of a key, in their order. -/
def bucketOf (key : α → κ) (k : κ) (xs : List α) : List α := xs.filter fun x => key x = k

/-- A loop that pushes every item onto the list of its key. -/
def buckets (key : α → κ) (xs : List α) : Grouped κ (List α) :=
  Grouped.gather [] (fun items x => items ++ [x]) (xs.map fun x => (key x, x))

@[simp] theorem mem_bucketOf : x ∈ bucketOf key k xs ↔ x ∈ xs ∧ key x = k := by
  rw [bucketOf, List.mem_filter, decide_eq_true_eq]

theorem keys_buckets : (buckets key xs).keys = distinct (xs.map key) := by
  rw [buckets, Grouped.keys_gather, List.map_map]
  rfl

/-- A bucket holds the items of its key; there is none for a key that does not occur. -/
theorem get_buckets : (Grouped.get? k (buckets key xs)).getD [] = bucketOf key k xs := by
  have pushed (items : List α) : items.foldl (fun items x => items ++ [x]) [] = items := by
    refine (foldl_collects (m := id) (c := fun x => [x]) fun _ _ => rfl).trans ?_
    exact List.flatMap_singleton' items
  rw [buckets, Grouped.get?_gather, pushed, List.filter_map, List.map_map]
  exact List.map_id _

theorem bucketOf_eq_nil : bucketOf key k xs = [] ↔ k ∉ xs.map key := by
  rw [bucketOf, List.filter_eq_nil_iff, List.mem_map]
  simp

/-- The buckets of all keys hold every item once. -/
theorem flatMap_bucketOf_perm (distinct : keys.Nodup) (known : ∀ x ∈ xs, key x ∈ keys) :
    (keys.flatMap fun k => bucketOf key k xs).Perm xs := by
  induction keys generalizing xs with
  | nil =>
      have none : xs = [] := List.eq_nil_iff_forall_not_mem.mpr fun x member => List.not_mem_nil
        (known x member)
      rw [none]
      exact .nil
  | cons k rest ih =>
      obtain ⟨fresh, later⟩ := List.nodup_cons.mp distinct
      -- the other buckets are those of the items that are left
      have others : (rest.flatMap fun j => bucketOf key j xs) =
          rest.flatMap fun j => bucketOf key j (xs.filter fun x => !decide (key x = k)) := by
        refine List.flatMap_congr fun j member => ?_
        rw [bucketOf, bucketOf, List.filter_filter]
        refine List.filter_congr fun x _ => ?_
        by_cases same : key x = j
        · have apart : key x ≠ k := fun eq => fresh (eq.symm.trans same ▸ member)
          simp [same, same ▸ apart]
        · simp [same]
      have left : ∀ x ∈ xs.filter (fun x => !decide (key x = k)), key x ∈ rest := by
        intro x member
        obtain ⟨there, apart⟩ := List.mem_filter.mp member
        refine (List.mem_cons.mp (known x there)).resolve_left fun same => ?_
        simp [same] at apart
      rw [List.flatMap_cons, others]
      exact ((ih later left).append_left _).trans (List.filter_append_perm _ xs)

/-- The sizes of the buckets of all keys add up. -/
theorem sum_length_bucketOf (distinct : keys.Nodup) (known : ∀ x ∈ xs, key x ∈ keys) :
    (keys.map fun k => (bucketOf key k xs).length).sum = xs.length := by
  rw [← (flatMap_bucketOf_perm distinct known).length_eq, List.length_flatMap]

end Counting
