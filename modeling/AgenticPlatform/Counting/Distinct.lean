import Mathlib.Data.List.Induction
import Mathlib.Data.List.Nodup

/-! Sets that are kept as lists, in the order in which their members are first added. -/
namespace Counting
variable {α : Type} [DecidableEq α]

/-- `seen.add(x)`. -/
def insertNew (x : α) (seen : List α) : List α := if x ∈ seen then seen else seen ++ [x]

/-- `dict.fromkeys(xs)`. -/
def distinct (xs : List α) : List α := xs.foldl (fun seen x => insertNew x seen) []

variable {x y : α} {seen xs ys : List α}

@[simp] theorem mem_insertNew : y ∈ insertNew x seen ↔ y ∈ seen ∨ y = x := by
  unfold insertNew
  split
  · next known => exact (or_iff_left_of_imp fun same => same ▸ known).symm
  · rw [List.mem_append, List.mem_singleton]

theorem nodup_insertNew (nodup : seen.Nodup) : (insertNew x seen).Nodup := by
  unfold insertNew
  split
  · exact nodup
  · next fresh =>
      exact List.nodup_append'.mpr ⟨nodup, List.nodup_singleton x,
        List.disjoint_singleton.mpr fresh⟩

theorem distinct_concat : distinct (xs ++ [x]) = insertNew x (distinct xs) := List.foldl_append

@[simp] theorem mem_distinct : x ∈ distinct xs ↔ x ∈ xs := by
  induction xs using List.reverseRecOn with
  | nil => exact Iff.rfl
  | append_singleton xs y ih =>
      rw [distinct_concat, mem_insertNew, ih, List.mem_append, List.mem_singleton]

theorem nodup_distinct : (distinct xs).Nodup := by
  induction xs using List.reverseRecOn with
  | nil => exact List.nodup_nil
  | append_singleton xs y ih =>
      rw [distinct_concat]
      exact nodup_insertNew ih

/-- The first member stays in front. -/
theorem head?_distinct : (distinct xs).head? = xs.head? := by
  induction xs using List.reverseRecOn with
  | nil => rfl
  | append_singleton xs x ih =>
      rw [distinct_concat, insertNew, List.head?_append, ← ih]
      split
      · next known =>
          cases seen : distinct xs with
          | nil => exact absurd (seen ▸ known) List.not_mem_nil
          | cons y rest => rfl
      · exact List.head?_append

/-- What is left out is not looked at. -/
theorem distinct_filter {p : α → Bool} : (distinct xs).filter p = distinct (xs.filter p) := by
  induction xs using List.reverseRecOn with
  | nil => rfl
  | append_singleton xs x ih =>
      rw [distinct_concat, List.filter_append, insertNew]
      by_cases holds : p x = true
      · rw [List.filter_cons_of_pos holds, List.filter_nil, distinct_concat, ← ih, insertNew]
        by_cases known : x ∈ distinct xs
        · rw [if_pos known, if_pos (List.mem_filter.mpr ⟨known, holds⟩)]
        · rw [if_neg known, if_neg fun there => known (List.mem_of_mem_filter there),
            List.filter_append, List.filter_cons_of_pos holds, List.filter_nil]
      · rw [List.filter_cons_of_neg holds, List.filter_nil, List.append_nil, ← ih]
        split
        · rfl
        · rw [List.filter_append, List.filter_cons_of_neg holds, List.filter_nil, List.append_nil]

/-- What has the same members is the same up to the order. -/
theorem distinct_perm (same : ∀ x, x ∈ xs ↔ x ∈ ys) : (distinct xs).Perm (distinct ys) := by
  refine (List.perm_ext_iff_of_nodup nodup_distinct nodup_distinct).mpr fun x => ?_
  rw [mem_distinct, mem_distinct, same]

end Counting
