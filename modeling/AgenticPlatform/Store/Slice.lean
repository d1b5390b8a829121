import AgenticPlatform.Store.Image

/-! A table cut in two by its keys. What is written under a key of one part is seen there as it is
in the whole table and leaves the other part as it was. -/
namespace Store.Table
variable {κ α : Type} [Keyed κ α] [DecidableEq κ] {t : Table κ α} {inside : κ → Bool}
  {r : α} {k : κ}

omit [DecidableEq κ] in
/-- The rows under keys that are `inside`. -/
def only (t : Table κ α) (inside : κ → Bool) : Table κ α where
  rows := t.rows.filter fun r => inside (key r)
  distinct := t.distinct.sublist (List.filter_sublist.map key)

omit [DecidableEq κ] in
theorem mem_only : r ∈ t.only inside ↔ r ∈ t ∧ inside (key r) = true := List.mem_filter

theorem get_only : (t.only inside).get k = if inside k = true then t.get k else none := by
  cases found : (t.only inside).get k with
  | none =>
      split
      · next within =>
          refine (get_eq_none.mpr fun r member same => ?_).symm
          exact get_eq_none.mp found r (mem_only.mpr ⟨member, same ▸ within⟩) same
      · rfl
  | some r =>
      obtain ⟨member, rfl⟩ := get_eq_some.mp found
      obtain ⟨member, within⟩ := mem_only.mp member
      rw [if_pos within, get_of_mem member]

theorem get_only_of (within : inside k = true) : (t.only inside).get k = t.get k := get_only.trans
    (if_pos within)

theorem rows_only_put (within : inside (key r) = true) {rows : List α} :
    (putRow r rows).filter (fun r => inside (key r)) = putRow r
      (rows.filter fun r => inside (key r)) := by
  induction rows with
  | nil => simp [putRow, within]
  | cons x rest ih =>
      by_cases same : key x = key r
      · have old : inside (key x) = true := same ▸ within
        simp only [putRow, same, if_true, List.filter_cons, within]
      · by_cases old : inside (key x) = true
        · simp only [putRow, same, if_false, List.filter_cons, old, if_true, ih]
        · simp only [putRow, same, if_false, List.filter_cons, old, ih]
          rfl

theorem rows_only_put_of_not (outside : inside (key r) = false) {rows : List α} :
    (putRow r rows).filter (fun r => inside (key r)) = rows.filter fun r => inside (key r) := by
  induction rows with
  | nil => simp [putRow, outside]
  | cons x rest ih =>
      by_cases same : key x = key r
      · have old : inside (key x) = false := same ▸ outside
        rw [putRow, if_pos same, List.filter_cons_of_neg (by simp [outside]),
          List.filter_cons_of_neg (by simp [old])]
      · simp only [putRow, same, if_false, List.filter_cons, ih]

/-- What is written inside is seen inside as in the whole table. -/
theorem only_put (within : inside (key r) = true) : (t.put r).only inside = (t.only inside).put r :=
  eq_of_rows (rows_only_put within)

/-- What is written outside changes nothing inside. -/
theorem only_put_of_not (outside : inside (key r) = false) :
    (t.put r).only inside = t.only inside :=
  eq_of_rows (rows_only_put_of_not outside)

omit [DecidableEq κ] in
/-- A query that selects rows inside finds all that it finds in the whole table. -/
theorem sortedBy_only {p : α → Bool} {time : α → ℕ}
    (own : ∀ r ∈ t, p r = true → inside (key r) = true) :
    (t.only inside).sortedBy p time = t.sortedBy p time := by
  have rows : (t.only inside).rows.filter p = t.rows.filter p := by
    rw [only, List.filter_filter]
    refine List.filter_congr fun r member => ?_
    cases selected : p r with
    | false => rfl
    | true => rw [own r member selected]; rfl
  rw [sortedBy, rows, sortedBy]

end Store.Table
