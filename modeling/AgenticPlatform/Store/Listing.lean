import AgenticPlatform.Ranking.Stable
import AgenticPlatform.Store.Table

/-! Listings with a limit: the newest rows first, and what a filter loses that is applied after the
limit instead of before it. -/
namespace Store

section
variable {α : Type} {time : α → ℕ} {p : α → Bool} {n : Nat} {l : List α}

/-- The rows by time, the newest first; rows of one time keep their order. -/
def newestFirst (time : α → ℕ) (rows : List α) : List α :=
  rows.insertionSort fun a b => time b ≤ time a

theorem newestFirst_sorted : (newestFirst time l).Pairwise fun a b => time b ≤ time a :=
  haveI : Std.Total (fun a b : α => time b ≤ time a) := ⟨fun _ _ => Nat.le_total _ _⟩
  haveI : IsTrans α (fun a b => time b ≤ time a) :=
    ⟨fun _ _ _ first second => Nat.le_trans second first⟩
  List.pairwise_insertionSort _ _

theorem filter_newestFirst : (newestFirst time l).filter p = newestFirst time (l.filter p) :=
  haveI : Std.Total (fun a b : α => time b ≤ time a) := ⟨fun _ _ => Nat.le_total _ _⟩
  haveI : IsTrans α (fun a b => time b ≤ time a) :=
    ⟨fun _ _ _ first second => Nat.le_trans second first⟩
  Ranking.filter_insertionSort

/-- A limit before the filter gives what a limit after it gives exactly when the filter drops
nothing before the limit or keeps nothing behind it. -/
theorem filter_take_iff : (l.take n).filter p = (l.filter p).take n ↔
    (∀ x ∈ l.take n, p x = true) ∨ ∀ x ∈ l.drop n, p x = false := by
  have split : l.filter p = (l.take n).filter p ++ (l.drop n).filter p := by
    rw [← List.filter_append, List.take_append_drop]
  have short : ((l.take n).filter p).length ≤ n :=
    Nat.le_trans (List.length_filter_le _ _) (List.length_take_le n l)
  rw [split, List.take_append, List.take_of_length_le short, List.self_eq_append_right,
    List.take_eq_nil_iff]
  constructor
  · rintro (full | none_left)
    · refine .inl (List.filter_eq_self.mp (List.filter_sublist.eq_of_length_le ?_))
      exact Nat.le_trans (List.length_take_le n l) (by omega)
    · refine .inr fun x member => Bool.eq_false_iff.mpr fun kept => ?_
      exact List.not_mem_nil (none_left ▸ List.mem_filter.mpr ⟨member, kept⟩)
  · rintro (all | none_kept)
    · rw [List.filter_eq_self.mpr all, List.length_take]
      by_cases enough : n ≤ l.length
      · exact .inl (by omega)
      · exact .inr (by rw [List.drop_of_length_le (by omega)]; rfl)
    · exact .inr (List.filter_eq_nil_iff.mpr fun x member => by rw [none_kept x member]; simp)

end
end Store
