import Mathlib.Data.List.Chain

/-! Windows over a list that overlap by a fixed length. -/
namespace Sliding
variable {α : Type}

/-- The first window, and of each later one what does not overlap. -/
def rejoin (overlap : Nat) : List (List α) → List α
  | [] => []
  | first :: later => first ++ (later.map (List.drop overlap)).flatten

/-- The end of one list is the start of the other, for that many elements. -/
def Share (overlap : Nat) (a b : List α) : Prop := ∃ before shared after,
  a = before ++ shared ∧ b = shared ++ after ∧ shared.length = overlap

/-- The windows show the whole list. -/
structure Covers (size overlap : Nat) (xs : List α) (windows : List (List α)) : Prop where
  nonempty : ∀ w ∈ windows, w ≠ []
  bounded : ∀ w ∈ windows, w.length ≤ size
  full : ∀ w ∈ windows.dropLast, w.length = size
  shared : windows.IsChain (Share overlap)
  rejoined : rejoin overlap windows = xs

variable {size overlap : Nat} {xs rest first : List α} {windows : List (List α)}

theorem Covers.nil : Covers size overlap ([] : List α) [] := ⟨nofun, nofun, nofun, .nil, rfl⟩

theorem Covers.singleton (filled : xs ≠ []) (short : xs.length ≤ size) :
    Covers size overlap xs [xs] where
  nonempty := List.forall_mem_singleton.mpr filled
  bounded := List.forall_mem_singleton.mpr short
  full := nofun
  shared := .singleton xs
  rejoined := List.append_nil xs

/-- The first of the windows starts the list and is longer than the overlap, when the list is. -/
theorem Covers.head (covers : Covers size overlap xs (first :: windows)) (room : overlap < size)
    (long : overlap < xs.length) : overlap < first.length ∧ first <+: xs := by
  have whole : first ++ (windows.map (List.drop overlap)).flatten = xs := covers.rejoined
  refine ⟨?_, ⟨_, whole⟩⟩
  cases windows with
  | nil =>
      rw [List.map_nil, List.flatten_nil, List.append_nil] at whole
      rw [whole]
      exact long
  | cons second later =>
      rw [covers.full first List.mem_cons_self]
      exact room

/-- A full window before the windows of a rest that starts within it. -/
theorem Covers.cons {before : List α} (covers : Covers size overlap rest windows)
    (room : overlap < size) (long : overlap < rest.length)
    (full : (before ++ rest.take overlap).length = size) :
    Covers size overlap (before ++ rest) ((before ++ rest.take overlap) :: windows) := by
  obtain ⟨second, later, rfl⟩ : ∃ second later, windows = second :: later := by
    cases windows with
    | nil =>
        have none : rest = [] := covers.rejoined.symm
        rw [none] at long
        exact absurd long (Nat.not_lt_zero _)
    | cons second later => exact ⟨second, later, rfl⟩
  obtain ⟨longer, starts⟩ := covers.head room long
  have start : rest.take overlap = second.take overlap := by
    obtain ⟨others, rfl⟩ := starts
    exact List.take_append_of_le_length (Nat.le_of_lt longer)
  refine ⟨?_, ?_, ?_, ?_, ?_⟩
  · refine List.forall_mem_cons.mpr ⟨fun empty => ?_, covers.nonempty⟩
    rw [empty, List.length_nil] at full
    omega
  · exact List.forall_mem_cons.mpr ⟨Nat.le_of_eq full, covers.bounded⟩
  · rw [List.dropLast_cons_of_ne_nil (List.cons_ne_nil _ _)]
    exact List.forall_mem_cons.mpr ⟨full, covers.full⟩
  · refine covers.shared.cons_cons ⟨before, second.take overlap, second.drop overlap, ?_, ?_, ?_⟩
    · rw [start]
    · exact (List.take_append_drop overlap second).symm
    · exact List.length_take_of_le (Nat.le_of_lt longer)
  · have whole : second ++ (later.map (List.drop overlap)).flatten = rest := covers.rejoined
    have remainder : second.drop overlap ++ (later.map (List.drop overlap)).flatten =
      rest.drop overlap := by
      rw [← whole, List.drop_append_of_le_length (Nat.le_of_lt longer)]
    rw [rejoin, List.map_cons, List.flatten_cons, remainder, List.append_assoc,
      List.take_append_drop]

end Sliding
