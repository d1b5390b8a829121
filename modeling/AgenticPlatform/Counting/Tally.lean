import AgenticPlatform.Counting.Distinct
import Mathlib.Algebra.BigOperators.Group.List.Basic
import Mathlib.Algebra.GroupWithZero.Nat
import Mathlib.Data.List.Count
import Mathlib.Data.List.Induction
import Mathlib.Data.List.Sort

/-! Counts by key, kept in the order in which the keys are first counted. -/
namespace Counting

abbrev Tally (κ : Type) := List (κ × Nat)

namespace Tally
variable {κ : Type} [DecidableEq κ]

/-- `counts[k] += n`, where a key that is missing counts zero. -/
def add (k : κ) (n : Nat) : Tally κ → Tally κ
  | [] => [(k, n)]
  | entry :: rest => if entry.1 = k then (k, entry.2 + n) :: rest else entry :: add k n rest

/-- The count of all keys of a kind. -/
def total (kind : κ → Bool) (counts : Tally κ) : Nat :=
  ((counts.filter fun entry => kind entry.1).map Prod.snd).sum

variable {kind : κ → Bool} {counts : Tally κ} {k : κ} {n : Nat}

omit [DecidableEq κ] in
theorem total_cons (entry : κ × Nat) :
    total kind (entry :: counts) = (if kind entry.1 then entry.2 else 0) + total kind counts := by
  unfold total
  by_cases belongs : kind entry.1 = true
  · simp [belongs]
  · simp [belongs]

/-- What is added to a key counts for every kind that the key is of. -/
theorem total_add : total kind (counts.add k n) = total kind counts + if kind k then n else 0 := by
  induction counts with
  | nil =>
      rw [add, total_cons]
      exact Nat.add_comm _ _
  | cons entry rest ih =>
      by_cases same : entry.1 = k
      · subst same
        rw [add, if_pos rfl, total_cons, total_cons]
        by_cases belongs : kind entry.1 = true
        · simp only [belongs, if_true]
          omega
        · simp only [belongs, Bool.false_eq_true, if_false]
          omega
      · rw [add, if_neg same, total_cons, total_cons, ih]
        omega

/-- Every key is counted in one place. -/
def Distinct (counts : Tally κ) : Prop := (counts.map Prod.fst).Nodup

/-- The count of a key. -/
def countOf (k : κ) (counts : Tally κ) : Nat := total (fun j => j = k) counts

/-- The keys are those counted before, and the key. -/
theorem keys_add : (counts.add k n).map Prod.fst = insertNew k (counts.map Prod.fst) := by
  induction counts with
  | nil => rfl
  | cons entry rest ih =>
      by_cases same : entry.1 = k
      · subst same
        rw [add, if_pos rfl, insertNew, if_pos (by simp)]
        rfl
      · have apart : k ∈ (entry :: rest).map Prod.fst ↔ k ∈ rest.map Prod.fst := by
          rw [List.map_cons, List.mem_cons]
          exact or_iff_right fun eq => same eq.symm
        rw [add, if_neg same, List.map_cons, ih, insertNew, insertNew]
        by_cases known : k ∈ rest.map Prod.fst
        · rw [if_pos known, if_pos (apart.mpr known), List.map_cons]
        · rw [if_neg known, if_neg fun there => known (apart.mp there), List.map_cons,
            List.cons_append]

theorem Distinct.add (distinct : counts.Distinct) : (counts.add k n).Distinct := by
  unfold Distinct
  rw [keys_add]
  exact nodup_insertNew distinct

theorem countOf_absent (absent : k ∉ counts.map Prod.fst) : countOf k counts = 0 := by
  induction counts with
  | nil => rfl
  | cons entry rest ih =>
      rw [List.map_cons, List.mem_cons, not_or] at absent
      rw [countOf, total_cons, if_neg (by simpa using fun same => absent.1 same.symm), Nat.zero_add]
      exact ih absent.2

/-- An entry has the count of its key. -/
theorem countOf_mem (distinct : counts.Distinct) (member : (k, n) ∈ counts) :
    countOf k counts = n := by
  induction counts with
  | nil => cases member
  | cons entry rest ih =>
      obtain ⟨fresh, later⟩ := List.nodup_cons.mp distinct
      rw [countOf, total_cons]
      rcases List.mem_cons.mp member with rfl | member
      · have rest := countOf_absent fresh
        rw [countOf] at rest
        simp [rest]
      · have apart : entry.1 ≠ k := fun same => fresh (same ▸ List.mem_map_of_mem member)
        rw [if_neg (by simpa using apart), Nat.zero_add]
        exact ih later member

/-- `for k in ks: counts[k] += 1`. -/
def of (ks : List κ) : Tally κ := ks.foldl (fun counts k => counts.add k 1) []

variable {ks : List κ}

theorem of_concat : of (ks ++ [k]) = (of ks).add k 1 := List.foldl_append

theorem keys_of : (of ks).map Prod.fst = distinct ks := by
  induction ks using List.reverseRecOn with
  | nil => rfl
  | append_singleton ks k ih => rw [of_concat, keys_add, ih, distinct_concat]

theorem of_distinct : (of ks).Distinct := by
  unfold Distinct
  rw [keys_of]
  exact nodup_distinct

theorem mem_keys_of : k ∈ (of ks).map Prod.fst ↔ k ∈ ks := by
  rw [keys_of, mem_distinct]

theorem countOf_of : countOf k (of ks) = ks.count k := by
  induction ks using List.reverseRecOn with
  | nil => rfl
  | append_singleton ks j ih =>
      rw [of_concat, countOf, total_add, List.count_append, List.count_singleton, ← ih]
      by_cases same : j = k
      · simp [same, countOf]
      · simp [same, countOf]

/-- The entries of a list: the keys that occur, with the number of their occurrences. -/
theorem mem_of : (k, n) ∈ of ks ↔ k ∈ ks ∧ ks.count k = n := by
  constructor
  · intro member
    refine ⟨mem_keys_of.mp (List.mem_map_of_mem member), ?_⟩
    rw [← countOf_of]
    exact countOf_mem of_distinct member
  · rintro ⟨member, rfl⟩
    obtain ⟨⟨j, m⟩, known, rfl⟩ := List.mem_map.mp (mem_keys_of.mpr member)
    rw [← countOf_of, countOf_mem of_distinct known]
    exact known

/-- There are no more entries than keys that may occur. -/
theorem length_of_le {known : List κ} (within : ∀ k ∈ ks, k ∈ known) :
    (of ks).length ≤ known.length := by
  rw [← List.length_map Prod.fst]
  exact (List.subperm_of_subset of_distinct fun k member => within k
    (mem_keys_of.mp member)).length_le

/-- `counts.most_common(n)`. -/
def mostCommon (n : Nat) (counts : Tally κ) : Tally κ :=
  (counts.insertionSort fun a b => b.2 ≤ a.2).take n

omit [DecidableEq κ] in
theorem mem_of_mem_mostCommon {entry : κ × Nat} (member : entry ∈ counts.mostCommon n) :
    entry ∈ counts :=
  (List.mem_insertionSort _).mp (List.mem_of_mem_take member)

omit [DecidableEq κ] in
theorem mem_mostCommon {entry : κ × Nat} (room : counts.length ≤ n) : entry ∈ counts.mostCommon n ↔
    entry ∈ counts := by
  unfold mostCommon
  rw [List.take_of_length_le (by rw [List.length_insertionSort]; exact room),
    List.mem_insertionSort]

section
variable {ρ : Type} {keys : ρ → List κ} {row : ρ} {rows : List ρ}

theorem count_flatMap_cons : ((row :: rows).flatMap keys).count k = (keys row).count k +
    (rows.flatMap keys).count k := by
  rw [List.flatMap_cons, List.count_append]

/-- A row counts once for a key that it has. -/
theorem once_le_count : (if k ∈ keys row then 1 else 0) ≤ (keys row).count k := by
  split
  · next known => exact List.count_pos_iff.mpr known
  · exact Nat.zero_le _

theorem once_eq_count_iff : (keys row).count k = (if k ∈ keys row then 1 else 0) ↔
    (keys row).count k ≤ 1 := by
  split
  · next known =>
      have some := List.count_pos_iff.mpr known
      omega
  · next absent =>
      rw [List.count_eq_zero_of_not_mem absent]
      exact iff_of_true rfl (Nat.zero_le 1)

theorem countP_le_count_flatMap : rows.countP
    (fun row => k ∈ keys row) ≤ (rows.flatMap keys).count k := by
  induction rows with
  | nil => exact Nat.le_refl 0
  | cons row rest ih =>
      have once := @once_le_count κ _ k ρ keys row
      rw [count_flatMap_cons, List.countP_cons]
      simp only [decide_eq_true_eq]
      omega

/-- Occurrences are counted by rows exactly when no row has two. -/
theorem count_flatMap_eq_countP_iff :
    (rows.flatMap keys).count k = rows.countP (fun row => k ∈ keys row) ↔
      ∀ row ∈ rows, (keys row).count k ≤ 1 := by
  induction rows with
  | nil => exact iff_of_true rfl nofun
  | cons row rest ih =>
      have once := @once_le_count κ _ k ρ keys row
      have later := @countP_le_count_flatMap κ _ k ρ keys rest
      rw [count_flatMap_cons, List.countP_cons, List.forall_mem_cons, ← once_eq_count_iff, ← ih]
      simp only [decide_eq_true_eq]
      omega

theorem count_le_count_flatMap (member : row ∈ rows) :
    (keys row).count k ≤ (rows.flatMap keys).count k := by
  induction member with
  | head rest =>
      rw [count_flatMap_cons]
      exact Nat.le_add_right _ _
  | tail other _ ih =>
      rw [count_flatMap_cons]
      exact ih.trans (Nat.le_add_left _ _)

/-- The most common keys are counted by rows exactly when no row has a key twice; only a count that
stays below `least` is not looked at. -/
theorem counts_rows_iff {least limit : Nat} (small : least ≤ 2) {known : List κ}
    (within : ∀ row ∈ rows, ∀ k ∈ keys row, k ∈ known) (room : known.length ≤ limit) :
    (∀ entry ∈ (of (rows.flatMap keys)).mostCommon limit, least ≤ entry.2 →
      entry.2 = rows.countP fun row => entry.1 ∈ keys row) ↔ ∀ row ∈ rows, (keys row).Nodup := by
  constructor
  · intro counted row member
    rw [List.nodup_iff_count_le_one]
    intro k
    by_contra twice
    have below := @count_le_count_flatMap κ _ k ρ keys row rows member
    have occurs : k ∈ rows.flatMap keys := List.count_pos_iff.mp (by omega)
    have few : (of (rows.flatMap keys)).length ≤ limit := by
      refine (@length_of_le κ _ _ known fun k known => ?_).trans room
      obtain ⟨row, member, has⟩ := List.mem_flatMap.mp known
      exact within row member k has
    have entry : (k, (rows.flatMap keys).count k) ∈ (of (rows.flatMap keys)).mostCommon limit :=
      (mem_mostCommon few).mpr (mem_of.mpr ⟨occurs, rfl⟩)
    have same := counted _ entry (by omega)
    exact twice (count_flatMap_eq_countP_iff.mp same row member)
  · rintro once ⟨k, n⟩ member _
    obtain ⟨_, rfl⟩ := mem_of.mp (mem_of_mem_mostCommon member)
    exact count_flatMap_eq_countP_iff.mpr fun row member => List.nodup_iff_count_le_one.mp
      (once row member) k

end

end Tally
end Counting
