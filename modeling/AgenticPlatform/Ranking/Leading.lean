import AgenticPlatform.Counting.Tally
import AgenticPlatform.Ranking.Stable
import Mathlib.Data.List.Dedup

/-! The keys of a list that score most, where of two keys with one score that which occurs first is
ahead; and when they are the same in every order of the rows that the keys come from. -/
namespace Ranking
open Counting

section
variable {κ ρ : Type} [DecidableEq κ] {j k x : κ} {xs : List κ} {keys : ρ → List κ} {rows : List ρ}

/-- Keys are kept in the order in which they first occur. -/
theorem distinct_ordered : (distinct xs).Pairwise fun j k => xs.idxOf j < xs.idxOf k := by
  induction xs using List.reverseRecOn with
  | nil => exact .nil
  | append_singleton xs x ih =>
      have here {j : κ} (known : j ∈ xs) : (xs ++ [x]).idxOf j = xs.idxOf j :=
        List.idxOf_append_of_mem known
      have earlier : (distinct xs).Pairwise fun j k => (xs ++ [x]).idxOf j < (xs ++ [x]).idxOf k :=
        ih.imp_of_mem fun first second before => by
          rwa [here (mem_distinct.mp first), here (mem_distinct.mp second)]
      rw [distinct_concat, insertNew]
      split
      · exact earlier
      · next fresh =>
          refine List.pairwise_append.mpr ⟨earlier, List.pairwise_singleton _ x,
            fun j known k last => ?_⟩
          obtain rfl := List.mem_singleton.mp last
          rw [here (mem_distinct.mp known), List.idxOf_append_of_notMem fun there => fresh
            (mem_distinct.mpr there)]
          exact (List.idxOf_lt_length_of_mem (mem_distinct.mp known)).trans_le
            (Nat.le_add_right _ _)

/-- A key that precedes another in every row in which the other is occurs first in any order of the
rows. -/
theorem idxOf_flatMap_lt
    (before : ∀ row ∈ rows, k ∈ keys row → (keys row).idxOf j < (keys row).idxOf k)
    (occurs : k ∈ rows.flatMap keys) :
    (rows.flatMap keys).idxOf j < (rows.flatMap keys).idxOf k := by
  induction rows with
  | nil => cases occurs
  | cons row rest ih =>
      obtain ⟨first, later⟩ := List.forall_mem_cons.mp before
      rw [List.flatMap_cons] at occurs ⊢
      by_cases here : k ∈ keys row
      · have ahead := first here
        have known : j ∈ keys row := List.idxOf_lt_length_iff.mp
          (ahead.trans (List.idxOf_lt_length_of_mem here))
        rwa [List.idxOf_append_of_mem known, List.idxOf_append_of_mem here]
      · have rest := ih later ((List.mem_append.mp occurs).resolve_left here)
        rw [List.idxOf_append_of_notMem here]
        by_cases known : j ∈ keys row
        · rw [List.idxOf_append_of_mem known]
          exact (List.idxOf_lt_length_of_mem known).trans_le (Nat.le_add_right _ _)
        · rw [List.idxOf_append_of_notMem known]
          exact Nat.add_lt_add_left rest _

/-- A key that another does not precede in a row occurs first, where the row comes first. -/
theorem idxOf_first_row {row : ρ} (apart : j ≠ k) (here : k ∈ keys row)
    (behind : ¬ (keys row).idxOf j < (keys row).idxOf k) :
    ((row :: rows).flatMap keys).idxOf k < ((row :: rows).flatMap keys).idxOf j := by
  rw [List.flatMap_cons, List.idxOf_append_of_mem here]
  by_cases known : j ∈ keys row
  · rw [List.idxOf_append_of_mem known]
    exact lt_of_le_of_ne (not_lt.mp behind) fun same => apart ((List.idxOf_inj known).mp same.symm)
  · rw [List.idxOf_append_of_notMem known]
    exact (List.idxOf_lt_length_of_mem here).trans_le (Nat.le_add_right _ _)

end

section
variable {κ : Type} [DecidableEq κ] (score : κ → Nat) (xs : List κ)

/-- The first key scores more than the second, or as much and occurs first. -/
def Outdoes (j k : κ) : Prop := score k < score j ∨ score j = score k ∧ xs.idxOf j < xs.idxOf k

instance : DecidableRel (Outdoes score xs) := fun _ _ => inferInstanceAs (Decidable (_ ∨ _))

/-- One of the `n` first keys: fewer than `n` others outdo it. -/
def Leads (n : Nat) (k : κ) : Prop :=
  k ∈ xs ∧ (xs.dedup.filter fun j => Outdoes score xs j k).length < n

instance (n : Nat) : DecidablePred (Leads score xs n) := fun _ => inferInstanceAs
    (Decidable (_ ∧ _))

/-- The keys by score, the first `n`. -/
def leading (n : Nat) : List κ :=
  (sortOn (fun k => OrderDual.toDual (score k)) (distinct xs)).take n

variable {score : κ → Nat} {xs ys : List κ} {i j k : κ} {n : Nat}

theorem outdoes_irrefl : ¬ Outdoes score xs k k := by
  rintro (more | ⟨_, before⟩)
  · exact Nat.lt_irrefl _ more
  · exact Nat.lt_irrefl _ before

theorem outdoes_trans (first : Outdoes score xs i j) (second : Outdoes score xs j k) :
    Outdoes score xs i k := by
  rcases first with more | ⟨same, before⟩ <;> rcases second with more' | ⟨same', before'⟩
  · exact .inl (more'.trans more)
  · exact .inl (same' ▸ more)
  · exact .inl (same ▸ more')
  · exact .inr ⟨same.trans same', before.trans before'⟩

theorem outdoes_asymm (first : Outdoes score xs j k) : ¬ Outdoes score xs k j := fun back =>
  outdoes_irrefl (outdoes_trans first back)

theorem outdoes_total (apart : j ≠ k) (known : j ∈ xs) : Outdoes score xs j k ∨
    Outdoes score xs k j := by
  rcases Nat.lt_trichotomy (score j) (score k) with less | same | more
  · exact .inr (.inl less)
  · rcases Nat.lt_trichotomy (xs.idxOf j) (xs.idxOf k) with before | here | after
    · exact .inl (.inr ⟨same, before⟩)
    · exact absurd ((List.idxOf_inj known).mp here) apart
    · exact .inr (.inr ⟨same.symm, after⟩)
  · exact .inl (.inl more)

theorem Outdoes.score_le (ahead : Outdoes score xs j k) : score k ≤ score j := by
  rcases ahead with more | ⟨same, _⟩
  · exact more.le
  · exact same.ge

/-- What outdoes one of the first is one of them. -/
theorem Leads.of_outdoes (leads : Leads score xs n k) (known : j ∈ xs)
    (ahead : Outdoes score xs j k) : Leads score xs n j := by
  refine ⟨known, lt_of_le_of_lt ?_ leads.2⟩
  refine (List.monotone_filter_right _ fun i outdoes => ?_).length_le
  exact decide_eq_true (outdoes_trans (of_decide_eq_true outdoes) ahead)

/-- The first items of a list, sorted by the scores of their names, are those whose names are the
first. -/
theorem mem_take_named {α : Type} {name : α → κ} {key : α → ℕᵒᵈ} {items : List α} {x : α}
    (names : items.map name = distinct xs)
    (scored : ∀ x ∈ items, key x = OrderDual.toDual (score (name x))) :
    x ∈ (sortOn key items).take n ↔ x ∈ items ∧ Leads score xs n (name x) := by
  obtain ⟨placed, sorted, perm, ordered⟩ := @sortOn_places α _ _ key items 0
  have places : items.Pairwise fun a b => xs.idxOf (name a) < xs.idxOf (name b) := by
    have ordered := @distinct_ordered κ _ xs
    rwa [← names, List.pairwise_map] at ordered
  have inOrder : (sortOn key items).Pairwise fun a b => Outdoes score xs (name a) (name b) := by
    rw [← sorted, List.pairwise_map]
    refine ordered.imp_of_mem ?_
    rintro ⟨a, m⟩ ⟨b, m'⟩ first second ahead
    obtain ⟨short, here⟩ := List.mem_zipIdx' (perm.mem_iff.mp first)
    obtain ⟨short', there⟩ := List.mem_zipIdx' (perm.mem_iff.mp second)
    change Outdoes score xs (name a) (name b)
    rw [Outranks, scored a (here ▸ List.getElem_mem short), scored b
      (there ▸ List.getElem_mem short'), OrderDual.toDual_lt_toDual, OrderDual.toDual_inj] at ahead
    refine ahead.imp_right fun ⟨same, before⟩ => ⟨same, ?_⟩
    rw [here, there]
    exact List.pairwise_iff_getElem.mp places m m' short short' before
  have few : ((sortOn key items).filter fun a => Outdoes score xs (name a) (name x)).length =
      (xs.dedup.filter fun j => Outdoes score xs j (name x)).length := by
    have namesPerm : ((sortOn key items).map name).Perm xs.dedup := by
      refine (sortOn_perm.map name).trans (names ▸ ?_)
      exact (List.perm_ext_iff_of_nodup nodup_distinct (List.nodup_dedup xs)).mpr fun k => by
        rw [mem_distinct, List.mem_dedup]
    rw [← (namesPerm.filter _).length_eq, List.filter_map, List.length_map]
    rfl
  have known : x ∈ items → name x ∈ xs := fun member => mem_distinct.mp
    (names ▸ List.mem_map_of_mem member)
  rw [mem_take_iff inOrder (fun _ => outdoes_irrefl) (fun _ _ => outdoes_asymm), few,
    sortOn_perm.mem_iff, Leads]
  exact and_congr_right fun member => (and_iff_right (known member)).symm

theorem mem_leading : k ∈ leading score xs n ↔ Leads score xs n k := by
  have named := @mem_take_named κ _ score xs n κ id (fun k => OrderDual.toDual (score k))
    (distinct xs) k (List.map_id _)
    fun _ _ => rfl
  rw [leading, named, mem_distinct]
  exact and_iff_right_of_imp And.left

theorem nodup_leading : (leading score xs n).Nodup :=
  (sortOn_perm.nodup_iff.mpr nodup_distinct).sublist (List.take_sublist n _)

theorem length_leading : (leading score xs n).length = min n xs.dedup.length := by
  have names : (distinct xs).Perm xs.dedup :=
    (List.perm_ext_iff_of_nodup nodup_distinct (List.nodup_dedup xs)).mpr fun k => by
      rw [mem_distinct, List.mem_dedup]
  rw [leading, List.length_take, sortOn_perm.length_eq, names.length_eq]

/-- Where one order of the keys has a first key more, another has one more instead. -/
theorem exists_leads (perm : xs.Perm ys) (leads : Leads score xs n j) (out : ¬ Leads score ys n j) :
    ∃ k, Leads score ys n k ∧ ¬ Leads score xs n k := by
  by_contra none
  push Not at none
  have within : (leading score ys n).Subperm (leading score xs n) :=
    List.subperm_of_subset nodup_leading fun k member => mem_leading.mpr
      (none k (mem_leading.mp member))
  have same :=
    within.perm_of_length_le (by rw [length_leading, length_leading, perm.dedup.length_eq])
  exact out (mem_leading.mp (same.mem_iff.mpr (mem_leading.mpr leads)))

/-- Of a first key and another, both in their own order of the keys, the scores are the same. -/
theorem score_eq_of_exchange (perm : xs.Perm ys) (leads : Leads score xs n j)
    (out : ¬ Leads score ys n j) (leads' : Leads score ys n k) (out' : ¬ Leads score xs n k) :
    score j = score k ∧ Outdoes score ys k j := by
  have apart : j ≠ k := fun same => out (same ▸ leads')
  have first : Outdoes score xs j k :=
    (outdoes_total apart leads.1).resolve_right fun ahead => out'
      (leads.of_outdoes (perm.mem_iff.mpr leads'.1) ahead)
  have second : Outdoes score ys k j :=
    (outdoes_total apart.symm leads'.1).resolve_right fun ahead => out
      (leads'.of_outdoes (perm.mem_iff.mp leads.1) ahead)
  exact ⟨le_antisymm second.score_le first.score_le, second⟩

end

/-- The most common keys of a counter. -/
theorem mem_mostCommon_of {κ : Type} [DecidableEq κ] {ks : List κ} {n : Nat} {entry : κ × Nat} :
    entry ∈ (Tally.of ks).mostCommon n ↔ Leads (fun k => ks.count k) ks n entry.1 ∧
      ks.count entry.1 = entry.2 := by
  have counted : ∀ e ∈ Tally.of ks, OrderDual.toDual e.2 = OrderDual.toDual
    (ks.count e.1) := fun e member =>
    congrArg OrderDual.toDual (Tally.mem_of.mp member).2.symm
  have sorted : (Tally.of ks).mostCommon n = (sortOn (fun e => OrderDual.toDual e.2)
    (Tally.of ks)).take n := rfl
  have named := @mem_take_named κ _ (fun k => ks.count k) ks n _ Prod.fst
    (fun e => OrderDual.toDual e.2) (Tally.of ks) entry
    Tally.keys_of counted
  rw [sorted, named, Tally.mem_of]
  constructor
  · rintro ⟨⟨_, count⟩, leads⟩
    exact ⟨leads, count⟩
  · rintro ⟨leads, count⟩
    exact ⟨⟨leads.1, count⟩, leads⟩

section
variable {κ ρ : Type} [DecidableEq κ] (score : κ → Nat) (keys : ρ → List κ) (rows : List ρ)
  (n least : Nat)

/-- A key that is not among the first, but scores as much as one that is, follows it in every
row. -/
def Settled : Prop :=
  ∀ j ∈ rows.flatMap keys, Leads score (rows.flatMap keys) n j → least ≤ score j →
    ∀ k ∈ rows.flatMap keys, ¬ Leads score (rows.flatMap keys) n k → score j = score k →
      ∀ row ∈ rows, k ∈ keys row → (keys row).idxOf j < (keys row).idxOf k

instance : Decidable (Settled score keys rows n least) :=
  inferInstanceAs (Decidable (∀ j ∈ rows.flatMap keys, _ → _ → ∀ k ∈ rows.flatMap keys, _ → _ →
    ∀ row ∈ rows, _ → _))

variable {score keys rows n least}

/-- Keys that are settled are the first in every order of the rows. -/
theorem Settled.leads_iff (settled : Settled score keys rows n least) {rows' : List ρ}
    (perm : rows'.Perm rows) {k : κ} (scored : least ≤ score k) : Leads score
      (rows'.flatMap keys) n k ↔ Leads score (rows.flatMap keys) n k := by
  have same : (rows.flatMap keys).Perm (rows'.flatMap keys) := (perm.flatMap_right keys).symm
  have kept {j k : κ} (scored : least ≤ score j) (leads : Leads score (rows.flatMap keys) n j)
      (leads' : Leads score (rows'.flatMap keys) n k) (out' : ¬ Leads score (rows.flatMap keys) n k)
      (tie : score j = score k) : ¬ Outdoes score (rows'.flatMap keys) k j := by
    have before : (rows'.flatMap keys).idxOf j < (rows'.flatMap keys).idxOf k :=
      idxOf_flatMap_lt (fun row member => settled j leads.1 leads scored k
        (same.mem_iff.mpr leads'.1) out' tie row
        (perm.mem_iff.mp member)) leads'.1
    exact outdoes_asymm (.inr ⟨tie, before⟩)
  constructor
  · intro leads'
    by_contra out'
    obtain ⟨j, leads, out⟩ := exists_leads same.symm leads' out'
    obtain ⟨tie, ahead⟩ := score_eq_of_exchange same leads out leads' out'
    exact kept (tie ▸ scored) leads leads' out' tie ahead
  · intro leads
    by_contra out
    obtain ⟨k, leads', out'⟩ := exists_leads same leads out
    obtain ⟨tie, ahead⟩ := score_eq_of_exchange same leads out leads' out'
    exact kept scored leads leads' out' tie ahead

/-- The first keys are the same in every order of the rows exactly when they are settled. -/
theorem settled_iff : Settled score keys rows n least ↔ ∀ rows' : List ρ, rows'.Perm rows →
    ∀ k, least ≤ score k →
    (Leads score (rows'.flatMap keys) n k ↔ Leads score (rows.flatMap keys) n k) := by
  refine ⟨fun settled rows' perm k scored => settled.leads_iff perm scored, fun same => ?_⟩
  intro j _ leads scored k known out tie row member here
  by_contra behind
  have apart : j ≠ k := fun eq => out (eq ▸ leads)
  obtain ⟨before, after, rfl⟩ := List.append_of_mem member
  have perm : (row :: (before ++ after)).Perm (before ++ row :: after) := List.perm_middle.symm
  have ahead : Outdoes score ((row :: (before ++ after)).flatMap keys) k j :=
    .inr ⟨tie.symm, idxOf_first_row apart here behind⟩
  have first := ((same _ perm j scored).mpr leads).of_outdoes
    ((perm.flatMap_right keys).mem_iff.mpr known) ahead
  exact out ((same _ perm k (tie ▸ scored)).mp first)

theorem settled_iff_shown : Settled score keys rows n least ↔ ∀ rows' : List ρ, rows'.Perm rows →
    ∀ k,
    (Leads score (rows'.flatMap keys) n k ∧ least ≤ score k) ↔
      (Leads score (rows.flatMap keys) n k ∧ least ≤ score k) := by
  rw [settled_iff]
  refine forall₂_congr fun rows' _ => forall_congr' fun k => ⟨fun same => and_congr_left same,
    fun same scored => ?_⟩
  exact ⟨fun leads => (same.mp ⟨leads, scored⟩).1, fun leads => (same.mpr ⟨leads, scored⟩).1⟩

/-- Where the rows have at most one key each and all keys score the same, they are settled exactly
when there is room for all. -/
theorem settled_singles_iff {c : Nat} (single : ∀ row, (keys row).length ≤ 1) (room : 0 < n) :
    Settled (fun _ => c) keys rows n 0 ↔ (rows.flatMap keys).dedup.length ≤ n := by
  constructor
  · intro settled
    by_contra more
    have few : (leading (fun _ => c) (rows.flatMap keys) n).length = n :=
      length_leading.trans (min_eq_left (not_le.mp more).le)
    obtain ⟨j, first⟩ := List.exists_mem_of_length_pos (room.trans_eq few.symm)
    obtain ⟨k, known, out⟩ : ∃ k ∈ rows.flatMap keys, ¬ Leads (fun _ => c)
      (rows.flatMap keys) n k := by
      by_contra all
      push Not at all
      have every : (rows.flatMap keys).dedup.Subperm (leading (fun _ => c) (rows.flatMap keys) n) :=
        List.subperm_of_subset (List.nodup_dedup _) fun k member => mem_leading.mpr
          (all k (List.mem_dedup.mp member))
      exact more (few ▸ every.length_le)
    obtain ⟨row, member, has⟩ := List.mem_flatMap.mp known
    have leads := mem_leading.mp first
    have before := settled j leads.1 leads (Nat.zero_le c) k known out rfl row member has
    have last := List.idxOf_lt_length_of_mem has
    have one := single row
    omega
  · intro fits j _ _ _ k known out
    refine absurd ⟨known, (List.length_filter_lt_length_iff_exists.mpr ?_).trans_le fits⟩ out
    exact ⟨k, List.mem_dedup.mpr known, by simpa using outdoes_irrefl⟩

end
end Ranking
