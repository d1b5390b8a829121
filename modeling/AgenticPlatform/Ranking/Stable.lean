import Mathlib.Data.List.Nodup
import Mathlib.Data.List.Sort

/-! Stable sorting by a key, and the first items of the result: an item is among them exactly when
fewer items outrank it, where a tie is decided by the places in the list. -/
namespace Ranking

section
variable {α : Type} {R : α → α → Prop} [DecidableRel R]

/-- In a list that is strictly ordered, the number of items before an item is its place. -/
theorem mem_take_iff {xs : List α} (ordered : xs.Pairwise R) (irrefl : ∀ x, ¬ R x x)
    (asymm : ∀ x y, R x y → ¬ R y x) {n : Nat} {x : α} :
    x ∈ xs.take n ↔ x ∈ xs ∧ (xs.filter fun y => R y x).length < n := by
  induction xs generalizing n with
  | nil => simp
  | cons y rest ih =>
      cases n with
      | zero => simp
      | succ n =>
          obtain ⟨ahead, later⟩ := List.pairwise_cons.mp ordered
          rw [List.take_succ_cons, List.mem_cons, List.mem_cons, ih later, List.filter_cons]
          by_cases same : x = y
          · subst same
            have unbeaten : rest.filter (fun z => R z x) = [] := by
              simp only [List.filter_eq_nil_iff, decide_eq_true_eq]
              exact fun z member beats => asymm x z (ahead z member) beats
            simp [unbeaten, irrefl x]
          · simp only [same, false_or]
            refine and_congr_right fun member => ?_
            rw [if_pos (by simpa using ahead x member), List.length_cons]
            omega

omit [DecidableRel R] in
/-- In a list that is strictly ordered by `R`, the first items are ordered by `S` and outdo the
others exactly when each of them outdoes what `R` places after it. -/
theorem take_ordered_iff {S : α → α → Prop} {xs : List α} (ordered : xs.Pairwise R)
    (asymm : ∀ x y, R x y → ¬ R y x) (refl : ∀ x, S x x) {n : Nat} :
    ((xs.take n).Pairwise S ∧ ∀ x ∈ xs.take n, ∀ y ∈ xs, y ∉ xs.take n → S x y) ↔
      ∀ x ∈ xs.take n, ∀ y ∈ xs, R x y → S x y := by
  have first : (xs.take n).Pairwise R := ordered.sublist (List.take_sublist n xs)
  constructor
  · rintro ⟨sorted, outdone⟩ x here y member after
    by_cases there : y ∈ xs.take n
    · have ahead : (xs.take n).Pairwise fun a b => R a b → S a b :=
        sorted.imp (S := fun a b => R a b → S a b) fun outdoes _ => outdoes
      have behind : (xs.take n).Pairwise (flip fun a b => R a b → S a b) :=
        first.imp fun before back => absurd back (asymm _ _ before)
      exact ahead.forall_of_forall_of_flip (fun a _ _ => refl a) behind here there after
    · exact outdone x here y member there
  · intro outdoes
    refine ⟨first.imp_of_mem fun here there before => outdoes _ here _
      (List.mem_of_mem_take there) before, ?_⟩
    intro x here y member out
    have split : (xs.take n ++ xs.drop n).Pairwise R := (List.take_append_drop n xs).symm ▸ ordered
    have left : y ∈ xs.drop n := by
      rw [← List.take_append_drop n xs, List.mem_append] at member
      exact member.resolve_left out
    exact outdoes x here y member ((List.pairwise_append.mp split).2.2 x here y left)

/-- Where what holds of an item holds of those before it, the first items can be chosen before. -/
theorem take_filter {p : α → Bool} {xs : List α}
    (ordered : xs.Pairwise fun a b => p b = true → p a = true) {n : Nat} :
    (xs.filter p).take n = (xs.take n).filter p := by
  induction xs generalizing n with
  | nil => simp
  | cons x rest ih =>
      obtain ⟨ahead, later⟩ := List.pairwise_cons.mp ordered
      by_cases holds : p x = true
      · cases n with
        | zero => rfl
        | succ n => rw [List.filter_cons_of_pos holds, List.take_succ_cons, List.take_succ_cons,
          List.filter_cons_of_pos holds, ih later]
      · have none : (x :: rest).filter p = [] := by
          refine List.filter_eq_nil_iff.mpr fun y member above => ?_
          rcases List.mem_cons.mp member with rfl | there
          · exact holds above
          · exact holds (ahead y there above)
        have first : ((x :: rest).take n).filter p = [] :=
          List.eq_nil_of_sublist_nil (none ▸ (List.take_sublist n _).filter p)
        rw [none, first, List.take_nil]

end

section
variable {α : Type} {R : α → α → Prop} [DecidableRel R] [Std.Total R] [IsTrans α R] {xs : List α}
  {p : α → Bool} {x : α}

omit [Std.Total R] in
/-- Inserting before the first item that may come after does not care for items that are filtered
out. -/
theorem filter_orderedInsert (sorted : xs.Pairwise R) :
    (xs.orderedInsert R x).filter p = if p x then (xs.filter p).orderedInsert R x
      else xs.filter p := by
  induction xs with
  | nil =>
      by_cases kept : p x = true
      · simp [kept]
      · simp [kept]
  | cons y rest ih =>
      obtain ⟨first, sorted⟩ := List.pairwise_cons.mp sorted
      rw [List.orderedInsert_cons]
      by_cases ahead : R x y
      · rw [if_pos ahead]
        by_cases kept : p x = true
        · rw [if_pos kept, List.filter_cons_of_pos kept]
          symm
          -- every item after `y` may come after `x` too
          have before : ∀ z ∈ (y :: rest).filter p, R x z := by
            intro z member
            rcases List.mem_cons.mp (List.mem_filter.mp member).1 with rfl | later
            · exact ahead
            · exact trans_of R ahead (first z later)
          cases tail : (y :: rest).filter p with
          | nil => rfl
          | cons z zs =>
              rw [List.orderedInsert_cons, if_pos
                (before z (by rw [tail]; exact List.mem_cons_self))]
        · rw [if_neg kept, List.filter_cons_of_neg kept]
      · rw [if_neg ahead]
        by_cases own : p y = true
        · rw [List.filter_cons_of_pos own, List.filter_cons_of_pos own, ih sorted]
          by_cases kept : p x = true
          · rw [if_pos kept, if_pos kept, List.orderedInsert_cons, if_neg ahead]
          · rw [if_neg kept, if_neg kept]
        · rw [List.filter_cons_of_neg own, List.filter_cons_of_neg own, ih sorted]

/-- Items can be left out before the sorting. -/
theorem filter_insertionSort : (xs.insertionSort R).filter p = (xs.filter p).insertionSort R := by
  induction xs with
  | nil => rfl
  | cons x rest ih =>
      rw [List.insertionSort_cons, filter_orderedInsert (List.pairwise_insertionSort R rest), ih]
      by_cases kept : p x = true
      · rw [if_pos kept, List.filter_cons_of_pos kept, List.insertionSort_cons]
      · rw [if_neg kept, List.filter_cons_of_neg kept]

/-- Items that the sorting does not tell apart. -/
def Tied (R : α → α → Prop) (x y : α) : Prop := R x y ∧ R y x

instance : DecidableRel (Tied R) := fun _ _ => inferInstanceAs (Decidable (_ ∧ _))

/-- The sorting leaves ties in their order. -/
theorem filter_tied_insertionSort : ((xs.insertionSort R).filter fun y => Tied R x y) =
    xs.filter fun y => Tied R x y := by
  rw [filter_insertionSort]
  refine List.Pairwise.insertionSort_eq (List.pairwise_iff_forall_sublist.mpr fun {a b} pair => ?_)
  have tied : ∀ y ∈ [a, b], Tied R x y := fun y member => of_decide_eq_true
    (List.mem_filter.mp (pair.subset member)).2
  exact trans_of R (tied a (by simp)).2 (tied b (by simp)).1

end

section
variable {α β : Type} [LinearOrder β] (key : α → β)

/-- `sorted(xs, key=key)`. -/
def sortOn (xs : List α) : List α := xs.insertionSort fun a b => key a ≤ key b

/-- The item of the first pair comes before that of the second, where a pair has an item and its
place. -/
def Outranks (b a : α × Nat) : Prop := key b.1 < key a.1 ∨ key b.1 = key a.1 ∧ b.2 < a.2

instance : DecidableRel (Outranks key) := fun _ _ => inferInstanceAs (Decidable (_ ∨ _))

/-- An item of the list that fewer than `n` others outrank. -/
def Among (n : Nat) (xs : List α) (x : α) : Prop :=
  ∃ i, (x, i) ∈ xs.zipIdx ∧ (xs.zipIdx.filter fun b => Outranks key b (x, i)).length < n

variable {key} {xs ys : List α} {n : Nat} {x : α}

theorem outranks_irrefl (a : α × Nat) : ¬ Outranks key a a := by
  rintro (below | ⟨_, below⟩)
  · exact lt_irrefl _ below
  · exact Nat.lt_irrefl _ below

theorem outranks_asymm (a b : α × Nat) (first : Outranks key a b) : ¬ Outranks key b a := by
  rintro (below | ⟨same, below⟩)
  · rcases first with below' | ⟨same, _⟩
    · exact lt_asymm below below'
    · exact below.ne same.symm
  · rcases first with below' | ⟨_, below'⟩
    · exact below'.ne same.symm
    · exact Nat.lt_asymm below below'

theorem sortOn_perm : (sortOn key xs).Perm xs := List.perm_insertionSort _ _

theorem sortOn_ordered : (sortOn key xs).Pairwise fun a b => key a ≤ key b := by
  have : Std.Total fun a b : α => key a ≤ key b := ⟨fun a b => le_total (key a) (key b)⟩
  have : IsTrans α fun a b => key a ≤ key b := ⟨fun _ _ _ => le_trans⟩
  exact List.pairwise_insertionSort _ _

/-- What is sorted already stays as it is. -/
theorem sortOn_of_ordered (ordered : xs.Pairwise fun a b => key a ≤ key b) : sortOn key xs = xs :=
  ordered.insertionSort_eq

theorem Outranks.key_le {a b : α × Nat} (ahead : Outranks key a b) : key a.1 ≤ key b.1 := by
  rcases ahead with below | ⟨same, _⟩
  · exact below.le
  · exact same.le

theorem outranks_of_le {a b : α × Nat} (ahead : key a.1 ≤ key b.1) (before : a.2 < b.2) :
    Outranks key a b := by
  rcases ahead.lt_or_eq with below | same
  · exact .inl below
  · exact .inr ⟨same, before⟩

/-- An item from before all places of a list goes in front of the items of its key. -/
theorem orderedInsert_ordered {a : α × Nat} {placed : List (α × Nat)}
    (ordered : placed.Pairwise (Outranks key)) (before : ∀ b ∈ placed, a.2 < b.2) :
    (placed.orderedInsert (fun a b => key a.1 ≤ key b.1) a).Pairwise (Outranks key) := by
  induction placed with
  | nil => simp
  | cons b rest ih =>
      obtain ⟨ahead, later⟩ := List.pairwise_cons.mp ordered
      by_cases least : key a.1 ≤ key b.1
      · rw [List.orderedInsert_cons, if_pos least]
        refine List.pairwise_cons.mpr ⟨fun c member => ?_, ordered⟩
        have above : key a.1 ≤ key c.1 := by
          rcases List.mem_cons.mp member with rfl | known
          · exact least
          · exact least.trans (ahead c known).key_le
        exact outranks_of_le above (before c member)
      · rw [List.orderedInsert_cons, if_neg least]
        refine List.pairwise_cons.mpr ⟨fun c member => ?_, ih later fun c member => before c
          (List.mem_cons_of_mem b member)⟩
        rcases (List.mem_orderedInsert _).mp member with rfl | known
        · exact .inl (not_le.mp least)
        · exact ahead c known

/-- The pairs of items and places, sorted by key and place. -/
theorem sortOn_places (k : Nat) : ∃ placed : List (α × Nat), placed.map Prod.fst = sortOn key xs ∧
    placed.Perm (xs.zipIdx k) ∧ placed.Pairwise (Outranks key) := by
  induction xs generalizing k with
  | nil => exact ⟨[], rfl, .nil, .nil⟩
  | cons x rest ih =>
      obtain ⟨placed, items, perm, ordered⟩ := ih (k + 1)
      refine ⟨placed.orderedInsert (fun a b => key a.1 ≤ key b.1) (x, k), ?_, ?_,
        orderedInsert_ordered ordered ?_⟩
      · have mapped := List.map_orderedInsert (fun a b : α × Nat => key a.1 ≤ key b.1)
          (fun a b => key a ≤ key b) Prod.fst
          placed (x, k) (fun _ _ => Iff.rfl) (fun _ _ => Iff.rfl)
        rw [mapped, items]
        rfl
      · rw [List.zipIdx_cons]
        exact (List.perm_orderedInsert _ _ _).trans (perm.cons _)
      · intro b member
        exact (List.mem_zipIdx (perm.mem_iff.mp member)).1

theorem mem_take_sortOn : x ∈ (sortOn key xs).take n ↔ Among key n xs x := by
  obtain ⟨placed, items, perm, ordered⟩ := @sortOn_places α β _ key xs 0
  rw [← items, ← List.map_take, List.mem_map]
  constructor
  · rintro ⟨⟨y, i⟩, member, rfl⟩
    obtain ⟨known, few⟩ := (mem_take_iff ordered outranks_irrefl outranks_asymm).mp member
    exact ⟨i, perm.mem_iff.mp known, (perm.filter _).length_eq ▸ few⟩
  · rintro ⟨i, known, few⟩
    refine ⟨(x, i), (mem_take_iff ordered outranks_irrefl outranks_asymm).mpr
      ⟨perm.mem_iff.mpr known, ?_⟩, rfl⟩
    rwa [(perm.filter _).length_eq]

/-- With distinct keys the order of the items does not matter. -/
theorem sortOn_eq_of_perm (distinct : (xs.map key).Nodup) (perm : xs.Perm ys) :
    sortOn key xs = sortOn key ys := by
  refine List.Perm.eq_of_pairwise ?_ sortOn_ordered sortOn_ordered
    ((sortOn_perm.trans perm).trans sortOn_perm.symm)
  intro a b first second ahead behind
  exact List.inj_on_of_nodup_map distinct (sortOn_perm.mem_iff.mp first)
    (perm.mem_iff.mpr (sortOn_perm.mem_iff.mp second)) (le_antisymm ahead behind)

end
end Ranking
