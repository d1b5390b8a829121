import Mathlib.Data.List.Nodup
import Mathlib.Data.List.Perm.Subperm
import Mathlib.Data.List.Infix
import Mathlib.Data.List.Basic

/-! Tasks that wait for each other, done one at a time: always the first in their order that is not
done and waits for nothing more. The needs may be any graph; a task on a cycle is never done. -/
namespace Greedy

/-- Tasks in their order, and what each of them needs. -/
structure Instance (κ : Type) where
  tasks : List κ
  needs : κ → List κ

section
variable {κ : Type} [DecidableEq κ]

/-- The first task that is not done and whose needs are. -/
def Instance.next (I : Instance κ) (done : List κ) : Option κ :=
  I.tasks.find? fun task => decide (task ∉ done ∧ ∀ need ∈ I.needs task, need ∈ done)

/-- What is done after one more task, if there is one. -/
def Instance.advance (I : Instance κ) (done : List κ) : List κ := done ++ (I.next done).toList

/-- What is done after at most `n` tasks. -/
def Instance.first (I : Instance κ) : Nat → List κ
  | 0 => []
  | n + 1 => I.advance (I.first n)

/-- The whole order. -/
def Instance.order (I : Instance κ) : List κ := I.first I.tasks.length

/-- What the greedy choice has done so far. -/
inductive Done (I : Instance κ) : List κ → Prop
  | nil : Done I []
  | snoc {done : List κ} {task : κ} : Done I done → I.next done = some task → Done I (done ++
    [task])

variable {I : Instance κ} {done : List κ} {task : κ} {n : Nat}

theorem next_eq_some (chosen : I.next done = some task) :
    task ∈ I.tasks ∧ task ∉ done ∧ ∀ need ∈ I.needs task, need ∈ done := by
  have ready := List.find?_some chosen
  exact ⟨List.mem_of_find?_eq_some chosen, by simpa using ready⟩

/-- No task before the chosen one could be done. -/
theorem next_split (chosen : I.next done = some task) :
    ∃ before after, I.tasks = before ++ task :: after ∧
    ∀ earlier ∈ before, ¬ (earlier ∉ done ∧ ∀ need ∈ I.needs earlier, need ∈ done) := by
  obtain ⟨_, before, after, split, none⟩ := List.find?_eq_some_iff_append.mp chosen
  refine ⟨before, after, split, fun earlier member ready => ?_⟩
  have no := none earlier member
  rw [Bool.not_eq_true', decide_eq_false_iff_not] at no
  exact no ready

/-- Nothing is done twice, and nothing else is done. -/
theorem Done.nodup (greedy : Done I done) : done.Nodup ∧ done ⊆ I.tasks := by
  induction greedy with
  | nil => exact ⟨List.nodup_nil, List.nil_subset _⟩
  | snoc _ chosen ih =>
      obtain ⟨known, new, _⟩ := next_eq_some chosen
      constructor
      · simpa only [List.concat_eq_append] using List.Nodup.concat new ih.1
      · exact List.append_subset.mpr ⟨ih.2, by simpa using known⟩

/-- What a task needs was done before it. -/
theorem Done.needs (greedy : Done I done) {before after : List κ}
    (split : done = before ++ task :: after) :
    ∀ need ∈ I.needs task, need ∈ before := by
  induction greedy generalizing after with
  | nil => simp at split
  | @snoc earlier last greedy chosen ih =>
      rcases List.eq_nil_or_concat after with rfl | ⟨rest, final, rfl⟩
      · obtain ⟨rfl, same⟩ := List.append_inj' split rfl
        obtain rfl : last = task := by simpa using same
        exact (next_eq_some chosen).2.2
      · refine @ih rest ?_
        rw [List.concat_eq_append, ← List.cons_append, ← List.append_assoc] at split
        exact (List.append_inj' split rfl).1

/-- The greedy choice is determined: so far it has done the first tasks of the order. -/
theorem Done.eq_first (greedy : Done I done) : done = I.first done.length := by
  induction greedy with
  | nil => rfl
  | snoc _ chosen ih =>
      rw [List.length_append, List.length_singleton, Instance.first, Instance.advance, ← ih, chosen]
      rfl

theorem first_prefix {m : Nat} (le : n ≤ m) : I.first n <+: I.first m := by
  induction le with
  | refl => exact List.prefix_rfl
  | step _ ih => exact ih.trans (List.prefix_append _ _)

theorem Done.length_le (greedy : Done I done) : done.length ≤ I.tasks.length :=
  (greedy.nodup.1.subperm greedy.nodup.2).length_le

theorem Done.prefix_order (greedy : Done I done) : done <+: I.order := by
  rw [greedy.eq_first]
  exact first_prefix greedy.length_le

/-- Where nothing more can be done, the whole order is done. -/
theorem Done.eq_order (greedy : Done I done) (stuck : I.next done = none) : done = I.order := by
  have still : ∀ k, I.first (done.length + k) = done := by
    intro k
    induction k with
    | zero => exact greedy.eq_first.symm
    | succ k ih =>
        rw [← Nat.add_assoc, Instance.first, ih, Instance.advance, stuck]
        exact List.append_nil _
  have all := still (I.tasks.length - done.length)
  rw [Nat.add_sub_cancel' greedy.length_le] at all
  exact all.symm

/-- A task waits for none but the one before it. -/
def Instance.Chained (I : Instance κ) : Prop :=
  ∀ task, ∀ need ∈ I.needs task, ∃ before after, I.tasks = before ++ need :: task :: after

/-- In a chain, the next task is the first that is left. -/
theorem next_of_chain {rest : List κ} (nodup : I.tasks.Nodup) (chained : I.Chained)
    (split : I.tasks = done ++ task :: rest) :
    I.next done = some task := by
  have apart : task ∉ done ∧ task ∉ rest := by
    rw [split, List.nodup_middle, List.nodup_cons, List.mem_append, not_or] at nodup
    exact nodup.1
  refine List.find?_eq_some_iff_append.mpr
    ⟨?_, done, rest, split, fun earlier member => by simp [member]⟩
  refine decide_eq_true ⟨apart.1, fun need waits => ?_⟩
  obtain ⟨before, after, place⟩ := chained task need waits
  have same : before ++ [need] ++ task :: after = done ++ task :: rest := by
    rw [List.append_assoc]
    exact place.symm.trans split
  rw [((List.append_cons_inj_of_notMem apart.1 apart.2).mp same.symm).1]
  exact List.mem_append.mpr (.inr (List.mem_singleton_self need))

theorem next_of_all (all : I.tasks = done) : I.next done = none := by
  refine List.find?_eq_none.mpr fun task member => ?_
  simp [all ▸ member]

end
end Greedy
