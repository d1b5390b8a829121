import Mathlib.Algebra.BigOperators.Group.List.Basic
import Mathlib.Algebra.GroupWithZero.Nat
import Mathlib.Data.List.Zip

/-! Findings: items that are collected in order, where making an item can fail and the first
failure ends the collection. `Yields r sound n` is the rule for a collection: under `sound` it gives
`n` items, and otherwise it fails. -/
namespace Reporting

abbrev Findings (ε α : Type) := Except ε (List α)

namespace Findings
variable {ε α β : Type}

def nothing : Findings ε α := .ok []

/-- `out.append(item)`. -/
def report (item : Except ε α) : Findings ε α := item.map fun a => [a]

/-- `out.append(item)` under an `if`. -/
def reportIf (c : Prop) [Decidable c] (item : Except ε α) : Findings ε α :=
  if c then report item else nothing

/-- `out.extend(more)`. -/
def extend (out more : Findings ε α) : Findings ε α :=
  match out with
  | .error e => .error e
  | .ok xs => more.map (xs ++ ·)

instance : Append (Findings ε α) := ⟨extend⟩

/-- A loop that extends the findings. -/
def each (f : β → Findings ε α) : List β → Findings ε α
  | [] => nothing
  | x :: rest => f x ++ each f rest

/-- How many findings a condition stands for. -/
def tally (c : Prop) [Decidable c] : Nat := if c then 1 else 0

structure Yields (r : Findings ε α) (sound : Prop) (n : Nat) : Prop where
  found : sound → ∃ items, r = .ok items ∧ items.length = n
  failed : ¬sound → ∃ e, r = .error e

section
variable {r s : Findings ε α} {sound sound' : Prop} {n m : Nat} {item : Except ε α}

theorem Yields.congr (yields : Yields r sound n) (same : sound' ↔ sound) : Yields r sound' n :=
  ⟨fun h => yields.found (same.mp h), fun h => yields.failed fun h' => h (same.mpr h')⟩

theorem yields_nothing : Yields (nothing : Findings ε α) True 0 := by
  constructor
  · intro _
    exact ⟨[], rfl, rfl⟩
  · intro no
    exact absurd trivial no

theorem yields_report {valid : Prop} (made : valid → ∃ a, item = .ok a)
    (refused : ¬valid → ∃ e, item = .error e) :
    Yields (report item) valid 1 := by
  constructor
  · intro ok
    obtain ⟨a, rfl⟩ := made ok
    exact ⟨[a], rfl, rfl⟩
  · intro bad
    obtain ⟨e, rfl⟩ := refused bad
    exact ⟨e, rfl⟩

theorem Yields.when {c : Prop} [Decidable c] (yields : c → Yields (report item) sound 1) :
    Yields (reportIf c item) (c → sound) (tally c) := by
  unfold reportIf tally
  split
  · next holds =>
      apply (yields holds).congr
      exact ⟨fun h => h holds, fun h _ => h⟩
  · next fails =>
      apply yields_nothing.congr
      exact ⟨fun _ => trivial, fun _ holds => absurd holds fails⟩

theorem Yields.append (first : Yields r sound n) (second : Yields s sound' m) :
    Yields (r ++ s) (sound ∧ sound') (n + m) := by
  constructor
  · rintro ⟨ok, ok'⟩
    obtain ⟨xs, rfl, rfl⟩ := first.found ok
    obtain ⟨ys, rfl, rfl⟩ := second.found ok'
    exact ⟨xs ++ ys, rfl, List.length_append⟩
  · intro bad
    by_cases ok : sound
    · obtain ⟨xs, rfl, -⟩ := first.found ok
      obtain ⟨e, rfl⟩ := second.failed fun ok' => bad ⟨ok, ok'⟩
      exact ⟨e, rfl⟩
    · obtain ⟨e, rfl⟩ := first.failed ok
      exact ⟨e, rfl⟩

/-- Two collections that never fail. -/
theorem Yields.both (first : Yields r True n) (second : Yields s True m) : Yields
    (r ++ s) True (n + m) :=
  (first.append second).congr (iff_of_eq (and_true True).symm)

theorem yields_each {f : β → Findings ε α} {sound : β → Prop} {n : β → Nat} {xs : List β}
    (yields : ∀ x ∈ xs, Yields (f x) (sound x) (n x)) : Yields (each f xs) (∀ x ∈ xs, sound x)
    (xs.map n).sum := by
  induction xs with
  | nil =>
      apply yields_nothing.congr
      exact ⟨fun _ => trivial, fun _ x member => absurd member List.not_mem_nil⟩
  | cons x rest ih =>
      rw [List.map_cons, List.sum_cons, each]
      have tail := ih fun y member => yields y (List.mem_cons_of_mem x member)
      apply ((yields x List.mem_cons_self).append tail).congr
      exact List.forall_mem_cons

/-- A loop that never fails. -/
theorem yields_all {f : β → Findings ε α} {n : β → Nat} {xs : List β}
    (yields : ∀ x ∈ xs, Yields (f x) True (n x)) :
    Yields (each f xs) True (xs.map n).sum :=
  (yields_each yields).congr ⟨fun _ _ _ => trivial, fun _ => trivial⟩

end

/-- The findings, if they could be collected, all satisfy `P`. -/
def All (P : α → Prop) (f : Findings ε α) : Prop := ∀ xs, f = .ok xs → ∀ x ∈ xs, P x

section
variable {P : α → Prop} {r s : Findings ε α} {item : Except ε α} {xs : List α}

theorem ok_append (collected : r ++ s = .ok xs) : ∃ ys zs, r = .ok ys ∧ s = .ok zs ∧
    xs = ys ++ zs := by
  cases r with
  | error e => cases collected
  | ok ys =>
      cases s with
      | error e => cases collected
      | ok zs => exact ⟨ys, zs, rfl, rfl, (Except.ok.inj collected).symm⟩

theorem ok_report (collected : report item = .ok xs) : ∃ x, item = .ok x ∧ xs = [x] := by
  cases item with
  | error e => cases collected
  | ok x => exact ⟨x, rfl, (Except.ok.inj collected).symm⟩

theorem all_nothing : All P (nothing : Findings ε α) := by
  rintro _ ⟨⟩ x member
  exact absurd member List.not_mem_nil

theorem all_report (made : ∀ x, item = .ok x → P x) : All P (report item) := by
  intro xs collected x member
  obtain ⟨y, known, rfl⟩ := ok_report collected
  exact List.mem_singleton.mp member ▸ made y known

theorem all_error {e : ε} : All P (report (.error e)) := fun _ collected => nomatch collected

theorem All.when {c : Prop} [Decidable c] (all : c → All P (report item)) : All P
    (reportIf c item) := by
  unfold reportIf
  split
  · next holds => exact all holds
  · exact all_nothing

theorem All.append (first : All P r) (second : All P s) : All P (r ++ s) := by
  intro xs collected x member
  obtain ⟨ys, zs, left, right, rfl⟩ := ok_append collected
  rcases List.mem_append.mp member with here | there
  · exact first ys left x here
  · exact second zs right x there

theorem all_each {f : β → Findings ε α} {l : List β} (all : ∀ b ∈ l, All P (f b)) : All P
    (each f l) := by
  induction l with
  | nil => exact all_nothing
  | cons b rest ih =>
      exact (all b List.mem_cons_self).append
        (ih fun c member => all c (List.mem_cons_of_mem b member))

theorem each_ok {f : β → Findings ε α} {l : List β} (collected : each f l = .ok xs) {b : β}
    (member : b ∈ l) :
    ∃ ys, f b = .ok ys := by
  induction l generalizing xs with
  | nil => cases member
  | cons c rest ih =>
      obtain ⟨ys, zs, head, tail, rfl⟩ := ok_append collected
      rcases List.mem_cons.mp member with rfl | later
      · exact ⟨ys, head⟩
      · exact ih tail later

/-- A loop finds what one of its passes finds. -/
theorem mem_each {f : β → Findings ε α} {l : List β} (collected : each f l = .ok xs) {x : α} :
    x ∈ xs ↔ ∃ b ∈ l, ∃ ys, f b = .ok ys ∧ x ∈ ys := by
  induction l generalizing xs with
  | nil =>
      obtain rfl := Except.ok.inj collected
      simp
  | cons b rest ih =>
      obtain ⟨ys, zs, head, tail, rfl⟩ := ok_append collected
      rw [List.mem_append, ih tail, List.exists_mem_cons_iff]
      refine or_congr_left ⟨fun member => ⟨ys, head, member⟩, ?_⟩
      rintro ⟨ys', head', member⟩
      obtain rfl := Except.ok.inj (head.symm.trans head')
      exact member

end

/-- Two collections that correspond item by item, or that fail alike. -/
inductive Alike (R : α → β → Prop) : Findings ε α → Findings ε β → Prop
  | found {xs : List α} {ys : List β} : List.Forall₂ R xs ys → Alike R (.ok xs) (.ok ys)
  | failed (e : ε) : Alike R (.error e) (.error e)

section
variable {γ δ : Type} {R : α → β → Prop} {r s : Findings ε α} {r' s' : Findings ε β}

theorem alike_nothing : Alike R (nothing : Findings ε α) (nothing : Findings ε β) := .found .nil

theorem Alike.append (first : Alike R r r') (second : Alike R s s') : Alike R (r ++ s)
    (r' ++ s') := by
  cases first with
  | failed e => exact .failed e
  | found pairs =>
      cases second with
      | failed e => exact .failed e
      | found more => exact .found (List.rel_append pairs more)

theorem Alike.when {c c' : Prop} [Decidable c] [Decidable c'] {a : Except ε α} {b : Except ε β}
    (same : c ↔ c') (alike : c → Alike R (report a) (report b)) : Alike R (reportIf c a)
    (reportIf c' b) := by
  unfold reportIf
  by_cases holds : c
  · rw [if_pos holds, if_pos (same.mp holds)]
    exact alike holds
  · rw [if_neg holds, if_neg fun holds' => holds (same.mpr holds')]
    exact alike_nothing

theorem alike_each {f : γ → Findings ε α} {g : δ → Findings ε β} {xs : List γ} {ys : List δ}
    (alike : List.Forall₂ (fun x y => Alike R (f x) (g y)) xs ys) : Alike R (each f xs)
    (each g ys) := by
  induction alike with
  | nil => exact alike_nothing
  | cons head _ ih => exact head.append ih

/-- Loops over the pairs of two lists, taken in either order. -/
theorem alike_zip {f : (γ × δ) × Nat → Findings ε α} {g : (δ × γ) × Nat → Findings ε β}
    {xs : List γ} {ys : List δ}
    (alike : ∀ x ∈ xs, ∀ y ∈ ys, ∀ n, Alike R (f ((x, y), n)) (g ((y, x), n))) :
    Alike R (each f (xs.zip ys).zipIdx) (each g (ys.zip xs).zipIdx) := by
  rw [← List.zip_swap xs ys, List.zipIdx_map]
  refine alike_each (List.forall₂_map_right_iff.mpr (List.forall₂_same.mpr fun pair member => ?_))
  obtain ⟨left, right⟩ := List.of_mem_zip (List.fst_mem_of_mem_zipIdx member)
  exact alike pair.1.1 left pair.1.2 right pair.2

theorem append_assoc (r s t : Findings ε α) : r ++ s ++ t = r ++ (s ++ t) := by
  cases r with
  | error e => rfl
  | ok xs =>
      cases s with
      | error e => rfl
      | ok ys =>
          cases t with
          | error e => rfl
          | ok zs => exact congrArg Except.ok (List.append_assoc xs ys zs)

theorem reportIf_of_not {c : Prop} [Decidable c] {item : Except ε α} (not : ¬c) :
    reportIf c item = nothing := if_neg not

theorem each_nothing {f : β → Findings ε α} {xs : List β} (none : ∀ x ∈ xs, f x = nothing) :
    each f xs = nothing := by
  induction xs with
  | nil => rfl
  | cons x rest ih =>
      rw [each, none x List.mem_cons_self, ih fun y member => none y
        (List.mem_cons_of_mem x member)]
      rfl

end
end Findings
end Reporting
