import Mathlib.Data.List.Forall2

/-! Pure computations that may raise: what their errors satisfy, and when a map over a list
succeeds and what is then related to what. -/
namespace Interaction
variable {ε α β : Type}

/-- Every error of a result satisfies a predicate. -/
def RaisesOnly (P : ε → Prop) (x : Except ε α) : Prop := ∀ e, x = .error e → P e

section
variable {P : ε → Prop}

@[simp] theorem raisesOnly_ok {a : α} : RaisesOnly P (.ok a : Except ε α) := nofun

@[simp] theorem raisesOnly_error {e : ε} : RaisesOnly P (.error e : Except ε α) ↔ P e :=
  ⟨fun raises => raises e rfl, fun known _ same => Except.error.inj same ▸ known⟩

theorem raisesOnly_bind {x : Except ε α} {f : α → Except ε β} :
    RaisesOnly P (x >>= f) ↔ RaisesOnly P x ∧ ∀ a, x = .ok a → RaisesOnly P (f a) := by
  cases x with
  | error e =>
      change RaisesOnly P (.error e : Except ε β) ↔ _
      rw [raisesOnly_error, raisesOnly_error]
      exact (and_iff_left nofun).symm
  | ok a =>
      change RaisesOnly P (f a) ↔ _
      constructor
      · intro raises
        exact ⟨raisesOnly_ok, fun b same => Except.ok.inj same ▸ raises⟩
      · exact fun raises => raises.2 a rfl

/-- A computation that only raises what it should not is fine exactly when it succeeds. -/
theorem raisesOnly_iff_ok {x : Except ε α} (never : ∀ e, x = .error e → ¬ P e) : RaisesOnly P x ↔
    ∃ a, x = .ok a := by
  cases x with
  | error e =>
      rw [raisesOnly_error]
      exact iff_of_false (never e rfl) nofun
  | ok a => exact iff_of_true raisesOnly_ok ⟨a, rfl⟩

/-- When the rest is fine under a condition that does not depend on what it gets. -/
theorem raisesOnly_bind_iff_ok {x : Except ε α} {f : α → Except ε β} {C : Prop}
    (never : ∀ e, x = .error e → ¬ P e) (rest : ∀ a, RaisesOnly P (f a) ↔ C) : RaisesOnly P
      (x >>= f) ↔ (∃ a, x = .ok a) ∧ C := by
  rw [raisesOnly_bind, raisesOnly_iff_ok never]
  constructor
  · rintro ⟨⟨a, made⟩, later⟩
    exact ⟨⟨a, made⟩, (rest a).mp (later a made)⟩
  · exact fun both => ⟨both.1, fun a _ => (rest a).mpr both.2⟩

end

theorem bind_ok_iff {x : Except ε α} {f : α → Except ε β} {b : β} : x >>= f = .ok b ↔
    ∃ a, x = .ok a ∧ f a = .ok b := by
  cases x with
  | error e => exact iff_of_false nofun nofun
  | ok a =>
      constructor
      · exact fun made => ⟨a, rfl, made⟩
      · rintro ⟨a', same, made⟩
        obtain rfl := Except.ok.inj same
        exact made

theorem exists_ok_bind {x : Except ε α} {f : α → Except ε β} :
    (∃ b, x >>= f = .ok b) ↔ ∃ a, x = .ok a ∧ ∃ b, f a = .ok b := by
  simp only [bind_ok_iff]
  exact ⟨fun ⟨b, a, made, rest⟩ => ⟨a, made, b, rest⟩, fun ⟨a, made, b, rest⟩ => ⟨b, a, made, rest⟩⟩

theorem mapM_ok_iff {f : α → Except ε β} {xs : List α} {ys : List β} :
    xs.mapM f = .ok ys ↔ List.Forall₂ (fun x y => f x = .ok y) xs ys := by
  induction xs generalizing ys with
  | nil =>
      rw [List.mapM_nil, List.forall₂_nil_left_iff]
      exact ⟨fun same => (Except.ok.inj same).symm, fun empty => congrArg Except.ok empty.symm⟩
  | cons x rest ih =>
      rw [List.mapM_cons, List.forall₂_cons_left_iff]
      cases made : f x with
      | error e =>
          refine iff_of_false nofun ?_
          rintro ⟨y, _, known, _⟩
          cases known
      | ok y =>
          cases later : rest.mapM f with
          | error e =>
              refine iff_of_false nofun ?_
              rintro ⟨_, tail, _, known, _⟩
              rw [ih.mpr known] at later
              cases later
          | ok tail =>
              constructor
              · intro same
                obtain rfl : y :: tail = ys := Except.ok.inj same
                exact ⟨y, tail, rfl, ih.mp later, rfl⟩
              · rintro ⟨y', tail', known, same, rfl⟩
                obtain rfl := Except.ok.inj known
                obtain rfl := Except.ok.inj (later.symm.trans (ih.mpr same))
                rfl

/-- What is related to a list one by one has, for each of its values, one that it is related to. -/
theorem forall₂_right {R : α → β → Prop} {xs : List α} {ys : List β}
    (related : List.Forall₂ R xs ys) : ∀ y ∈ ys, ∃ x ∈ xs, R x y := by
  induction related with
  | nil =>
      intro y member
      cases member
  | cons head _ ih =>
      intro y member
      rcases List.mem_cons.mp member with rfl | later
      · exact ⟨_, List.mem_cons_self, head⟩
      · obtain ⟨x, known, holds⟩ := ih y later
        exact ⟨x, List.mem_cons_of_mem _ known, holds⟩

theorem forall₂_map_eq {γ : Type} {R : α → β → Prop} {f : α → γ} {g : β → γ} {xs : List α}
    {ys : List β} (related : List.Forall₂ R xs ys) (same : ∀ x y, R x y → f x = g y) :
    xs.map f = ys.map g := by
  rw [← List.forall₂_eq_eq_eq, List.forall₂_map_left_iff, List.forall₂_map_right_iff]
  exact related.imp same

theorem mapM_ok_exists {f : α → Except ε β} {xs : List α} :
    (∃ ys, xs.mapM f = .ok ys) ↔ ∀ x ∈ xs, ∃ y, f x = .ok y := by
  simp only [mapM_ok_iff]
  induction xs with
  | nil => exact iff_of_true ⟨[], .nil⟩ (by simp)
  | cons x rest ih =>
      rw [List.forall_mem_cons, ← ih]
      constructor
      · rintro ⟨_, made⟩
        cases made with
        | cons first later => exact ⟨⟨_, first⟩, _, later⟩
      · rintro ⟨⟨y, first⟩, ys, later⟩
        exact ⟨y :: ys, .cons first later⟩

/-- The error of a map is one of an element. -/
theorem mapM_error {f : α → Except ε β} {xs : List α} {e : ε} (failed : xs.mapM f = .error e) :
    ∃ x ∈ xs, f x = .error e := by
  induction xs with
  | nil => cases failed
  | cons x rest ih =>
      rw [List.mapM_cons] at failed
      cases made : f x with
      | error e' =>
          rw [made] at failed
          obtain rfl : e' = e := Except.error.inj failed
          exact ⟨x, List.mem_cons_self, made⟩
      | ok y =>
          rw [made] at failed
          cases later : rest.mapM f with
          | error e' =>
              rw [later] at failed
              obtain rfl : e' = e := Except.error.inj failed
              obtain ⟨x', member, known⟩ := ih later
              exact ⟨x', List.mem_cons_of_mem x member, known⟩
          | ok ys =>
              rw [later] at failed
              cases failed

end Interaction
