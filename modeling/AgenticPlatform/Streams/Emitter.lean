import Mathlib.Data.List.Chain

/-! Programs that keep a state and send messages in order. A property of what is sent between two
states, `R s sent t`, is proved of the parts of a program and holds of the whole when it
composes. -/
namespace Streams

/-- From a state to the next one and the messages sent on the way. -/
abbrev Emitter (σ ο : Type) := σ → σ × List ο

namespace Emitter
variable {σ ο α κ : Type}

def quiet : Emitter σ ο := fun s => (s, [])

/-- An assignment. -/
def change (f : σ → σ) : Emitter σ ο := fun s => (f s, [])

/-- One program and then another. -/
def andThen (f g : Emitter σ ο) : Emitter σ ο := fun s => ((g (f s).1).1, (f s).2 ++ (g (f s).1).2)

def when (c : Prop) [Decidable c] (f : Emitter σ ο) : Emitter σ ο := if c then f else quiet

/-- A program that depends on the state it finds. -/
def reading (f : σ → Emitter σ ο) : Emitter σ ο := fun s => f s s

/-- A loop. -/
def each (f : α → Emitter σ ο) : List α → Emitter σ ο
  | [] => quiet
  | a :: rest => (f a).andThen (each f rest)

section
variable {f g : Emitter σ ο} {s : σ}

@[simp] theorem quiet_apply : (quiet : Emitter σ ο) s = (s, []) := rfl

@[simp] theorem change_apply {h : σ → σ} : (change h : Emitter σ ο) s = (h s, []) := rfl

@[simp] theorem reading_apply {h : σ → Emitter σ ο} : reading h s = h s s := rfl

@[simp] theorem andThen_fst : (f.andThen g s).1 = (g (f s).1).1 := rfl

@[simp] theorem andThen_snd : (f.andThen g s).2 = (f s).2 ++ (g (f s).1).2 := rfl

@[simp] theorem when_pos {c : Prop} [Decidable c] (holds : c) : when c f = f := if_pos holds

@[simp] theorem when_neg {c : Prop} [Decidable c] (fails : ¬c) : when c f = quiet := if_neg fails

end

/-- What is sent between the states a program leads from and to. -/
def Follows (R : σ → List ο → σ → Prop) (f : Emitter σ ο) : Prop := ∀ s, R s (f s).2 (f s).1

/-- `R` holds of silence, and of two runs one after the other when it holds of both. -/
structure Composes (R : σ → List ο → σ → Prop) : Prop where
  silence : ∀ s, R s [] s
  next : ∀ {s t u : σ} {xs ys : List ο}, R s xs t → R t ys u → R s (xs ++ ys) u

section
variable {R : σ → List ο → σ → Prop} {f g : Emitter σ ο}

theorem Follows.mono {R' : σ → List ο → σ → Prop} (follows : Follows R f)
    (weaker : ∀ s xs t, R s xs t → R' s xs t) : Follows R' f :=
  fun s => weaker s _ _ (follows s)

theorem follows_quiet (composes : Composes R) : Follows R (quiet : Emitter σ ο) := composes.silence

theorem Follows.andThen (composes : Composes R) (first : Follows R f) (second : Follows R g) :
    Follows R (f.andThen g) :=
  fun s => composes.next (first s) (second (f s).1)

theorem Follows.when (composes : Composes R) {c : Prop} [Decidable c] (follows : c → Follows R f) :
    Follows R (when c f) := by
  unfold Emitter.when
  split
  · next holds => exact follows holds
  · exact follows_quiet composes

theorem follows_reading {h : σ → Emitter σ ο} (follows : ∀ s, R s (h s s).2 (h s s).1) : Follows R
    (reading h) :=
  follows

theorem follows_each (composes : Composes R) {h : α → Emitter σ ο} {xs : List α}
    (follows : ∀ a ∈ xs, Follows R (h a)) : Follows R (each h xs) := by
  induction xs with
  | nil => exact follows_quiet composes
  | cons a rest ih =>
      apply Follows.andThen composes
      · exact follows a List.mem_cons_self
      · exact ih fun b member => follows b (List.mem_cons_of_mem a member)

end

section
variable {f : α → Emitter σ ο} {s : σ} {xs ys : List α}

theorem each_append : each f (xs ++ ys) = (each f xs).andThen (each f ys) := by
  induction xs with
  | nil => rfl
  | cons a rest ih =>
      funext s
      simp only [List.cons_append, each, andThen, ih, List.append_assoc]

/-- A loop is silent if each round is, where a silent round leaves the state. -/
theorem each_silent (still : ∀ a s, (f a s).2 = [] → (f a s).1 = s) :
    (each f xs s).2 = [] ↔ ∀ a ∈ xs, (f a s).2 = [] := by
  induction xs with
  | nil => exact ⟨fun _ _ no => absurd no List.not_mem_nil, fun _ => rfl⟩
  | cons a rest ih =>
      rw [each, andThen_snd, List.append_eq_nil_iff, List.forall_mem_cons]
      apply and_congr_right
      intro silent
      rw [still a s silent]
      exact ih

/-- A loop over inputs that are related from one to the next: `view` is what the loop's invariant
keeps of the last input, and `k` stands for the input before the first. -/
theorem each_along {view : α → κ} {R : κ → κ → Prop} {Inv : κ → σ → List ο → Prop} {k : κ}
    {sent : List ο} (step : ∀ {k a s sent}, R k (view a) → Inv k s sent → Inv (view a) (f a s).1
      (sent ++ (f a s).2))
    (start : Inv k s sent) (chain : List.IsChain R (k :: xs.map view)) :
    Inv ((xs.map view).getLastD k) (each f xs s).1 (sent ++ (each f xs s).2) := by
  induction xs generalizing k s sent with
  | nil => simpa [each, quiet] using start
  | cons a rest ih =>
      rw [List.map_cons, List.isChain_cons_cons] at chain
      have later := ih (step chain.1 start) chain.2
      simpa only [each, andThen, List.map_cons, List.getLastD_cons, List.append_assoc] using later

end

/-- The messages carry the numbers after the counter's, one by one, and the counter the last. -/
def Numbered (counter : σ → Nat) (number : ο → Nat) (s : σ) (sent : List ο) (t : σ) : Prop :=
  sent.map number = List.range' (counter s + 1) sent.length ∧ counter t = counter s + sent.length

theorem numbered_composes (counter : σ → Nat) (number : ο → Nat) : Composes
    (Numbered counter number) := by
  constructor
  · intro s
    exact ⟨rfl, rfl⟩
  · rintro s t u xs ys ⟨before, count⟩ ⟨after, total⟩
    constructor
    · rw [List.map_append, before, after, count, List.length_append, ← List.range'_append_1]
      congr 2
      omega
    · rw [total, count, List.length_append, Nat.add_assoc]

/-- The program sends only messages of one kind and keeps a part of the state. -/
def Within (kind : ο → Prop) (part : σ → κ) (s : σ) (sent : List ο) (t : σ) : Prop :=
  (∀ o ∈ sent, kind o) ∧ part t = part s

theorem within_composes (kind : ο → Prop) (part : σ → κ) : Composes (Within kind part) := by
  constructor
  · intro s
    exact ⟨List.forall_mem_nil kind, rfl⟩
  · rintro s t u xs ys ⟨before, kept⟩ ⟨after, kept'⟩
    exact ⟨List.forall_mem_append.mpr ⟨before, after⟩, kept'.trans kept⟩

end Emitter
end Streams
