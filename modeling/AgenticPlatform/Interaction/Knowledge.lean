import AgenticPlatform.Interaction.Calls
import Mathlib.Order.Basic

/-! What parties know of a state that only grows. A program is held to its calls for every amount of
knowledge that its answers agree with; where a call is made, what is known at that moment is
enough. -/
namespace Interaction
variable {S : Signature} {ε α σ κ : Type} [Preorder κ]

/-- A store whose knowledge only grows, whose answers tell no more than what is known, and whose
invariant is kept by the calls that are allowed with what is known. -/
structure Learning (h : Handler S ε σ) (know : σ → κ) (I : σ → Prop) (allowed : κ → S.Op → Prop)
    (answers : κ → (op : S.Op) → S.Res op → Prop) : Prop where
  grows : ∀ s op, I s → allowed (know s) op → know s ≤ know (h s op).2
  keeps : ∀ s op, I s → allowed (know s) op → I (h s op).2
  tells : ∀ s op a k, I s → allowed (know s) op → know (h s op).2 ≤ k → (h s op).1 = .ok a →
    answers k op a

section
variable {h : Handler S ε σ} {know : σ → κ} {I : σ → Prop} {allowed : κ → S.Op → Prop}
  {answers : κ → (op : S.Op) → S.Res op → Prop}

/-- A program that is held to its calls for every knowledge from `s` on. -/
def Informed (know : σ → κ) (allowed : κ → S.Op → Prop)
    (answers : κ → (op : S.Op) → S.Res op → Prop) (s : σ) (p : Prog S ε α) : Prop :=
  ∀ k, know s ≤ k → Calls (allowed k) (answers k) p

/-- It stays so when others act. -/
theorem Informed.later {s t : σ} {p : Prog S ε α} (informed : Informed know allowed answers s p)
    (le : know s ≤ know t) :
    Informed know allowed answers t p :=
  fun k above => informed k (le.trans above)

/-- The call that it makes is allowed with what is known, and it stays so with the answer. -/
theorem Informed.call {s : σ} {op : S.Op} {k : Except ε (S.Res op) → Prog S ε α}
    (rules : Learning h know I allowed answers) (holds : I s)
    (informed : Informed know allowed answers s (.call op k)) :
    allowed (know s) op ∧ Informed know allowed answers (h s op).2 (k (h s op).1) := by
  have allows := (informed (know s) le_rfl).1
  refine ⟨allows, fun knowledge above => ?_⟩
  refine (informed knowledge ((rules.grows s op holds allows).trans above)).2 _
    () fun a answer => ?_
  exact rules.tells s op a knowledge holds allows above answer

/-- In every interleaving, the invariant holds and every call is allowed with what is known where it
is made. -/
theorem Sys.Reaches.informed {γ ι : Type} [DecidableEq ι] {observe : Observer S ε γ}
    {legal : Sys S ε σ γ ι → ι → S.Op → Prop} {c d : Sys S ε σ γ ι}
    (rules : Learning h know I allowed answers)
    (informed : ∀ i, Informed know allowed answers c.shared (c.threads i)) (holds : I c.shared)
    (reach : Sys.Reaches h observe legal c d) :
    I d.shared ∧ ∀ i, Informed know allowed answers d.shared (d.threads i) := by
  refine reach.invariant (I := fun d => I d.shared ∧ ∀ i, Informed know allowed answers d.shared
    (d.threads i))
    ?_ ⟨holds, informed⟩
  rintro d i op ⟨holds, informed⟩ next _
  obtain ⟨k, call⟩ := Sys.pending_eq_some next
  have spec := informed i
  rw [call] at spec
  obtain ⟨allows, later⟩ := spec.call rules holds
  rw [Sys.fire_shared next]
  refine ⟨rules.keeps d.shared op holds allows, fun j => ?_⟩
  simp only [Sys.fire, call]
  by_cases same : j = i
  · subst same
    rw [Function.update_self]
    exact later
  · rw [Function.update_of_ne same]
    exact (informed j).later (rules.grows d.shared op holds allows)

/-- A pending call is allowed with what is known. -/
theorem Informed.pending {γ ι : Type} {c : Sys S ε σ γ ι} {i : ι} {op : S.Op}
    (informed : Informed know allowed answers c.shared (c.threads i))
    (next : c.pending i = some op) :
    allowed (know c.shared) op := by
  obtain ⟨k, call⟩ := Sys.pending_eq_some next
  rw [call] at informed
  exact (informed (know c.shared) le_rfl).1

end

/-- Two things known of one program, where the second asks nothing of the answers. -/
theorem Calls.returns {allowed : S.Op → Prop} {answers : (op : S.Op) → S.Res op → Prop}
    {p : Prog S ε α} {R : α → Prop} (made : Calls allowed answers p)
    (returned : CallsFor (fun _ => True) (fun _ _ => True) p R) :
    CallsFor allowed answers p R := by
  unfold Calls at made
  unfold CallsFor at returned ⊢
  induction p with
  | ret a => exact returned
  | raise e => exact returned
  | halt => exact returned
  | call op k ih =>
      exact ⟨made.1, fun r t answered => ih r (made.2 r () answered)
        (returned.2 r () fun _ _ => trivial)⟩

section
variable {allowed : S.Op → Prop} {answers : (op : S.Op) → S.Res op → Prop} {p : Prog S ε α}
  {R : α → Prop}

theorem callsFor_tryCatch {handler : ε → Prog S ε α} (body : CallsFor allowed answers p R)
    (handled : ∀ e, CallsFor allowed answers (handler e) R) : CallsFor allowed answers
      (p.tryCatch handler) R := by
  refine wp_tryCatch.mpr (wp_mono ?_ body)
  intro o t returned
  cases o with
  | ret a => exact returned
  | raise e => exact handled e
  | halt => rintro b ⟨⟩

theorem calls_inTurn {ps : List (Prog S ε Unit)} (made : ∀ p ∈ ps, Calls allowed answers p) :
    Calls allowed answers (inTurn ps) := by
  induction ps with
  | nil => exact calls_ret _
  | cons p rest ih =>
      obtain ⟨first, others⟩ := List.forall_mem_cons.mp made
      exact calls_bind (calls_tryCatch first fun _ => calls_ret _) fun _ => ih others

/-- Guarded programs make the calls of their blocks. -/
theorem Guarded.callsFor {soft hard : ∀ {β : Type}, Prog S ε β → (β → Prop) → Prop}
    {raises : ε → Prop} (softs : ∀ {β : Type} (p : Prog S ε β) (R : β → Prop), soft p R →
      CallsFor allowed answers p R)
    (hards : ∀ {β : Type} (p : Prog S ε β) (R : β → Prop), hard p R → CallsFor allowed answers p R)
    (built : Guarded soft hard raises p R) : CallsFor allowed answers p R := by
  cases built with
  | plain body => exact body.callsFor hards
  | guarded body handled =>
      exact callsFor_tryCatch (body.callsFor softs) fun e => (handled e).callsFor hards

end
end Interaction
