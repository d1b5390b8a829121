import AgenticPlatform.Interaction.System

/-! Programs that make calls of their own beside those of a smaller signature. -/
namespace Interaction

/-- The calls of `S` and those of `E`. -/
@[reducible] def Signature.plus (S E : Signature) : Signature where
  Op := S.Op ⊕ E.Op
  Res
    | .inl op => S.Res op
    | .inr op => E.Res op

section
variable {S E : Signature} {ε α β σ τ : Type}

namespace Prog

/-- A program of the smaller signature. -/
def lift : Prog S ε α → Prog (S.plus E) ε α
  | ret a => .ret a
  | raise e => .raise e
  | halt => .halt
  | call op k => .call (.inl op) fun r => (k r).lift

/-- One call beside those of the smaller signature. -/
@[reducible] def extra (op : E.Op) : Prog (S.plus E) ε (E.Res op) :=
  @perform (S.plus E) ε (.inr op)

theorem lift_perform (op : S.Op) :
    (perform op : Prog S ε (S.Res op)).lift = @perform (S.plus E) ε (Sum.inl op) := by
  refine congrArg (@call (S.plus E) ε (S.Res op) (Sum.inl op)) (funext fun r => ?_)
  cases r with
  | ok a => rfl
  | error e => rfl

end Prog

/-- What a semantics says of the calls of `S`. -/
@[reducible] def Semantics.inner (M : Semantics (S.plus E) ε) : Semantics S ε where
  State := M.State
  step s op r t := M.step s (.inl op) r t
  ok s op := M.ok s (.inl op)

theorem wp_lift {M : Semantics (S.plus E) ε} {p : Prog S ε α} {Q : Outcome ε α → M.State → Prop}
    {s : M.State} :
    wp M p.lift Q s ↔ wp M.inner p Q s := by
  induction p generalizing s with
  | ret a => exact Iff.rfl
  | raise e => exact Iff.rfl
  | halt => exact Iff.rfl
  | call op k ih =>
      apply and_congr_right
      intro _
      apply forall_congr'
      intro r
      apply forall_congr'
      intro t
      exact imp_congr_right fun _ => ih r

/-- The calls of `S` act on their own part of the state; the others see the whole of it. -/
def Handler.plus (h : Handler S ε σ) (g : σ × τ → (op : E.Op) → Except ε (E.Res op) × τ) :
    Handler (S.plus E) ε (σ × τ) := fun s op =>
  match op with
  | .inl op => ((h s.1 op).1, (h s.1 op).2, s.2)
  | .inr op => ((g s op).1, s.1, (g s op).2)

variable {h : Handler S ε σ} {g : σ × τ → (op : E.Op) → Except ε (E.Res op) × τ}

/-- A lifted program runs as before, beside a state that it does not touch. -/
theorem run_lift (p : Prog S ε α) (s : σ × τ) :
    run (h.plus g) p.lift s = ((run h p s.1).1, (run h p s.1).2, s.2) := by
  induction p generalizing s with
  | ret a => rfl
  | raise e => rfl
  | halt => rfl
  | call op k ih => exact ih _ _

theorem run_extra (op : E.Op) (s : σ × τ) :
    run (h.plus g) (Prog.extra op : Prog (S.plus E) ε (E.Res op)) s =
      (.ofExcept (g s op).1, s.1, (g s op).2) :=
  run_perform (h.plus g) (.inr op) s

end
end Interaction
