import AgenticPlatform.Interaction.Program

/-! Loops without a condition: each round ends the loop or asks for another one, and the loop ends
because a measure of the state goes down. -/
namespace Interaction
variable {S : Signature} {ε α : Type}

/-- `while True`, cut short after that many rounds. A round that answers `none` asks for another. -/
def Prog.loop (round : Prog S ε (Option α)) : Nat → Prog S ε α
  | 0 => .halt
  | n + 1 => round >>= fun
    | some a => .ret a
    | none => loop round n

/-- Where a round leaves: at an end of the loop, or in a state from which it may go on. -/
def rounds {σ : Type} (Q : Outcome ε α → σ → Prop) (more : σ → Prop) : Outcome ε
    (Option α) → σ → Prop
  | .ret (some a), t => Q (.ret a) t
  | .ret none, t => more t
  | .raise e, t => Q (.raise e) t
  | .halt, _ => False

section
variable {M : Semantics S ε} {round : Prog S ε (Option α)} {I : M.State → Prop}
  {measure : M.State → Nat}
  {Q : Outcome ε α → M.State → Prop}

/-- With more rounds than the measure of its first state a loop comes to an end of its own. -/
theorem wp_loop {n : Nat} {s : M.State} (start : I s) (enough : measure s < n)
    (step : ∀ s, I s → wp M round (rounds Q fun t => I t ∧ measure t < measure s) s) :
    wp M (round.loop n) Q s := by
  induction n generalizing s with
  | zero => exact absurd enough (Nat.not_lt_zero _)
  | succ n ih =>
      unfold Prog.loop
      rw [wp_bind]
      refine wp_mono ?_ (step s start)
      intro o t ht
      cases o with
      | ret answer =>
          cases answer with
          | some a => exact ht
          | none => exact ih ht.1 (by have := ht.2; omega)
      | raise e => exact ht
      | halt => exact ht.elim

end
end Interaction
