import AgenticPlatform.Interaction.Extension
import AgenticPlatform.Interaction.Knowledge

/-! Parties that never touch a part of the state run as if it were not there. -/
namespace Interaction
variable {S E : Signature} {ε α σ γ ι κ : Type}

/-- The same parties over another state. -/
def Sys.over (c : Sys S ε σ γ ι) (s : σ) : Sys S ε σ γ ι := { c with shared := s }

/-- Every allowed call is answered as if the part were not there, and keeps it hidden. -/
def Hides (h : Handler S ε σ) (hide : σ → σ) (I : σ → Prop) (allowed : σ → S.Op → Prop) : Prop :=
  ∀ s op, I s → allowed s op → h (hide s) op = ((h s op).1, hide (h s op).2)

section
variable [DecidableEq ι] [Preorder κ] {h : Handler S ε σ} {observe : Observer S ε γ} {hide : σ → σ}
  {know : σ → κ}
  {I : σ → Prop} {allowed : κ → S.Op → Prop} {answers : κ → (op : S.Op) → S.Res op → Prop}
    {c : Sys S ε σ γ ι}

omit [Preorder κ] in
/-- One call with the part and without it. -/
theorem Sys.fire_hidden (hides : Hides h hide I fun s op => allowed (know s) op)
    (holds : I c.shared) (i : ι) (ok : ∀ op, c.pending i = some op → allowed (know c.shared) op) :
    (c.over (hide c.shared)).fire h observe i = (c.fire h observe i).over
      (hide (c.fire h observe i).shared) := by
  unfold Sys.fire Sys.over
  cases next : c.threads i with
  | call op k =>
      have answer := hides c.shared op holds (ok op (by simp [Sys.pending, next]))
      simp only [answer]
  | ret a => rfl
  | raise e => rfl
  | halt => rfl

/-- Every schedule leads to the same threads, with the part and without it. -/
theorem Sys.fires_hidden (rules : Learning h know I allowed answers)
    (hides : Hides h hide I fun s op => allowed (know s) op) (holds : I c.shared)
    (informed : ∀ i, Informed know allowed answers c.shared (c.threads i)) (schedule : List ι) :
    (c.over (hide c.shared)).fires h observe schedule =
      (c.fires h observe schedule).over (hide (c.fires h observe schedule).shared) := by
  induction schedule generalizing c with
  | nil => rfl
  | cons i rest ih =>
      have step : Sys.Reaches h observe (fun _ _ _ => True) c (c.fire h observe i) :=
        Sys.Reaches.refl.fires [i]
      obtain ⟨held, later⟩ := Sys.Reaches.informed rules informed holds step
      rw [Sys.fires, Sys.fires, Sys.fire_hidden hides holds i fun op next =>
        (informed i).pending next]
      exact ih held later

end

/-- Where more is allowed and more is told, a program makes the calls that it made. -/
theorem CallsFor.weaken {allowed allowed' : S.Op → Prop}
    {answers answers' : (op : S.Op) → S.Res op → Prop} {p : Prog S ε α} {R : α → Prop}
    (made : CallsFor allowed answers p R) (more : ∀ op, allowed op → allowed' op)
    (told : ∀ op a, allowed op → answers' op a → answers op a) :
    CallsFor allowed' answers' p R := by
  unfold CallsFor at made ⊢
  induction p with
  | ret a => exact made
  | raise e => exact made
  | halt => exact made
  | call op k ih =>
      obtain ⟨ok, rest⟩ := made
      exact ⟨more op ok, fun r t answered => ih r (rest r () fun a same => told op a ok
        (answered a same))⟩

section
variable {allowed : S.Op → Prop} {answers : (op : S.Op) → S.Res op → Prop}
  {allowed' : (S.plus E).Op → Prop}
  {answers' : (op : (S.plus E).Op) → (S.plus E).Res op → Prop} {p : Prog S ε α} {R : α → Prop}

/-- A lifted program makes the calls that it made, where more is allowed and told. -/
theorem CallsFor.lift (made : CallsFor allowed answers p R)
    (more : ∀ op, allowed op → allowed' (.inl op))
    (told : ∀ op a, allowed op → answers' (.inl op) a → answers op a) :
    CallsFor allowed' answers' (p.lift : Prog (S.plus E) ε α) R := by
  unfold CallsFor at made ⊢
  induction p with
  | ret a => exact made
  | raise e => exact made
  | halt => exact made
  | call op k ih =>
      obtain ⟨ok, rest⟩ := made
      exact ⟨more op ok, fun r t answered => ih r (rest r () fun a same => told op a ok
        (answered a same))⟩

theorem Calls.lift (made : Calls allowed answers p) (more : ∀ op, allowed op → allowed' (.inl op))
    (told : ∀ op a, allowed op → answers' (.inl op) a → answers op a) :
    Calls allowed' answers' (p.lift : Prog (S.plus E) ε α) :=
  (made.for_all.lift more told).calls

end
end Interaction
