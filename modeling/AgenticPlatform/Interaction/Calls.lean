import AgenticPlatform.Interaction.System

/-! Which calls a program can make, whatever it is answered. Nothing is known of the
surroundings but what `answers` says of each answer that is no error. -/
namespace Interaction

section
variable {S : Signature} {ε α β σ : Type}

/-- Every call must be `allowed`; a call that succeeds is answered as `answers` says. -/
abbrev calling (allowed : S.Op → Prop) (answers : (op : S.Op) → S.Res op → Prop) :
    Semantics S ε where
  State := Unit
  step _ op r _ := ∀ a, r = .ok a → answers op a
  ok _ op := allowed op

/-- The program makes only allowed calls. -/
def Calls (allowed : S.Op → Prop) (answers : (op : S.Op) → S.Res op → Prop)
    (p : Prog S ε α) : Prop :=
  wp (calling allowed answers) p (fun _ _ => True) ()

/-- The program makes only allowed calls and returns what satisfies `R`. -/
def CallsFor (allowed : S.Op → Prop) (answers : (op : S.Op) → S.Res op → Prop) (p : Prog S ε α)
    (R : α → Prop) : Prop :=
  wp (calling allowed answers) p (fun o _ => ∀ a, o = .ret a → R a) ()

variable {allowed allowed' : S.Op → Prop} {answers : (op : S.Op) → S.Res op → Prop} {p : Prog S ε α}
  {R : α → Prop}

theorem CallsFor.calls (made : CallsFor allowed answers p R) : Calls allowed answers p :=
  wp_mono (fun _ _ _ => trivial) made

theorem Calls.for_all (made : Calls allowed answers p) : CallsFor allowed answers p
    (fun _ => True) :=
  wp_mono (fun _ _ _ _ _ => trivial) made

theorem calls_ret (a : α) : Calls allowed answers (.ret a : Prog S ε α) := trivial

theorem calls_raise (e : ε) : Calls allowed answers (.raise e : Prog S ε α) := trivial

theorem calls_halt : Calls allowed answers (.halt : Prog S ε α) := trivial

theorem callsFor_ret {a : α} (holds : R a) : CallsFor allowed answers (.ret a : Prog S ε α) R := by
  rintro b ⟨⟩
  exact holds

theorem calls_perform {op : S.Op} (ok : allowed op) : Calls allowed answers
    (.perform op : Prog S ε (S.Res op)) := by
  refine wp_perform.mpr ⟨ok, fun r t _ => ?_⟩
  cases r <;> trivial

theorem callsFor_perform {op : S.Op} (ok : allowed op) :
    CallsFor allowed answers (.perform op : Prog S ε (S.Res op)) (answers op) := by
  refine wp_perform.mpr ⟨ok, fun r t answered => ?_⟩
  cases r with
  | ok a =>
      rintro b ⟨⟩
      exact answered a rfl
  | error e => rintro b ⟨⟩

theorem callsFor_bind {f : α → Prog S ε β} {R' : β → Prop} (first : CallsFor allowed answers p R)
    (next : ∀ a, R a → CallsFor allowed answers (f a) R') : CallsFor allowed answers
      (p >>= f) R' := by
  refine wp_bind.mpr (wp_mono ?_ first)
  intro o t returned
  cases o with
  | ret a => exact next a (returned a rfl)
  | raise e => rintro b ⟨⟩
  | halt => rintro b ⟨⟩

theorem calls_then {f : α → Prog S ε β} (first : CallsFor allowed answers p R)
    (next : ∀ a, R a → Calls allowed answers (f a)) : Calls allowed answers (p >>= f) :=
  (callsFor_bind first fun a holds => (next a holds).for_all).calls

theorem calls_bind {f : α → Prog S ε β} (first : Calls allowed answers p)
    (next : ∀ a, Calls allowed answers (f a)) : Calls allowed answers (p >>= f) :=
  calls_then first.for_all fun a _ => next a

theorem calls_tryCatch {h : ε → Prog S ε α} (body : Calls allowed answers p)
    (handled : ∀ e, Calls allowed answers (h e)) : Calls allowed answers (p.tryCatch h) := by
  refine wp_tryCatch.mpr (wp_mono ?_ body)
  intro o t _
  cases o with
  | ret a => trivial
  | raise e => exact handled e
  | halt => trivial

theorem calls_ite {c : Prop} [Decidable c] {q : Prog S ε α} (yes : c → Calls allowed answers p)
    (no : ¬c → Calls allowed answers q) : Calls allowed answers (if c then p else q) :=
  wp_ite yes no

theorem callsFor_raise (e : ε) : CallsFor allowed answers (.raise e : Prog S ε α) R := by
  rintro b ⟨⟩

theorem CallsFor.mono {R' : α → Prop} (made : CallsFor allowed answers p R)
    (weaker : ∀ a, R a → R' a) :
    CallsFor allowed answers p R' :=
  wp_mono (fun _ _ returned a ret => weaker a (returned a ret)) made

/-- Programs built of blocks make the calls of their blocks. -/
theorem Built.callsFor {block : ∀ {β : Type}, Prog S ε β → (β → Prop) → Prop} {raises : ε → Prop}
    (blocks : ∀ {β : Type} (p : Prog S ε β) (R : β → Prop), block p R →
      CallsFor allowed answers p R)
    (built : Built block raises p R) : CallsFor allowed answers p R := by
  induction built with
  | ret a holds => exact callsFor_ret holds
  | raise e _ => exact callsFor_raise e
  | block known weaker => exact (blocks _ _ known).mono weaker
  | bind _ _ first next => exact callsFor_bind first next

/-- Every call that a run makes is allowed, in surroundings that answer as required. -/
theorem Calls.visited {L : Semantics S ε} (made : Calls allowed answers p)
    (answered : ∀ s op a t, L.ok s op → allowed op → L.step s op (.ok a) t → answers op a)
    {s t : L.State} {op : S.Op} {k : Except ε (S.Res op) → Prog S ε α}
    (visits : Visits L (p, s) (.call op k, t)) : allowed op := by
  have views : Views L (calling (ε := ε) allowed answers) (fun _ _ => True) := by
    rintro s ⟨⟩ op r t _ ok allows step
    refine ⟨(), ?_, trivial⟩
    rintro a rfl
    exact answered s op a t ok allows step
  obtain ⟨_, _, rest⟩ := visits.wp views (g := ()) trivial made
  exact rest.1

/-- What the allowed calls keep in a semantics, the program keeps there. -/
theorem Calls.keeps {M : Semantics S ε} {J : M.State → Prop}
    (made : Calls allowed (fun _ _ => True) p) (keeps : ∀ s op, allowed op → J s → M.ok s op ∧
      ∀ r t, M.step s op r t → J t) {s : M.State} (hs : J s) :
    wp M p (fun _ t => J t) s := by
  unfold Calls at made
  induction p generalizing s with
  | ret a => exact hs
  | raise e => exact hs
  | halt => exact hs
  | call op k ih =>
      obtain ⟨fine, kept⟩ := keeps s op made.1 hs
      exact ⟨fine, fun r t step => ih r (made.2 r () fun _ _ => trivial) (kept r t step)⟩

/-- What the allowed calls keep of the shared state, any interleaving of the programs keeps. -/
theorem Calls.reaches {γ ι : Type} [DecidableEq ι] {h : Handler S ε σ} {observe : Observer S ε γ}
    {legal : Sys S ε σ γ ι → ι → S.Op → Prop} {c d : Sys S ε σ γ ι} {I : σ → Prop}
    (made : ∀ i, Calls allowed answers (c.threads i))
    (answered : ∀ d i op a, legal d i op → (h d.shared op).1 = .ok a → answers op a)
    (keeps : ∀ s op, allowed op → I s → I (h s op).2) (start : I c.shared)
    (reach : Sys.Reaches h observe legal c d) : I d.shared := by
  have whole : (∀ i, Calls allowed answers (d.threads i)) ∧ I d.shared := by
    refine reach.invariant (I := fun d => (∀ i, Calls allowed answers (d.threads i)) ∧
      I d.shared) ?_ ⟨made, start⟩
    rintro d i op ⟨made, holds⟩ next ok
    obtain ⟨k, call⟩ := Sys.pending_eq_some next
    have spec := made i
    rw [call] at spec
    constructor
    · intro j
      simp only [Sys.fire, call]
      by_cases same : j = i
      · subst same
        rw [Function.update_self]
        exact spec.2 _ () fun a answer => answered d j op a ok answer
      · rw [Function.update_of_ne same]
        exact made j
    · rw [Sys.fire_shared next]
      exact keeps d.shared op spec.1 holds
  exact whole.2

/-- The semantics of a handler in which the calls must be `ok`. -/
abbrev Handler.under (h : Handler S ε σ) (ok : σ → S.Op → Prop) : Semantics S ε :=
  { h.sem with ok := ok }

variable {h : Handler S ε σ} {ok : σ → S.Op → Prop} {I : σ → Prop}

theorem wp_under_ok {op : S.Op} {a : S.Res op} {f : S.Res op → Prog S ε β}
    {Q : Outcome ε β → σ → Prop} {s : σ} (allows : ok s op) (answer : (h s op).1 = .ok a)
    (next : wp (h.under ok) (f a) Q (h s op).2) :
    wp (h.under ok) (.perform op >>= f) Q s := by
  rw [wp_bind, wp_perform]
  refine ⟨allows, fun r t step => ?_⟩
  obtain ⟨rfl, rfl⟩ := Prod.mk.inj step
  rw [answer]
  exact next

/-- A program of allowed calls, each of which is `ok` and keeps `I`. -/
theorem Calls.under (made : Calls allowed (fun _ _ => True) p)
    (keeps : ∀ s op, allowed op → I s → ok s op ∧ I (h s op).2) {s : σ} (hs : I s) :
    wp (h.under ok) p (fun _ t => I t) s := by
  apply made.keeps (M := h.under ok) _ hs
  intro s op allows hs
  obtain ⟨fine, kept⟩ := keeps s op allows hs
  refine ⟨fine, fun r t step => ?_⟩
  obtain ⟨rfl, rfl⟩ := Prod.mk.inj step
  exact kept

/-- A call that a run makes is `ok` where it is made. -/
theorem visited_under {Q : Outcome ε α → σ → Prop} {s t : σ} {op : S.Op}
    {k : Except ε (S.Res op) → Prog S ε α} (spec : wp (h.under ok) p Q s)
    (visits : Visits h.sem (p, s) (.call op k, t)) : ok t op := by
  have views : Views h.sem (h.under ok) Eq := by
    rintro s _ op r t rfl _ _ step
    exact ⟨t, step, rfl⟩
  obtain ⟨_, rfl, rest⟩ := visits.wp views rfl spec
  exact rest.1

/-- What the calls keep that are `ok`, a run keeps. -/
theorem run_under {Q : Outcome ε α → σ → Prop} {s : σ} (spec : wp (h.under ok) p Q s)
    (keeps : ∀ s op, ok s op → I s → I (h s op).2) (hs : I s) : I (run h p s).2 := by
  induction p generalizing s with
  | ret a => exact hs
  | raise e => exact hs
  | halt => exact hs
  | call op k ih => exact ih _ (spec.2 _ _ rfl) (keeps s op spec.1 hs)

end
end Interaction
