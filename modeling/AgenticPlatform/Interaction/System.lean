import AgenticPlatform.Interaction.Program
import Mathlib.Logic.Function.Basic

/-! Runs of programs: one after another, and any number of them interleaved call
by call over one shared state. -/
namespace Interaction
variable {S : Signature} {ε α σ : Type}

/-- The calls of a list of programs made one after another; a program that raises
does not stop the later ones. -/
def inTurn : List (Prog S ε Unit) → Prog S ε Unit
  | [] => .ret ()
  | p :: rest => p.tryCatch (fun _ => .ret ()) >>= fun _ => inTurn rest

/-- A boundary invariant that each program keeps whenever it ends is kept by the whole. -/
theorem wp_inTurn {M : Semantics S ε} {I : M.State → Prop} (ps : List (Prog S ε Unit))
    (keeps : ∀ p ∈ ps, ∀ s, I s → wp M p (fun o t => o = .halt ∨ I t) s) (s : M.State) (hs : I s) :
    wp M (inTurn ps) (fun o t => o = .halt ∨ I t) s := by
  induction ps generalizing s with
  | nil => exact .inr hs
  | cons p rest ih =>
      have later : ∀ t, I t → wp M (inTurn rest) (fun o t => o = .halt ∨ I t) t :=
        ih (fun q member => keeps q (List.mem_cons_of_mem p member))
      simp only [inTurn, wp_bind, wp_tryCatch]
      refine wp_mono ?_ (keeps p List.mem_cons_self s hs)
      intro o t ht
      cases o with
      | ret a => exact later t (ht.resolve_left (by simp))
      | raise e => exact later t (ht.resolve_left (by simp))
      | halt => exact .inl rfl

/-- States passed through, call by call, by a run whose calls are all `ok`. -/
inductive Visits (L : Semantics S ε) (start : Prog S ε α × L.State) : Prog S ε α × L.State → Prop
  | refl : Visits L start start
  | call {op : S.Op} {k : Except ε (S.Res op) → Prog S ε α} {s t : L.State}
      {r : Except ε (S.Res op)} :
      Visits L start (.call op k, s) → L.ok s op → L.step s op r t → Visits L start (k r, t)

theorem Visits.trans {L : Semantics S ε} {a b c : Prog S ε α × L.State}
    (first : Visits L a b) (rest : Visits L b c) : Visits L a c := by
  induction rest with
  | refl => exact first
  | call _ ok step ih => exact ih.call ok step

/-- `M` is a view of `L` through `R`: it can follow every call of `L`. -/
def Views (L M : Semantics S ε) (R : L.State → M.State → Prop) : Prop :=
  ∀ s g op r t, R s g → L.ok s op → M.ok g op → L.step s op r t → ∃ g', M.step g op r g' ∧ R t g'

/-- A specification in a view that also answers for the calls of `L` is one in `L`. -/
theorem wp_of_view {L M : Semantics S ε} {R : L.State → M.State → Prop}
    (views : ∀ s g op, R s g → M.ok g op → L.ok s op ∧ ∀ r t, L.step s op r t →
      ∃ g', M.step g op r g' ∧ R t g')
    {p : Prog S ε α} {Q : Outcome ε α → M.State → Prop} {s : L.State} {g : M.State} (start : R s g)
    (spec : wp M p Q g) : wp L p (fun o t => ∃ g', R t g' ∧ Q o g') s := by
  induction p generalizing s g with
  | ret a => exact ⟨g, start, spec⟩
  | raise e => exact ⟨g, start, spec⟩
  | halt => exact ⟨g, start, spec⟩
  | call op k ih =>
      obtain ⟨ok, steps⟩ := views s g op start spec.1
      refine ⟨ok, fun r t step => ?_⟩
      obtain ⟨g', step', seen⟩ := steps r t step
      exact ih r seen (spec.2 r g' step')

/-- A run stays within every view of its semantics, and the rest of the program still meets
its specification there. -/
theorem Visits.wp {L M : Semantics S ε} {R : L.State → M.State → Prop} (views : Views L M R)
    {p q : Prog S ε α} {s t : L.State} (visits : Visits L (p, s) (q, t))
    {Q : Outcome ε α → M.State → Prop} {g : M.State} (start : R s g) (spec : wp M p Q g) :
    ∃ g', R t g' ∧ Interaction.wp M q Q g' := by
  generalize hend : (q, t) = last at visits
  induction visits generalizing q t with
  | refl =>
      obtain ⟨rfl, rfl⟩ := Prod.mk.inj hend
      exact ⟨g, start, spec⟩
  | @call op k u v r before ok step ih =>
      obtain ⟨rfl, rfl⟩ := Prod.mk.inj hend
      obtain ⟨g₁, seen, hok, rest⟩ := ih rfl
      obtain ⟨g₂, step', seen'⟩ := views u g₁ op r t seen ok hok step
      exact ⟨g₂, seen', rest _ _ step'⟩

/-- What every call that a specified run can make keeps, the whole run keeps. -/
theorem Visits.keeps {L M : Semantics S ε} {R : L.State → M.State → Prop} (views : Views L M R)
    {I : L.State → Prop}
    (keeps : ∀ s g op r t, I s → R s g → L.ok s op → M.ok g op → L.step s op r t → I t)
    {p q : Prog S ε α} {s t : L.State} (visits : Visits L (p, s) (q, t))
    {Q : Outcome ε α → M.State → Prop} {g : M.State} (start : R s g) (spec : Interaction.wp M p Q g)
    (hs : I s) : I t := by
  generalize hend : (q, t) = last at visits
  induction visits generalizing q t with
  | refl =>
      obtain ⟨rfl, rfl⟩ := Prod.mk.inj hend
      exact hs
  | @call op k u v r before ok step ih =>
      obtain ⟨rfl, rfl⟩ := Prod.mk.inj hend
      obtain ⟨g₁, seen, hok, _⟩ := before.wp views start spec
      exact keeps u g₁ op r t (ih rfl) seen ok hok step

/-- A handler answers the first call. -/
theorem Visits.answer {h : Handler S ε σ} {op : S.Op} {k : Except ε (S.Res op) → Prog S ε α} {s : σ}
    {q : Prog S ε α × σ} (rest : Visits h.sem (k (h s op).1, (h s op).2) q) : Visits h.sem
      (.call op k, s) q :=
  (Visits.refl.call trivial rfl).trans rest

/-- The first part of a sequence is a call that succeeds. -/
theorem Visits.performed {β : Type} {h : Handler S ε σ} {op : S.Op} {a : S.Res op}
    {f : S.Res op → Prog S ε β} {s : σ} {q : Prog S ε β × σ} (answer : (h s op).1 = .ok a)
    (rest : Visits h.sem (f a, (h s op).2) q) :
    Visits h.sem (.perform op >>= f, s) q := by
  refine .answer ?_
  rw [answer]
  exact rest

theorem visits_run (h : Handler S ε σ) (p : Prog S ε α) (s : σ) :
    ∃ q, Visits h.sem (p, s) (q, (run h p s).2) ∧
      ∀ M : Semantics S ε, ∀ Q g, wp M q Q g → Q (run h p s).1 g := by
  induction p generalizing s with
  | ret a => exact ⟨_, .refl, fun M Q g hyp => hyp⟩
  | raise e => exact ⟨_, .refl, fun M Q g hyp => hyp⟩
  | halt => exact ⟨_, .refl, fun M Q g hyp => hyp⟩
  | call op k ih =>
      obtain ⟨q, visits, leaf⟩ := ih (h s op).1 (h s op).2
      exact ⟨q, .answer visits, leaf⟩

/-- What a specification in a view says about the end of a real run. -/
theorem run_of_wp {h : Handler S ε σ} {M : Semantics S ε} {R : σ → M.State → Prop}
    (views : Views h.sem M R) {p : Prog S ε α} {s : σ} {Q : Outcome ε α → M.State → Prop}
    {g : M.State} (start : R s g) (spec : wp M p Q g) :
    ∃ g', R (run h p s).2 g' ∧ Q (run h p s).1 g' := by
  obtain ⟨q, visits, leaf⟩ := visits_run h p s
  obtain ⟨g', seen, rest⟩ := visits.wp views start spec
  exact ⟨g', seen, leaf M Q g' rest⟩

/-- The first `n` calls of a run. -/
def cut (h : Handler S ε σ) : Nat → Prog S ε α → σ → Prog S ε α × σ
  | 0, p, s => (p, s)
  | n + 1, .call op k, s => cut h n (k (h s op).1) (h s op).2
  | _ + 1, p, s => (p, s)

/-- A run that is cut short has got that far. -/
theorem visits_cut (h : Handler S ε σ) (n : Nat) (p : Prog S ε α) (s : σ) : Visits h.sem (p, s)
    (cut h n p s) := by
  induction n generalizing p s with
  | zero => exact .refl
  | succ n ih =>
      cases p with
      | ret a => exact .refl
      | raise e => exact .refl
      | halt => exact .refl
      | call op k => exact .answer (ih _ _)

/-- A run goes on from its first call. -/
theorem Visits.head {L : Semantics S ε} {op : S.Op} {k : Except ε (S.Res op) → Prog S ε α}
    {s : L.State} {q : Prog S ε α × L.State} (visits : Visits L (.call op k, s) q) :
    q = (.call op k, s) ∨ ∃ r t, L.ok s op ∧ L.step s op r t ∧ Visits L (k r, t) q := by
  induction visits with
  | refl => exact .inl rfl
  | @call op' k' u v r before ok step ih =>
      rcases ih with same | ⟨r₁, t₁, ok₁, step₁, rest⟩
      · obtain ⟨⟨rfl, rfl⟩, rfl⟩ := Prod.mk.inj same
        exact .inr ⟨r, v, ok, step, .refl⟩
      · exact .inr ⟨r₁, t₁, ok₁, step₁, rest.call ok step⟩

/-- A program that has ended goes nowhere. -/
theorem Visits.ended {L : Semantics S ε} {p : Prog S ε α} (ended : ∀ op k, p ≠ .call op k)
    {s : L.State} {q : Prog S ε α × L.State} (visits : Visits L (p, s) q) : q = (p, s) := by
  induction visits with
  | refl => rfl
  | call before _ _ ih => exact absurd (Prod.mk.inj ih).1.symm (ended _ _)

/-- A handler that also notes whether an answer was `bad`. -/
def watch (bad : (op : S.Op) → Except ε (S.Res op) → Bool) (h : Handler S ε σ) :
    Handler S ε (σ × Bool) :=
  fun s op => ((h s.1 op).1, (h s.1 op).2, s.2 || bad op (h s.1 op).1)

/-- Watching changes neither the outcome nor the state. -/
theorem run_watch (bad : (op : S.Op) → Except ε (S.Res op) → Bool) (h : Handler S ε σ)
    (p : Prog S ε α) (s : σ × Bool) : (run (watch bad h) p s).1 = (run h p s.1).1 ∧
      (run (watch bad h) p s).2.1 = (run h p s.1).2 := by
  induction p generalizing s with
  | ret a => exact ⟨rfl, rfl⟩
  | raise e => exact ⟨rfl, rfl⟩
  | halt => exact ⟨rfl, rfl⟩
  | call op k ih => exact ih _ _

/-- A handler that also keeps a record of what is `noted` of each call. -/
def record {β : Type} (noted : S.Op → Option β) (h : Handler S ε σ) : Handler S ε (σ × List β) :=
  fun s op => ((h s.1 op).1, (h s.1 op).2, s.2 ++ (noted op).toList)

section Transcript
variable {β γ : Type} (noted : (op : S.Op) → Except ε (S.Res op) → Option γ) (h : Handler S ε σ)

/-- What is `noted` of the calls of a run and of their answers, in order. -/
def transcript : Prog S ε α → σ → List γ
  | .ret _, _ | .raise _, _ | .halt, _ => []
  | .call op k, s => (noted op (h s op).1).toList ++ transcript (k (h s op).1) (h s op).2

variable {noted h} {p : Prog S ε α} {s t : σ}

@[simp] theorem transcript_ret (a : α) : transcript noted h (.ret a : Prog S ε α) s = [] := rfl
@[simp] theorem transcript_pure (a : α) : transcript noted h (pure a : Prog S ε α) s = [] := rfl
@[simp] theorem transcript_raise (e : ε) : transcript noted h (.raise e : Prog S ε α) s = [] := rfl

theorem transcript_perform (op : S.Op) :
    transcript noted h (.perform op : Prog S ε (S.Res op)) s = (noted op (h s op).1).toList := by
  unfold Prog.perform
  rw [transcript]
  cases (h s op).1 with
  | ok a => exact List.append_nil _
  | error e => exact List.append_nil _

theorem transcript_bind {f : α → Prog S ε β} {a : α} (ran : run h p s = (.ret a, t)) :
    transcript noted h (p >>= f) s = transcript noted h p s ++ transcript noted h (f a) t := by
  change transcript noted h (p.bind f) s = _
  induction p generalizing s with
  | ret b =>
      obtain ⟨⟨⟩, rfl⟩ := Prod.mk.inj ran
      rfl
  | raise e => cases (Prod.mk.inj ran).1
  | halt => cases (Prod.mk.inj ran).1
  | call op k ih =>
      simp only [Prog.bind, transcript, List.append_assoc]
      rw [ih _ ran]

/-- What follows adds nothing, if none of its calls is noted. -/
theorem transcript_bind_silent {f : α → Prog S ε β}
    (silent : ∀ a t, transcript noted h (f a) t = []) :
    transcript noted h (p >>= f) s = transcript noted h p s := by
  change transcript noted h (p.bind f) s = _
  induction p generalizing s with
  | ret a => exact silent a s
  | raise e => rfl
  | halt => rfl
  | call op k ih =>
      simp only [Prog.bind, transcript]
      rw [ih]

/-- A handler that makes no call of its own adds nothing. -/
theorem transcript_tryCatch {handler : ε → Prog S ε α}
    (silent : ∀ e t, transcript noted h (handler e) t = []) :
    transcript noted h (p.tryCatch handler) s = transcript noted h p s := by
  induction p generalizing s with
  | ret a => rfl
  | raise e => exact silent e s
  | halt => rfl
  | call op k ih =>
      simp only [Prog.tryCatch, transcript]
      rw [ih]

/-- The transcript of a program is that of the attempt to run it. -/
theorem transcript_attempt : transcript noted h p.attempt s = transcript noted h p s := by
  rw [Prog.attempt, transcript_tryCatch fun _ _ => rfl]
  exact transcript_bind_silent fun _ _ => rfl

end Transcript

/-- Threads over a shared state, each with an observation of its own calls. -/
structure Sys (S : Signature) (ε σ γ ι : Type) where
  shared : σ
  threads : ι → Prog S ε Unit
  ghost : ι → γ

/-- How a thread's observation changes by a call and its answer. -/
abbrev Observer (S : Signature) (ε γ : Type) := γ → (op : S.Op) → Except ε (S.Res op) → γ

namespace Sys
variable {γ ι : Type}

/-- The call that thread `i` makes next, if it has not ended. -/
def pending (c : Sys S ε σ γ ι) (i : ι) : Option S.Op :=
  match c.threads i with
  | .call op _ => some op
  | _ => none

theorem pending_eq_some {c : Sys S ε σ γ ι} {i : ι} {op : S.Op} (hp : c.pending i = some op) :
    ∃ k, c.threads i = .call op k := by
  unfold pending at hp
  split at hp
  · next op' k hcall =>
      obtain rfl := Option.some.inj hp
      exact ⟨k, hcall⟩
  · exact absurd hp (by simp)

variable [DecidableEq ι] (h : Handler S ε σ) (observe : Observer S ε γ)

/-- Thread `i` makes its next call, atomically. -/
def fire (c : Sys S ε σ γ ι) (i : ι) : Sys S ε σ γ ι :=
  match c.threads i with
  | .call op k =>
      { shared := (h c.shared op).2
        threads := Function.update c.threads i (k (h c.shared op).1)
        ghost := Function.update c.ghost i (observe (c.ghost i) op (h c.shared op).1) }
  | _ => c

/-- States reached by any interleaving whose calls are all `legal`. -/
inductive Reaches (legal : Sys S ε σ γ ι → ι → S.Op → Prop) (c : Sys S ε σ γ ι) :
    Sys S ε σ γ ι → Prop
  | refl : Reaches legal c c
  | fire {d : Sys S ε σ γ ι} {op : S.Op} (i : ι) :
      Reaches legal c d → d.pending i = some op → legal d i op →
        Reaches legal c (d.fire h observe i)

variable {h observe} {legal : Sys S ε σ γ ι → ι → S.Op → Prop} {c d : Sys S ε σ γ ι}

theorem fire_shared {i : ι} {op : S.Op} (hp : c.pending i = some op) :
    (c.fire h observe i).shared = (h c.shared op).2 := by
  obtain ⟨k, hk⟩ := pending_eq_some hp
  simp only [fire, hk]

theorem fire_ghost {i : ι} {op : S.Op} (hp : c.pending i = some op) :
    (c.fire h observe i).ghost =
      Function.update c.ghost i (observe (c.ghost i) op (h c.shared op).1) := by
  obtain ⟨k, hk⟩ := pending_eq_some hp
  simp only [fire, hk]

/-- Induction over an interleaving: what every legal call keeps holds throughout. -/
theorem Reaches.invariant {I : Sys S ε σ γ ι → Prop}
    (keeps : ∀ d i op, I d → d.pending i = some op → legal d i op → I (d.fire h observe i))
    (reaches : Reaches h observe legal c d) (start : I c) : I d := by
  induction reaches with
  | refl => exact start
  | fire i before pending ok ih => exact keeps _ i _ ih pending ok

/-- What is legal under a stricter rule is legal. -/
theorem Reaches.mono {legal' : Sys S ε σ γ ι → ι → S.Op → Prop}
    (weaker : ∀ d i op, legal d i op → legal' d i op) (reaches : Reaches h observe legal c d) :
    Reaches h observe legal' c d := by
  induction reaches with
  | refl => exact .refl
  | fire i before pending ok ih => exact .fire i ih pending (weaker _ i _ ok)

variable (h observe) in
/-- The threads named in a schedule fire in turn; one that has ended does nothing. -/
def fires (c : Sys S ε σ γ ι) : List ι → Sys S ε σ γ ι
  | [] => c
  | i :: rest => (c.fire h observe i).fires rest

variable (h observe legal) in
/-- Every call of the schedule is legal when it is made. -/
def Legally (c : Sys S ε σ γ ι) : List ι → Prop
  | [] => True
  | i :: rest => (∀ op, c.pending i = some op → legal c i op) ∧ (c.fire h observe i).Legally rest

instance decidablePending [∀ c i op, Decidable (legal c i op)] (c : Sys S ε σ γ ι) (i : ι) :
    Decidable (∀ op, c.pending i = some op → legal c i op) :=
  match next : c.pending i with
  | some op => decidable_of_iff (legal c i op)
      ⟨fun ok _ same => Option.some.inj same ▸ ok, fun all => all op rfl⟩
  | none => isTrue fun _ no => by cases no

instance decidableLegally [∀ c i op, Decidable (legal c i op)] (c : Sys S ε σ γ ι)
    (schedule : List ι) :
    Decidable (c.Legally h observe legal schedule) :=
  match schedule with
  | [] => isTrue trivial
  | i :: rest =>
      have := decidableLegally (c.fire h observe i) rest
      inferInstanceAs (Decidable (_ ∧ _))

/-- A legal schedule is an interleaving. -/
theorem Reaches.legally (reaches : Reaches h observe legal c d) {schedule : List ι}
    (legally : d.Legally h observe legal schedule) : Reaches h observe legal c
      (d.fires h observe schedule) := by
  induction schedule generalizing d with
  | nil => exact reaches
  | cons i rest ih =>
      cases next : d.pending i with
      | some op => exact ih (.fire i reaches next (legally.1 op next)) legally.2
      | none =>
          have idle : d.fire h observe i = d := by
            unfold Sys.fire
            split
            · next op k hcall => simp [pending, hcall] at next
            · rfl
          have later := legally.2
          rw [Sys.fires]
          rw [idle] at later ⊢
          exact ih reaches later

/-- Without a restriction, every schedule is an interleaving. -/
theorem Reaches.fires (reaches : Reaches h observe (fun _ _ _ => True) c d) (schedule : List ι) :
    Reaches h observe (fun _ _ _ => True) c (d.fires h observe schedule) := by
  have free : ∀ e : Sys S ε σ γ ι, e.Legally h observe (fun _ _ _ => True) schedule := by
    induction schedule with
    | nil => exact fun _ => trivial
    | cons i rest ih => exact fun e => ⟨fun _ _ => trivial, ih _⟩
  exact reaches.legally (free d)

end Sys

/-- Every thread still meets its specification from what it has observed so far. -/
def Follows {ι : Type} (M : Semantics S ε) (post : ι → Outcome ε Unit → M.State → Prop)
    (c : Sys S ε σ M.State ι) : Prop :=
  ∀ i, wp M (c.threads i) (post i) (c.ghost i)

section Follows
variable {ι : Type} {h : Handler S ε σ} {M : Semantics S ε}
  {observe : Observer S ε M.State} {post : ι → Outcome ε Unit → M.State → Prop}
  {c : Sys S ε σ M.State ι} {i : ι} {op : S.Op}

theorem Follows.ok (follows : Follows M post c) (hp : c.pending i = some op) :
    M.ok (c.ghost i) op := by
  obtain ⟨k, hk⟩ := Sys.pending_eq_some hp
  have spec := follows i
  rw [hk] at spec
  exact spec.1

variable [DecidableEq ι] in
theorem Follows.fire (follows : Follows M post c) (hp : c.pending i = some op)
    (step : M.step (c.ghost i) op (h c.shared op).1 (observe (c.ghost i) op (h c.shared op).1)) :
    Follows M post (c.fire h observe i) := by
  obtain ⟨k, hk⟩ := Sys.pending_eq_some hp
  intro j
  simp only [Sys.fire, hk]
  by_cases same : j = i
  · subst same
    have spec := follows j
    rw [hk] at spec
    simpa only [Function.update_self] using spec.2 _ _ step
  · simpa only [Function.update_of_ne same] using follows j

end Follows
end Interaction
