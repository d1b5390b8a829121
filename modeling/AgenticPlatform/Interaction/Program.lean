/-! Programs that interact with their surroundings, and what it means for such a
program to meet a specification. A program is a well-founded tree of calls
whose continuation receives the answer or the error of the call; what the calls
do is left to a `Semantics`. -/
namespace Interaction

/-- The calls a program may make, each with the type of its answer. -/
structure Signature where
  Op : Type
  Res : Op → Type

/-- How a program ends. `halt` is a run cut short by the bound on its loops, or one
that waits for what never comes, and stands for no result of the program. -/
inductive Outcome (ε α : Type) where
  | ret (a : α)
  | raise (e : ε)
  | halt

def Outcome.isRet {ε α : Type} : Outcome ε α → Bool
  | ret _ => true
  | _ => false

theorem Outcome.isRet_iff {ε α : Type} {o : Outcome ε α} : o.isRet = true ↔ ∃ a, o = ret a := by
  cases o <;> simp [isRet]

inductive Prog (S : Signature) (ε α : Type) : Type where
  | ret (a : α)
  | raise (e : ε)
  | halt
  | call (op : S.Op) (k : Except ε (S.Res op) → Prog S ε α)

namespace Prog
variable {S : Signature} {ε α β : Type}

def bind : Prog S ε α → (α → Prog S ε β) → Prog S ε β
  | ret a, f => f a
  | raise e, _ => raise e
  | halt, _ => halt
  | call op k, f => call op (fun r => (k r).bind f)

/-- `try p except e: h e`. -/
def tryCatch : Prog S ε α → (ε → Prog S ε α) → Prog S ε α
  | ret a, _ => ret a
  | raise e, h => h e
  | halt, _ => halt
  | call op k, h => call op (fun r => (k r).tryCatch h)

instance : Monad (Prog S ε) where
  pure := ret
  bind := bind

/-- One call; its error is raised. -/
def perform (op : S.Op) : Prog S ε (S.Res op) :=
  call op fun
    | .ok a => ret a
    | .error e => raise e

end Prog

/-- What a call may answer in a state and which state it leads to, with the
requirement `ok` that a program must meet at each call it makes. -/
structure Semantics (S : Signature) (ε : Type) where
  State : Type
  step : State → (op : S.Op) → Except ε (S.Res op) → State → Prop
  ok : State → S.Op → Prop

section WeakestPrecondition
variable {S : Signature} {ε α β : Type} (M : Semantics S ε)

/-- Every call is `ok` and every ending satisfies `Q`, whatever the calls answer. -/
def wp : Prog S ε α → (Outcome ε α → M.State → Prop) → M.State → Prop
  | .ret a, Q, s => Q (.ret a) s
  | .raise e, Q, s => Q (.raise e) s
  | .halt, Q, s => Q .halt s
  | .call op k, Q, s => M.ok s op ∧ ∀ r t, M.step s op r t → wp (k r) Q t

/-- Postcondition of the first part of a sequence. -/
def andThen (f : α → Prog S ε β) (Q : Outcome ε β → M.State → Prop) :
    Outcome ε α → M.State → Prop
  | .ret a, s => wp M (f a) Q s
  | .raise e, s => Q (.raise e) s
  | .halt, s => Q .halt s

/-- Postcondition of the body of a `try`. -/
def orElse (h : ε → Prog S ε α) (Q : Outcome ε α → M.State → Prop) :
    Outcome ε α → M.State → Prop
  | .ret a, s => Q (.ret a) s
  | .raise e, s => wp M (h e) Q s
  | .halt, s => Q .halt s

variable {M} {Q Q' : Outcome ε α → M.State → Prop} {s : M.State}

@[simp] theorem wp_pure (a : α) : wp M (pure a) Q s ↔ Q (.ret a) s := Iff.rfl
@[simp] theorem wp_ret (a : α) : wp M (.ret a) Q s ↔ Q (.ret a) s := Iff.rfl
@[simp] theorem wp_raise (e : ε) : wp M (.raise e) Q s ↔ Q (.raise e) s := Iff.rfl
@[simp] theorem wp_halt : wp M .halt Q s ↔ Q .halt s := Iff.rfl

@[simp] theorem andThen_ret (f : α → Prog S ε β) (Q : Outcome ε β → M.State → Prop) (a : α) :
    andThen M f Q (.ret a) s ↔ wp M (f a) Q s := Iff.rfl
@[simp] theorem andThen_raise (f : α → Prog S ε β) (Q : Outcome ε β → M.State → Prop) (e : ε) :
    andThen M f Q (.raise e) s ↔ Q (.raise e) s := Iff.rfl
@[simp] theorem andThen_halt (f : α → Prog S ε β) (Q : Outcome ε β → M.State → Prop) :
    andThen M f Q .halt s ↔ Q .halt s := Iff.rfl
@[simp] theorem orElse_ret (h : ε → Prog S ε α) (a : α) :
    orElse M h Q (.ret a) s ↔ Q (.ret a) s := Iff.rfl
@[simp] theorem orElse_raise (h : ε → Prog S ε α) (e : ε) :
    orElse M h Q (.raise e) s ↔ wp M (h e) Q s := Iff.rfl
@[simp] theorem orElse_halt (h : ε → Prog S ε α) :
    orElse M h Q .halt s ↔ Q .halt s := Iff.rfl

theorem wp_mono {p : Prog S ε α} (weaker : ∀ o t, Q o t → Q' o t) (h : wp M p Q s) :
    wp M p Q' s := by
  induction p generalizing s with
  | ret a => exact weaker _ _ h
  | raise e => exact weaker _ _ h
  | halt => exact weaker _ _ h
  | call op k ih => exact ⟨h.1, fun r t step => ih r (h.2 r t step)⟩

@[simp] theorem wp_bind {p : Prog S ε α} {f : α → Prog S ε β} {Q : Outcome ε β → M.State → Prop} :
    wp M (p >>= f) Q s ↔ wp M p (andThen M f Q) s := by
  change wp M (p.bind f) Q s ↔ _
  induction p generalizing s with
  | ret a => exact Iff.rfl
  | raise e => exact Iff.rfl
  | halt => exact Iff.rfl
  | call op k ih =>
      exact and_congr_right fun _ => forall_congr' fun r => forall_congr' fun t =>
        imp_congr_right fun _ => ih r

@[simp] theorem wp_tryCatch {p : Prog S ε α} {h : ε → Prog S ε α} :
    wp M (p.tryCatch h) Q s ↔ wp M p (orElse M h Q) s := by
  induction p generalizing s with
  | ret a => exact Iff.rfl
  | raise e => exact Iff.rfl
  | halt => exact Iff.rfl
  | call op k ih =>
      exact and_congr_right fun _ => forall_congr' fun r => forall_congr' fun t =>
        imp_congr_right fun _ => ih r

/-- Postcondition reached by the answer of a single call. -/
def answered (Q : Outcome ε α → M.State → Prop) : Except ε α → M.State → Prop
  | .ok a, s => Q (.ret a) s
  | .error e, s => Q (.raise e) s

@[simp] theorem answered_ok (a : α) : answered Q (.ok a) s ↔ Q (.ret a) s := Iff.rfl
@[simp] theorem answered_error (e : ε) : answered Q (.error e) s ↔ Q (.raise e) s := Iff.rfl

theorem wp_perform {op : S.Op} {Q : Outcome ε (S.Res op) → M.State → Prop} :
    wp M (.perform op) Q s ↔ M.ok s op ∧ ∀ r t, M.step s op r t → answered Q r t := by
  refine and_congr_right fun _ => forall_congr' fun r => forall_congr' fun t =>
    imp_congr_right fun _ => ?_
  cases r with
  | ok a => exact Iff.rfl
  | error e => exact Iff.rfl

theorem wp_and {p : Prog S ε α} (h : wp M p Q s) (h' : wp M p Q' s) :
    wp M p (fun o t => Q o t ∧ Q' o t) s := by
  induction p generalizing s with
  | ret a => exact ⟨h, h'⟩
  | raise e => exact ⟨h, h'⟩
  | halt => exact ⟨h, h'⟩
  | call op k ih => exact ⟨h.1, fun r t step => ih r (h.2 r t step) (h'.2 r t step)⟩

theorem wp_ite {c : Prop} [Decidable c] {p q : Prog S ε α}
    (yes : c → wp M p Q s) (no : ¬c → wp M q Q s) : wp M (if c then p else q) Q s := by
  by_cases h : c
  · rw [if_pos h]; exact yes h
  · rw [if_neg h]; exact no h

end WeakestPrecondition

/-- Programs composed of given blocks, which raise by themselves only what `raises`
allows. A block comes with what is known of its answer; `Built p R` says that what `p`
returns satisfies `R`. Results about the blocks lift to the whole, in every semantics. -/
inductive Built {S : Signature} {ε : Type} (block : ∀ {β : Type}, Prog S ε β → (β → Prop) → Prop)
    (raises : ε → Prop) : ∀ {α : Type}, Prog S ε α → (α → Prop) → Prop
  | ret {α : Type} {R : α → Prop} (a : α) : R a → Built block raises (.ret a) R
  | raise {α : Type} {R : α → Prop} (e : ε) : raises e → Built block raises (Prog.raise (α := α)
    e) R
  | block {α : Type} {R R' : α → Prop} {p : Prog S ε α} :
      block p R → (∀ a, R a → R' a) → Built block raises p R'
  | bind {α β : Type} {R : β → Prop} {R' : α → Prop} {p : Prog S ε β} {f : β → Prog S ε α} :
      Built block raises p R → (∀ b, R b → Built block raises (f b) R') →
        Built block raises (p >>= f) R'

/-- Programs that may run a part made of `soft` blocks under a `try` whose handler takes
every error, and are otherwise made of `hard` blocks. -/
inductive Guarded {S : Signature} {ε : Type}
    (soft hard : ∀ {β : Type}, Prog S ε β → (β → Prop) → Prop) (raises : ε → Prop) {α : Type} :
    Prog S ε α → (α → Prop) → Prop
  | plain {R : α → Prop} {p : Prog S ε α} : Built hard raises p R → Guarded soft hard raises p R
  | guarded {R : α → Prop} {p : Prog S ε α} {h : ε → Prog S ε α} :
      Built soft (fun _ => True) p R → (∀ e, Built hard raises (h e) R) →
      Guarded soft hard raises (p.tryCatch h) R

section Blocks
variable {S : Signature} {ε α : Type}
  {block soft hard : ∀ {β : Type}, Prog S ε β → (β → Prop) → Prop}
  {raises : ε → Prop} {M : Semantics S ε} {I : M.State → Prop} {J : ε → M.State → Prop}
    {R : α → Prop}

theorem Built.ite {c : Prop} [Decidable c] {p q : Prog S ε α} (hp : c → Built block raises p R)
    (hq : ¬c → Built block raises q R) : Built block raises (if c then p else q) R := by
  by_cases h : c
  · rw [if_pos h]; exact hp h
  · rw [if_neg h]; exact hq h

/-- `R` of the answer with `I`, or `J` after an error; and no run out of fuel. -/
def ends (I : M.State → Prop) (J : ε → M.State → Prop) (R : α → Prop) : Outcome ε α → M.State → Prop
  | .ret a, t => R a ∧ I t
  | .raise e, t => J e t
  | .halt, _ => False

@[simp] theorem ends_ret (a : α) (t : M.State) : ends I J R (.ret a) t ↔ R a ∧ I t := Iff.rfl
@[simp] theorem ends_raise (e : ε) (t : M.State) : ends I J R (.raise e) t ↔ J e t := Iff.rfl
@[simp] theorem ends_halt (t : M.State) : ends I J R .halt t ↔ False := Iff.rfl

/-- What every block keeps is kept by every program built of them. -/
theorem Built.wp
    (keeps : ∀ {β : Type} (p : Prog S ε β) (R : β → Prop) s, block p R → I s →
      wp M p (ends I J R) s)
    (raised : ∀ e s, raises e → I s → J e s) {p : Prog S ε α} (built : Built block raises p R) :
    ∀ s, I s → Interaction.wp M p (ends I J R) s := by
  induction built with
  | ret a ha => exact fun s hs => ⟨ha, hs⟩
  | raise e he => exact fun s hs => raised e s he hs
  | block hp weaker =>
      intro s hs
      refine wp_mono ?_ (keeps _ _ s hp hs)
      intro o t ht
      cases o with
      | ret a => exact ⟨weaker a ht.1, ht.2⟩
      | raise e => exact ht
      | halt => exact ht
  | bind hp hf ihp ihf =>
      intro s hs
      rw [wp_bind]
      refine wp_mono ?_ (ihp s hs)
      intro o t ht
      cases o with
      | ret a => exact ihf a ht.1 t ht.2
      | raise e => exact ht
      | halt => exact ht

theorem Built.mono {R' : α → Prop} {p : Prog S ε α} (built : Built block raises p R)
    (weaker : ∀ a, R a → R' a) : Built block raises p R' := by
  induction built with
  | ret a ha => exact .ret a (weaker a ha)
  | raise e he => exact .raise e he
  | block hp known => exact .block hp fun a ha => weaker a (known a ha)
  | bind hp _ _ ih => exact .bind hp fun b hb => ih b hb weaker

theorem Guarded.wp
    (softKeeps : ∀ {β : Type} (p : Prog S ε β) (R : β → Prop) s, soft p R → I s →
      Interaction.wp M p (ends I (fun _ => I) R) s)
    (hardKeeps : ∀ {β : Type} (p : Prog S ε β) (R : β → Prop) s, hard p R → I s →
      Interaction.wp M p (ends I J R) s)
    (raised : ∀ e s, raises e → I s → J e s) {p : Prog S ε α} (built : Guarded soft hard raises p R)
    (s : M.State) (hs : I s) : Interaction.wp M p (ends I J R) s := by
  cases built with
  | plain hp => exact hp.wp hardKeeps raised s hs
  | guarded hp hh =>
      rw [wp_tryCatch]
      refine wp_mono ?_ (hp.wp softKeeps (fun e s _ hs => hs) s hs)
      intro o t ht
      cases o with
      | ret a => exact ht
      | raise e => exact (hh e).wp hardKeeps raised t ht
      | halt => exact ht

/-- Sequencing by a specification of the first part. -/
theorem wp_then {β : Type} {p : Prog S ε α} {f : α → Prog S ε β} {Q : Outcome ε β → M.State → Prop}
    {s : M.State} (first : wp M p (ends I J R) s) (next : ∀ a t, R a → I t → wp M (f a) Q t)
    (raised : ∀ e t, J e t → Q (.raise e) t) : wp M (p >>= f) Q s := by
  rw [wp_bind]
  refine wp_mono ?_ first
  intro o t ht
  cases o with
  | ret a => exact next a t ht.1 ht.2
  | raise e => exact raised e t ht
  | halt => exact ht.elim

/-- Sequencing of parts that keep `I` however they end. -/
theorem wp_keeping {β : Type} {p : Prog S ε α} {f : α → Prog S ε β} {s : M.State}
    (first : wp M p (fun _ t => I t) s) (next : ∀ a t, I t → wp M (f a) (fun _ u => I u) t) :
    wp M (p >>= f) (fun _ u => I u) s := by
  rw [wp_bind]
  refine wp_mono ?_ first
  intro o t ht
  cases o with
  | ret a => exact next a t ht
  | raise e => exact ht
  | halt => exact ht

end Blocks

namespace Prog
variable {S T : Signature} {ε α β γ : Type}

/-- The answer or the error of a program. -/
def attempt (p : Prog S ε α) : Prog S ε (Except ε α) :=
  (p >>= fun a => .ret (.ok a)).tryCatch fun e => .ret (.error e)

/-- Every call made by the program that implements it. -/
def via (impl : ∀ op : S.Op, Prog T ε (S.Res op)) : Prog S ε α → Prog T ε α
  | ret a => .ret a
  | raise e => .raise e
  | halt => .halt
  | call op k => attempt (impl op) >>= fun r => (k r).via impl

theorem bind_assoc (p : Prog S ε α) (f : α → Prog S ε β) (g : β → Prog S ε γ) :
    (p >>= f) >>= g = p >>= fun a => f a >>= g := by
  change (p.bind f).bind g = p.bind fun a => (f a).bind g
  induction p with
  | ret a => rfl
  | raise e => rfl
  | halt => rfl
  | call op k ih =>
      simp only [bind]
      exact congrArg (call op) (funext fun r => ih r)

theorem attempt_bind (p : Prog S ε α) (f : α → Prog S ε β) :
    (attempt p >>= fun
      | .ok a => f a
      | .error e => .raise e) = p >>= f := by
  induction p with
  | ret a => rfl
  | raise e => rfl
  | halt => rfl
  | call op k ih => exact congrArg (call op) (funext fun r => ih r)

/-- A call that `p` implements, followed by what `g` implements. -/
theorem via_perform {impl : ∀ op : S.Op, Prog T ε (S.Res op)} {op : S.Op}
    {f : S.Res op → Prog S ε β} {g : S.Res op → Prog T ε β} (next : ∀ a, (f a).via impl = g a) :
    (perform op >>= f).via impl = impl op >>= g := by
  rw [← attempt_bind (impl op) g]
  change (attempt (impl op) >>= fun r => _) = _
  congr 1
  funext r
  cases r with
  | ok a => exact next a
  | error e => rfl

end Prog

/-- A handler answers every call and gives the next state. -/
abbrev Handler (S : Signature) (ε σ : Type) :=
  σ → (op : S.Op) → Except ε (S.Res op) × σ

section Run
variable {S : Signature} {ε α σ : Type}

def run (h : Handler S ε σ) : Prog S ε α → σ → Outcome ε α × σ
  | .ret a, s => (.ret a, s)
  | .raise e, s => (.raise e, s)
  | .halt, s => (.halt, s)
  | .call op k, s => run h (k (h s op).1) (h s op).2

/-- The semantics of a handler, with nothing required of the calls. -/
abbrev Handler.sem (h : Handler S ε σ) : Semantics S ε where
  State := σ
  step := fun s op r t => h s op = (r, t)
  ok := fun _ _ => True

theorem wp_sem_iff (h : Handler S ε σ) (p : Prog S ε α) (Q : Outcome ε α → σ → Prop) (s : σ) :
    wp h.sem p Q s ↔ Q (run h p s).1 (run h p s).2 := by
  induction p generalizing s with
  | ret a => exact Iff.rfl
  | raise e => exact Iff.rfl
  | halt => exact Iff.rfl
  | call op k ih =>
      constructor
      · intro hyp
        exact (ih _ _).mp (hyp.2 _ _ rfl)
      · intro hyp
        refine ⟨trivial, fun r t step => ?_⟩
        obtain ⟨rfl, rfl⟩ := Prod.mk.inj step
        exact (ih _ _).mpr hyp

/-- The handler answers a call, and the program goes on. -/
theorem wp_sem_ok {β : Type} {h : Handler S ε σ} {op : S.Op} {a : S.Res op}
    {f : S.Res op → Prog S ε β} {Q : Outcome ε β → σ → Prop} {s : σ} (answer : (h s op).1 = .ok a)
    (next : wp h.sem (f a) Q (h s op).2) :
    wp h.sem (.perform op >>= f) Q s := by
  rw [wp_bind, wp_perform]
  refine ⟨trivial, fun r t step => ?_⟩
  obtain ⟨rfl, rfl⟩ := Prod.mk.inj step
  rw [answer]
  exact next

/-- The handler fails a call, which ends the program. -/
theorem wp_sem_error {β : Type} {h : Handler S ε σ} {op : S.Op} {e : ε} {f : S.Res op → Prog S ε β}
    {Q : Outcome ε β → σ → Prop} {s : σ} (answer : (h s op).1 = .error e)
    (ended : Q (.raise e) (h s op).2) :
    wp h.sem (.perform op >>= f) Q s := by
  rw [wp_bind, wp_perform]
  refine ⟨trivial, fun r t step => ?_⟩
  obtain ⟨rfl, rfl⟩ := Prod.mk.inj step
  rw [answer]
  exact ended

/-- The rest of a sequence after its first part has run. -/
def resume {β : Type} (h : Handler S ε σ) (f : α → Prog S ε β) : Outcome ε α × σ → Outcome ε β × σ
  | (.ret a, t) => run h (f a) t
  | (.raise e, t) => (.raise e, t)
  | (.halt, t) => (.halt, t)

theorem run_bind {β : Type} (h : Handler S ε σ) (p : Prog S ε α) (f : α → Prog S ε β) (s : σ) :
    run h (p >>= f) s = resume h f (run h p s) := by
  change run h (p.bind f) s = _
  induction p generalizing s with
  | ret a => rfl
  | raise e => rfl
  | halt => rfl
  | call op k ih => exact ih _ _

/-- How a program ends whose error is handed to `handler`. -/
def rescue (h : Handler S ε σ) (handler : ε → Prog S ε α) : Outcome ε α × σ → Outcome ε α × σ
  | (.ret a, t) => (.ret a, t)
  | (.raise e, t) => run h (handler e) t
  | (.halt, t) => (.halt, t)

theorem run_tryCatch (h : Handler S ε σ) (p : Prog S ε α) (handler : ε → Prog S ε α) (s : σ) :
    run h (p.tryCatch handler) s = rescue h handler (run h p s) := by
  induction p generalizing s with
  | ret a => rfl
  | raise e => rfl
  | halt => rfl
  | call op k ih => exact ih _ _

/-- An answer as the outcome of a program. -/
def Outcome.ofExcept : Except ε α → Outcome ε α
  | .ok a => .ret a
  | .error e => .raise e

theorem run_perform (h : Handler S ε σ) (op : S.Op) (s : σ) :
    run h (.perform op : Prog S ε (S.Res op)) s = (Outcome.ofExcept (h s op).1, (h s op).2) := by
  unfold Prog.perform
  rw [run]
  cases (h s op).1 with
  | ok a => rfl
  | error e => rfl

end Run
end Interaction
