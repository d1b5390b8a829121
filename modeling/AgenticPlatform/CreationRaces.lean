import AgenticPlatform.Creation
import Mathlib.Data.Fintype.Basic

/-! Any number of `create_execution` calls at the same time. While no call looks a key up between
another's lookup and its write of the map, one execution is created for the key. -/
namespace AgenticPlatform
open Interaction Store ExecutionFacade CreateView

/-- Calls over the shared gateway, each with a view of what it has done. -/
abbrev Counter (ι : Type) := Sys gateway Exn (World × GatewayState) CreateView ι

/-- All calls at their beginning, with an empty map. -/
def launchCalls {ι : Type} (engine : ExecutionEngine) (settings : GatewaySettings) (fuel : Nat)
    (calls : ι → CreateExecutionCall) (w : World) : Counter ι where
  shared := (w, .init)
  threads i := serve engine settings fuel (calls i)
  ghost i := unseen (keyOf engine.text (calls i)) (doStart settings (calls i))

/-- Two calls with the same input and context. -/
structure SamePayload (a b : CreateExecutionCall) : Prop where
  input : a.inputPayload.Same b.inputPayload
  context : a.context.Same b.context

instance (a b : CreateExecutionCall) : Decidable (SamePayload a b) :=
  decidable_of_iff (a.inputPayload.Same b.inputPayload ∧ a.context.Same b.context)
    ⟨fun ⟨input, context⟩ => ⟨input, context⟩, fun ⟨input, context⟩ => ⟨input, context⟩⟩

/-- Between a lookup that found nothing and the write of the map. -/
def CreateView.InCourse (v : CreateView) : Prop := v.looked = some none ∧ v.remembered = false

instance (v : CreateView) : Decidable v.InCourse := inferInstanceAs (Decidable (_ ∧ _))

section
variable {ι : Type} {engine : ExecutionEngine} {settings : GatewaySettings} {fuel : Nat}
  {calls : ι → CreateExecutionCall} {w : World} {env : Env} {c d : Counter ι} {i j : ι}
    {key : IdempotencyKey} {id : UUID}
  {v : CreateView} {op : gateway.Op}

/-- A key is looked up while no other call is in the course of creating for it, by a call with the
payload of the first. -/
def Careful (calls : ι → CreateExecutionCall) (c : Counter ι) (i : ι) : gateway.Op → Prop
  | .inr (.lookup key) => ∀ j, (c.ghost j).key = some key → ¬(c.ghost j).InCourse ∧
      ((c.ghost j).created ≠ [] → SamePayload (calls i) (calls j))
  | _ => True

/-- One execution for the key: one call creates and starts it, and all responses name it. -/
structure CreatedOnce (settings : GatewaySettings) (text : Rendering)
    (calls : ι → CreateExecutionCall) (key : IdempotencyKey) (c : Counter ι) : Prop where
  single : ∀ i j, keyOf text (calls i) = some key → keyOf text (calls j) = some key →
    (c.ghost i).created ≠ [] → (c.ghost j).created ≠ [] → i = j
  once : ∀ i, keyOf text (calls i) = some key → (c.ghost i).created.length ≤ 1
  started : ∀ i, keyOf text (calls i) = some key → (c.ghost i).started = [] ∨ (c.ghost i).started =
    (c.ghost i).created
  answered : ∀ i id, keyOf text (calls i) = some key → (c.ghost i).answered = some id →
    ∃ j, keyOf text (calls j) = some key ∧ (c.ghost j).created = [id] ∧
      SamePayload (calls i) (calls j)
  finished : ∀ i, keyOf text (calls i) = some key → (c.ghost i).answered ≠ none →
    (c.ghost i).created ≠ [] →
    doStart settings (calls i) = true → (c.ghost i).started = (c.ghost i).created

/-- What holds of a call with a key at every stage. -/
structure CreateView.Sound (v : CreateView) : Prop where
  once : v.created.length ≤ 1
  missed : v.created ≠ [] → v.looked = some none
  remembered : v.remembered = true → ∃ id, v.created = [id]
  started : v.started = [] ∨ v.started = v.created
  answered : ∀ id, v.answered = some id → v.looked = some (some id) ∧ v.created = [] ∨
    v.created = [id] ∧ (v.starts = true → v.started = [id])

theorem sound_unseen {starts : Bool} : (unseen (some key) starts).Sound :=
  ⟨Nat.zero_le 1, fun no => absurd rfl no, fun no => (by cases no), .inl rfl,
    fun _ no => by cases no⟩

/-- Every allowed call keeps it. -/
theorem CreateView.Sound.next (sound : v.Sound) (keyed : v.key ≠ none) (allowed : v.Allowed op)
    (r : Except Exn (gateway.Res op)) : (v.next op r).Sound := by
  have other : ({ v with marked := false } : CreateView).Sound :=
    ⟨sound.once, sound.missed, sound.remembered, sound.started, sound.answered⟩
  cases op with
  | inl op =>
      cases op with
      | saveExecution ex =>
          have stage := allowed keyed
          rw [stage]
          exact ⟨Nat.le_refl 1, fun _ => rfl, fun no => (by cases no), .inl rfl,
            fun _ no => by cases no⟩
      | enqueue id now =>
          obtain ⟨b, stage⟩ := allowed keyed
          rw [stage]
          exact ⟨Nat.le_refl 1, fun _ => rfl, fun _ => ⟨id, rfl⟩, .inr rfl, fun _ no => by cases no⟩
      | getExecution id =>
          by_cases marked : v.marked = true
          · have stage := allowed keyed marked
            rw [stage]
            exact ⟨Nat.le_refl 1, fun _ => rfl, fun _ => ⟨id, rfl⟩, .inr rfl,
              fun _ no => by cases no⟩
          · simpa [CreateView.next, marked] using sound
      | _ => exact other
  | inr op =>
      cases op with
      | lookup k =>
          cases r with
          | error e => exact other
          | ok found =>
              rw [allowed.2]
              exact ⟨Nat.zero_le 1, fun no => absurd rfl no, fun no => (by cases no), .inl rfl,
                fun _ no => by cases no⟩
      | remember k id =>
          rw [allowed.2]
          exact ⟨Nat.le_refl 1, fun _ => rfl, fun _ => ⟨id, rfl⟩, .inl rfl, fun _ no => by cases no⟩
      | startCallback id =>
          obtain ⟨b, stage⟩ := allowed keyed
          rw [stage]
          exact ⟨Nat.le_refl 1, fun _ => rfl, fun _ => ⟨id, rfl⟩, .inr rfl, fun _ no => by cases no⟩
      | respond id =>
          refine ⟨sound.once, sound.missed, sound.remembered, sound.started, ?_⟩
          rintro _ ⟨⟩
          rcases allowed keyed with stage | stage | ⟨off, b, stage⟩
          · rw [stage]
            exact .inl ⟨rfl, rfl⟩
          · rw [stage]
            exact .inr ⟨rfl, fun _ => rfl⟩
          · rw [stage]
            exact .inr ⟨rfl, fun on => by cases off.symm.trans on⟩
      | listApprovalsForExecution id => exact other

/-- The calls that concern the map. -/
def filing : gateway.Op → Bool
  | .inr (.lookup _) | .inr (.remember _ _) | .inl (.saveExecution _) => true
  | _ => false

/-- Other calls leave alone what of a view decides about the map. -/
theorem next_core (other : filing op = false) (r : Except Exn (gateway.Res op)) :
    (v.next op r).looked = v.looked ∧ (v.next op r).created = v.created ∧ (v.next op r).remembered =
      v.remembered := by
  cases op with
  | inl op =>
      cases op with
      | saveExecution ex => cases other
      | getExecution id =>
          simp only [CreateView.next]
          split
          · exact ⟨rfl, rfl, rfl⟩
          · exact ⟨rfl, rfl, rfl⟩
      | _ => exact ⟨rfl, rfl, rfl⟩
  | inr op =>
      cases op with
      | lookup k => cases other
      | remember k id => cases other
      | _ => exact ⟨rfl, rfl, rfl⟩

theorem next_key (r : Except Exn (gateway.Res op)) : (v.next op r).key = v.key ∧
    (v.next op r).starts = v.starts := by
  cases op with
  | inl op =>
      cases op with
      | getExecution id =>
          simp only [CreateView.next]
          split
          · exact ⟨rfl, rfl⟩
          · exact ⟨rfl, rfl⟩
      | _ => exact ⟨rfl, rfl⟩
  | inr op =>
      cases op with
      | lookup k => cases r <;> exact ⟨rfl, rfl⟩
      | _ => exact ⟨rfl, rfl⟩

/-- The execution is stored. -/
def Present (s : World × GatewayState) (id : UUID) : Prop := (s.1.execution id).isSome = true

/-- Executions are not removed. -/
theorem Present.step {s : World × GatewayState} (present : Present s id) : Present
    (gatewayHandle env s op).2 id := by
  cases op with
  | inl op =>
      have put {ex : Execution} : ((s.1.repo.executions.put ex).get id).isSome = true := by
        by_cases same : id = ex.executionId
        · subst same
          exact Option.isSome_iff_exists.mpr ⟨ex, Table.get_put_self⟩
        · exact (congrArg Option.isSome (Table.get_put_of_ne same)).trans present
      cases op with
      | saveExecution ex => exact put
      | updateExecution ex =>
          simp only [gatewayHandle, Handler.plus, handle]
          split
          · exact put
          · exact present
      | updateStep step =>
          simp only [gatewayHandle, Handler.plus, handle]
          split
          · exact present
          · exact present
      | _ => exact present
  | inr op => cases op <;> exact present

/-- How the map and the calls with a key belong together. -/
structure Catalogued (calls : ι → CreateExecutionCall) (c : Counter ι) : Prop where
  single : ∀ i j k, (c.ghost i).key = some k → (c.ghost j).key = some k →
    (c.ghost i).looked = some none →
    (c.ghost j).looked = some none → i = j
  stored : ∀ i, (c.ghost i).key ≠ none → ∀ id ∈ (c.ghost i).created, Present c.shared id
  map : ∀ k id, c.shared.2.idempotency.find k = some id → Present c.shared id ∧
    ∃ i, (c.ghost i).key = some k ∧ (c.ghost i).looked = some none ∧ (c.ghost i).remembered = true ∧
      (c.ghost i).created = [id]
  kept : ∀ i k, (c.ghost i).key = some k → (c.ghost i).remembered = true →
    c.shared.2.idempotency.find k ≠ none
  hits : ∀ i k id, (c.ghost i).key = some k → (c.ghost i).looked = some (some id) →
    Present c.shared id ∧
    ∃ j, (c.ghost j).key = some k ∧ (c.ghost j).remembered = true ∧ (c.ghost j).created = [id] ∧
      SamePayload (calls i) (calls j)

/-- A step after which the map and the calls stand as before. -/
theorem Catalogued.quiet (catalogued : Catalogued calls c)
    (keys : ∀ j, (d.ghost j).key = (c.ghost j).key)
    (core : ∀ j, (c.ghost j).key ≠ none → (d.ghost j).looked = (c.ghost j).looked ∧
      (d.ghost j).created = (c.ghost j).created ∧ (d.ghost j).remembered = (c.ghost j).remembered)
    (map : d.shared.2.idempotency = c.shared.2.idempotency)
    (present : ∀ id, Present c.shared id → Present d.shared id) :
    Catalogued calls d := by
  have known {i : ι} {k : IdempotencyKey} (key : (d.ghost i).key = some k) :
    (c.ghost i).key = some k ∧
      (d.ghost i).looked = (c.ghost i).looked ∧ (d.ghost i).created = (c.ghost i).created ∧
      (d.ghost i).remembered = (c.ghost i).remembered := by
    rw [keys] at key
    exact ⟨key, core i (by rw [key]; exact Option.some_ne_none k)⟩
  have back {i : ι} {k : IdempotencyKey} (key : (c.ghost i).key = some k) : (d.ghost i).key =
    some k := (keys i).trans key
  constructor
  · intro i j k key key' looked looked'
    obtain ⟨key, same, _, _⟩ := known key
    obtain ⟨key', same', _, _⟩ := known key'
    exact catalogued.single i j k key key' (same ▸ looked) (same' ▸ looked')
  · intro i key id member
    rw [keys] at key
    obtain ⟨_, created, _⟩ := core i key
    rw [created] at member
    exact present id (catalogued.stored i key id member)
  · intro k id found
    rw [map] at found
    obtain ⟨stored, i, key, looked, remembered, created⟩ := catalogued.map k id found
    obtain ⟨_, looked', created', remembered'⟩ := known (back key)
    exact ⟨present id stored, i, back key, looked'.trans looked, remembered'.trans remembered,
      created'.trans created⟩
  · intro i k key remembered
    obtain ⟨key, _, _, same⟩ := known key
    rw [map]
    exact catalogued.kept i k key (same ▸ remembered)
  · intro i k id key looked
    obtain ⟨key, same, _, _⟩ := known key
    obtain ⟨stored, j, key', remembered, created, payload⟩ := catalogued.hits i k id key
      (same ▸ looked)
    obtain ⟨_, _, created', remembered'⟩ := known (back key')
    exact ⟨present id stored, j, back key', remembered'.trans remembered, created'.trans
      created, payload⟩

/-- The step of one call. -/
structure Moved (c d : Counter ι) (i : ι) (v : CreateView) : Prop where
  mover : d.ghost i = v
  others : ∀ j, j ≠ i → d.ghost j = c.ghost j

/-- A lookup: whoever finds nothing is the only one, and whoever finds something asks for the
same. -/
theorem Catalogued.lookup (catalogued : Catalogued calls c) {starts : Bool}
    (stage : c.ghost i = unseen (some key) starts)
    (careful : Careful calls c i (.inr (.lookup key))) (shared : d.shared = c.shared)
    (moved : Moved c d i { c.ghost i with looked := some (c.shared.2.idempotency.find key) }) :
    Catalogued calls d := by
  have named : (d.ghost i).key = some key := by rw [moved.mover, stage]; rfl
  have same {j : ι} {k : IdempotencyKey} (key' : (c.ghost j).key = some k)
    (seen : (c.ghost j).looked ≠ none) :
      j ≠ i ∧ d.ghost j = c.ghost j := by
    have apart : j ≠ i := by
      rintro rfl
      rw [stage] at seen
      exact seen rfl
    exact ⟨apart, moved.others j apart⟩
  -- a call that found nothing before has written the map by now
  have earlier (nothing : c.shared.2.idempotency.find key = none) (j : ι)
    (key' : (c.ghost j).key = some key)
      (looked : (c.ghost j).looked = some none) : False := by
    cases written : (c.ghost j).remembered with
    | true => exact catalogued.kept j key key' written nothing
    | false => exact (careful j key').1 ⟨looked, written⟩
  constructor
  · intro j j' k key' key'' looked looked'
    rcases eq_or_ne j i with rfl | apart
    · rcases eq_or_ne j' j with rfl | apart'
      · rfl
      · obtain rfl := Option.some.inj (named.symm.trans key')
        rw [moved.mover] at looked
        rw [moved.others j' apart'] at key'' looked'
        exact (earlier (Option.some.inj looked) j' key'' looked').elim
    · rcases eq_or_ne j' i with rfl | apart'
      · obtain rfl := Option.some.inj (named.symm.trans key'')
        rw [moved.mover] at looked'
        rw [moved.others j apart] at key' looked
        exact (earlier (Option.some.inj looked') j key' looked).elim
      · rw [moved.others j apart] at key' looked
        rw [moved.others j' apart'] at key'' looked'
        exact catalogued.single j j' k key' key'' looked looked'
  · intro j key' id member
    rw [shared]
    rcases eq_or_ne j i with rfl | apart
    · rw [moved.mover, stage] at member
      exact absurd member List.not_mem_nil
    · rw [moved.others j apart] at key' member
      exact catalogued.stored j key' id member
  · intro k id found
    rw [shared] at found ⊢
    obtain ⟨stored, j, key', looked, rest⟩ := catalogued.map k id found
    have still := (same key' (by rw [looked]; exact Option.some_ne_none none)).2
    exact ⟨stored, j, by rw [still]; exact ⟨key', looked, rest⟩⟩
  · intro j k key' remembered
    rw [shared]
    rcases eq_or_ne j i with rfl | apart
    · rw [moved.mover, stage] at remembered
      cases remembered
    · rw [moved.others j apart] at key' remembered
      exact catalogued.kept j k key' remembered
  · intro j k id key' looked
    rw [shared]
    rcases eq_or_ne j i with rfl | apart
    · obtain rfl := Option.some.inj (named.symm.trans key')
      rw [moved.mover] at looked
      obtain ⟨stored, j', key'', looked', remembered, created⟩ :=
        catalogued.map key id (Option.some.inj looked)
      have still := (same key'' (by rw [looked']; exact Option.some_ne_none none)).2
      have payload := (careful j' key'').2 (by rw [created]; exact List.cons_ne_nil id [])
      exact ⟨stored, j', by rw [still]; exact ⟨key'', remembered, created, payload⟩⟩
    · rw [moved.others j apart] at key' looked
      obtain ⟨stored, j', key'', remembered, created, payload⟩ := catalogued.hits j k id key' looked
      have apart' : j' ≠ i := by
        rintro rfl
        rw [stage] at remembered
        cases remembered
      exact ⟨stored,
        j', by rw [moved.others j' apart']; exact ⟨key'', remembered, created, payload⟩⟩

/-- The row of the execution is stored. -/
theorem Catalogued.create (catalogued : Catalogued calls c) {starts : Bool}
    (stage : c.ghost i = missed (some key) starts)
    (map : d.shared.2.idempotency = c.shared.2.idempotency)
    (present : ∀ id, Present c.shared id → Present d.shared id) (new : Present d.shared id)
    (moved : Moved c d i (CreateView.stored (some key) starts id)) : Catalogued calls d := by
  have core (j : ι) : (d.ghost j).key = (c.ghost j).key ∧ (d.ghost j).looked = (c.ghost j).looked ∧
      (d.ghost j).remembered = (c.ghost j).remembered := by
    rcases eq_or_ne j i with rfl | apart
    · rw [moved.mover, stage]
      exact ⟨rfl, rfl, rfl⟩
    · rw [moved.others j apart]
      exact ⟨rfl, rfl, rfl⟩
  have written {j : ι} (remembered : (c.ghost j).remembered = true) : d.ghost j = c.ghost j := by
    apply moved.others
    rintro rfl
    rw [stage] at remembered
    cases remembered
  constructor
  · intro j j' k key' key'' looked looked'
    rw [(core j).1] at key'
    rw [(core j').1] at key''
    rw [(core j).2.1] at looked
    rw [(core j').2.1] at looked'
    exact catalogued.single j j' k key' key'' looked looked'
  · intro j key' id' member
    rcases eq_or_ne j i with rfl | apart
    · rw [moved.mover] at member
      exact List.mem_singleton.mp member ▸ new
    · rw [moved.others j apart] at key' member
      exact present id' (catalogued.stored j key' id' member)
  · intro k id' found
    rw [map] at found
    obtain ⟨stored, j, key', looked, remembered, created⟩ := catalogued.map k id' found
    exact ⟨present id' stored,
      j, by rw [written remembered]; exact ⟨key', looked, remembered, created⟩⟩
  · intro j k key' remembered
    rw [(core j).1] at key'
    rw [(core j).2.2] at remembered
    rw [map]
    exact catalogued.kept j k key' remembered
  · intro j k id' key' looked
    rw [(core j).1] at key'
    rw [(core j).2.1] at looked
    obtain ⟨stored, j', key'', remembered, created, payload⟩ := catalogued.hits j k id' key' looked
    exact ⟨present id' stored,
      j', by rw [written remembered]; exact ⟨key'', remembered, created, payload⟩⟩

/-- The map is written. -/
theorem Catalogued.remember (catalogued : Catalogued calls c) {starts : Bool}
    (stage : c.ghost i = CreateView.stored (some key) starts id) (world : d.shared.1 = c.shared.1)
    (map : d.shared.2.idempotency = (key, id) :: c.shared.2.idempotency)
    (moved : Moved c d i (CreateView.keyed (some key) starts id true)) : Catalogued calls d := by
  have present {id : UUID} (stored : Present c.shared id) : Present d.shared id := by
    rw [Present, world]
    exact stored
  have core (j : ι) : (d.ghost j).key = (c.ghost j).key ∧ (d.ghost j).looked = (c.ghost j).looked ∧
      (d.ghost j).created = (c.ghost j).created := by
    rcases eq_or_ne j i with rfl | apart
    · rw [moved.mover, stage]
      exact ⟨rfl, rfl, rfl⟩
    · rw [moved.others j apart]
      exact ⟨rfl, rfl, rfl⟩
  have remembered {j : ι} (before : (c.ghost j).remembered = true) :
    (d.ghost j).remembered = true := by
    rcases eq_or_ne j i with rfl | apart
    · rw [moved.mover]
      rfl
    · rw [moved.others j apart]
      exact before
  have find (k : IdempotencyKey) : d.shared.2.idempotency.find k =
      if key = k then some id else c.shared.2.idempotency.find k := by
    rw [map]
    by_cases same : key = k
    · simp [IdempotencyStore.find, same]
    · simp [IdempotencyStore.find, same]
  constructor
  · intro j j' k key' key'' looked looked'
    rw [(core j).1] at key'
    rw [(core j').1] at key''
    rw [(core j).2.1] at looked
    rw [(core j').2.1] at looked'
    exact catalogued.single j j' k key' key'' looked looked'
  · intro j key' id' member
    rw [(core j).1] at key'
    rw [(core j).2.2] at member
    exact present (catalogued.stored j key' id' member)
  · intro k id' found
    rw [find] at found
    split at found
    · next same =>
        obtain rfl := Option.some.inj found
        have stored : Present c.shared id :=
          catalogued.stored i (by rw [stage]; exact Option.some_ne_none key) id
          (by rw [stage]; exact List.mem_singleton_self id)
        exact ⟨present stored, i, by rw [moved.mover, same]; exact ⟨rfl, rfl, rfl, rfl⟩⟩
    · obtain ⟨stored, j, key', looked, before, created⟩ := catalogued.map k id' found
      exact ⟨present stored, j, (core j).1.trans key', (core j).2.1.trans looked, remembered before,
        (core j).2.2.trans created⟩
  · intro j k key' after
    rw [find]
    split
    · exact Option.some_ne_none id
    · next other =>
        rcases eq_or_ne j i with rfl | apart
        · rw [moved.mover] at key'
          exact absurd (Option.some.inj key') other
        · rw [moved.others j apart] at key' after
          exact catalogued.kept j k key' after
  · intro j k id' key' looked
    rw [(core j).1] at key'
    rw [(core j).2.1] at looked
    obtain ⟨stored, j', key'', before, created, payload⟩ := catalogued.hits j k id' key' looked
    exact ⟨present stored, j', (core j').1.trans key'', remembered before, (core j').2.2.trans
      created, payload⟩

/-- What holds of the gateway at every moment. -/
structure Attended (text : Rendering) (settings : GatewaySettings) (calls : ι → CreateExecutionCall)
    (c : Counter ι) :
    Prop where
  follows : Follows createSem (fun _ _ _ => True) c
  keys : ∀ i, (c.ghost i).key = keyOf text (calls i)
  starts : ∀ i, (c.ghost i).starts = doStart settings (calls i)
  sound : ∀ i, (c.ghost i).key ≠ none → (c.ghost i).Sound
  catalogued : Catalogued calls c

theorem launch_attended : Attended engine.text settings calls
    (launchCalls engine settings fuel calls w) where
  follows _ := serve_view
  keys _ := rfl
  starts _ := rfl
  sound i keyed := by
    obtain ⟨key, known⟩ := Option.ne_none_iff_exists'.mp keyed
    change (unseen (keyOf engine.text (calls i)) (doStart settings (calls i))).Sound
    rw [show keyOf engine.text (calls i) = some key from known]
    exact sound_unseen
  catalogued := {
    single := fun _ _ _ _ _ looked => by cases looked
    stored := fun _ _ _ no => absurd no List.not_mem_nil
    map := fun _ _ no => by cases no
    kept := fun _ _ _ no => by cases no
    hits := fun _ _ _ _ no => by cases no }

/-- The map and the store answer as a call expects. -/
theorem Catalogued.answers (catalogued : Catalogued calls c) (op : gateway.Op) :
    (c.ghost i).Answered op (gatewayHandle env c.shared op).1 := by
  cases op with
  | inl op =>
      cases op with
      | getExecution id =>
          intro keyed looked
          obtain ⟨key, known⟩ := Option.ne_none_iff_exists'.mp keyed
          obtain ⟨ex, stored⟩ := Option.isSome_iff_exists.mp
            (catalogued.hits i key id known looked).1
          exact ⟨ex, congrArg Except.ok stored, (Table.get_eq_some.mp stored).2⟩
      | _ => trivial
  | inr op =>
      cases op with
      | lookup k => exact ⟨_, rfl⟩
      | _ => trivial

variable [DecidableEq ι]

theorem fire_moved (next : c.pending i = some op) :
    Moved c (c.fire (gatewayHandle env) observeCreate i) i
      ((c.ghost i).next op (gatewayHandle env c.shared op).1) := by
  constructor
  · rw [Sys.fire_ghost next, Function.update_self]
    rfl
  · intro j apart
    rw [Sys.fire_ghost next, Function.update_of_ne apart]

/-- Each kind of call keeps the map and the calls together. -/
theorem fire_catalogued (catalogued : Catalogued calls c) (allowed : (c.ghost i).Allowed op)
    (careful : Careful calls c i op) (next : c.pending i = some op) : Catalogued calls
      (c.fire (gatewayHandle env) observeCreate i) := by
  have moved := @fire_moved ι env c i op _ next
  have shared : (c.fire (gatewayHandle env) observeCreate i).shared =
    (gatewayHandle env c.shared op).2 :=
    Sys.fire_shared next
  have present (id : UUID) (stored : Present c.shared id) :
      Present (c.fire (gatewayHandle env) observeCreate i).shared id := shared ▸ stored.step
  -- a call that is not about the map, or that carries no key
  have quiet (map : (gatewayHandle env c.shared op).2.2.idempotency = c.shared.2.idempotency)
      (core : (c.ghost i).key ≠ none → ∀ r, ((c.ghost i).next op r).looked = (c.ghost i).looked ∧
        ((c.ghost i).next op r).created = (c.ghost i).created ∧
        ((c.ghost i).next op r).remembered = (c.ghost i).remembered) :
      Catalogued calls (c.fire (gatewayHandle env) observeCreate i) := by
    refine catalogued.quiet (fun j => ?_) (fun j keyed => ?_) (shared ▸ map) present
    · rcases eq_or_ne j i with rfl | apart
      · rw [moved.mover]
        exact (next_key _).1
      · rw [moved.others j apart]
    · rcases eq_or_ne j i with rfl | apart
      · rw [moved.mover]
        exact core keyed _
      · rw [moved.others j apart]
        exact ⟨rfl, rfl, rfl⟩
  cases op with
  | inl op =>
      cases op with
      | saveExecution ex =>
          cases known : (c.ghost i).key with
          | none => exact quiet rfl fun keyed => absurd known keyed
          | some key =>
              have stage := allowed (by rw [known]; exact Option.some_ne_none key)
              rw [known] at stage
              have stored : Present (c.fire (gatewayHandle env) observeCreate i).shared
                ex.executionId := by
                rw [shared]
                exact Option.isSome_iff_exists.mpr ⟨ex, Table.get_put_self⟩
              refine catalogued.create stage (by rw [shared]; rfl) present stored ⟨?_, moved.others⟩
              · rw [moved.mover, stage]
                rfl
      | _ => exact quiet rfl fun _ => next_core rfl
  | inr op =>
      cases op with
      | lookup k =>
          have stage := allowed.2
          rw [allowed.1] at stage
          refine catalogued.lookup stage careful shared ⟨?_, moved.others⟩
          rw [moved.mover]
          rfl
      | remember k id =>
          have stage := allowed.2
          rw [allowed.1] at stage
          refine catalogued.remember stage (by rw [shared]; rfl) (by rw [shared]; rfl)
            ⟨?_, moved.others⟩
          rw [moved.mover, stage]
          rfl
      | _ => exact quiet rfl fun _ => next_core rfl

theorem fire_attended (attended : Attended engine.text settings calls c)
    (next : c.pending i = some op) (careful : Careful calls c i op) :
    Attended engine.text settings calls (c.fire (gatewayHandle env) observeCreate i) := by
  have allowed : (c.ghost i).Allowed op := attended.follows.ok next
  have moved := @fire_moved ι env c i op _ next
  constructor
  · exact attended.follows.fire next ⟨attended.catalogued.answers op, rfl⟩
  · intro j
    rcases eq_or_ne j i with rfl | apart
    · rw [moved.mover, (next_key _).1]
      exact attended.keys j
    · rw [moved.others j apart]
      exact attended.keys j
  · intro j
    rcases eq_or_ne j i with rfl | apart
    · rw [moved.mover, (next_key _).2]
      exact attended.starts j
    · rw [moved.others j apart]
      exact attended.starts j
  · intro j keyed
    rcases eq_or_ne j i with rfl | apart
    · rw [moved.mover] at keyed ⊢
      rw [(next_key _).1] at keyed
      exact (attended.sound j keyed).next keyed allowed _
    · rw [moved.others j apart] at keyed ⊢
      exact attended.sound j keyed
  · exact fire_catalogued attended.catalogued allowed careful next

/-- In every interleaving whose lookups are careful, there is one execution for each key. -/
theorem created_once (env : Env) (engine : ExecutionEngine)
    (settings : GatewaySettings) (fuel : Nat) (calls : ι → CreateExecutionCall) (w : World)
    (d : Counter ι) (reach : Sys.Reaches (gatewayHandle env) observeCreate (Careful calls)
      (launchCalls engine settings fuel calls w) d)
    (key : IdempotencyKey) : CreatedOnce settings engine.text calls key d := by
  have attended : Attended engine.text settings calls d :=
    reach.invariant (fun _ _ _ attended next careful => fire_attended attended next careful)
      launch_attended
  have own {i : ι} (asks : keyOf engine.text (calls i) = some key) : (d.ghost i).key = some key :=
    (attended.keys i).trans asks
  have sound {i : ι} (asks : keyOf engine.text (calls i) = some key) : (d.ghost i).Sound :=
    attended.sound i (by rw [own asks]; exact Option.some_ne_none key)
  constructor
  · intro i j asks asks' created created'
    exact attended.catalogued.single i j key (own asks) (own asks') ((sound asks).missed created)
      ((sound asks').missed created')
  · intro i asks
    exact (sound asks).once
  · intro i asks
    exact (sound asks).started
  · intro i id asks answered
    rcases (sound asks).answered id answered with ⟨looked, _⟩ | ⟨created, _⟩
    · obtain ⟨_, j, key', _, created, payload⟩ := attended.catalogued.hits i key id
        (own asks) looked
      exact ⟨j, (attended.keys j).symm.trans key', created, payload⟩
    · exact ⟨i, asks, created, fun _ => rfl, fun _ => rfl⟩
  · intro i asks answered created starts
    obtain ⟨id, named⟩ := Option.ne_none_iff_exists'.mp answered
    rcases (sound asks).answered id named with ⟨_, none⟩ | ⟨one, started⟩
    · exact absurd none created
    · rw [one]
      exact started ((attended.starts i).trans starts)

instance [Fintype ι] (c : Counter ι) (i : ι) (op : gateway.Op) : Decidable (Careful calls c i op) :=
  match op with
  | .inr (.lookup key) =>
      inferInstanceAs (Decidable (∀ j, (c.ghost j).key = some key → ¬(c.ghost j).InCourse ∧
      ((c.ghost j).created ≠ [] → SamePayload (calls i) (calls j))))
  | .inl _ => isTrue trivial
  | .inr (.remember _ _) => isTrue trivial
  | .inr (.startCallback _) => isTrue trivial
  | .inr (.listApprovalsForExecution _) => isTrue trivial
  | .inr (.respond _) => isTrue trivial

end

def creationOnce : CreateExecutionCall where
  workflowType := "generic"
  inputPayload := []
  context := [("tenant_id", .str "t1"), ("policy_scope", .str "default")]
  idempotencyKey := some "k"
  scheduleStart := none
  startCallback := false

/-- Both tries go to a gateway that puts new executions on the queue. -/
def triedTwice : Counter Bool :=
  launchCalls (.default .flat) ⟨true, true⟩ 1 (fun _ => creationOnce) .init

/-- The second try after the response to the first. -/
def oneByOne : Counter Bool :=
  triedTwice.fires (gatewayHandle .refusing) observeCreate (List.replicate 12 true ++
    List.replicate 3 false)

/-- Both lookups before either write of the map. -/
def lookedUpTogether : Counter Bool :=
  triedTwice.fires (gatewayHandle .refusing) observeCreate (true :: false :: List.replicate 11
    true ++ List.replicate 11 false)

theorem created_once_one_by_one :
    CreatedOnce ⟨true, true⟩ Rendering.flat (fun _ => creationOnce)
    ("t1", "generic", "k") oneByOne ∧
      (oneByOne.ghost true).started = [⟨1⟩] ∧ (oneByOne.ghost false).answered = some ⟨1⟩ :=
  ⟨created_once .refusing (.default .flat) ⟨true, true⟩ 1 (fun _ => creationOnce) .init oneByOne
    (Sys.Reaches.refl.legally (by decide)) ("t1", "generic", "k"), by decide, by decide⟩

/-- Together, they create and start two executions, and each is told of its own. -/
theorem created_twice :
    Sys.Reaches (gatewayHandle .refusing) observeCreate
      (fun _ _ _ => True) triedTwice lookedUpTogether ∧
      ((lookedUpTogether.ghost true).started = [⟨1⟩] ∧
        (lookedUpTogether.ghost false).started = [⟨3⟩] ∧
        (lookedUpTogether.ghost true).answered = some ⟨1⟩ ∧
          (lookedUpTogether.ghost false).answered = some ⟨3⟩) ∧
      ¬ CreatedOnce ⟨true, true⟩ Rendering.flat (fun _ => creationOnce) ("t1", "generic", "k")
        lookedUpTogether := by
  refine ⟨Sys.Reaches.refl.fires _, by decide, fun once => ?_⟩
  exact absurd (once.single true false rfl rfl (by decide) (by decide)) (by decide)

end AgenticPlatform
