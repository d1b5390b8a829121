import AgenticPlatform.ReplayReport

/-! The comparison of two executions seen from either side: what one direction reports, the other
reports with the values exchanged, and an execution does not differ from itself. -/
namespace AgenticPlatform
open Reporting
open Reporting.Findings

namespace Json

mutual

/-- Every dictionary has each key once. -/
def Proper : Json → Prop
  | arr xs => ProperItems xs
  | obj kvs => (kvs.map Prod.fst).Nodup ∧ ProperFields kvs
  | _ => True

def ProperItems : List Json → Prop
  | [] => True
  | x :: xs => Proper x ∧ ProperItems xs

def ProperFields : List (String × Json) → Prop
  | [] => True
  | (_, x) :: rest => Proper x ∧ ProperFields rest

end

theorem ProperFields.mem {kvs : Dict} {k : String} {x : Json} (proper : ProperFields kvs)
    (member : (k, x) ∈ kvs) :
    x.Proper := by
  induction kvs with
  | nil => cases member
  | cons kv rest ih =>
      obtain ⟨j, y⟩ := kv
      rw [ProperFields] at proper
      rcases List.mem_cons.mp member with same | later
      · obtain ⟨rfl, rfl⟩ := Prod.mk.inj same
        exact proper.1
      · exact ih proper.2 later

theorem mem_of_get? {d : Dict} {k : String} {x : Json} (found : d.get? k = some x) :
    (k, x) ∈ d := by
  obtain ⟨kv, at_k, rfl⟩ := Option.map_eq_some_iff.mp found
  have same : kv.1 = k := by simpa using List.find?_some at_k
  exact same ▸ List.mem_of_find?_eq_some at_k

theorem get?_of_mem {d : Dict} {k : String} {x : Json} (once : (d.map Prod.fst).Nodup)
    (member : (k, x) ∈ d) :
    d.get? k = some x := by
  cases found : d.get? k with
  | none => exact absurd (List.mem_map_of_mem member) (Dict.get?_eq_none.mp found)
  | some y =>
      have same := List.inj_on_of_nodup_map once (mem_of_get? found) member rfl
      exact congrArg (fun kv => some kv.2) same

theorem sameFields_iff {kvs jvs : Dict} : sameFields kvs jvs = true ↔
    ∀ k x, (k, x) ∈ kvs → ∃ y, jvs.get? k = some y ∧ same x y = true := by
  induction kvs with
  | nil => simp [sameFields]
  | cons kv rest ih =>
      obtain ⟨j, x⟩ := kv
      rw [sameFields, Bool.and_eq_true, ih]
      constructor
      · rintro ⟨first, later⟩ k y member
        rcases List.mem_cons.mp member with same | member
        · obtain ⟨rfl, rfl⟩ := Prod.mk.inj same
          cases found : jvs.get? k with
          | none => rw [found] at first; cases first
          | some z => rw [found] at first; exact ⟨z, rfl, first⟩
        · exact later k y member
      · intro all
        obtain ⟨y, found, same⟩ := all j x List.mem_cons_self
        refine ⟨?_, fun k z member => all k z (List.mem_cons_of_mem _ member)⟩
        rw [found]
        exact same

theorem same_number {a b : Json} (numeric : a.number? ≠ none) (same : b.number? = a.number?) :
    Json.same b a = true := by
  cases b with
  | bool c => exact decide_eq_true same.symm
  | int n => exact decide_eq_true same.symm
  | float q => exact decide_eq_true same.symm
  | null | str _ | arr _ | obj _ => exact absurd same.symm numeric

mutual

/-- `a == b` gives `b == a`. -/
theorem same_comm : (a b : Json) → a.Proper → b.Proper → same a b = true → same b a = true
  | .null, .null, _, _, _ => rfl
  | .str s, .str t, _, _, h => by simp only [same, decide_eq_true_eq] at h ⊢; exact h.symm
  | .arr xs, .arr ys, ha, hb, h => sameItems_comm xs ys ha hb h
  | .obj kvs, .obj jvs, ha, hb, h => by
      rw [same, Bool.and_eq_true, decide_eq_true_eq] at h ⊢
      obtain ⟨count, fields⟩ := h
      have found := sameFields_found kvs jvs ha.2 hb.2 fields
      have known : kvs.map Prod.fst ⊆ jvs.map Prod.fst := by
        intro k inside
        obtain ⟨⟨k, x⟩, member, rfl⟩ := List.mem_map.mp inside
        obtain ⟨y, at_k, _⟩ := found k x member
        exact List.mem_map.mpr ⟨(k, y), mem_of_get? at_k, rfl⟩
      -- as many keys, all of them keys of the other
      have keys := (List.subperm_of_subset ha.1 known).perm_of_length_le (by simp [count])
      refine ⟨count.symm, sameFields_iff.mpr fun k y member => ?_⟩
      obtain ⟨⟨_, x⟩, member', rfl⟩ :=
        List.mem_map.mp (keys.mem_iff.mpr (List.mem_map_of_mem member))
      obtain ⟨z, at_k, same⟩ := found _ x member'
      obtain rfl : y = z := Option.some.inj ((get?_of_mem hb.1 member).symm.trans at_k)
      exact ⟨x, get?_of_mem ha.1 member', same⟩
  | .bool b, v, _, _, h => same_number nofun (of_decide_eq_true h)
  | .int n, v, _, _, h => same_number nofun (of_decide_eq_true h)
  | .float q, v, _, _, h => same_number nofun (of_decide_eq_true h)

theorem sameItems_comm : (xs ys : List Json) → ProperItems xs → ProperItems ys →
    sameItems xs ys = true →
    sameItems ys xs = true
  | [], [], _, _, _ => rfl
  | x :: xs, y :: ys, hx, hy, h => by
      rw [sameItems, Bool.and_eq_true] at h ⊢
      exact ⟨same_comm x y hx.1 hy.1 h.1, sameItems_comm xs ys hx.2 hy.2 h.2⟩

theorem sameFields_found : (kvs jvs : List (String × Json)) → ProperFields kvs → ProperFields jvs →
    sameFields kvs jvs = true → ∀ k x, (k, x) ∈ kvs → ∃ y, Dict.get? jvs k = some y ∧
      same y x = true
  | [], _, _, _, _ => nofun
  | (j, x) :: rest, jvs, hk, hj, h => by
      intro k y member
      rw [sameFields, Bool.and_eq_true] at h
      rcases List.mem_cons.mp member with same | later
      · obtain ⟨rfl, rfl⟩ := Prod.mk.inj same
        cases found : Dict.get? jvs k with
        | none => rw [found] at h; cases h.1
        | some z =>
            rw [found] at h
            exact ⟨z, rfl, same_comm y z hk.1 (hj.mem (mem_of_get? found)) h.1⟩
      · exact sameFields_found rest jvs hk.2 hj h.2 k y later

end

theorem differs_comm {a b : Json} (ha : a.Proper) (hb : b.Proper) : Differs a b ↔ Differs b a := by
  have same : same a b = same b a := by
    rw [Bool.eq_iff_iff]
    exact ⟨same_comm a b ha hb, same_comm b a hb ha⟩
  rw [Differs, Differs, same]
  exact and_congr_left' ne_comm

theorem Proper.get {d : Dict} (proper : (obj d).Proper) (k : String) : (Dict.get d k).Proper := by
  unfold Dict.get
  cases found : Dict.get? d k with
  | none => trivial
  | some x => exact ProperFields.mem proper.2 (mem_of_get? found)

end Json

/-- Reported by both directions: neither the lineage nor the note on overrides. -/
def ReplayDiffFields.Shared (f : ReplayDiffFields) : Prop :=
  f.category ≠ .lineage ∧ f.path ≠ "provenance.input_overrides"

instance (f : ReplayDiffFields) : Decidable f.Shared := inferInstanceAs (Decidable (_ ∧ _))

namespace ReplayDiffService
open Json (Differs differs_comm)

/-- The title under which the other direction reports an item. -/
def mirroredTitle (title : String) : String :=
  if title = "extra_replay_step" then "missing_replay_step"
  else if title = "missing_replay_step" then "extra_replay_step"
  else title

/-- One difference as the two directions report it; descriptions and related ids may differ, and the
severity of an input field. -/
structure Mirrored (i j : ReplayDiffItem) : Prop where
  category : j.1.category = i.1.category
  severity : i.1.category ≠ .input → j.1.severity = i.1.severity
  title : j.1.title = mirroredTitle i.1.title
  path : j.1.path = i.1.path
  sourceValue : j.1.sourceValue = i.1.replayValue
  replayValue : j.1.replayValue = i.1.sourceValue
  shared : i.1.Shared ∧ j.1.Shared

/-- The path does not begin as that of the note on overrides does. -/
def Elsewhere (path : String) : Prop :=
  ∃ start : List Char, start <+: path.toList ∧ ¬start <+: "provenance.input_overrides".toList

section
variable {category : ReplayDiffCategory} {severity severity' : ReplayDiffSeverity}
  {title description path s : String}
  {first second : Option String} {step call step' call' : Option UUID} {p : List Char}

theorem elsewhere_literal (apart : p.isPrefixOf "provenance.input_overrides".toList = false) :
    Elsewhere (String.ofList p) := by
  refine ⟨p, by simp, ?_⟩
  rw [← List.isPrefixOf_iff_prefix, apart]
  simp

theorem Elsewhere.append (elsewhere : Elsewhere path) : Elsewhere (path ++ s) := by
  obtain ⟨start, begins, apart⟩ := elsewhere
  refine ⟨start, ?_, apart⟩
  rw [String.toList_append]
  exact begins.trans (List.prefix_append _ _)

theorem Elsewhere.ne (elsewhere : Elsewhere path) : path ≠ "provenance.input_overrides" := by
  rintro rfl
  obtain ⟨start, begins, apart⟩ := elsewhere
  exact apart begins

/-- An item whose mirror image has the same labels. -/
theorem alike_item (plain : mirroredTitle title = title) (listed : category ≠ .lineage)
    (elsewhere : Elsewhere path) (same : category ≠ .input → severity' = severity) :
    Alike Mirrored
      (report (ReplayDiffFields.mk category severity title description first second path
      step call).item) (report (ReplayDiffFields.mk category severity' title description second
        first path step' call').item) := by
  let f : ReplayDiffFields := ⟨category, severity, title, description, first, second,
    path, step, call⟩
  let g : ReplayDiffFields := ⟨category, severity', title, description, second, first,
    path, step', call'⟩
  have fits : f.Valid ↔ g.Valid :=
    ⟨fun ⟨a, b, c, d, e⟩ => ⟨a, b, d, c, e⟩, fun ⟨a, b, c, d, e⟩ => ⟨a, b, d, c, e⟩⟩
  change Alike Mirrored (report f.item) (report g.item)
  unfold ReplayDiffFields.item
  by_cases valid : f.Valid
  · rw [dif_pos valid, dif_pos (fits.mp valid)]
    exact .found (.cons ⟨rfl, same, plain.symm, rfl, rfl, rfl, ⟨listed, elsewhere.ne⟩, listed,
      elsewhere.ne⟩ .nil)
  · rw [dif_neg valid, dif_neg fun valid' => valid (fits.mpr valid')]
    exact .failed _

end

/-- The JSON values that the comparison reads are well-formed. -/
structure ProperRows (repo : RepositoryReads) (e : Execution) : Prop where
  input : (Json.obj e.input).Proper
  result : ∀ d ∈ e.result, (Json.obj d).Proper
  validationSummary : ∀ d ∈ e.validationSummary, (Json.obj d).Proper
  traceTimeline : ∀ row ∈ e.traceTimeline, (Json.obj row).Proper
  outputs : ∀ s ∈ repo.listStepsForExecution e.executionId, ∀ r ∈ repo.getStepResult s.stepId,
    ∀ d ∈ r.output,
    (Json.obj d).Proper

section
variable {text : Rendering} {repo : RepositoryReads} {a b : Execution}
  {prov prov' : Option ReplayProvenance}

theorem compareExecutionHeader_alike :
    Alike Mirrored (compareExecutionHeader a b) (compareExecutionHeader b a) := by
  refine .append (.when ne_comm fun _ => ?_) (.when ne_comm fun _ => ?_)
  · exact alike_item (by decide) nofun (elsewhere_literal rfl) fun _ => rfl
  · exact alike_item (by decide) nofun (elsewhere_literal rfl) fun _ => rfl

theorem inputKeys_comm : inputKeys a b = inputKeys b a := by
  unfold inputKeys
  have : Std.Total fun x y : String => x ≤ y := ⟨String.le_total⟩
  have : IsTrans String fun x y => x ≤ y := ⟨fun _ _ _ => String.le_trans⟩
  refine List.Perm.eq_of_pairwise (fun _ _ _ _ => String.le_antisymm) ?_ ?_ ?_
  · exact List.pairwise_insertionSort _ _
  · exact List.pairwise_insertionSort _ _
  · refine (List.perm_insertionSort _ _).trans (.trans ?_ (List.perm_insertionSort _ _).symm)
    exact List.perm_append_comm.dedup

theorem proper_businessInput {e : Execution} (proper : (Json.obj e.input).Proper) (key : String) :
    ((businessInput e).get key).Proper := by
  rw [businessInput, Dict.get, Dict.get?_pop]
  split
  · trivial
  · exact proper.get key

theorem plain_input (key : String) : mirroredTitle ("input." ++ key) = "input." ++ key := by
  have other (t : String) (apart : ¬"input.".toList <+: t.toList) : "input." ++ key ≠ t := by
    rintro rfl
    exact apart (by rw [String.toList_append]; exact List.prefix_append _ _)
  rw [mirroredTitle, if_neg (other _ (by decide)), if_neg (other _ (by decide))]

theorem compareInput_alike (own : ProperRows repo a) (other : ProperRows repo b) :
    Alike Mirrored (compareInput text a b prov) (compareInput text b a prov') := by
  unfold compareInput
  rw [inputKeys_comm]
  refine alike_each (List.forall₂_same.mpr fun key _ => .when ?_ fun _ => ?_)
  · exact differs_comm (proper_businessInput own.input key) (proper_businessInput other.input key)
  · exact alike_item (plain_input key) nofun (elsewhere_literal rfl).append fun other =>
      absurd rfl other

theorem comparePlan_alike : Alike Mirrored (comparePlan repo a b) (comparePlan repo b a) := by
  refine .append (.when ne_comm fun _ => ?_) (.when ne_comm fun _ => ?_)
  · exact alike_item (by decide) nofun (elsewhere_literal rfl) fun _ => rfl
  · exact alike_item (by decide) nofun (elsewhere_literal rfl) fun _ => rfl

theorem compareDictFields_alike {src rep : Option Dict} {category : ReplayDiffCategory}
    {pathPrefix : String} {keys : List String} {step step' : Option UUID}
    {severity : ReplayDiffSeverity} (plain : ∀ key ∈ keys, mirroredTitle key = key)
    (listed : category ≠ .lineage) (elsewhere : Elsewhere pathPrefix)
    (own : ∀ d ∈ src, (Json.obj d).Proper) (other : ∀ d ∈ rep, (Json.obj d).Proper) :
    Alike Mirrored (compareDictFields text src rep category pathPrefix keys step severity)
      (compareDictFields text rep src category pathPrefix keys step' severity) := by
  cases src with
  | none =>
      cases rep with
      | none => exact alike_nothing
      | some rep => exact alike_nothing
  | some src =>
      cases rep with
      | none => exact alike_nothing
      | some rep =>
          refine alike_each (List.forall₂_same.mpr fun key member => .when ?_ fun _ => ?_)
          · unfold fieldDiffers
            rw [and_comm, and_comm (a := rep.get? key = none), and_comm (a := Differs _ _)]
            refine and_congr Iff.rfl ?_
            exact differs_comm ((own src rfl).get key) ((other rep rfl).get key)
          · exact alike_item (plain key member) listed elsewhere.append.append fun _ => rfl

theorem compareStepResults_alike {ss rs : Step} {pathPrefix : String}
    (elsewhere : Elsewhere pathPrefix)
    (own : ∀ r ∈ repo.getStepResult ss.stepId, ∀ d ∈ r.output, (Json.obj d).Proper)
    (other : ∀ r ∈ repo.getStepResult rs.stepId, ∀ d ∈ r.output, (Json.obj d).Proper) :
    Alike Mirrored (compareStepResults text repo ss rs pathPrefix)
    (compareStepResults text repo rs ss pathPrefix) := by
  unfold compareStepResults
  cases first : repo.getStepResult ss.stepId with
  | none =>
      cases second : repo.getStepResult rs.stepId with
      | none => exact alike_nothing
      | some rep => exact alike_item (by decide) nofun elsewhere.append fun _ => rfl
  | some src =>
      cases second : repo.getStepResult rs.stepId with
      | none => exact alike_item (by decide) nofun elsewhere.append fun _ => rfl
      | some rep =>
          refine .append (.append (.append (.when ne_comm fun _ => ?_) (.when ne_comm fun _ => ?_))
            (.when ne_comm fun _ => ?_)) ?_
          · exact alike_item (by decide) nofun elsewhere.append fun _ => rfl
          · exact alike_item (by decide) nofun elsewhere.append fun _ => rfl
          · exact alike_item (by decide) nofun elsewhere.append fun _ => rfl
          · exact compareDictFields_alike (by decide) nofun elsewhere.append (own src first)
              (other rep second)

theorem elsewhere_steps (idx : Nat) : Elsewhere ("steps[" ++ toString idx ++ "]") :=
  (elsewhere_literal rfl).append.append

theorem comparePairedSteps_alike {idx : Nat} {ss rs : Step} {pathPrefix : String}
    (elsewhere : Elsewhere pathPrefix)
    (own : ∀ r ∈ repo.getStepResult ss.stepId, ∀ d ∈ r.output, (Json.obj d).Proper)
    (other : ∀ r ∈ repo.getStepResult rs.stepId, ∀ d ∈ r.output, (Json.obj d).Proper) :
    Alike Mirrored (comparePairedSteps text repo idx ss rs pathPrefix)
    (comparePairedSteps text repo idx rs ss pathPrefix) := by
  refine .append (.append (.append (.when ne_comm fun _ => ?_) (.when ne_comm fun _ => ?_))
    (.when ne_comm fun _ => ?_)) (compareStepResults_alike elsewhere own other)
  · exact alike_item (by decide) nofun elsewhere.append fun _ => rfl
  · exact alike_item (by decide) nofun elsewhere.append fun _ => rfl
  · exact alike_item (by decide) nofun elsewhere.append fun _ => rfl

/-- A step without a partner is extra in one direction and missing in the other. -/
theorem alike_unpaired {path : String} {label : Option String} {step : Option UUID}
    (elsewhere : Elsewhere path) (short : ShortIn label) :
    Alike Mirrored
        (report (ReplayDiffFields.mk .step .significant "extra_replay_step"
          "Replay has a step with no positional match in source ordering." none label path
            step none).item)
        (report (ReplayDiffFields.mk .step .significant "missing_replay_step"
          "Source has a step with no positional match in replay ordering." label none path
            step none).item) ∧
      Alike Mirrored
        (report (ReplayDiffFields.mk .step .significant "missing_replay_step"
          "Source has a step with no positional match in replay ordering." label none path
            step none).item)
        (report (ReplayDiffFields.mk .step .significant "extra_replay_step"
          "Replay has a step with no positional match in source ordering." none label path step
            none).item) := by
  let extra : ReplayDiffFields := ⟨.step, .significant, "extra_replay_step",
    "Replay has a step with no positional match in source ordering.", none, label, path, step, none⟩
  let missing : ReplayDiffFields := ⟨.step, .significant, "missing_replay_step",
    "Source has a step with no positional match in replay ordering.", label, none, path, step, none⟩
  have titles : "extra_replay_step".length ≤ 256 ∧ "missing_replay_step".length ≤ 256 :=
    ⟨length_literal rfl, length_literal rfl⟩
  have texts : "Replay has a step with no positional match in source ordering.".length ≤ 2048 ∧
      "Source has a step with no positional match in replay ordering.".length ≤ 2048 :=
    ⟨length_literal rfl, length_literal rfl⟩
  change Alike Mirrored (report extra.item) (report missing.item) ∧
    Alike Mirrored (report missing.item) (report extra.item)
  unfold ReplayDiffFields.item
  by_cases fits : path.length ≤ 256
  · have valid : extra.Valid := ⟨titles.1, texts.1, shortIn_none, short, fits⟩
    have valid' : missing.Valid := ⟨titles.2, texts.2, short, shortIn_none, fits⟩
    have shared : extra.Shared ∧ missing.Shared := ⟨⟨nofun, elsewhere.ne⟩, nofun, elsewhere.ne⟩
    rw [dif_pos valid, dif_pos valid']
    exact ⟨.found (.cons ⟨rfl, fun _ => rfl, rfl, rfl, rfl, rfl, shared⟩ .nil),
      .found (.cons ⟨rfl, fun _ => rfl, rfl, rfl, rfl, rfl, shared.symm⟩ .nil)⟩
  · rw [dif_neg fun valid => fits valid.path, dif_neg fun valid => fits valid.path]
    exact ⟨.failed _, .failed _⟩

theorem mem_orderedSteps {id : UUID} {s : Step} : s ∈ orderedSteps repo id ↔
    s ∈ repo.listStepsForExecution id := by
  rw [orderedSteps, byCreatedAt, List.mem_insertionSort]

theorem compareSteps_alike (own : ProperRows repo a) (other : ProperRows repo b) :
    Alike Mirrored (compareSteps text repo a b) (compareSteps text repo b a) := by
  unfold compareSteps
  dsimp only
  rw [max_comm]
  refine alike_each (List.forall₂_same.mpr fun idx _ => ?_)
  unfold compareStepsAt
  cases first : (orderedSteps repo a.executionId)[idx]? with
  | none =>
      cases second : (orderedSteps repo b.executionId)[idx]? with
      | none => exact alike_nothing
      | some rs => exact (alike_unpaired (elsewhere_steps idx) shortIn_brief).1
  | some ss =>
      cases second : (orderedSteps repo b.executionId)[idx]? with
      | none => exact (alike_unpaired (elsewhere_steps idx) shortIn_brief).2
      | some rs =>
          exact comparePairedSteps_alike (elsewhere_steps idx)
            (own.outputs ss (mem_orderedSteps.mp (List.mem_of_getElem? first)))
            (other.outputs rs (mem_orderedSteps.mp (List.mem_of_getElem? second)))

theorem modelPathItem_alike {idx : Nat} {sp rp : Json} : Alike Mirrored
    (report (modelPathItem text idx sp rp)) (report (modelPathItem text idx rp sp)) := by
  unfold modelPathItem
  by_cases hashable : sp.Hashable ∧ rp.Hashable
  · rw [if_pos hashable, if_pos hashable.symm]
    exact alike_item (by decide) nofun (elsewhere_literal rfl).append.append fun _ => by
      rw [Bool.and_comm]
  · rw [if_neg hashable, if_neg fun swapped => hashable swapped.symm]
    exact .failed _

theorem proper_event {e : Execution} (proper : ProperRows repo e) {event : Dict}
    (member : event ∈ modelReasoningEvents e) (key : String) : (event.get key).Proper :=
  (proper.traceTimeline event (List.mem_filter.mp member).1).get key

theorem compareModelReasoning_alike (own : ProperRows repo a) (other : ProperRows repo b) :
    Alike Mirrored (compareModelReasoning text a b) (compareModelReasoning text b a) := by
  refine .append (.when ne_comm fun _ => ?_) (alike_zip fun se hs re hr n => .append
    (.when ?_ fun _ => ?_) (.when ?_ fun _ => ?_))
  · exact alike_item (by decide) nofun (elsewhere_literal rfl) fun _ => rfl
  · exact differs_comm (proper_event own hs "path") (proper_event other hr "path")
  · exact modelPathItem_alike
  · exact differs_comm (proper_event own hs "task") (proper_event other hr "task")
  · exact alike_item (by decide) nofun (elsewhere_literal rfl).append.append fun _ => rfl

theorem compareToolCalls_alike : Alike Mirrored (compareToolCalls repo a b)
    (compareToolCalls repo b a) := by
  have elsewhere (n : Nat) : Elsewhere ("tool_calls[" ++ toString n ++ "]") :=
    (elsewhere_literal rfl).append.append
  refine .append (.when ne_comm fun _ => ?_) (alike_zip fun sc _ rc _ n => .append (.append (.append
    (.when ne_comm fun _ => ?_) (.when ne_comm fun _ => ?_)) (.when ne_comm fun _ => ?_))
      (.when ne_comm fun _ => ?_))
  · exact alike_item (by decide) nofun (elsewhere_literal rfl) fun _ => rfl
  · exact alike_item (by decide) nofun (elsewhere n).append fun _ => rfl
  · exact alike_item (by decide) nofun (elsewhere n).append fun _ => rfl
  · exact alike_item (by decide) nofun (elsewhere n).append fun _ => rfl
  · exact alike_item (by decide) nofun (elsewhere n).append fun _ => rfl

theorem comparePairedEvaluations_alike {idx : Nat} {se re : PolicyEvaluation} :
    Alike Mirrored (comparePairedEvaluations text idx se re)
    (comparePairedEvaluations text idx re se) := by
  have elsewhere : Elsewhere ("policy_evaluations[" ++ toString idx ++ "]") :=
    (elsewhere_literal rfl).append.append
  unfold comparePairedEvaluations
  dsimp only
  by_cases differ : se.decision ≠ re.decision
  · rw [if_pos differ, if_pos differ.symm]
    exact alike_item (by decide) nofun elsewhere.append fun _ => rfl
  · rw [if_neg differ, if_neg fun differ' => differ differ'.symm]
    exact .when ne_comm fun _ => alike_item (by decide) nofun elsewhere.append fun _ => rfl

theorem comparePolicy_alike : Alike Mirrored (comparePolicy text repo a b)
    (comparePolicy text repo b a) := by
  unfold comparePolicy
  dsimp only
  by_cases none : repo.listPolicyEvaluationsForExecution a.executionId = [] ∧
      repo.listPolicyEvaluationsForExecution b.executionId = []
  · rw [if_pos none, if_pos none.symm]
    exact alike_nothing
  · rw [if_neg none, if_neg fun none' => none none'.symm]
    refine .append (.append (.when ne_comm fun _ => ?_)
      (alike_zip fun _ _ _ _ _ => comparePairedEvaluations_alike))
      (.when ne_comm fun _ => ?_)
    · exact alike_item (by decide) nofun (elsewhere_literal rfl) fun _ => rfl
    · exact alike_item (by decide) nofun (elsewhere_literal rfl) fun _ => rfl

theorem compareApprovals_alike : Alike Mirrored (compareApprovals repo a b)
    (compareApprovals repo b a) := by
  refine .append (.when ne_comm fun _ => ?_) (alike_zip fun _ _ _ _ _ => .when ne_comm fun _ => ?_)
  · exact alike_item (by decide) nofun (elsewhere_literal rfl) fun _ => rfl
  · exact alike_item (by decide) nofun (elsewhere_literal rfl).append.append fun _ => rfl

theorem proper_ofOption {o : Option Dict} (proper : ∀ d ∈ o, (Json.obj d).Proper) :
    (Json.ofOption .obj o).Proper := by
  cases o with
  | none => trivial
  | some d => exact proper d rfl

theorem compareValidation_alike (own : ProperRows repo a) (other : ProperRows repo b) :
    Alike Mirrored (compareValidation text a b) (compareValidation text b a) := by
  refine .when ?_ fun _ => ?_
  · exact differs_comm (proper_ofOption own.validationSummary)
      (proper_ofOption other.validationSummary)
  · exact alike_item (by decide) nofun (elsewhere_literal rfl) fun _ => rfl

theorem compareResult_alike (own : ProperRows repo a) (other : ProperRows repo b) :
    Alike Mirrored (compareResult text a b) (compareResult text b a) := by
  unfold compareResult
  cases first : a.result with
  | none =>
      cases second : b.result with
      | none => exact alike_nothing
      | some rep => exact alike_item (by decide) nofun (elsewhere_literal rfl) fun _ => rfl
  | some src =>
      cases second : b.result with
      | none => exact alike_item (by decide) nofun (elsewhere_literal rfl) fun _ => rfl
      | some rep =>
          exact compareDictFields_alike (by decide) nofun (elsewhere_literal rfl)
            (fun d same => own.result d (first.trans same)) fun d same => other.result d
              (second.trans same)

/-- All passes after that over the lineage. -/
def comparePasses (text : Rendering) (repo : RepositoryReads) (source replay : Execution)
    (prov : Option ReplayProvenance) : Items :=
  compareExecutionHeader source replay ++ compareInput text source replay prov ++ comparePlan repo
    source replay ++
    compareSteps text repo source replay ++ compareModelReasoning text source replay ++
    compareToolCalls repo source replay ++ comparePolicy text repo source replay ++
    compareApprovals repo source replay ++ compareValidation text source replay ++ compareResult
      text source replay

theorem compareItems_eq {linked : Bool} : compareItems text repo a b linked prov =
    compareLineage text a b linked prov ++ comparePasses text repo a b prov := by
  simp only [compareItems, comparePasses, append_assoc]

theorem comparePasses_alike (own : ProperRows repo a) (other : ProperRows repo b) :
    Alike Mirrored (comparePasses text repo a b prov) (comparePasses text repo b a prov') :=
  ((((((((compareExecutionHeader_alike.append (compareInput_alike own other)).append
    comparePlan_alike).append
    (compareSteps_alike own other)).append (compareModelReasoning_alike own other)).append
      compareToolCalls_alike).append
    comparePolicy_alike).append compareApprovals_alike).append
      (compareValidation_alike own other)).append
    (compareResult_alike own other)

theorem compareDictFields_self {src : Option Dict} {category : ReplayDiffCategory}
    {pathPrefix : String} {keys : List String} {step : Option UUID}
    {severity : ReplayDiffSeverity} :
    compareDictFields text src src category pathPrefix keys step severity = nothing := by
  cases src with
  | none => rfl
  | some src => exact each_nothing fun key _ => reportIf_of_not fun differs =>
    Json.not_differs_self _ differs.2

theorem compareStepResults_self {step : Step} {pathPrefix : String} :
    compareStepResults text repo step step pathPrefix = nothing := by
  unfold compareStepResults
  cases repo.getStepResult step.stepId with
  | none => rfl
  | some r =>
      dsimp only
      rw [reportIf_of_not (not_not.mpr rfl), reportIf_of_not (not_not.mpr rfl), reportIf_of_not
        (not_not.mpr rfl), compareDictFields_self]
      rfl

theorem compareSteps_self : compareSteps text repo a a = nothing := by
  refine each_nothing fun idx _ => ?_
  unfold compareStepsAt
  cases (orderedSteps repo a.executionId)[idx]? with
  | none => rfl
  | some step =>
      dsimp only [comparePairedSteps]
      rw [reportIf_of_not (not_not.mpr rfl), reportIf_of_not (not_not.mpr rfl), reportIf_of_not
        (not_not.mpr rfl), compareStepResults_self]
      rfl

theorem mem_zip_self {α : Type} {xs : List α} {pair : α × α} (member : pair ∈ xs.zip xs) :
    pair.2 = pair.1 := by
  induction xs with
  | nil => cases member
  | cons x rest ih =>
      rcases List.mem_cons.mp member with rfl | later
      · rfl
      · exact ih later

/-- Nothing is found in the pairs of a list with itself. -/
theorem each_zip_self {α : Type} {f : (α × α) × Nat → Items} {xs : List α}
    (none : ∀ x n, f ((x, x), n) = nothing) :
    each f (xs.zip xs).zipIdx = nothing := by
  refine each_nothing fun ⟨⟨x, y⟩, n⟩ member => ?_
  obtain rfl : y = x := mem_zip_self (List.fst_mem_of_mem_zipIdx member)
  exact none y n

theorem comparePasses_self : comparePasses text repo a a prov = nothing := by
  have header : compareExecutionHeader a a = nothing := by
    rw [compareExecutionHeader, reportIf_of_not (not_not.mpr rfl), reportIf_of_not
      (not_not.mpr rfl)]
    rfl
  have input : compareInput text a a prov = nothing :=
    each_nothing fun key _ => reportIf_of_not (Json.not_differs_self _)
  have plan : comparePlan repo a a = nothing := by
    dsimp only [comparePlan]
    rw [reportIf_of_not (not_not.mpr rfl), reportIf_of_not (not_not.mpr rfl)]
    rfl
  have events : compareModelReasoning text a a = nothing := by
    dsimp only [compareModelReasoning]
    rw [reportIf_of_not (not_not.mpr rfl), each_zip_self fun e n => ?_]
    · rfl
    · rw [compareModelEvents, reportIf_of_not (Json.not_differs_self _), reportIf_of_not
        (Json.not_differs_self _)]
      rfl
  have calls : compareToolCalls repo a a = nothing := by
    dsimp only [compareToolCalls]
    rw [reportIf_of_not (not_not.mpr rfl), each_zip_self fun c n => ?_]
    · rfl
    · dsimp only [comparePairedCalls]
      rw [reportIf_of_not (not_not.mpr rfl), reportIf_of_not (not_not.mpr rfl), reportIf_of_not
        (not_not.mpr rfl), reportIf_of_not (not_not.mpr rfl)]
      rfl
  have policy : comparePolicy text repo a a = nothing := by
    dsimp only [comparePolicy]
    split
    · rfl
    · rw [reportIf_of_not (not_not.mpr rfl), reportIf_of_not (not_not.mpr rfl), each_zip_self
        fun e n => ?_]
      · rfl
      · dsimp only [comparePairedEvaluations]
        rw [if_neg (not_not.mpr rfl), reportIf_of_not (not_not.mpr rfl)]
  have approvals : compareApprovals repo a a = nothing := by
    dsimp only [compareApprovals]
    rw [reportIf_of_not (not_not.mpr rfl), each_zip_self fun p n => reportIf_of_not
      (not_not.mpr rfl)]
    rfl
  have validation : compareValidation text a a = nothing :=
    reportIf_of_not (Json.not_differs_self _)
  have result : compareResult text a a = nothing := by
    unfold compareResult
    cases a.result with
    | none => rfl
    | some d => exact compareDictFields_self
  rw [comparePasses, header, input, plan, compareSteps_self, events, calls, policy, approvals,
    validation, result]
  rfl

theorem compare_items {modelValidate : Dict → Option ReplayProvenance}
    {after : RepositoryReads} {i j : UUID} {summary : ReplayDiffSummary}
    (known : repo.getExecution i = some a) (known' : repo.getExecution j = some b)
    (made : compare text modelValidate repo after i j = .ok summary) :
    compareItems text repo a b (isLinked modelValidate a b)
    (provenance modelValidate b) = .ok summary.items := by
  simp only [compare, known, known'] at made
  cases collected : compareItems text repo a b (isLinked modelValidate a b)
    (provenance modelValidate b) with
  | error e => rw [collected] at made; cases made
  | ok items =>
      simp only [collected, replayDiffSummary, bind, Except.bind] at made
      by_cases bounded : items.length ≤ 500
      · rw [dif_pos bounded] at made
        cases checked : unchanged after i j a b with
        | error e => simp only [checked] at made; cases made
        | ok _ => simp only [checked] at made; cases made; rfl
      · rw [dif_neg bounded] at made
        cases made

/-- What the pass over the lineage reports, only one direction reports. -/
theorem compareLineage_unshared {linked : Bool} :
    Alike (fun i _ : ReplayDiffItem => ¬i.1.Shared) (compareLineage text a b linked prov)
    (compareLineage text a b linked prov) := by
  have one {f : ReplayDiffFields} (unshared : ¬f.Shared) :
      Alike (fun i _ : ReplayDiffItem => ¬i.1.Shared) (report f.item) (report f.item) := by
    unfold ReplayDiffFields.item
    by_cases valid : f.Valid
    · rw [dif_pos valid]
      exact .found (.cons unshared .nil)
    · rw [dif_neg valid]
      exact .failed _
  unfold compareLineage
  refine .append ?_ (.when Iff.rfl fun _ => one fun shared => shared.2 rfl)
  cases linked with
  | false => exact one fun shared => shared.1 rfl
  | true => exact one fun shared => shared.1 rfl

theorem shared_of_mirrored {xs ys : List ReplayDiffItem} (pairs : List.Forall₂ Mirrored xs ys) :
    (∀ x ∈ xs, x.1.Shared) ∧ ∀ y ∈ ys, y.1.Shared := by
  induction pairs with
  | nil => exact ⟨fun _ no => absurd no List.not_mem_nil, fun _ no => absurd no List.not_mem_nil⟩
  | cons mirrored _ ih =>
      exact ⟨List.forall_mem_cons.mpr ⟨mirrored.shared.1, ih.1⟩, List.forall_mem_cons.mpr
        ⟨mirrored.shared.2, ih.2⟩⟩

theorem filter_shared {xs ys : List ReplayDiffItem} (none : ∀ x ∈ xs, ¬x.1.Shared)
    (all : ∀ y ∈ ys, y.1.Shared) :
    ((xs ++ ys).filter fun x => x.1.Shared) = ys := by
  rw [List.filter_append, List.filter_eq_nil_iff.mpr (by simpa using none), List.filter_eq_self.mpr
    (by simpa using all)]
  rfl

/-- The items of a summary: those of the lineage pass, and those of the passes after it. -/
theorem compare_split {modelValidate : Dict → Option ReplayProvenance}
    {after : RepositoryReads} {i j : UUID} {summary : ReplayDiffSummary}
    (known : repo.getExecution i = some a) (known' : repo.getExecution j = some b)
    (made : compare text modelValidate repo after i j = .ok summary) :
    ∃ xs ys, summary.items = xs ++ ys ∧ (∀ x ∈ xs, ¬x.1.Shared) ∧
      comparePasses text repo a b (provenance modelValidate b) = .ok ys := by
  have collected := compare_items known known' made
  rw [compareItems_eq] at collected
  have unshared := @compareLineage_unshared text a b (provenance modelValidate b)
    (isLinked modelValidate a b)
  cases lineage : compareLineage text a b (isLinked modelValidate a b)
    (provenance modelValidate b) with
  | error e => rw [lineage] at collected; cases collected
  | ok xs =>
      rw [lineage] at collected unshared
      cases passes : comparePasses text repo a b (provenance modelValidate b) with
      | error e => rw [passes] at collected; cases collected
      | ok ys =>
          rw [passes] at collected
          cases unshared with
          | found pairs =>
              exact ⟨xs, ys, (Except.ok.inj collected).symm, List.forall₂_same.mp pairs, rfl⟩

end

/-- What two stored executions have in common in both directions, and what an execution has with
itself. -/
structure DiffSymmetric (text : Rendering) (modelValidate : Dict → Option ReplayProvenance)
    (repo : RepositoryReads) (i j : UUID) (a b : Execution) : Prop where
  /-- The passes after the lineage fail alike, or give the same items in the same order. -/
  passes : Alike Mirrored (comparePasses text repo a b (provenance modelValidate b))
    (comparePasses text repo b a (provenance modelValidate a))
  summaries : ∀ after after' s t, compare text modelValidate repo after i j = .ok s →
    compare text modelValidate repo after' j i = .ok t →
    List.Forall₂ Mirrored (s.items.filter fun x => x.1.Shared) (t.items.filter fun x => x.1.Shared)
  quiet : ∀ after s, compare text modelValidate repo after i i = .ok s → ∀ x ∈ s.items, ¬x.1.Shared
  answered : Sized repo a → ∃ s, compare text modelValidate repo repo i i = .ok s

/-- The comparison is symmetric, but for the lineage and the note on overrides, and quiet on
itself. -/
theorem compare_symmetric (text : Rendering) (modelValidate : Dict → Option ReplayProvenance)
    (repo : RepositoryReads) {i j : UUID} {a b : Execution} (known : repo.getExecution i = some a)
    (known' : repo.getExecution j = some b) (own : ProperRows repo a) (other : ProperRows repo b) :
    DiffSymmetric text modelValidate repo i j a b where
  passes := comparePasses_alike own other
  summaries after after' s t made made' := by
    obtain ⟨xs, ys, items, lineage, passes⟩ := compare_split known known' made
    obtain ⟨xs', ys', items', lineage', passes'⟩ := compare_split known' known made'
    have alike := @comparePasses_alike text repo a b (provenance modelValidate b)
      (provenance modelValidate a) own other
    rw [passes, passes'] at alike
    cases alike with
    | found pairs =>
        obtain ⟨left, right⟩ := shared_of_mirrored pairs
        rw [items, items', filter_shared lineage left, filter_shared lineage' right]
        exact pairs
  quiet after s made := by
    obtain ⟨xs, ys, items, lineage, passes⟩ := compare_split known known made
    rw [comparePasses_self] at passes
    obtain rfl : [] = ys := Except.ok.inj passes
    rw [items, List.append_nil]
    exact lineage
  answered sized := by
    obtain ⟨xs, lineage, count⟩ :=
      (@compareLineage_yields text repo a a (isLinked modelValidate a a)
      (provenance modelValidate a) sized sized).found trivial
    have few : xs.length ≤ 500 := by
      rw [count, lineageDifferences, tally]
      split
      · omega
      · omega
    have collected : compareItems text repo a a (isLinked modelValidate a a)
      (provenance modelValidate a) = .ok xs := by
      rw [compareItems_eq, comparePasses_self, lineage]
      exact congrArg Except.ok (List.append_nil xs)
    have still : unchanged repo i i a a = .ok () := by simp [unchanged, known]
    simp only [compare, known, collected, replayDiffSummary, still, bind, Except.bind, dif_pos few]
    exact ⟨_, rfl⟩

theorem replayedWith_proper (key : String) : ProperRows (replayedWith key) unreplayed ∧
    ProperRows (replayedWith key) (replayedRow key) := by
  refine ⟨⟨?_, nofun, nofun, nofun, nofun⟩, ⟨?_, nofun, nofun, nofun, nofun⟩⟩
  · exact ⟨List.nodup_nil, trivial⟩
  · exact ⟨List.nodup_singleton key, trivial, trivial⟩

/-- An execution without input and a replay of it with one input field. -/
theorem compare_symmetric_replayed : DiffSymmetric .flat (fun _ => none) (replayedWith "k") ⟨1⟩
    ⟨2⟩ unreplayed
    (replayedRow "k") :=
  compare_symmetric .flat (fun _ => none) (replayedWith "k") rfl rfl (replayedWith_proper "k").1
    (replayedWith_proper "k").2

end ReplayDiffService
end AgenticPlatform
