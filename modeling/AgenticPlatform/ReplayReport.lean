import AgenticPlatform.ReplayDiff

/-! When the comparison of two stored executions gives its summary: the texts and the number of the
differences must fit the fields they are put into. -/
namespace AgenticPlatform
open Reporting
open Reporting.Findings

namespace ReplayDiffService
open Json (Differs)

/-- A text that fits a value of an item. -/
abbrev Short (s : String) : Prop := s.length ≤ 512

section
variable {p q : List Char} {s : String} {n k : Nat}

/-- A literal is counted by its list of characters. -/
theorem length_literal (room : Nat.ble p.length n = true) : (String.ofList p).length ≤ n := by
  rw [String.length_ofList]
  exact Nat.le_of_ble_eq_true room

theorem length_prefixed (bound : s.length ≤ n) (room : Nat.ble (p.length + n) k = true) :
    (String.ofList p ++ s).length ≤ k := by
  have := Nat.le_of_ble_eq_true room
  rw [String.length_append, String.length_ofList]
  omega

theorem length_suffixed (bound : s.length ≤ n) (room : Nat.ble (n + q.length) k = true) :
    (s ++ String.ofList q).length ≤ k := by
  have := Nat.le_of_ble_eq_true room
  rw [String.length_append, String.length_ofList]
  omega

theorem length_index (small : n < 2 ^ 63) : (toString n).length ≤ 19 := by
  apply (Nat.length_repr_le_iff (by omega)).mpr
  omega

theorem short_index (small : n < 2 ^ 63) : Short (toString n) :=
  Nat.le_trans (length_index small) (by omega)

theorem short_uuid {u : UUID} (wide : u.n < 2 ^ 128) : Short u.str := by
  have digits : (Nat.repr u.n).length ≤ 39 := by
    apply (Nat.length_repr_le_iff (by omega)).mpr
    omega
  exact Nat.le_trans digits (by omega)

theorem length_slice (s : String) (n : Nat) : (slice s 0 n).length ≤ n := by
  simp only [slice, String.length_ofList, List.drop_zero, Nat.sub_zero, List.length_take]
  exact Nat.min_le_left n _

end

/-- A briefed value never gets longer than the limit. -/
theorem length_brief {text : Rendering} {maxLen : Nat} {value : Json} (room : 3 ≤ maxLen) :
    ∀ v ∈ brief text maxLen value, v.length ≤ maxLen := by
  have cut (s : String) : (if maxLen < s.length then slice s 0 (maxLen - 3) ++ "..."
    else s).length ≤ maxLen := by
    split
    · apply length_suffixed (q := ['.', '.', '.']) (length_slice s (maxLen - 3))
      change Nat.ble (maxLen - 3 + 3) maxLen = true
      rw [Nat.ble_eq]
      omega
    · omega
  intro v member
  cases value with
  | null => exact absurd member (Option.not_mem_none v)
  | bool b => exact Option.mem_some.mp member ▸ cut _
  | int n => exact Option.mem_some.mp member ▸ cut _
  | float q => exact Option.mem_some.mp member ▸ cut _
  | str s => exact Option.mem_some.mp member ▸ cut _
  | arr xs => exact Option.mem_some.mp member ▸ cut _
  | obj kvs => exact Option.mem_some.mp member ▸ cut _

/-- The values of an item are short. -/
def ShortIn (o : Option String) : Prop := ∀ v ∈ o, Short v

theorem shortIn_none : ShortIn none := fun v member => absurd member (Option.not_mem_none v)

@[simp] theorem shortIn_some {s : String} : ShortIn (some s) ↔ Short s := by simp [ShortIn]

theorem shortIn_brief {text : Rendering} {value : Json} : ShortIn (brief text 400 value) :=
  fun v member => Nat.le_trans (length_brief (by omega) v member) (by omega)

theorem shortIn_brief_reason {text : Rendering} {value : Json} : ShortIn (brief text 200 value) :=
  fun v member => Nat.le_trans (length_brief (by omega) v member) (by omega)

theorem shortIn_map {α : Type} {f : α → String} (short : ∀ a, Short (f a)) (o : Option α) : ShortIn
    (o.map f) := by
  cases o with
  | none => exact shortIn_none
  | some a => exact shortIn_some.mpr (short a)

theorem shortIn_uuid {o : Option UUID} (wide : ∀ u ∈ o, u.n < 2 ^ 128) : ShortIn
    (o.map UUID.str) := by
  cases o with
  | none => exact shortIn_none
  | some u => exact shortIn_some.mpr (short_uuid (wide u rfl))

theorem short_strId {o : Option UUID} (wide : ∀ u ∈ o, u.n < 2 ^ 128) : Short (strId o) := by
  cases o with
  | none => exact length_literal rfl
  | some u => exact short_uuid (wide u rfl)

theorem short_executionStatus (s : ExecutionStatus) : Short s.value := by
  cases s <;> exact length_literal rfl

theorem short_stepStatus (s : StepStatus) : Short s.value := by
  cases s <;> exact length_literal rfl

theorem short_completeness (c : StepCompleteness) : Short c.value := by
  cases c <;> exact length_literal rfl

theorem short_toolCallStatus (s : ToolCallStatus) : Short s.value := by
  cases s <;> exact length_literal rfl

theorem short_sideEffectClass (c : ToolSideEffectClass) : Short c.value := by
  cases c <;> exact length_literal rfl

theorem short_idempotency (i : ToolIdempotency) : Short i.value := by
  cases i <;> exact length_literal rfl

theorem short_policyDecision (d : PolicyDecision) : Short d.value := by
  cases d <;> exact length_literal rfl

theorem short_approvalDecision (d : ApprovalDecision) : Short d.value := by
  cases d <;> exact length_literal rfl

theorem short_presence (present : Bool) : Short (presence present) := by
  cases present <;> exact length_literal rfl

/-- The title, the description and the path of an item fit. -/
structure Labelled (title description path : String) : Prop where
  title : title.length ≤ 256
  description : description.length ≤ 2048
  path : path.length ≤ 256

section
variable {category : ReplayDiffCategory} {severity : ReplayDiffSeverity}
  {title description path : String}
  {first second : Option String} {step call : Option UUID} {c : Prop} [Decidable c]

/-- Labels without a part that depends on the data. -/
theorem fixed_labels {t d p : List Char} (title : Nat.ble t.length 256 = true)
    (description : Nat.ble d.length 2048 = true) (path : Nat.ble p.length 256 = true) :
    Labelled (String.ofList t) (String.ofList d) (String.ofList p) :=
  ⟨length_literal title, length_literal description, length_literal path⟩

theorem yields_item {f : ReplayDiffFields} : Yields (report f.item) f.Valid 1 := by
  apply yields_report
  · intro valid
    exact ⟨⟨f, valid⟩, dif_pos valid⟩
  · intro invalid
    exact ⟨_, dif_neg invalid⟩

theorem Labelled.yields (labels : Labelled title description path) :
    Yields (report (ReplayDiffFields.mk category severity title description first second path
      step call).item) (ShortIn first ∧ ShortIn second) 1 := by
  apply yields_item.congr
  constructor
  · rintro ⟨short, short'⟩
    exact ⟨labels.title, labels.description, short, short', labels.path⟩
  · intro valid
    exact ⟨valid.sourceValue, valid.replayValue⟩

/-- An item that always fits. -/
theorem Labelled.fits (labels : Labelled title description path) (short : ShortIn first)
    (short' : ShortIn second) :
    Yields (report (ReplayDiffFields.mk category severity title description first second path step
      call).item) True 1 := by
  apply labels.yields.congr
  exact ⟨fun _ => ⟨short, short'⟩, fun _ => trivial⟩

theorem Labelled.fits_if (labels : Labelled title description path) (short : ShortIn first)
    (short' : ShortIn second) :
    Yields (reportIf c (ReplayDiffFields.mk category severity title description first second path
      step call).item)
      True (tally c) := by
  apply (Yields.when fun _ : c => labels.fits short short').congr
  exact ⟨fun _ _ => trivial, fun _ => trivial⟩

theorem Labelled.yields_if (labels : Labelled title description path) :
    Yields (reportIf c (ReplayDiffFields.mk category severity title description first second path
      step call).item) (c → ShortIn first ∧ ShortIn second) (tally c) :=
  Yields.when fun _ => labels.yields

end

/-- The lists that the comparison reads. -/
def comparedLists (repo : RepositoryReads) (e : Execution) : List Nat :=
  [(repo.listStepsForExecution e.executionId).length, (modelReasoningEvents e).length,
    (allToolCalls repo e.executionId).length, (repo.listPolicyEvaluationsForExecution
      e.executionId).length,
    (repo.listActionProposalsForExecution e.executionId).length,
      (repo.listApprovalsForExecution e.executionId).length]

/-- Identifiers have 128 bits, and a list has fewer elements than a 64-bit machine has addresses. -/
structure Sized (repo : RepositoryReads) (e : Execution) : Prop where
  executionId : e.executionId.n < 2 ^ 128
  parentExecutionId : ∀ u ∈ e.parentExecutionId, u.n < 2 ^ 128
  currentPlanId : ∀ u ∈ e.currentPlanId, u.n < 2 ^ 128
  lists : ∀ n ∈ comparedLists repo e, n < 2 ^ 63

section
variable {repo : RepositoryReads} {e : Execution}

theorem Sized.steps (sized : Sized repo e) :
    (repo.listStepsForExecution e.executionId).length < 2 ^ 63 :=
  sized.lists _ (by simp [comparedLists])

theorem Sized.events (sized : Sized repo e) : (modelReasoningEvents e).length < 2 ^ 63 :=
  sized.lists _ (by simp [comparedLists])

theorem Sized.calls (sized : Sized repo e) : (allToolCalls repo e.executionId).length < 2 ^ 63 :=
  sized.lists _ (by simp [comparedLists])

theorem Sized.evaluations (sized : Sized repo e) :
    (repo.listPolicyEvaluationsForExecution e.executionId).length < 2 ^ 63 :=
  sized.lists _ (by simp [comparedLists])

theorem Sized.proposals (sized : Sized repo e) :
    (repo.listActionProposalsForExecution e.executionId).length < 2 ^ 63 :=
  sized.lists _ (by simp [comparedLists])

theorem Sized.approvals (sized : Sized repo e) :
    (repo.listApprovalsForExecution e.executionId).length < 2 ^ 63 :=
  sized.lists _ (by simp [comparedLists])

theorem length_orderedSteps {id : UUID} :
    (orderedSteps repo id).length = (repo.listStepsForExecution id).length :=
  List.length_insertionSort _ _

end

/-- The index of a pair is below the length of the shorter list. -/
theorem index_of_zip {α β : Type} {xs : List α} {ys : List β} {pair : (α × β) × Nat}
    (member : pair ∈ (xs.zip ys).zipIdx) (small : xs.length < 2 ^ 63) : pair.2 < 2 ^ 63 := by
  have below := List.snd_lt_of_mem_zipIdx member
  rw [List.length_zip] at below
  omega

section
variable {text : Rendering} {repo : RepositoryReads} {source replay : Execution} {linked : Bool}
  {prov : Option ReplayProvenance}

def lineageDifferences (prov : Option ReplayProvenance) : Nat :=
  1 + tally (inputOverrides prov ≠ [])

theorem compareLineage_yields (own : Sized repo source) (other : Sized repo replay) :
    Yields (compareLineage text source replay linked prov) True (lineageDifferences prov) := by
  have first : Short source.executionId.str := short_uuid own.executionId
  have second : Short (strId replay.parentExecutionId) := short_strId other.parentExecutionId
  unfold compareLineage lineageDifferences
  apply Yields.both ?lineage ?overrides
  case lineage =>
    cases linked with
    | false =>
        rw [if_neg Bool.false_ne_true]
        exact (fixed_labels rfl rfl rfl).fits (shortIn_some.mpr first) (shortIn_some.mpr second)
    | true =>
        rw [if_pos rfl]
        exact (fixed_labels rfl rfl rfl).fits (shortIn_some.mpr first) (shortIn_some.mpr second)
  case overrides => exact (fixed_labels rfl rfl rfl).fits_if shortIn_none shortIn_brief

/-- A workflow type that differs has to fit a value. -/
def WorkflowTypesFit (source replay : Execution) : Prop :=
  source.workflowType ≠ replay.workflowType → Short source.workflowType ∧ Short replay.workflowType

def headerDifferences (source replay : Execution) : Nat :=
  tally (source.status ≠ replay.status) + tally (source.workflowType ≠ replay.workflowType)

theorem compareExecutionHeader_yields :
    Yields (compareExecutionHeader source replay) (WorkflowTypesFit source replay)
    (headerDifferences source replay) := by
  unfold compareExecutionHeader headerDifferences
  apply Yields.congr (Yields.append ?status ?workflow)
  case status =>
    exact (fixed_labels rfl rfl rfl).fits_if (shortIn_some.mpr (short_executionStatus _))
      (shortIn_some.mpr (short_executionStatus _))
  case workflow => exact (fixed_labels rfl rfl rfl).yields_if
  simp [WorkflowTypesFit]

/-- The key of an input field that differs is part of the title and the path. -/
def InputKeysFit (source replay : Execution) : Prop := ∀ key, inputDiffers source replay key →
    key.length ≤ 250

def inputDifferences (source replay : Execution) : Nat :=
  ((inputKeys source replay).map fun key => tally (inputDiffers source replay key)).sum

theorem mem_inputKeys {key : String} (differs : inputDiffers source replay key) :
    key ∈ inputKeys source replay := by
  rw [inputKeys, List.mem_insertionSort, List.mem_dedup, List.mem_append]
  by_contra absent
  rw [not_or] at absent
  apply differs.1
  rw [Dict.get, Dict.get, Dict.get?_eq_none.mpr absent.1, Dict.get?_eq_none.mpr absent.2]

theorem compareInput_yields :
    Yields (compareInput text source replay prov) (InputKeysFit source replay)
    (inputDifferences source replay) := by
  have one (key : String) (_ : key ∈ inputKeys source replay) :
      Yields (reportIf (inputDiffers source replay key) (ReplayDiffFields.mk .input
          (if (inputOverrides prov).get? key = none then .warning else .info) ("input." ++ key)
          ("Business input field '" ++ key ++ "' differs.")
            (brief text 400 ((businessInput source).get key))
          (brief text 400 ((businessInput replay).get key)) ("input." ++ key) none none).item)
        (inputDiffers source replay key → key.length ≤ 250)
          (tally (inputDiffers source replay key)) := by
    apply Yields.when
    intro _
    apply yields_item.congr
    have input : ("input." ++ key).length = 6 + key.length := by rw [String.length_append]; rfl
    constructor
    · intro short
      have described : ("Business input field '" ++ key ++ "' differs.").length ≤ 2048 :=
        length_suffixed (length_prefixed (k := 272) short rfl) rfl
      have titled : ("input." ++ key).length ≤ 256 := by omega
      exact ⟨titled, described, shortIn_brief, shortIn_brief, titled⟩
    · intro valid
      have title : ("input." ++ key).length ≤ 256 := valid.title
      omega
  apply (yields_each one).congr
  exact ⟨fun fit key _ => fit key, fun fit key differs => fit key (mem_inputKeys differs) differs⟩

def planDifferences (repo : RepositoryReads) (source replay : Execution) : Nat :=
  tally (source.currentPlanId ≠ replay.currentPlanId) +
    tally ((repo.listStepsForExecution source.executionId).length ≠
      (repo.listStepsForExecution replay.executionId).length)

theorem comparePlan_yields (own : Sized repo source) (other : Sized repo replay) :
    Yields (comparePlan repo source replay) True (planDifferences repo source replay) := by
  unfold comparePlan planDifferences
  apply Yields.both ?plan ?count
  case plan =>
    exact (fixed_labels rfl rfl rfl).fits_if (shortIn_uuid own.currentPlanId)
      (shortIn_uuid other.currentPlanId)
  case count =>
    exact (fixed_labels rfl rfl rfl).fits_if (shortIn_some.mpr (short_index own.steps))
      (shortIn_some.mpr (short_index other.steps))

def fieldDifferences (source replay : Option Dict) (keys : List String) : Nat :=
  match source, replay with
  | some source, some replay => (keys.map fun key => tally (fieldDiffers source replay key)).sum
  | _, _ => 0

theorem compareDictFields_yields {src rep : Option Dict} {category : ReplayDiffCategory}
    {pathPrefix : String} {keys : List String} {stepId : Option UUID}
    {severity : ReplayDiffSeverity} (short : ∀ key ∈ keys, key.length ≤ 16)
    (near : pathPrefix.length ≤ 64) :
    Yields (compareDictFields text src rep category pathPrefix keys stepId severity) True
      (fieldDifferences src rep keys) := by
  unfold compareDictFields fieldDifferences
  rcases src with _ | src
  · exact yields_nothing
  rcases rep with _ | rep
  · exact yields_nothing
  · apply yields_all
    intro key member
    have short := short key member
    have title : key.length ≤ 256 := by omega
    have description : ("Field '" ++ key ++ "' differs under " ++ pathPrefix ++ ".").length ≤
      2048 := by
      have named : ("Field '" ++ key ++ "' differs under ").length ≤ 39 :=
        length_suffixed (length_prefixed (k := 23) short rfl) rfl
      have under : ("Field '" ++ key ++ "' differs under " ++ pathPrefix).length ≤ 103 := by
        rw [String.length_append]
        omega
      exact length_suffixed under rfl
    have path : (pathPrefix ++ "." ++ key).length ≤ 256 := by
      have dotted : (pathPrefix ++ ".").length ≤ 65 := length_suffixed near rfl
      rw [String.length_append]
      omega
    exact Labelled.fits_if ⟨title, description, path⟩ shortIn_brief shortIn_brief

theorem length_stepOutputKeys : ∀ key ∈ stepOutputKeysOfInterest, key.length ≤ 16 := by
  simp only [stepOutputKeysOfInterest, List.forall_mem_cons]
  exact ⟨length_literal rfl, length_literal rfl, length_literal rfl, length_literal rfl,
    length_literal rfl, length_literal rfl, fun _ no => absurd no List.not_mem_nil⟩

theorem length_resultKeys : ∀ key ∈ resultKeysOfInterest, key.length ≤ 16 := by
  simp only [resultKeysOfInterest, List.forall_mem_cons]
  exact ⟨length_literal rfl, length_literal rfl, length_literal rfl, length_literal rfl,
    length_literal rfl, length_literal rfl, length_literal rfl, fun _ no => absurd no
      List.not_mem_nil⟩

/-- How the standard library renders `None` and floats. -/
structure Atoms (text : Rendering) : Prop where
  null : text.repr .null = "None"
  float : ∀ q, (text.repr (.float q)).length ≤ 24

theorem Atoms.short (atoms : Atoms text) (score : Option Rat) : Short
    (text.str (.ofOption .float score)) := by
  cases score with
  | none =>
      change (text.repr .null).length ≤ 512
      rw [atoms.null]
      exact length_literal rfl
  | some q => exact Nat.le_trans (atoms.float q) (by omega)

/-- Validation outcomes that differ have to fit a value. -/
def OutcomesFit (repo : RepositoryReads) (ss rs : Step) : Prop :=
  ∀ src rep, repo.getStepResult ss.stepId = some src → repo.getStepResult rs.stepId = some rep →
    outcomeStatus src ≠ outcomeStatus rep → ShortIn (outcomeStatus src) ∧
      ShortIn (outcomeStatus rep)

def resultDifferences (repo : RepositoryReads) (ss rs : Step) : Nat :=
  match repo.getStepResult ss.stepId, repo.getStepResult rs.stepId with
  | none, none => 0
  | some src, some rep =>
      tally (src.completeness ≠ rep.completeness) + tally
        (src.confidenceScore ≠ rep.confidenceScore) +
        tally (outcomeStatus src ≠ outcomeStatus rep) + fieldDifferences src.output rep.output
          stepOutputKeysOfInterest
  | _, _ => 1

theorem compareStepResults_yields {ss rs : Step} {pathPrefix : String} (atoms : Atoms text)
    (near : pathPrefix.length ≤ 26) :
    Yields (compareStepResults text repo ss rs pathPrefix) (OutcomesFit repo ss rs)
    (resultDifferences repo ss rs) := by
  have presence {first second : Bool} :
    Yields (report (ReplayDiffFields.mk .step .warning "step_result_presence"
      "Step result exists on one side only." (some (presence first)) (some (presence second))
        (pathPrefix ++ ".result")
      (some rs.stepId) none).item) True 1 :=
    Labelled.fits ⟨length_literal rfl, length_literal rfl, length_suffixed near rfl⟩
      (shortIn_some.mpr (short_presence _))
      (shortIn_some.mpr (short_presence _))
  unfold compareStepResults resultDifferences OutcomesFit
  cases repo.getStepResult ss.stepId with
  | none =>
      cases repo.getStepResult rs.stepId with
      | none => exact yields_nothing.congr (by simp)
      | some rep => exact presence.congr (by simp)
  | some src =>
      cases repo.getStepResult rs.stepId with
      | none => exact presence.congr (by simp)
      | some rep =>
          dsimp only
          apply Yields.congr
            (((Yields.both (Labelled.fits_if ?completeness (shortIn_map short_completeness _)
            (shortIn_map short_completeness _)) (Labelled.fits_if ?confidence
              (shortIn_some.mpr (atoms.short _))
            (shortIn_some.mpr (atoms.short _)))).append (Labelled.yields_if ?outcomes)).append
            (compareDictFields_yields length_stepOutputKeys ?within))
          case completeness =>
            exact ⟨length_literal rfl, length_literal rfl, length_suffixed near rfl⟩
          case confidence =>
            exact ⟨length_literal rfl, length_literal rfl, length_suffixed near rfl⟩
          case outcomes => exact ⟨length_literal rfl, length_literal rfl, length_suffixed near rfl⟩
          case within => exact length_suffixed near rfl
          simp

/-- The texts of two paired steps that differ have to fit a value. -/
structure StepsFit (repo : RepositoryReads) (ss rs : Step) : Prop where
  stepType : ss.stepType.text ≠ rs.stepType.text → Short ss.stepType.text ∧ Short rs.stepType.text
  agent : ss.agent ≠ rs.agent → Short ss.agent ∧ Short rs.agent
  outcomes : OutcomesFit repo ss rs

def pairDifferences (repo : RepositoryReads) (ss rs : Step) : Nat :=
  tally (ss.stepType.text ≠ rs.stepType.text) + tally (ss.status ≠ rs.status) + tally
    (ss.agent ≠ rs.agent) +
    resultDifferences repo ss rs

theorem comparePairedSteps_yields {idx : Nat} {ss rs : Step} {pathPrefix : String}
    (atoms : Atoms text) (small : idx < 2 ^ 63) (near : pathPrefix.length ≤ 26) :
    Yields (comparePairedSteps text repo idx ss rs pathPrefix) (StepsFit repo ss rs)
    (pairDifferences repo ss rs) := by
  have indexed : ("Step type differs at index " ++ toString idx ++
    " (ordered by created_at).").length ≤ 2048 :=
    length_suffixed (length_prefixed (k := 46) (length_index small) rfl) rfl
  have indexed' : ("Step status differs at index " ++ toString idx ++ ".").length ≤ 2048 :=
    length_suffixed (length_prefixed (k := 48) (length_index small) rfl) rfl
  have indexed'' : ("Step agent binding differs at index " ++ toString idx ++ ".").length ≤ 2048 :=
    length_suffixed (length_prefixed (k := 55) (length_index small) rfl) rfl
  unfold comparePairedSteps pairDifferences
  apply Yields.congr
    (((Yields.append (Labelled.yields_if ?type) (Labelled.fits_if ?status ?first ?second)).append
    (Labelled.yields_if ?agent)).append (compareStepResults_yields atoms near))
  case type => exact ⟨length_literal rfl, indexed, length_suffixed near rfl⟩
  case status => exact ⟨length_literal rfl, indexed', length_suffixed near rfl⟩
  case first => exact shortIn_some.mpr (short_stepStatus _)
  case second => exact shortIn_some.mpr (short_stepStatus _)
  case agent => exact ⟨length_literal rfl, indexed'', length_suffixed near rfl⟩
  simp only [shortIn_some, and_true]
  exact ⟨fun ⟨type, agent, outcomes⟩ => ⟨⟨type, agent⟩, outcomes⟩, fun ⟨⟨type, agent⟩, outcomes⟩ =>
    ⟨type, agent, outcomes⟩⟩

/-- The same of the steps at every position that both executions have. -/
def PairedStepsFit (repo : RepositoryReads) (srcSteps repSteps : List Step) (idx : Nat) : Prop :=
  ∀ ss rs, srcSteps[idx]? = some ss → repSteps[idx]? = some rs → StepsFit repo ss rs

def differencesAt (repo : RepositoryReads) (srcSteps repSteps : List Step) (idx : Nat) : Nat :=
  match srcSteps[idx]?, repSteps[idx]? with
  | none, none => 0
  | some ss, some rs => pairDifferences repo ss rs
  | _, _ => 1

theorem compareStepsAt_yields {srcSteps repSteps : List Step} {idx : Nat} (atoms : Atoms text)
    (small : idx < 2 ^ 63) :
    Yields (compareStepsAt text repo srcSteps repSteps idx)
    (PairedStepsFit repo srcSteps repSteps idx)
      (differencesAt repo srcSteps repSteps idx) := by
  have near : ("steps[" ++ toString idx ++ "]").length ≤ 26 :=
    length_suffixed (length_prefixed (k := 25) (length_index small) rfl) rfl
  have path : ("steps[" ++ toString idx ++ "]").length ≤ 256 := by omega
  unfold compareStepsAt differencesAt PairedStepsFit
  cases srcSteps[idx]? with
  | none =>
      cases repSteps[idx]? with
      | none => exact yields_nothing.congr (by simp)
      | some rs =>
          apply (Labelled.fits ⟨length_literal rfl, length_literal rfl, path⟩ shortIn_none
            shortIn_brief).congr
          simp
  | some ss =>
      cases repSteps[idx]? with
      | none =>
          apply (Labelled.fits ⟨length_literal rfl, length_literal rfl, path⟩ shortIn_brief
            shortIn_none).congr
          simp
      | some rs =>
          apply (comparePairedSteps_yields atoms small near).congr
          simp

def StepTextsFit (repo : RepositoryReads) (source replay : Execution) : Prop :=
  ∀ idx, PairedStepsFit repo (orderedSteps repo source.executionId)
    (orderedSteps repo replay.executionId) idx

def stepDifferences (repo : RepositoryReads) (source replay : Execution) : Nat :=
  let srcSteps := orderedSteps repo source.executionId
  let repSteps := orderedSteps repo replay.executionId
  ((List.range (max srcSteps.length repSteps.length)).map
    (differencesAt repo srcSteps repSteps)).sum

theorem compareSteps_yields (atoms : Atoms text) (own : Sized repo source)
    (other : Sized repo replay) :
    Yields (compareSteps text repo source replay) (StepTextsFit repo source replay)
    (stepDifferences repo source replay) := by
  apply Yields.congr (yields_each ?one)
  case one =>
    intro idx member
    have below := List.mem_range.mp member
    rw [length_orderedSteps, length_orderedSteps] at below
    have := own.steps
    have := other.steps
    exact compareStepsAt_yields atoms (by omega)
  constructor
  · intro fit idx _
    exact fit idx
  · intro fit idx ss rs known known'
    obtain ⟨within, _⟩ := List.getElem?_eq_some_iff.mp known
    exact fit idx (List.mem_range.mpr (by omega)) ss rs known known'

/-- Paths and tasks that differ have to fit a value; the paths are put into a set. -/
structure EventsFit (text : Rendering) (se re : Dict) : Prop where
  path : Differs (se.get "path") (re.get "path") →
    ((se.get "path").Hashable ∧ (re.get "path").Hashable) ∧
    Short (text.str (se.get "path")) ∧ Short (text.str (re.get "path"))
  task : Differs (se.get "task") (re.get "task") → Short (text.str (se.get "task")) ∧
    Short (text.str (re.get "task"))

def eventDifferences (pair : (Dict × Dict) × Nat) : Nat :=
  tally (Differs (pair.1.1.get "path") (pair.1.2.get "path")) + tally (Differs (pair.1.1.get "task")
    (pair.1.2.get "task"))

theorem modelPathItem_yields {idx : Nat} {sp rp : Json} (small : idx < 2 ^ 63) :
    Yields (report (modelPathItem text idx sp rp))
      ((sp.Hashable ∧ rp.Hashable) ∧ Short (text.str sp) ∧ Short (text.str rp)) 1 := by
  have indexed : ("model_reasoning path differs at event index " ++ toString idx ++ ".").length ≤
    2048 :=
    length_suffixed (length_prefixed (k := 63) (length_index small) rfl) rfl
  have path : ("trace_timeline.model_reasoning[" ++ toString idx ++ "].path").length ≤ 256 :=
    length_suffixed (length_prefixed (k := 50) (length_index small) rfl) rfl
  unfold modelPathItem
  split
  · next hashable =>
      apply (Labelled.yields ⟨length_literal rfl, indexed, path⟩).congr
      simp [hashable]
  · next unhashable =>
      constructor
      · rintro ⟨hashable, _⟩
        exact absurd hashable unhashable
      · intro _
        exact ⟨_, rfl⟩

theorem compareModelEvents_yields {idx : Nat} {se re : Dict} (small : idx < 2 ^ 63) :
    Yields (compareModelEvents text idx se re) (EventsFit text se re)
    (eventDifferences ((se, re), idx)) := by
  have indexed : ("model_reasoning task differs at event index " ++ toString idx ++ ".").length ≤
    2048 :=
    length_suffixed (length_prefixed (k := 63) (length_index small) rfl) rfl
  have path : ("trace_timeline.model_reasoning[" ++ toString idx ++ "].task").length ≤ 256 :=
    length_suffixed (length_prefixed (k := 50) (length_index small) rfl) rfl
  apply Yields.congr (Yields.append (Yields.when fun _ => modelPathItem_yields small)
    (Labelled.yields_if ⟨length_literal rfl, indexed, path⟩))
  simp only [shortIn_some]
  exact ⟨fun ⟨path, task⟩ => ⟨path, task⟩, fun ⟨path, task⟩ => ⟨path, task⟩⟩

def EventTextsFit (text : Rendering) (source replay : Execution) : Prop :=
  ∀ pair ∈ (modelReasoningEvents source).zip (modelReasoningEvents replay), EventsFit
    text pair.1 pair.2

def modelDifferences (source replay : Execution) : Nat :=
  let srcEvents := modelReasoningEvents source
  let repEvents := modelReasoningEvents replay
  tally (srcEvents.length ≠ repEvents.length) + ((srcEvents.zip repEvents).zipIdx.map
    eventDifferences).sum

/-- A loop with an index says something of each element. -/
theorem forall_zipIdx {α : Type} {P : α → Prop} {xs : List α} : (∀ pair ∈ xs.zipIdx, P pair.1) ↔
    ∀ x ∈ xs, P x := by
  constructor
  · intro all x member
    obtain ⟨idx, below, rfl⟩ := List.mem_iff_getElem.mp member
    exact all (xs[idx], idx) (List.mk_mem_zipIdx_iff_getElem?.mpr (List.getElem?_eq_getElem below))
  · intro all pair member
    exact all pair.1 (List.fst_mem_of_mem_zipIdx member)

theorem compareModelReasoning_yields (own : Sized repo source) (other : Sized repo replay) :
    Yields (compareModelReasoning text source replay) (EventTextsFit text source replay)
      (modelDifferences source replay) := by
  apply Yields.congr (Yields.append (Labelled.fits_if (fixed_labels rfl rfl rfl)
    (shortIn_some.mpr (short_index own.events)) (shortIn_some.mpr (short_index other.events)))
      (yields_each ?one))
  case one =>
    intro pair member
    exact compareModelEvents_yields (index_of_zip member own.events)
  rw [true_and]
  exact (forall_zipIdx (P := fun pair : Dict × Dict => EventsFit text pair.1 pair.2)).symm

/-- A tool name that differs has to fit a value. -/
def ToolNamesFit (sc rc : ToolCall) : Prop := sc.toolName ≠ rc.toolName → Short sc.toolName ∧
    Short rc.toolName

def callDifferences (pair : (ToolCall × ToolCall) × Nat) : Nat :=
  tally (pair.1.1.toolName ≠ pair.1.2.toolName) + tally (pair.1.1.status ≠ pair.1.2.status) +
    tally (pair.1.1.sideEffectClass ≠ pair.1.2.sideEffectClass) + tally
      (pair.1.1.idempotency ≠ pair.1.2.idempotency)

theorem comparePairedCalls_yields {idx : Nat} {sc rc : ToolCall} (small : idx < 2 ^ 63) :
    Yields (comparePairedCalls idx sc rc) (ToolNamesFit sc rc)
    (callDifferences ((sc, rc), idx)) := by
  have near : ("tool_calls[" ++ toString idx ++ "]").length ≤ 31 :=
    length_suffixed (length_prefixed (k := 30) (length_index small) rfl) rfl
  have named : ("Tool name differs at index " ++ toString idx ++ ".").length ≤ 2048 :=
    length_suffixed (length_prefixed (k := 46) (length_index small) rfl) rfl
  have status : ("Tool call status differs at index " ++ toString idx ++ ".").length ≤ 2048 :=
    length_suffixed (length_prefixed (k := 53) (length_index small) rfl) rfl
  apply Yields.congr (((Yields.append
    (Labelled.yields_if ⟨length_literal rfl, named, length_suffixed near rfl⟩)
    (Labelled.fits_if ⟨length_literal rfl, status, length_suffixed near rfl⟩
      (shortIn_some.mpr (short_toolCallStatus _))
        (shortIn_some.mpr (short_toolCallStatus _)))).append
    (Labelled.fits_if ⟨length_literal rfl, length_literal rfl, length_suffixed near rfl⟩
      (shortIn_some.mpr (short_sideEffectClass _))
        (shortIn_some.mpr (short_sideEffectClass _)))).append
    (Labelled.fits_if ⟨length_literal rfl, length_literal rfl, length_suffixed near rfl⟩
      (shortIn_some.mpr (short_idempotency _)) (shortIn_some.mpr (short_idempotency _))))
  simp only [shortIn_some, and_true]
  exact Iff.rfl

def ToolCallTextsFit (repo : RepositoryReads) (source replay : Execution) : Prop :=
  ∀ pair ∈ (allToolCalls repo source.executionId).zip (allToolCalls repo replay.executionId),
    ToolNamesFit pair.1 pair.2

def toolCallDifferences (repo : RepositoryReads) (source replay : Execution) : Nat :=
  let srcCalls := allToolCalls repo source.executionId
  let repCalls := allToolCalls repo replay.executionId
  tally (srcCalls.length ≠ repCalls.length) + ((srcCalls.zip repCalls).zipIdx.map
    callDifferences).sum

theorem compareToolCalls_yields (own : Sized repo source) (other : Sized repo replay) :
    Yields (compareToolCalls repo source replay) (ToolCallTextsFit repo source replay)
      (toolCallDifferences repo source replay) := by
  apply Yields.congr (Yields.append (Labelled.fits_if (fixed_labels rfl rfl rfl)
    (shortIn_some.mpr (short_index own.calls)) (shortIn_some.mpr (short_index other.calls)))
      (yields_each ?one))
  case one =>
    intro pair member
    exact comparePairedCalls_yields (index_of_zip member own.calls)
  rw [true_and]
  exact (forall_zipIdx (P := fun pair : ToolCall × ToolCall => ToolNamesFit pair.1 pair.2)).symm

def evaluationDifferences (pair : (PolicyEvaluation × PolicyEvaluation) × Nat) : Nat :=
  if pair.1.1.decision ≠ pair.1.2.decision then 1 else tally (pair.1.1.reason ≠ pair.1.2.reason)

theorem comparePairedEvaluations_yields {idx : Nat} {se re : PolicyEvaluation}
    (small : idx < 2 ^ 63) :
    Yields (comparePairedEvaluations text idx se re) True
      (evaluationDifferences ((se, re), idx)) := by
  have near : ("policy_evaluations[" ++ toString idx ++ "]").length ≤ 39 :=
    length_suffixed (length_prefixed (k := 38) (length_index small) rfl) rfl
  have decided : ("Policy decision differs at evaluation index " ++ toString idx ++ ".").length ≤
    2048 :=
    length_suffixed (length_prefixed (k := 63) (length_index small) rfl) rfl
  have reasoned : ("Policy reason text differs at evaluation index " ++ toString idx ++
    ".").length ≤ 2048 :=
    length_suffixed (length_prefixed (k := 66) (length_index small) rfl) rfl
  unfold comparePairedEvaluations evaluationDifferences
  by_cases differ : se.decision ≠ re.decision
  · rw [if_pos differ, if_pos differ]
    exact Labelled.fits ⟨length_literal rfl, decided, length_suffixed near rfl⟩
      (shortIn_some.mpr (short_policyDecision _)) (shortIn_some.mpr (short_policyDecision _))
  · rw [if_neg differ, if_neg differ]
    exact Labelled.fits_if ⟨length_literal rfl, reasoned, length_suffixed near rfl⟩
      shortIn_brief_reason
      shortIn_brief_reason

def policyDifferences (repo : RepositoryReads) (source replay : Execution) : Nat :=
  let srcEvals := repo.listPolicyEvaluationsForExecution source.executionId
  let repEvals := repo.listPolicyEvaluationsForExecution replay.executionId
  let srcProps := repo.listActionProposalsForExecution source.executionId
  let repProps := repo.listActionProposalsForExecution replay.executionId
  if srcEvals = [] ∧ repEvals = [] then 0
  else tally (srcEvals.length ≠ repEvals.length) + ((srcEvals.zip repEvals).zipIdx.map
    evaluationDifferences).sum +
    tally (srcProps.length ≠ repProps.length)

theorem comparePolicy_yields (own : Sized repo source) (other : Sized repo replay) :
    Yields (comparePolicy text repo source replay) True (policyDifferences repo source replay) := by
  unfold comparePolicy policyDifferences
  dsimp only
  split
  · exact yields_nothing
  apply Yields.both (Yields.both ?count (yields_all ?each)) ?proposals
  case count =>
    exact (fixed_labels rfl rfl rfl).fits_if (shortIn_some.mpr (short_index own.evaluations))
      (shortIn_some.mpr (short_index other.evaluations))
  case each =>
    intro pair member
    exact comparePairedEvaluations_yields (index_of_zip member own.evaluations)
  case proposals =>
    exact (fixed_labels rfl rfl rfl).fits_if (shortIn_some.mpr (short_index own.proposals))
      (shortIn_some.mpr (short_index other.proposals))

def approvalDifferences (repo : RepositoryReads) (source replay : Execution) : Nat :=
  let srcAp := repo.listApprovalsForExecution source.executionId
  let repAp := repo.listApprovalsForExecution replay.executionId
  tally (srcAp.length ≠ repAp.length) +
    ((srcAp.zip repAp).zipIdx.map fun pair => tally (pair.1.1.decision ≠ pair.1.2.decision)).sum

theorem comparePairedApprovals_yields {idx : Nat} {sa ra : Approval} (small : idx < 2 ^ 63) :
    Yields (comparePairedApprovals idx sa ra) True (tally (sa.decision ≠ ra.decision)) := by
  have indexed : ("Approval decision differs at index " ++ toString idx ++ ".").length ≤ 2048 :=
    length_suffixed (length_prefixed (k := 54) (length_index small) rfl) rfl
  have path : ("approvals[" ++ toString idx ++ "].decision").length ≤ 256 :=
    length_suffixed (length_prefixed (k := 29) (length_index small) rfl) rfl
  exact Labelled.fits_if ⟨length_literal rfl, indexed, path⟩
    (shortIn_some.mpr (short_approvalDecision _))
    (shortIn_some.mpr (short_approvalDecision _))

theorem compareApprovals_yields (own : Sized repo source) (other : Sized repo replay) :
    Yields (compareApprovals repo source replay) True (approvalDifferences repo source replay) := by
  apply Yields.both ?count (yields_all ?each)
  case count =>
    exact (fixed_labels rfl rfl rfl).fits_if (shortIn_some.mpr (short_index own.approvals))
      (shortIn_some.mpr (short_index other.approvals))
  case each =>
    intro pair member
    exact comparePairedApprovals_yields (index_of_zip member own.approvals)

def validationDifferences (source replay : Execution) : Nat :=
  tally (Differs (.ofOption .obj source.validationSummary)
    (.ofOption .obj replay.validationSummary))

theorem compareValidation_yields :
    Yields (compareValidation text source replay) True (validationDifferences source replay) :=
  Labelled.fits_if (fixed_labels rfl rfl rfl) shortIn_brief shortIn_brief

def topLevelDifferences (source replay : Execution) : Nat :=
  match source.result, replay.result with
  | none, none => 0
  | some src, some rep => fieldDifferences (some src) (some rep) resultKeysOfInterest
  | _, _ => 1

theorem compareResult_yields : Yields (compareResult text source replay) True
    (topLevelDifferences source replay) := by
  have presence {first second : Bool} :
    Yields (report (ReplayDiffFields.mk .result .warning "result_presence"
      "Top-level execution result present on one side only." (some (presence first))
        (some (presence second))
      "execution.result" none none).item) True 1 :=
    Labelled.fits (fixed_labels rfl rfl rfl) (shortIn_some.mpr (short_presence _))
      (shortIn_some.mpr (short_presence _))
  unfold compareResult topLevelDifferences
  cases source.result with
  | none =>
      cases replay.result with
      | none => exact yields_nothing
      | some rep => exact presence
  | some src =>
      cases replay.result with
      | none => exact presence
      | some rep => exact compareDictFields_yields length_resultKeys (length_literal rfl)

/-- The texts of the data that are put into an item without being cut. -/
structure TextsFit (text : Rendering) (repo : RepositoryReads)
    (source replay : Execution) : Prop where
  workflowTypes : WorkflowTypesFit source replay
  inputKeys : InputKeysFit source replay
  steps : StepTextsFit repo source replay
  events : EventTextsFit text source replay
  toolCalls : ToolCallTextsFit repo source replay

/-- The number of compared places at which the executions differ. -/
def differences (repo : RepositoryReads) (source replay : Execution)
    (prov : Option ReplayProvenance) : Nat :=
  lineageDifferences prov + headerDifferences source replay + inputDifferences source replay +
    planDifferences repo source replay + stepDifferences repo source replay + modelDifferences
      source replay +
    toolCallDifferences repo source replay + policyDifferences repo source replay +
    approvalDifferences repo source replay + validationDifferences source replay +
      topLevelDifferences source replay

theorem compareItems_yields (atoms : Atoms text) (own : Sized repo source)
    (other : Sized repo replay) :
    Yields (compareItems text repo source replay linked prov) (TextsFit text repo source replay)
      (differences repo source replay prov) := by
  have lineage : Yields (compareLineage text source replay linked prov) _ _ :=
    compareLineage_yields own other
  have header : Yields (compareExecutionHeader source replay) _ _ := compareExecutionHeader_yields
  have input : Yields (compareInput text source replay prov) _ _ := compareInput_yields
  have steps := compareSteps_yields atoms own other
  have events : Yields (compareModelReasoning text source replay) _ _ :=
    compareModelReasoning_yields own other
  have policy : Yields (comparePolicy text repo source replay) _ _ := comparePolicy_yields own other
  have validation : Yields (compareValidation text source replay) _ _ := compareValidation_yields
  have result : Yields (compareResult text source replay) _ _ := compareResult_yields
  have whole :=
    (((((((((lineage.append header).append input).append (comparePlan_yields own other)).append
    steps).append events).append (compareToolCalls_yields own other)).append policy).append
    (compareApprovals_yields own other)).append validation).append result
  apply whole.congr
  simp only [and_true, true_and]
  constructor
  · rintro ⟨workflowTypes, inputKeys, steps, events, toolCalls⟩
    exact ⟨⟨⟨⟨workflowTypes, inputKeys⟩, steps⟩, events⟩, toolCalls⟩
  · rintro ⟨⟨⟨⟨workflowTypes, inputKeys⟩, steps⟩, events⟩, toolCalls⟩
    exact ⟨workflowTypes, inputKeys, steps, events, toolCalls⟩

/-- Without a writer in between, the second reading finds what the first found. -/
theorem unchanged_self (known : repo.getExecution source.executionId = some source)
    (known' : repo.getExecution replay.executionId = some replay) :
    unchanged repo source.executionId replay.executionId source replay = .ok () := by
  simp [unchanged, known, known']

theorem compare_eq {modelValidate : Dict → Option ReplayProvenance}
    (known : repo.getExecution source.executionId = some source)
    (known' : repo.getExecution replay.executionId = some replay) :
    compare text modelValidate repo repo source.executionId replay.executionId =
      (compareItems text repo source replay (isLinked modelValidate source replay)
        (provenance modelValidate replay)).bind
        (replayDiffSummary source replay ((provenance modelValidate replay).map
          ReplayProvenance.replayMode)
          (isLinked modelValidate source replay)) := by
  simp only [compare, known, known', unchanged_self known known']
  cases compareItems text repo source replay (isLinked modelValidate source replay)
    (provenance modelValidate replay) with
  | error e => rfl
  | ok items =>
      simp only [Except.bind, bind]
      cases replayDiffSummary source replay ((provenance modelValidate replay).map
        ReplayProvenance.replayMode)
        (isLinked modelValidate source replay) items with
      | error e => rfl
      | ok summary => rfl

/-- The comparison of two stored executions gives a summary with every difference exactly when the
uncut texts fit and there are at most 500 differences. -/
theorem compare_total_iff (text : Rendering) (atoms : Atoms text)
    (modelValidate : Dict → Option ReplayProvenance) (repo : RepositoryReads)
    (source replay : Execution) (known : repo.getExecution source.executionId = some source)
    (known' : repo.getExecution replay.executionId = some replay) (own : Sized repo source)
    (other : Sized repo replay) :
    (∃ summary, compare text modelValidate repo repo source.executionId replay.executionId =
      .ok summary ∧
      summary.items.length = differences repo source replay (provenance modelValidate replay) ∧
      summary.totalDifferences = differences repo source replay (provenance modelValidate replay)) ↔
    TextsFit text repo source replay ∧ differences repo source replay
      (provenance modelValidate replay) ≤ 500 := by
  have yields : Yields (compareItems text repo source replay (isLinked modelValidate source replay)
    (provenance modelValidate replay)) _ _ := compareItems_yields atoms own other
  rw [compare_eq known known']
  by_cases fit : TextsFit text repo source replay
  · obtain ⟨items, collected, count⟩ := yields.found fit
    simp only [collected, Except.bind, replayDiffSummary, ← count, fit, true_and]
    constructor
    · rintro ⟨summary, made, _⟩
      by_contra many
      rw [dif_neg many] at made
      cases made
    · intro few
      rw [dif_pos few]
      exact ⟨_, rfl, rfl, rfl⟩
  · obtain ⟨e, failed⟩ := yields.failed fit
    simp [failed, Except.bind, fit]

end

def unreplayed : Execution := executionOf genericRequest ⟨1⟩ ⟨0⟩ 0

def replayedRow (key : String) : Execution :=
  { executionOf genericRequest ⟨2⟩ ⟨0⟩ 0 with parentExecutionId := some ⟨1⟩, input :=
    [(key, .int 1)] }

/-- An execution without input, and a replay of it with one input field. -/
def replayedWith (key : String) : RepositoryReads :=
  { Repository.empty with
    executions := (Store.Table.empty.put unreplayed).put (replayedRow key) : Repository }.reads

theorem flat_atoms : Atoms Rendering.flat := ⟨rfl, fun _ => length_literal (p := []) rfl⟩

theorem replayedWith_sized (key : String) :
    Sized (replayedWith key) unreplayed ∧ Sized (replayedWith key) (replayedRow key) := by
  have lists : ∀ n ∈ [0, 0, 0, 0, 0, 0], n < 2 ^ 63 := by decide
  have parent : ∀ u ∈ some (⟨1⟩ : UUID), u.n < 2 ^ 128 := by decide
  have absent : ∀ u ∈ (none : Option UUID), u.n < 2 ^ 128 := by decide
  exact ⟨⟨(by decide : 1 < 2 ^ 128), absent, absent, lists⟩, ⟨(by decide : 2 < 2 ^ 128), parent,
    absent, lists⟩⟩

/-- A key of one letter fits. -/
theorem compare_total_short : ∃ summary, compare Rendering.flat (fun _ => none) (replayedWith "k")
    (replayedWith "k")
      unreplayed.executionId (replayedRow "k").executionId = .ok summary ∧
    summary.items.length = differences (replayedWith "k") unreplayed (replayedRow "k") none ∧
    summary.totalDifferences = differences (replayedWith "k") unreplayed
      (replayedRow "k") none := by
  have keys : InputKeysFit unreplayed (replayedRow "k") := by
    intro key differs
    have listed : key ∈ ["k"] := mem_inputKeys differs
    rw [List.mem_singleton.mp listed]
    exact length_literal rfl
  have steps : StepTextsFit (replayedWith "k") unreplayed (replayedRow "k") := by
    intro idx ss rs known
    cases known
  have fit : TextsFit Rendering.flat (replayedWith "k") unreplayed (replayedRow "k") :=
    ⟨fun differs => absurd rfl differs, keys, steps, fun _ no => absurd no List.not_mem_nil,
      fun _ no => absurd no List.not_mem_nil⟩
  exact (compare_total_iff Rendering.flat flat_atoms (fun _ => none) (replayedWith "k") unreplayed
    (replayedRow "k")
    rfl rfl (replayedWith_sized "k").1 (replayedWith_sized "k").2).mpr ⟨fit, by decide⟩

/-- A long key does not fit the path of its item. -/
theorem compare_fails_of_long {key : String} (long : 250 < key.length) :
    ∃ e, compare Rendering.flat (fun _ => none) (replayedWith key) (replayedWith key) ⟨1⟩
      ⟨2⟩ = .error e := by
  have unreserved : key ≠ replayProvenanceInputKey := by
    rintro rfl
    have short : replayProvenanceInputKey.length ≤ 250 := length_literal rfl
    omega
  have field : (businessInput (replayedRow key)).get key = .int 1 := by
    have kept : (Dict.pop [(key, .int 1)] replayProvenanceInputKey).get? key = some (.int 1) := by
      rw [Dict.get?_pop, if_neg fun same => unreserved same.symm, Dict.get?_cons, if_pos rfl]
    exact congrArg (Option.getD · Json.null) kept
  have unfit : ¬TextsFit Rendering.flat (replayedWith key) unreplayed (replayedRow key) := by
    intro fit
    have differs : inputDiffers unreplayed (replayedRow key) key := by
      rw [inputDiffers, field]
      exact ⟨nofun, rfl⟩
    have := fit.inputKeys key differs
    omega
  obtain ⟨own, other⟩ := replayedWith_sized key
  obtain ⟨e, failed⟩ := (compareItems_yields flat_atoms own other).failed unfit
  have compared := @compare_eq Rendering.flat (replayedWith key) unreplayed (replayedRow key)
    (fun _ => none) rfl rfl
  exact ⟨e, by rw [failed] at compared; exact compared⟩

/-- A key of 251 characters is too long. -/
theorem compare_long_key : ∃ e, compare Rendering.flat (fun _ => none)
    (replayedWith (String.ofList (List.replicate 251 'k')))
    (replayedWith (String.ofList (List.replicate 251 'k')))
    ⟨1⟩ ⟨2⟩ = .error e := by
  apply compare_fails_of_long
  rw [String.length_ofList, List.length_replicate]
  omega

end ReplayDiffService
end AgenticPlatform
