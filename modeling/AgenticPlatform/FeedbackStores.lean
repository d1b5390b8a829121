import AgenticPlatform.Insights
import AgenticPlatform.Interaction.Raising
import AgenticPlatform.Persistence
import AgenticPlatform.Store.Image
import Mathlib.Data.List.Induction

/-! The two feedback repositories: dictionaries of records, and tables that are written by upserts
through the mapping between records and rows. -/
namespace AgenticPlatform
open Interaction Store

def FeedbackSource.value : FeedbackSource → String
  | operatorConsole => "operator_console"
  | integration => "integration"
  | api => "api"

instance : StrEnum FeedbackSource where
  name := "FeedbackSource"
  members := [.operatorConsole, .integration, .api]
  value := FeedbackSource.value
  complete := by intro member; cases member <;> decide
  distinct := by decide

structure OperatorFeedbackRow where
  feedbackRecordId : UUID
  executionId : UUID
  source : String
  labels : List Json
  detail : Dict
  sourceScope : Option Dict
  createdAt : Time
  updatedAt : Option Time

/-- There is no column for the time of an update. -/
structure ExecutionFeedbackRow where
  feedbackId : UUID
  executionId : UUID
  sourceScope : Option Dict
  failureTypes : List Json
  patternsDetected : List Json
  improvementSuggestions : List Json
  advisoryConfidence : Option Rat
  createdAt : Time

instance : Keyed UUID OperatorFeedbackRow := ⟨OperatorFeedbackRow.feedbackRecordId⟩
instance : Keyed UUID ExecutionFeedbackRow := ⟨ExecutionFeedbackRow.feedbackId⟩

/-- An item of a `list[str]`. -/
def checkStr : Json → Except Exn String
  | .str s => .ok s
  | _ => .error ⟨.validationError, "Input should be a valid string"⟩

@[simp] theorem checkStr_str (s : String) : checkStr (.str s) = .ok s := rfl

/-- A field of type `str | None`. -/
def checkOptionalStr : Json → Except Exn (Option String)
  | .null => .ok none
  | .str s => .ok (some s)
  | _ => .error ⟨.validationError, "Input should be a valid string"⟩

/-- A field of type `dict[str, Any]`. -/
def checkDict : Json → Except Exn Dict
  | .obj d => .ok d
  | _ => .error ⟨.validationError, "Input should be a valid dictionary"⟩

/-- `extra="forbid"`. -/
def checkNoExtra (fields : List String) (raw : Dict) : Except Exn Unit :=
  if ∀ key ∈ raw.keys, key ∈ fields then .ok ()
    else .error ⟨.validationError, "Extra inputs are not permitted"⟩

def PatternDetection.modelDump (p : PatternDetection) : Dict :=
  [("pattern_type", .str p.patternType), ("description", Json.ofOption .str p.description),
    ("evidence", .obj p.evidence)]

def PatternDetection.modelValidate (v : Json) : Except Exn PatternDetection := do
  let raw ← checkDict v
  let patternType ← checkStr (raw.get "pattern_type")
  let description ← checkOptionalStr (raw.get "description")
  let evidence ← checkDict (raw.getOr "evidence" (.obj []))
  checkNoExtra ["pattern_type", "description", "evidence"] raw
  pure ⟨patternType, description, evidence⟩

def ImprovementSuggestion.modelDump (s : ImprovementSuggestion) : Dict :=
  [("category", .str s.category), ("summary", .str s.summary), ("detail", .obj s.detail)]

def ImprovementSuggestion.modelValidate (v : Json) : Except Exn ImprovementSuggestion := do
  let raw ← checkDict v
  let category ← checkStr (raw.get "category")
  let summary ← checkStr (raw.get "summary")
  let detail ← checkDict (raw.getOr "detail" (.obj []))
  checkNoExtra ["category", "summary", "detail"] raw
  pure ⟨category, summary, detail⟩

@[simp] theorem PatternDetection.modelValidate_modelDump (p : PatternDetection) : modelValidate
    (.obj p.modelDump) = .ok p := by
  obtain ⟨patternType, description, evidence⟩ := p
  cases description with
  | none => rfl
  | some text => rfl

@[simp] theorem ImprovementSuggestion.modelValidate_modelDump (s : ImprovementSuggestion) :
    modelValidate (.obj s.modelDump) = .ok s := rfl

/-- Items that are read back one by one. -/
theorem mapM_map_ok {α β ε : Type} {dump : α → β} {read : β → Except ε α}
    (back : ∀ a, read (dump a) = .ok a) {xs : List α} :
    (xs.map dump).mapM read = .ok xs :=
  mapM_ok_iff.mpr (List.forall₂_map_left_iff.mpr (List.forall₂_same.mpr fun a _ => back a))

def opToRow (r : OperatorFeedback) : OperatorFeedbackRow where
  feedbackRecordId := r.feedbackRecordId
  executionId := r.executionId
  source := StrEnum.value r.source
  labels := r.labels.map .str
  detail := r.detail
  sourceScope := r.sourceScope
  createdAt := r.createdAt
  updatedAt := r.updatedAt

def rowToOp (row : OperatorFeedbackRow) : Except Exn OperatorFeedback := do
  let source ← ofValue row.source
  let labels ← (orEmpty row.labels).mapM checkStr
  pure
    { feedbackRecordId := row.feedbackRecordId
      executionId := row.executionId
      source := source
      labels := labels
      detail := orEmpty row.detail
      sourceScope := row.sourceScope
      createdAt := row.createdAt
      updatedAt := row.updatedAt }

def efToRow (r : ExecutionFeedback) : ExecutionFeedbackRow where
  feedbackId := r.feedbackId
  executionId := r.executionId
  sourceScope := r.sourceScope
  failureTypes := r.failureTypes.map .str
  patternsDetected := r.patternsDetected.map fun p => .obj p.modelDump
  improvementSuggestions := r.improvementSuggestions.map fun s => .obj s.modelDump
  advisoryConfidence := r.advisoryConfidence
  createdAt := r.createdAt

def rowToEf (row : ExecutionFeedbackRow) : Except Exn ExecutionFeedback := do
  let pats ← (orEmpty row.patternsDetected).mapM PatternDetection.modelValidate
  let sugs ← (orEmpty row.improvementSuggestions).mapM ImprovementSuggestion.modelValidate
  let failureTypes ← (orEmpty row.failureTypes).mapM checkStr
  let advisoryConfidence ← optionally checkUnit row.advisoryConfidence
  pure
    { feedbackId := row.feedbackId
      executionId := row.executionId
      sourceScope := row.sourceScope
      failureTypes := failureTypes
      patternsDetected := pats
      improvementSuggestions := sugs
      advisoryConfidence := advisoryConfidence.map Subtype.val
      createdAt := row.createdAt
      updatedAt := none }

theorem key_opToRow (r : OperatorFeedback) : (key (opToRow r) : UUID) = key r := rfl

theorem key_efToRow (r : ExecutionFeedback) : (key (efToRow r) : UUID) = key r := rfl

/-- The confidence is between zero and one. -/
def ExecutionFeedback.Valid (r : ExecutionFeedback) : Prop :=
  ∀ q ∈ r.advisoryConfidence, 0 ≤ q ∧ q ≤ 1

theorem rowToOp_opToRow (r : OperatorFeedback) : rowToOp (opToRow r) = .ok r := by
  have labels : (r.labels.map Json.str).mapM checkStr = .ok r.labels := mapM_map_ok checkStr_str
  simp only [rowToOp, opToRow, ofValue_value, orEmpty_eq, labels]
  rfl

/-- Everything comes back but the time of the update. -/
theorem rowToEf_efToRow (r : ExecutionFeedback) (valid : r.Valid) : rowToEf (efToRow r) = .ok
    { r with updatedAt := none } := by
  have pats : (r.patternsDetected.map fun p => Json.obj p.modelDump).mapM
    PatternDetection.modelValidate = .ok r.patternsDetected :=
    mapM_map_ok PatternDetection.modelValidate_modelDump
  have sugs : (r.improvementSuggestions.map fun s => Json.obj s.modelDump).mapM
    ImprovementSuggestion.modelValidate =
      .ok r.improvementSuggestions := mapM_map_ok ImprovementSuggestion.modelValidate_modelDump
  have failureTypes : (r.failureTypes.map Json.str).mapM checkStr = .ok r.failureTypes :=
    mapM_map_ok checkStr_str
  obtain ⟨confidence, restored, same⟩ : ∃ confidence, optionally checkUnit r.advisoryConfidence =
    .ok confidence ∧
      confidence.map Subtype.val = r.advisoryConfidence := by
    cases kept : r.advisoryConfidence with
    | none => exact ⟨none, rfl, rfl⟩
    | some q =>
        have unit : checkUnit q = .ok ⟨q, valid q kept⟩ := dif_pos (valid q kept)
        exact ⟨some ⟨q, valid q kept⟩, by rw [optionally, unit]; rfl, rfl⟩
  simp only [rowToEf, efToRow, orEmpty_eq, pats, sugs, failureTypes, restored]
  rw [← same]
  rfl

theorem rowToEf_eq_iff (r : ExecutionFeedback) (valid : r.Valid) : rowToEf (efToRow r) = .ok r ↔
    r.updatedAt = none := by
  rw [rowToEf_efToRow r valid, Except.ok.injEq]
  obtain ⟨_, _, _, _, _, _, _, _, updatedAt⟩ := r
  simp [eq_comm]

inductive FeedbackSave where
  | operator (record : OperatorFeedback)
  | execution (record : ExecutionFeedback)

/-- The record passes the checks of its schema. -/
def FeedbackSave.Valid : FeedbackSave → Prop
  | operator _ => True
  | execution record => record.Valid

def FeedbackSave.executionId : FeedbackSave → UUID
  | operator record => record.executionId
  | execution record => record.executionId

/-- One of the executions that are asked for, where some are. -/
def allowed (executionIds : Option (List UUID)) (executionId : UUID) : Bool :=
  match executionIds with
  | some ids => executionId ∈ ids
  | none => true

structure InMemoryFeedbackRepository where
  operator : Table UUID OperatorFeedback
  mukti : Table UUID ExecutionFeedback

namespace InMemoryFeedbackRepository

def new : InMemoryFeedbackRepository := ⟨.empty, .empty⟩

def save (repo : InMemoryFeedbackRepository) : FeedbackSave → InMemoryFeedbackRepository
  | .operator record => { repo with operator := repo.operator.put record }
  | .execution record => { repo with mukti := repo.mukti.put record }

variable (repo : InMemoryFeedbackRepository)

def getOperatorFeedback (id : UUID) : Option OperatorFeedback := repo.operator.get id

def getExecutionFeedback (id : UUID) : Option ExecutionFeedback := repo.mukti.get id

def listOperatorFeedbackForExecution (executionId : UUID) : List OperatorFeedback :=
  repo.operator.sortedBy (fun r => r.executionId = executionId) OperatorFeedback.createdAt

def listExecutionFeedbackForExecution (executionId : UUID) : List ExecutionFeedback :=
  repo.mukti.sortedBy (fun r => r.executionId = executionId) ExecutionFeedback.createdAt

def listExecutionFeedback (limit : Int) (executionIds : Option (List UUID)) :
    List ExecutionFeedback :=
  (newestFirst ExecutionFeedback.createdAt (repo.mukti.rows.filter fun r => allowed executionIds
    r.executionId)).take
    (max 1 limit).toNat

end InMemoryFeedbackRepository

/-- The tables, and the executions that the foreign keys refer to. -/
structure PostgresFeedbackRepository where
  executions : UUID → Bool
  operator : Table UUID OperatorFeedbackRow
  mukti : Table UUID ExecutionFeedbackRow

namespace PostgresFeedbackRepository

def new (executions : UUID → Bool) : PostgresFeedbackRepository := ⟨executions, .empty, .empty⟩

def integrityError : Exn :=
  ⟨.other "IntegrityError", "insert or update violates foreign key constraint"⟩

/-- `INSERT … ON CONFLICT DO UPDATE`, which sets every other column. -/
def save (repo : PostgresFeedbackRepository) : FeedbackSave → Except Exn PostgresFeedbackRepository
  | .operator record =>
      if repo.executions record.executionId then
        .ok { repo with operator := repo.operator.put (opToRow record) }
      else .error integrityError
  | .execution record =>
      if repo.executions record.executionId then
        .ok { repo with mukti := repo.mukti.put (efToRow record) }
      else .error integrityError

variable (repo : PostgresFeedbackRepository)

def getOperatorFeedback (id : UUID) : Except Exn (Option OperatorFeedback) :=
  match repo.operator.get id with
  | some row => (rowToOp row).map some
  | none => .ok none

def getExecutionFeedback (id : UUID) : Except Exn (Option ExecutionFeedback) :=
  match repo.mukti.get id with
  | some row => (rowToEf row).map some
  | none => .ok none

/-- `list_operator_feedback_for_execution` may answer so: the database is free in the order of equal
times. -/
def ListsOperatorFeedbackForExecution (executionId : UUID)
    (answer : Except Exn (List OperatorFeedback)) : Prop :=
  ∃ rows, Arranged (fun a b => a.createdAt ≤ b.createdAt) (repo.operator.rows.filter fun r =>
    r.executionId = executionId) rows ∧
    answer = rows.mapM rowToOp

def ListsExecutionFeedbackForExecution (executionId : UUID)
    (answer : Except Exn (List ExecutionFeedback)) : Prop :=
  ∃ rows, Arranged (fun a b => a.createdAt ≤ b.createdAt)
    (repo.mukti.rows.filter fun r => r.executionId = executionId) rows ∧
    answer = rows.mapM rowToEf

def ListsExecutionFeedback (limit : Int) (executionIds : Option (List UUID))
    (answer : Except Exn (List ExecutionFeedback)) : Prop :=
  ∃ rows, Arranged (fun a b => b.createdAt ≤ a.createdAt) (repo.mukti.rows.filter fun r => allowed
    executionIds r.executionId) rows ∧
    answer = (rows.take (max 1 limit).toNat).mapM rowToEf

end PostgresFeedbackRepository

/-- Every read of the tables gives the records that the dictionaries give, up to the order of equal
times. -/
structure Remembers (memory : InMemoryFeedbackRepository) (repo : PostgresFeedbackRepository) :
    Prop where
  operator : ∀ id, repo.getOperatorFeedback id = .ok (memory.getOperatorFeedback id)
  execution : ∀ id, repo.getExecutionFeedback id = .ok (memory.getExecutionFeedback id)
  operatorListed : ∀ executionId answer, repo.ListsOperatorFeedbackForExecution executionId answer →
    ∃ records, answer = .ok records ∧
    UpToTies (fun a b => a.createdAt ≤ b.createdAt) (memory.operator.rows.filter fun r =>
      r.executionId = executionId) none
      (memory.listOperatorFeedbackForExecution executionId) records
  executionListed : ∀ executionId answer, repo.ListsExecutionFeedbackForExecution executionId
    answer → ∃ records, answer = .ok records ∧
    UpToTies (fun a b => a.createdAt ≤ b.createdAt) (memory.mukti.rows.filter fun r =>
      r.executionId = executionId) none
      (memory.listExecutionFeedbackForExecution executionId) records
  listed : ∀ limit executionIds answer, repo.ListsExecutionFeedback limit executionIds answer →
    ∃ records, answer = .ok records ∧
    UpToTies (fun a b => b.createdAt ≤ a.createdAt) (memory.mukti.rows.filter fun r => allowed
      executionIds r.executionId)
      (some (max 1 limit).toNat) (memory.listExecutionFeedback limit executionIds) records

/-- The tables that hold the rows of the records. -/
def mirror (executions : UUID → Bool) (memory : InMemoryFeedbackRepository) :
    PostgresFeedbackRepository where
  executions := executions
  operator := memory.operator.image opToRow key_opToRow
  mukti := memory.mukti.image efToRow key_efToRow

section
variable {executions : UUID → Bool} {memory : InMemoryFeedbackRepository}
  {saves : List FeedbackSave}

theorem save_mirror {save : FeedbackSave} (stored : executions save.executionId = true) :
    (mirror executions memory).save save = .ok (mirror executions (memory.save save)) := by
  cases save with
  | operator record =>
      refine (if_pos stored).trans (congrArg Except.ok ?_)
      exact congrArg (fun rows => PostgresFeedbackRepository.mk executions rows _)
        Table.image_put.symm
  | execution record =>
      refine (if_pos stored).trans (congrArg Except.ok ?_)
      exact congrArg (fun rows => PostgresFeedbackRepository.mk executions _ rows)
        Table.image_put.symm

/-- The tables follow the dictionaries. -/
theorem run_mirror (stored : ∀ save ∈ saves, executions save.executionId = true) :
    saves.foldlM PostgresFeedbackRepository.save (mirror executions memory) =
      .ok (mirror executions (saves.foldl InMemoryFeedbackRepository.save memory)) := by
  induction saves generalizing memory with
  | nil => rfl
  | cons save rest ih =>
      obtain ⟨first, later⟩ := List.forall_mem_cons.mp stored
      rw [List.foldlM_cons, save_mirror first]
      exact ih later

/-- Every record that is remembered passes the checks. -/
theorem run_valid (valid : ∀ save ∈ saves, save.Valid) (before : ∀ r ∈ memory.mukti, r.Valid) :
    ∀ r ∈ (saves.foldl InMemoryFeedbackRepository.save memory).mukti, r.Valid := by
  induction saves generalizing memory with
  | nil => exact before
  | cons save rest ih =>
      obtain ⟨first, later⟩ := List.forall_mem_cons.mp valid
      refine ih later ?_
      cases save with
      | operator record => exact before
      | execution record => exact Table.forall_put before first

theorem getOperatorFeedback_mirror {id : UUID} : (mirror executions memory).getOperatorFeedback id =
    .ok (memory.getOperatorFeedback id) := by
  have image : (mirror executions memory).operator.get id = (memory.operator.get id).map opToRow :=
    @Table.get_image UUID OperatorFeedback OperatorFeedbackRow _ _ opToRow id key_opToRow
      memory.operator _
  rw [PostgresFeedbackRepository.getOperatorFeedback, image,
    InMemoryFeedbackRepository.getOperatorFeedback]
  cases memory.operator.get id with
  | none => rfl
  | some r => exact congrArg (Except.map some) (rowToOp_opToRow r)

theorem getExecutionFeedback_mirror (valid : ∀ r ∈ memory.mukti, r.Valid) {id : UUID} :
    (mirror executions memory).getExecutionFeedback id = .ok
      ((memory.getExecutionFeedback id).map fun r => { r with updatedAt := none }) := by
  have image : (mirror executions memory).mukti.get id = (memory.mukti.get id).map efToRow :=
    @Table.get_image UUID ExecutionFeedback ExecutionFeedbackRow _ _ efToRow id key_efToRow
      memory.mukti _
  rw [PostgresFeedbackRepository.getExecutionFeedback, image,
    InMemoryFeedbackRepository.getExecutionFeedback]
  cases stored : memory.mukti.get id with
  | none => rfl
  | some r =>
      exact congrArg (Except.map some) (rowToEf_efToRow r (valid r (Table.get_eq_some.mp stored).1))

/-- What is listed of rows that are read back is listed of the records. -/
theorem listed_of_rows {α β : Type} {toRow : α → β} {read : β → Except Exn α}
    {before : α → α → Prop} {before' : β → β → Prop} {records order : List α} {rows : List β}
    (limit : Option Nat) (kept : ∀ a b, before' (toRow a) (toRow b) → before a b)
    (back : ∀ a ∈ records, read (toRow a) = .ok a) (own : Arranged before records order)
    (arranged : Arranged before' (records.map toRow) rows) :
    ∃ listed, (limit.elim rows rows.take).mapM read = .ok listed ∧ UpToTies before records limit
      (limit.elim order order.take) listed := by
  obtain ⟨order', arranged', rfl⟩ := arranged.of_map kept
  have cut : limit.elim (order'.map toRow) (order'.map toRow).take =
    (limit.elim order' order'.take).map toRow := by
    cases limit with
    | none => rfl
    | some n => exact List.map_take.symm
  have within : ∀ a ∈ limit.elim order' order'.take, a ∈ records := by
    intro a member
    refine arranged'.1.mem_iff.mp ?_
    cases limit with
    | none => exact member
    | some n => exact List.mem_of_mem_take member
  refine ⟨limit.elim order' order'.take, ?_, order, order', own, arranged', rfl, rfl⟩
  rw [cut, mapM_ok_iff]
  exact List.forall₂_map_left_iff.mpr (List.forall₂_same.mpr fun a member => back a
    (within a member))

/-- The tables remember what the dictionaries do exactly when no record that is kept has an
update. -/
theorem remembers_mirror_iff (valid : ∀ r ∈ memory.mukti, r.Valid) :
    Remembers memory (mirror executions memory) ↔ ∀ r ∈ memory.mukti, r.updatedAt = none := by
  constructor
  · intro remembers r member
    have back := remembers.execution (key r)
    rw [getExecutionFeedback_mirror valid, InMemoryFeedbackRepository.getExecutionFeedback,
      Table.get_of_mem member] at back
    exact congrArg ExecutionFeedback.updatedAt (Option.some.inj (Except.ok.inj back)).symm
  · intro unamended
    have back : ∀ r ∈ memory.mukti, rowToEf (efToRow r) = .ok r := fun r member =>
      (rowToEf_eq_iff r (valid r member)).mpr (unamended r member)
    have rows {p : ExecutionFeedback → Bool} {q : ExecutionFeedbackRow → Bool}
      (same : ∀ r, q (efToRow r) = p r) :
        (mirror executions memory).mukti.rows.filter q = (memory.mukti.rows.filter p).map efToRow :=
      List.filter_map.trans (congrArg (fun p => (memory.mukti.rows.filter p).map efToRow)
        (funext same))
    have kept {p : ExecutionFeedback → Bool} : ∀ r ∈ memory.mukti.rows.filter p, rowToEf
      (efToRow r) = .ok r :=
      fun r member => back r (List.mem_of_mem_filter member)
    refine ⟨fun id => getOperatorFeedback_mirror, fun id => ?_, ?_, ?_, ?_⟩
    · rw [getExecutionFeedback_mirror valid, InMemoryFeedbackRepository.getExecutionFeedback]
      cases stored : memory.mukti.get id with
      | none => rfl
      | some r =>
          have same := unamended r (Table.get_eq_some.mp stored).1
          obtain ⟨_, _, _, _, _, _, _, _, updatedAt⟩ := r
          obtain rfl : updatedAt = none := same
          rfl
    · rintro executionId _ ⟨ordered, arranged, rfl⟩
      have selected : (mirror executions memory).operator.rows.filter (fun r => r.executionId =
        executionId) =
          (memory.operator.rows.filter fun r => r.executionId = executionId).map opToRow :=
            List.filter_map
      exact listed_of_rows none (fun _ _ => id) (fun r _ => rowToOp_opToRow r) arranged_sortedBy
        (selected ▸ arranged)
    · rintro executionId _ ⟨ordered, arranged, rfl⟩
      have selected := @rows (fun r => r.executionId = executionId) (fun r => r.executionId =
        executionId) fun _ => rfl
      exact listed_of_rows none (fun _ _ => id) kept arranged_sortedBy (selected ▸ arranged)
    · rintro limit executionIds _ ⟨ordered, arranged, rfl⟩
      have selected := @rows (fun r => allowed executionIds r.executionId)
        (fun r => allowed executionIds r.executionId) fun _ => rfl
      exact listed_of_rows (some (max 1 limit).toNat) (fun _ _ => id) kept arranged_newestFirst
        (selected ▸ arranged)

end

/-- The record of an execution that was last saved under an identifier. -/
def lastSaved (saves : List FeedbackSave) (id : UUID) : Option ExecutionFeedback :=
  saves.reverse.findSome? fun
    | .execution record => if record.feedbackId = id then some record else none
    | .operator _ => none

theorem get_run {saves : List FeedbackSave} {id : UUID} :
    (saves.foldl InMemoryFeedbackRepository.save .new).mukti.get id = lastSaved saves id := by
  induction saves using List.reverseRecOn with
  | nil => rfl
  | append_singleton saves save ih =>
      rw [List.foldl_append, lastSaved, List.reverse_append, List.reverse_singleton,
        List.singleton_append, List.findSome?_cons]
      cases save with
      | operator record => exact ih
      | execution record =>
          refine Table.get_put.trans ?_
          by_cases same : record.feedbackId = id
          · have here : id = key record := same.symm
            rw [if_pos here]
            simp only [if_pos same]
          · have elsewhere : ¬ id = key record := fun eq => same eq.symm
            rw [if_neg elsewhere, ih]
            simp only [if_neg same]
            rfl

theorem stored_of_save {repo repo' : PostgresFeedbackRepository} {save : FeedbackSave}
    (answer : repo.save save = .ok repo') :
    repo.executions save.executionId = true ∧ repo'.executions = repo.executions := by
  cases save with
  | operator record =>
      rw [PostgresFeedbackRepository.save] at answer
      split at answer
      · next stored =>
          cases answer
          exact ⟨stored, rfl⟩
      · cases answer
  | execution record =>
      rw [PostgresFeedbackRepository.save] at answer
      split at answer
      · next stored =>
          cases answer
          exact ⟨stored, rfl⟩
      · cases answer

/-- A run that the foreign keys let through is about stored executions. -/
theorem stored_of_run {repo repo' : PostgresFeedbackRepository} {saves : List FeedbackSave}
    (answer : saves.foldlM PostgresFeedbackRepository.save repo = .ok repo') :
    ∀ save ∈ saves, repo.executions save.executionId = true := by
  induction saves generalizing repo with
  | nil => exact nofun
  | cons save rest ih =>
      rw [List.foldlM_cons] at answer
      obtain ⟨next, first, later⟩ := bind_ok_iff.mp answer
      obtain ⟨stored, same⟩ := stored_of_save first
      exact List.forall_mem_cons.mpr ⟨stored, same ▸ ih later⟩

/-- Both stores remember the same of a run exactly when every record is about a stored execution and
no record of an execution that was saved last under its identifier has an update. -/
theorem feedback_stores_agree_iff (executions : UUID → Bool) (saves : List FeedbackSave)
    (valid : ∀ save ∈ saves, save.Valid) :
    (∃ repo, saves.foldlM PostgresFeedbackRepository.save (.new executions) = .ok repo ∧
      Remembers (saves.foldl InMemoryFeedbackRepository.save .new) repo) ↔
    (∀ save ∈ saves, executions save.executionId = true) ∧ ∀ id, ∀ record ∈ lastSaved saves id,
      record.updatedAt = none := by
  have validKept := @run_valid .new saves valid nofun
  have kept : (∀ r ∈ (saves.foldl InMemoryFeedbackRepository.save .new).mukti, r.updatedAt = none) ↔
      ∀ id, ∀ record ∈ lastSaved saves id, record.updatedAt = none := by
    constructor
    · intro unamended id record last
      exact unamended record (Table.get_eq_some.mp (get_run.trans last)).1
    · intro unamended r member
      exact unamended (key r) r (get_run.symm.trans (Table.get_of_mem member))
  rw [← kept, ← @remembers_mirror_iff executions _ validKept]
  constructor
  · rintro ⟨repo, answer, remembers⟩
    have stored := stored_of_run answer
    obtain rfl := Except.ok.inj ((@run_mirror executions .new saves stored).symm.trans answer)
    exact ⟨stored, remembers⟩
  · rintro ⟨stored, remembers⟩
    exact ⟨_, @run_mirror executions .new saves stored, remembers⟩

/-- Post-execution feedback of an execution, which was updated or was not. -/
def feedbackOf (updatedAt : Option Time) : ExecutionFeedback where
  feedbackId := ⟨1⟩
  executionId := ⟨7⟩
  sourceScope := none
  failureTypes := ["step_failure"]
  patternsDetected := [⟨"model_deterministic_fallback", none, []⟩]
  improvementSuggestions := []
  advisoryConfidence := some (84 / 100)
  createdAt := 1
  updatedAt := updatedAt

theorem feedbackOf_valid (updatedAt : Option Time) : (feedbackOf updatedAt).Valid := by
  intro q confidence
  obtain rfl : 84 / 100 = q := Option.some.inj confidence
  decide +kernel

theorem feedback_stores_agree_saved_again :
    ∃ repo, [FeedbackSave.execution (feedbackOf (some 2)), .execution (feedbackOf none)].foldlM
      PostgresFeedbackRepository.save
        (.new fun _ => true) = .ok repo ∧
      Remembers ([FeedbackSave.execution (feedbackOf (some 2)), .execution (feedbackOf none)].foldl
        InMemoryFeedbackRepository.save
        .new) repo := by
  refine (feedback_stores_agree_iff (fun _ => true) _ ?_).mpr ⟨fun _ _ => rfl, ?_⟩
  · intro save member
    obtain rfl | rfl : save = .execution (feedbackOf (some 2)) ∨
      save = .execution (feedbackOf none) := by simpa using member
    · exact feedbackOf_valid (some 2)
    · exact feedbackOf_valid none
  · intro id record last
    by_cases same : (feedbackOf none).feedbackId = id
    · subst same
      obtain rfl := Option.some.inj last
      rfl
    · have none : lastSaved [FeedbackSave.execution (feedbackOf (some 2)), .execution
        (feedbackOf none)] id = none := by
        simp only [lastSaved, List.reverse_cons, List.reverse_nil, List.nil_append,
          List.singleton_append, List.findSome?_cons, List.findSome?_nil, if_neg same]
        exact if_neg same ▸ rfl
      rw [none] at last
      cases last

/-- The record that was updated is given back without its update. -/
theorem feedback_stores_forget_updates :
    ¬ ∃ repo, [FeedbackSave.execution (feedbackOf (some 2))].foldlM PostgresFeedbackRepository.save
      (.new fun _ => true) = .ok repo ∧
      Remembers ([FeedbackSave.execution (feedbackOf (some 2))].foldl
        InMemoryFeedbackRepository.save .new) repo := by
  rintro ⟨repo, answer, remembers⟩
  have run := @run_mirror (fun _ => true) .new [.execution (feedbackOf (some 2))] fun _ _ => rfl
  obtain rfl := Except.ok.inj (run.symm.trans answer)
  have valid : ∀ r ∈ (InMemoryFeedbackRepository.new.save (.execution (feedbackOf (some 2)))).mukti,
    r.Valid :=
    Table.forall_put nofun (feedbackOf_valid (some 2))
  have unamended := (remembers_mirror_iff valid).mp remembers (feedbackOf (some 2))
    (List.mem_singleton_self _)
  cases unamended

end AgenticPlatform
