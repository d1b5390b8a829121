import AgenticPlatform.ReplayMirror

/-! Which differences of inputs and results the comparison reports, and when these are all that
there are and no others. -/
namespace AgenticPlatform
open Reporting
open Reporting.Findings

namespace ReplayDiffService
open Json (Differs)

/-- The keys of an input that the platform keeps for itself. -/
def Reserved (key : String) : Prop :=
  key = orchExecutionModeKey ∨ key = orchRuntimeMetaKey ∨ key = replayProvenanceInputKey

instance (key : String) : Decidable (Reserved key) := inferInstanceAs (Decidable (_ ∨ _))

/-- Two inputs differ at a key; one that is absent differs from one that is null. -/
def KeyDiffers (source replay : Dict) (key : String) : Prop :=
  match source.get? key, replay.get? key with
  | none, none => False
  | some x, some y => Differs x y
  | _, _ => True

/-- The summary reports exactly the differences of the business input, and says of a result that is
present on one side only which side it is. -/
structure ExactDiff (source replay : Execution) (summary : ReplayDiffSummary) : Prop where
  input : ∀ key, (∃ i ∈ summary.items, i.1.category = .input ∧ i.1.path = "input." ++ key) ↔
    ¬Reserved key ∧ KeyDiffers source.input replay.input key
  result : ∀ i ∈ summary.items, i.1.category = .result → i.1.title = "result_presence" →
    (i.1.sourceValue = some "present" ↔ source.result ≠ none) ∧ (i.1.replayValue = some "present" ↔
      replay.result ≠ none)

/-- The two executions agree on what the comparison mistakes. -/
structure Unmistaken (source replay : Execution) : Prop where
  /-- Mode and runtime metadata are compared as if they were business fields. -/
  reserved : ∀ key, key = orchExecutionModeKey ∨ key = orchRuntimeMetaKey →
    ¬Differs (source.input.get key) (replay.input.get key)
  /-- An absent field is taken for one that is null. -/
  null : ∀ key, ¬Reserved key → (source.input.get? key = none →
    replay.input.get? key ≠ some .null) ∧
    (replay.input.get? key = none → source.input.get? key ≠ some .null)
  /-- A result that is an empty dictionary is called absent. -/
  result : (source.result = none → replay.result ≠ some []) ∧
    (replay.result = none → source.result ≠ some [])

/-- An item of neither the input fields nor the result. -/
def Outside (i : ReplayDiffItem) : Prop :=
  i.1.category ≠ .result ∧ (i.1.category = .input → i.1.path = "provenance.input_overrides")

section
variable {text : Rendering} {repo : RepositoryReads} {a b : Execution}
  {prov : Option ReplayProvenance} {linked : Bool}

theorem all_item {P : ReplayDiffFields → Prop} {f : ReplayDiffFields} (holds : P f) :
    All (fun i : ReplayDiffItem => P i.1) (report f.item) := by
  refine all_report fun i made => ?_
  unfold ReplayDiffFields.item at made
  split at made
  · cases made
    exact holds
  · cases made

/-- Items of a category of their own. -/
theorem outside_item {category : ReplayDiffCategory} {severity : ReplayDiffSeverity}
    {title description path : String} {first second : Option String} {step call : Option UUID}
    (result : category ≠ .result) (input : category ≠ .input) :
    All Outside
      (report (ReplayDiffFields.mk category severity title description first second path step
      call).item) :=
  all_item (P := fun f => f.category ≠ .result ∧
    (f.category = .input → f.path = "provenance.input_overrides"))
    ⟨result, fun no => absurd no input⟩

theorem compareLineage_outside : All Outside (compareLineage text a b linked prov) := by
  refine .append ?_ (.when fun _ => ?_)
  · cases linked with
    | false => exact outside_item nofun nofun
    | true => exact outside_item nofun nofun
  · exact all_item (P := fun f => f.category ≠ .result ∧
      (f.category = .input → f.path = "provenance.input_overrides"))
      ⟨nofun, fun _ => rfl⟩

theorem compareExecutionHeader_outside : All Outside (compareExecutionHeader a b) :=
  .append (.when fun _ => outside_item nofun nofun) (.when fun _ => outside_item nofun nofun)

theorem comparePlan_outside : All Outside (comparePlan repo a b) :=
  .append (.when fun _ => outside_item nofun nofun) (.when fun _ => outside_item nofun nofun)

theorem compareDictFields_outside {src rep : Option Dict} {pathPrefix : String} {keys : List String}
    {step : Option UUID} {severity : ReplayDiffSeverity} :
    All Outside (compareDictFields text src rep .step pathPrefix keys step severity) := by
  unfold compareDictFields
  split
  · exact all_each fun key _ => .when fun _ => outside_item nofun nofun
  · exact all_nothing

theorem compareStepResults_outside {ss rs : Step} {pathPrefix : String} :
    All Outside (compareStepResults text repo ss rs pathPrefix) := by
  unfold compareStepResults
  split
  · exact all_nothing
  · exact .append (.append (.append (.when fun _ => outside_item nofun nofun)
      (.when fun _ => outside_item nofun nofun))
      (.when fun _ => outside_item nofun nofun)) compareDictFields_outside
  · exact outside_item nofun nofun

theorem comparePairedSteps_outside {idx : Nat} {ss rs : Step} {pathPrefix : String} :
    All Outside (comparePairedSteps text repo idx ss rs pathPrefix) := by
  refine .append (.append (.append ?_ ?_) ?_) compareStepResults_outside
  · exact .when fun _ => outside_item nofun nofun
  · exact .when fun _ => outside_item nofun nofun
  · exact .when fun _ => outside_item nofun nofun

theorem compareSteps_outside : All Outside (compareSteps text repo a b) := by
  refine all_each fun idx _ => ?_
  unfold compareStepsAt
  dsimp only
  split
  · exact all_nothing
  · exact outside_item nofun nofun
  · exact outside_item nofun nofun
  · exact comparePairedSteps_outside

theorem compareModelReasoning_outside : All Outside (compareModelReasoning text a b) := by
  refine .append (.when fun _ => outside_item nofun nofun) (all_each fun pair _ => .append
    (.when fun _ => ?_)
    (.when fun _ => outside_item nofun nofun))
  unfold modelPathItem
  split
  · exact outside_item nofun nofun
  · exact all_error

theorem compareToolCalls_outside : All Outside (compareToolCalls repo a b) :=
  .append (.when fun _ => outside_item nofun nofun) (all_each fun _ _ => .append (.append (.append
    (.when fun _ => outside_item nofun nofun) (.when fun _ => outside_item nofun nofun))
    (.when fun _ => outside_item nofun nofun)) (.when fun _ => outside_item nofun nofun))

theorem comparePolicy_outside : All Outside (comparePolicy text repo a b) := by
  unfold comparePolicy
  dsimp only
  split
  · exact all_nothing
  · refine .append (.append (.when fun _ => outside_item (by decide) (by decide))
      (all_each fun pair _ => ?_))
      (.when fun _ => outside_item (by decide) (by decide))
    unfold comparePairedEvaluations
    dsimp only
    split
    · exact outside_item (by decide) (by decide)
    · exact .when fun _ => outside_item (by decide) (by decide)

theorem compareApprovals_outside : All Outside (compareApprovals repo a b) :=
  .append (.when fun _ => outside_item nofun nofun) (all_each fun _ _ => .when fun _ =>
    outside_item nofun nofun)

theorem compareValidation_outside : All Outside (compareValidation text a b) :=
  .when fun _ => outside_item nofun nofun

/-- An item that is made has the fields it is made from. -/
theorem item_fields {f : ReplayDiffFields} {i : ReplayDiffItem}
    (made : f.item = .ok i) : i.1 = f := by
  unfold ReplayDiffFields.item at made
  split at made
  · cases made
    rfl
  · cases made

/-- The passes between the input and the result. -/
def compareMiddle (text : Rendering) (repo : RepositoryReads) (source replay : Execution) : Items :=
  comparePlan repo source replay ++ compareSteps text repo source replay ++ compareModelReasoning
    text source replay ++
    compareToolCalls repo source replay ++ comparePolicy text repo source replay ++
    compareApprovals repo source replay ++ compareValidation text source replay

theorem compareMiddle_outside : All Outside (compareMiddle text repo a b) :=
  .append (.append (.append (.append (.append (.append comparePlan_outside compareSteps_outside)
    compareModelReasoning_outside) compareToolCalls_outside) comparePolicy_outside)
      compareApprovals_outside)
    compareValidation_outside

theorem compareResult_category : All (fun i : ReplayDiffItem => i.1.category = .result)
    (compareResult text a b) := by
  unfold compareResult
  split
  · exact all_nothing
  · exact all_each fun key _ => .when fun _ => all_item (P := fun f => f.category = .result) rfl
  · exact all_item (P := fun f => f.category = .result) rfl

/-- The items of the input and of the result among those of a summary. -/
theorem compareItems_parts {items : List ReplayDiffItem}
    (collected : compareItems text repo a b linked prov = .ok items) :
    ∃ fields results, compareInput text a b prov = .ok fields ∧
      compareResult text a b = .ok results ∧
      (∀ i ∈ fields, i ∈ items) ∧ (∀ i ∈ results, i ∈ items) ∧
      ∀ i ∈ items, i ∈ fields ∨ i ∈ results ∨ Outside i := by
  have parts : compareItems text repo a b linked prov = compareLineage text a b linked prov ++
      (compareExecutionHeader a b ++ (compareInput text a b prov ++
        (compareMiddle text repo a b ++ compareResult text a b))) := by
    simp only [compareItems, compareMiddle, append_assoc]
  rw [parts] at collected
  obtain ⟨lineage, _, first, after, rfl⟩ := ok_append collected
  obtain ⟨header, _, second, later, rfl⟩ := ok_append after
  obtain ⟨fields, _, third, last, rfl⟩ := ok_append later
  obtain ⟨middle, results, fourth, fifth, rfl⟩ := ok_append last
  refine ⟨fields, results, third, fifth, fun i member => by simp [member],
    fun i member => by simp [member], fun i member => ?_⟩
  simp only [List.mem_append] at member
  rcases member with here | here | here | here | here
  · exact .inr (.inr (compareLineage_outside lineage first i here))
  · exact .inr (.inr (compareExecutionHeader_outside header second i here))
  · exact .inl here
  · exact .inr (.inr (compareMiddle_outside middle fourth i here))
  · exact .inr (.inl here)

/-- The item of a field that differs. -/
theorem mem_compareInput {fields : List ReplayDiffItem}
    (collected : compareInput text a b prov = .ok fields) (key : String) :
    (∃ i ∈ fields, i.1.path = "input." ++ key) ↔ inputDiffers a b key := by
  constructor
  · rintro ⟨i, member, path⟩
    obtain ⟨k, _, ys, made, inside⟩ := (mem_each collected).mp member
    unfold reportIf at made
    split at made
    · next differs =>
        obtain ⟨j, known, rfl⟩ := ok_report made
        obtain rfl := List.mem_singleton.mp inside
        have same : "input." ++ k = "input." ++ key :=
          (congrArg ReplayDiffFields.path (item_fields known)).symm.trans path
        exact String.append_right_inj "input." |>.mp same ▸ differs
    · obtain rfl := Except.ok.inj made
      exact absurd inside List.not_mem_nil
  · intro differs
    obtain ⟨ys, made⟩ := each_ok collected (mem_inputKeys differs)
    rw [reportIf, if_pos differs] at made
    obtain ⟨i, known, rfl⟩ := ok_report made
    refine ⟨i, (mem_each collected).mpr ⟨key, mem_inputKeys differs, [i], ?_,
      List.mem_singleton_self i⟩, ?_⟩
    · rw [reportIf, if_pos differs]
      exact made
    · exact congrArg ReplayDiffFields.path (item_fields known)

theorem differs_null {v : Json} : Differs .null v ↔ v ≠ .null := by
  cases v with
  | null => simp [Differs]
  | _ => simp [Differs, Json.same]

theorem differs_null_right {v : Json} : Differs v .null ↔ v ≠ .null := by
  cases v with
  | null => simp [Differs]
  | _ => simp [Differs, Json.same, Json.number?]

/-- Comparing with a default is comparing, unless a field is absent on one side and null on the
other. -/
theorem differs_get_iff {source replay : Dict} {key : String} :
    (Differs (source.get key) (replay.get key) ↔ KeyDiffers source replay key) ↔
      (source.get? key = none → replay.get? key ≠ some .null) ∧
        (replay.get? key = none → source.get? key ≠ some .null) := by
  unfold KeyDiffers Dict.get
  cases source.get? key with
  | none =>
      cases replay.get? key with
      | none => simp
      | some y => simp [differs_null]
  | some x =>
      cases replay.get? key with
      | none => simp [differs_null_right]
      | some y => simp

theorem inputDiffers_eq {key : String} (unreserved : key ≠ replayProvenanceInputKey) :
    inputDiffers a b key ↔ Differs (a.input.get key) (b.input.get key) := by
  have kept (e : Execution) : (businessInput e).get key = e.input.get key := by
    rw [businessInput, Dict.get, Dict.get?_pop, if_neg unreserved.symm]
    rfl
  rw [inputDiffers, kept, kept]

theorem not_inputDiffers_provenance : ¬inputDiffers a b replayProvenanceInputKey := by
  have gone (e : Execution) : (businessInput e).get replayProvenanceInputKey = .null := by
    rw [businessInput, Dict.get, Dict.pop_self_get?]
    rfl
  rw [inputDiffers, gone, gone]
  exact Json.not_differs_self _

/-- What the comparison mistakes of the input. -/
theorem input_exact_iff :
    (∀ key, inputDiffers a b key ↔ ¬Reserved key ∧ KeyDiffers a.input b.input key) ↔
    (∀ key, key = orchExecutionModeKey ∨ key = orchRuntimeMetaKey → ¬Differs (a.input.get key)
      (b.input.get key)) ∧
      ∀ key, ¬Reserved key → (a.input.get? key = none → b.input.get? key ≠ some .null) ∧
        (b.input.get? key = none → a.input.get? key ≠ some .null) := by
  have apart {key : String} (reserved : key = orchExecutionModeKey ∨ key = orchRuntimeMetaKey) :
      key ≠ replayProvenanceInputKey := by
    rcases reserved with rfl | rfl
    · decide
    · decide
  constructor
  · intro exact_
    refine ⟨fun key reserved differs => ?_, fun key business => differs_get_iff.mp ?_⟩
    · exact ((exact_ key).mp ((inputDiffers_eq (apart reserved)).mpr differs)).1
        (reserved.imp_right .inl)
    · rw [← inputDiffers_eq fun same => business (.inr (.inr same)), exact_ key]
      exact and_iff_right business
  · rintro ⟨reserved, null⟩ key
    by_cases business : Reserved key
    · refine ⟨fun differs => ?_, fun no => absurd business no.1⟩
      rcases business with mode | meta_ | rfl
      · exact absurd ((inputDiffers_eq (apart (.inl mode))).mp differs) (reserved key (.inl mode))
      · exact absurd ((inputDiffers_eq (apart (.inr meta_))).mp differs) (reserved key (.inr meta_))
      · exact absurd differs not_inputDiffers_provenance
    · rw [inputDiffers_eq fun same => business (.inr (.inr same)), differs_get_iff.mpr
        (null key business)]
      exact (and_iff_right business).symm

theorem presence_eq {present : Bool} : some (presence present) = some "present" ↔
    present = true := by
  cases present <;> simp [presence]

/-- A result that is no empty dictionary is reported as it is. -/
theorem resultPresence_eq {result : Option Dict} :
    some (resultPresence result) = some "present" ↔ result ≠ none ∧ result ≠ some [] := by
  rw [resultPresence, presence_eq]
  cases result with
  | none => simp [Json.ofOption, Json.truthy]
  | some d =>
      cases d with
      | nil => simp [Json.ofOption, Json.truthy]
      | cons kv rest => simp [Json.ofOption, Json.truthy]

/-- The two values of the item on a result that one side has. -/
def PresenceTold (source replay : Execution) (i : ReplayDiffItem) : Prop :=
  (i.1.sourceValue = some "present" ↔ source.result ≠ none) ∧ (i.1.replayValue = some "present" ↔
    replay.result ≠ none)

theorem presenceTold_iff {results : List ReplayDiffItem}
    (collected : compareResult text a b = .ok results) :
    (∀ i ∈ results, i.1.title = "result_presence" → PresenceTold a b i) ↔
      (a.result = none → b.result ≠ some []) ∧ (b.result = none → a.result ≠ some []) := by
  have one {r r' : Option Dict}
    (told : report (ReplayDiffFields.mk .result .warning "result_presence"
      "Top-level execution result present on one side only." (some (resultPresence r))
        (some (resultPresence r'))
      "execution.result" none none).item = .ok results) : ∃ i, results = [i] ∧
        i.1.title = "result_presence" ∧
        i.1.sourceValue = some (resultPresence r) ∧ i.1.replayValue = some (resultPresence r') := by
    obtain ⟨i, made, rfl⟩ := ok_report told
    have fields := item_fields made
    exact ⟨i, rfl, congrArg ReplayDiffFields.title fields, congrArg
      ReplayDiffFields.sourceValue fields, congrArg ReplayDiffFields.replayValue fields⟩
  unfold compareResult at collected
  cases first : a.result with
  | none =>
      cases second : b.result with
      | none =>
          rw [first, second] at collected
          obtain rfl := Except.ok.inj collected
          simp
      | some rep =>
          rw [first, second] at collected
          obtain ⟨i, rfl, title, values, values'⟩ := one collected
          rw [List.forall_mem_singleton, PresenceTold, values, values', resultPresence_eq,
            resultPresence_eq, first, second]
          simp [title]
  | some src =>
      cases second : b.result with
      | none =>
          rw [first, second] at collected
          obtain ⟨i, rfl, title, values, values'⟩ := one collected
          rw [List.forall_mem_singleton, PresenceTold, values, values', resultPresence_eq,
            resultPresence_eq, first, second]
          simp [title]
      | some rep =>
          rw [first, second] at collected
          have other : All (fun i : ReplayDiffItem => i.1.title ≠ "result_presence")
            (compareDictFields text (some src)
              (some rep) .result "execution.result" resultKeysOfInterest none .warning) :=
            all_each fun key member => .when fun _ => all_item (P :=
              fun f => f.title ≠ "result_presence")
              ((by decide : ∀ key ∈ resultKeysOfInterest, key ≠ "result_presence") key member)
          exact ⟨fun _ => ⟨nofun, nofun⟩, fun _ i member titled => absurd titled
            (other results collected i member)⟩

/-- Of an item the category and the start of the path tell which pass has made it. -/
theorem path_input_ne {key : String} : "input." ++ key ≠ "provenance.input_overrides" := by
  have elsewhere : Elsewhere "input." := elsewhere_literal rfl
  exact elsewhere.append.ne

theorem compareInput_category : All (fun i : ReplayDiffItem => i.1.category = .input)
    (compareInput text a b prov) :=
  all_each fun _ _ => .when fun _ => all_item (P := fun f => f.category = .input) rfl

end

/-- A summary is exact if and only if the two executions agree on what the comparison mistakes:
reserved keys, absent and null fields, and absent and empty results. -/
theorem compare_exact_iff {text : Rendering} {modelValidate : Dict → Option ReplayProvenance}
    {repo after : RepositoryReads} {i j : UUID} {source replay : Execution}
    {summary : ReplayDiffSummary} (known : repo.getExecution i = some source)
    (known' : repo.getExecution j = some replay)
    (made : compare text modelValidate repo after i j = .ok summary) :
    ExactDiff source replay summary ↔ Unmistaken source replay := by
  obtain ⟨fields, results, input, result, own, last, parts⟩ :=
    compareItems_parts (compare_items known known' made)
  have input_items (key : String) : (∃ x ∈ summary.items, x.1.category = .input ∧
    x.1.path = "input." ++ key) ↔
      inputDiffers source replay key := by
    rw [← mem_compareInput input]
    constructor
    · rintro ⟨x, member, category, path⟩
      rcases parts x member with here | here | outside
      · exact ⟨x, here, path⟩
      · exact absurd (category.symm.trans (compareResult_category results result x here))
          (by decide)
      · exact absurd (path.symm.trans (outside.2 category)) path_input_ne
    · rintro ⟨x, member, path⟩
      exact ⟨x, own x member, compareInput_category fields input x member, path⟩
  have result_items : (∀ x ∈ summary.items, x.1.category = .result → x.1.title = "result_presence" →
      PresenceTold source replay x) ↔ ∀ x ∈ results, x.1.title = "result_presence" →
        PresenceTold source replay x := by
    refine ⟨fun all x member => all x (last x member)
      (compareResult_category results result x member), fun all x member category => ?_⟩
    rcases parts x member with here | here | outside
    · exact absurd (category.symm.trans (compareInput_category fields input x here)) (by decide)
    · exact all x here
    · exact absurd category outside.1
  constructor
  · rintro ⟨exact_input, exact_result⟩
    have mistakes := input_exact_iff.mp fun key => (input_items key).symm.trans (exact_input key)
    exact ⟨mistakes.1, mistakes.2, (presenceTold_iff result).mp (result_items.mp exact_result)⟩
  · rintro ⟨reserved, null, presence⟩
    exact ⟨fun key => (input_items key).trans (input_exact_iff.mpr ⟨reserved, null⟩ key),
      result_items.mpr ((presenceTold_iff result).mpr presence)⟩

theorem compare_found {text : Rendering} (atoms : Atoms text)
    {modelValidate : Dict → Option ReplayProvenance} {repo : RepositoryReads}
    {source replay : Execution} (known : repo.getExecution source.executionId = some source)
    (known' : repo.getExecution replay.executionId = some replay) (own : Sized repo source)
    (other : Sized repo replay) (fit : TextsFit text repo source replay)
    (few : differences repo source replay (provenance modelValidate replay) ≤ 500) :
    ∃ summary, compare text modelValidate repo repo source.executionId replay.executionId =
      .ok summary := by
  have yields : Yields (compareItems text repo source replay (isLinked modelValidate source replay)
    (provenance modelValidate replay)) _ _ := compareItems_yields atoms own other
  obtain ⟨items, collected, count⟩ := yields.found fit
  rw [compare_eq known known', collected]
  exact ⟨_, dif_pos (count ▸ few)⟩

def sourceWith (input : Dict) : Execution := { unreplayed with input := input }

def replayWith (input : Dict) : Execution :=
  { executionOf genericRequest ⟨2⟩ ⟨0⟩ 0 with parentExecutionId := some ⟨1⟩, input := input }

/-- An execution and a replay of it, each with its input. -/
def storedPair (input input' : Dict) : RepositoryReads :=
  { Repository.empty with
    executions := (Store.Table.empty.put (sourceWith input)).put (replayWith input') :
      Repository }.reads

section
variable {input input' : Dict}

theorem storedPair_sized : Sized (storedPair input input') (sourceWith input) ∧
    Sized (storedPair input input') (replayWith input') := by
  have lists : ∀ n ∈ [0, 0, 0, 0, 0, 0], n < 2 ^ 63 := by decide
  have parent : ∀ u ∈ some (⟨1⟩ : UUID), u.n < 2 ^ 128 := by decide
  have absent : ∀ u ∈ (none : Option UUID), u.n < 2 ^ 128 := by decide
  exact ⟨⟨(by decide : 1 < 2 ^ 128), absent, absent, lists⟩, ⟨(by decide : 2 < 2 ^ 128), parent,
    absent, lists⟩⟩

theorem storedPair_compared
    (keys : ∀ key ∈ inputKeys (sourceWith input) (replayWith input'), key.length ≤ 250)
    (few : differences (storedPair input input') (sourceWith input) (replayWith input') none ≤
      500) :
    ∃ summary, compare .flat (fun _ => none) (storedPair input input')
    (storedPair input input') ⟨1⟩ ⟨2⟩ =
      .ok summary := by
  have steps : StepTextsFit (storedPair input input') (sourceWith input) (replayWith input') := by
    intro idx ss rs known
    cases known
  have fit : TextsFit .flat (storedPair input input') (sourceWith input) (replayWith input') :=
    ⟨fun differs => absurd rfl differs, fun key differs => keys key (mem_inputKeys differs), steps,
      fun _ no => absurd no List.not_mem_nil, fun _ no => absurd no List.not_mem_nil⟩
  have unlinked : provenance (fun _ => none) (replayWith input') = none := by
    unfold provenance
    split
    · rfl
    · rfl
  exact @compare_found .flat flat_atoms (fun _ => none) (storedPair input input') (sourceWith input)
    (replayWith input') rfl rfl storedPair_sized.1 storedPair_sized.2 fit (unlinked.symm ▸ few)

end

/-- An execution with a field that is null, and a replay of it without the field. -/
def nullRow : Execution := sourceWith [("k", .null)]

def bareRow : Execution := replayWith []

def nullRows : RepositoryReads := storedPair [("k", .null)] []

theorem nullRows_compared : ∃ summary, compare .flat (fun _ => none) nullRows nullRows ⟨1⟩
    ⟨2⟩ = .ok summary :=
  storedPair_compared (by decide) (by decide)

/-- A field that is null on one side and absent on the other is mistaken; one with two values is
compared exactly. -/
theorem compare_exact_iff_null :
    (∃ summary, compare .flat (fun _ => none) nullRows nullRows ⟨1⟩ ⟨2⟩ = .ok summary ∧
      (ExactDiff nullRow bareRow summary ↔ Unmistaken nullRow bareRow)) ∧
    ∃ summary, compare .flat (fun _ => none) (storedPair [("k", .int 1)] [("k", .int 2)])
        (storedPair [("k", .int 1)] [("k", .int 2)]) ⟨1⟩ ⟨2⟩ = .ok summary ∧
      ExactDiff (sourceWith [("k", .int 1)]) (replayWith [("k", .int 2)]) summary := by
  obtain ⟨summary, made⟩ := nullRows_compared
  obtain ⟨changed, made'⟩ :=
    @storedPair_compared [("k", .int 1)] [("k", .int 2)] (by decide) (by decide)
  have unmistaken : Unmistaken (sourceWith [("k", .int 1)]) (replayWith [("k", .int 2)]) := by
    constructor
    case reserved => rintro key (rfl | rfl) <;> decide
    case null =>
      intro key _
      simp only [sourceWith, replayWith, Dict.get?_cons, Dict.get?_nil]
      split <;> simp
    case result => exact ⟨fun _ => by decide, fun _ => by decide⟩
  exact ⟨⟨summary, made, compare_exact_iff rfl rfl made⟩, changed, made',
    (compare_exact_iff rfl rfl made').mpr unmistaken⟩

/-- The field that is null on one side and absent on the other is not reported. -/
theorem compare_not_exact : ¬∀ (text : Rendering) (modelValidate : Dict → Option ReplayProvenance)
    (repo after : RepositoryReads) (i j : UUID) (source replay : Execution)
    (summary : ReplayDiffSummary),
    repo.getExecution i = some source → repo.getExecution j = some replay →
    compare text modelValidate repo after i j = .ok summary → ExactDiff source replay summary := by
  intro always
  obtain ⟨summary, made⟩ := nullRows_compared
  have exact_ := always .flat (fun _ => none) nullRows nullRows ⟨1⟩ ⟨2⟩ nullRow bareRow
    summary rfl rfl made
  obtain ⟨x, member, category, path⟩ := (exact_.input "k").mpr ⟨by decide, trivial⟩
  obtain ⟨fields, results, input, result, _, _, parts⟩ :=
    @compareItems_parts .flat nullRows nullRow bareRow none
      (isLinked (fun _ => none) nullRow bareRow) _
      (@compare_items .flat nullRows nullRow bareRow (fun _ => none) _ _ _ _ rfl rfl made)
  rcases parts x member with here | here | outside
  · exact absurd ((mem_compareInput input "k").mp ⟨x, here, path⟩) (by decide)
  · exact absurd (category.symm.trans (compareResult_category results result x here)) (by decide)
  · exact absurd (path.symm.trans (outside.2 category)) path_input_ne

end ReplayDiffService
end AgenticPlatform
