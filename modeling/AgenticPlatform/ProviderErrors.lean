import AgenticPlatform.Interaction.Raising
import AgenticPlatform.Providers

/-! Which bodies of a chat completion a provider turns into an output or a schema error, and which
of them let another exception escape. -/
namespace AgenticPlatform
open Interaction
namespace Providers

/-- The exception of the taxonomy for a malformed answer. -/
def IsSchemaError (exc : ModelError) : Prop := exc.kind = .schemaValidation

/-- What becomes a schema error under `except ValidationError`. -/
def IsRejected (exc : ModelError) : Prop := IsSchemaError exc ∨ exc.kind = .other "ValidationError"

theorem invalid_rejected (model : String) : IsRejected (invalid model) := .inr rfl

theorem invalid_not_schemaError (model : String) : ¬ IsSchemaError (invalid model) := nofun

theorem raised_not_schemaError (raised : Raised) : ¬ IsSchemaError raised.error := nofun

theorem name_ne_validationError (cls : Builtin) : cls.name ≠ "ValidationError" := by
  cases cls
  all_goals decide

theorem raised_not_rejected (raised : Raised) : ¬ IsRejected raised.error := by
  rintro (schema | validation)
  · exact raised_not_schemaError raised schema
  · exact name_ne_validationError raised.cls (ModelErrorKind.other.inj validation)

theorem raisesOnly_rejecting {α : Type} {x : Except ModelError α} :
    RaisesOnly IsSchemaError (rejecting x) ↔ RaisesOnly IsRejected x := by
  cases x with
  | ok a => exact iff_of_true raisesOnly_ok raisesOnly_ok
  | error exc =>
      rw [rejecting, raisesOnly_error, raisesOnly_error]
      by_cases validation : exc.kind = .other "ValidationError"
      · rw [if_pos validation]
        exact iff_of_true rfl (.inr validation)
      · rw [if_neg validation]
        exact (or_iff_left validation).symm

section
variable {lib : Library}

/-- `str(v)` gives a text. -/
def Renders (lib : Library) (v : Value) : Prop := ∃ s, lib.str v = .ok s

/-- What `float(v)` accepts. -/
def Numeric (lib : Library) : Value → Prop
  | .bool _ | .float _ => True
  | .int n => ∃ q, lib.floatOfInt n = some q
  | .str s => ∃ x, lib.floatOfText s = .ok x
  | .null | .arr _ | .obj _ => False

/-- What `int(v or 0)` turns into a count. -/
def Countable (lib : Library) : Value → Prop
  | .null | .bool _ => True
  | .int n => 0 ≤ n
  | .float (.finite q) => -1 < q
  | .float _ => False
  | .str s => s = "" ∨ ∃ n, lib.intOfText s = .ok n ∧ 0 ≤ n
  | .arr xs => xs = []
  | .obj fields => fields = []

theorem mapError_ok {α ε ε' : Type} {x : Except ε α} {f : ε → ε'} {a : α} : x.mapError f = .ok a ↔
    x = .ok a := by
  cases x with
  | ok b => exact ⟨fun same => congrArg Except.ok (Except.ok.inj same), fun same => congrArg
    Except.ok (Except.ok.inj same)⟩
  | error e => exact iff_of_false nofun nofun

theorem mapError_error {α ε ε' : Type} {x : Except ε α} {f : ε → ε'} {e : ε'}
    (failed : x.mapError f = .error e) :
    ∃ e', e = f e' := by
  cases x with
  | ok b => cases failed
  | error e' => exact ⟨e', (Except.error.inj failed).symm⟩

theorem str_raises {v : Value} {exc : ModelError} (failed : lib.str v = .error exc) :
    ∃ raised : Raised, exc = raised.error := by
  cases v with
  | str s => cases failed
  | null | bool | int | float | arr | obj => exact mapError_error failed

theorem int_raises {v : Value} {exc : ModelError} (failed : lib.int v = .error exc) :
    ∃ raised : Raised, exc = raised.error := by
  cases v with
  | bool | int => cases failed
  | float x =>
      cases x with
      | finite => cases failed
      | inf | nan => exact ⟨_, (Except.error.inj failed).symm⟩
  | str s =>
      obtain ⟨text, same⟩ := mapError_error failed
      exact ⟨_, same⟩
  | null | arr | obj => exact ⟨_, (Except.error.inj failed).symm⟩

theorem float_int {n : Int} : lib.float (.int n) =
    match lib.floatOfInt n with
    | some q => .ok (.finite q)
    | none => .error (Raised.error ⟨.overflowError, "int too large to convert to float"⟩) := rfl

theorem float_raises {v : Value} {exc : ModelError} (failed : lib.float v = .error exc) :
    ∃ raised : Raised, exc = raised.error := by
  cases v with
  | bool | float => cases failed
  | int n =>
      rw [float_int] at failed
      split at failed
      · cases failed
      · exact ⟨_, (Except.error.inj failed).symm⟩
  | str s =>
      obtain ⟨text, same⟩ := mapError_error failed
      exact ⟨_, same⟩
  | null | arr | obj => exact ⟨_, (Except.error.inj failed).symm⟩

theorem float_ok_iff {v : Value} : (∃ x, lib.float v = .ok x) ↔ Numeric lib v := by
  cases v with
  | bool | float => exact iff_of_true ⟨_, rfl⟩ trivial
  | int n =>
      rw [float_int, Numeric]
      cases lib.floatOfInt n with
      | none => exact iff_of_false (fun made => made.elim nofun) (fun known => known.elim nofun)
      | some q => exact iff_of_true ⟨_, rfl⟩ ⟨q, rfl⟩
  | str s => exact exists_congr fun x => mapError_ok
  | null | arr | obj => exact iff_of_false (fun made => made.elim nofun) id

/-- Truncation toward zero of what is above minus one. -/
theorem trunc_nonneg {q : Rat} : 0 ≤ (if 0 ≤ q then q.floor else q.ceil) ↔ -1 < q := by
  split
  · next above =>
      have floor : 0 ≤ q.floor := Rat.le_floor_iff.mpr (by simpa using above)
      exact iff_of_true floor (by linarith)
  · have above : -1 < q.ceil ↔ ((-1 : Int) : Rat) < q := Rat.lt_ceil_iff
    rw [Int.cast_neg, Int.cast_one] at above
    rw [← above]
    omega

theorem tokens_truthy {usage : Fields} {key : String} (some : (usage.get key).truthy = true) :
    tokens lib usage key = lib.int (usage.get key) := by
  rw [tokens, Value.pyOr, if_pos some]

theorem tokens_falsy {usage : Fields} {key : String} (none : (usage.get key).truthy = false) :
    tokens lib usage key = .ok 0 := by
  rw [tokens, Value.pyOr, none]
  rfl

theorem tokens_raises {usage : Fields} {key : String} {exc : ModelError}
    (failed : tokens lib usage key = .error exc) :
    ∃ raised : Raised, exc = raised.error := int_raises failed

/-- Which values become a count. -/
theorem int_count_iff {v : Value} : (∃ n, lib.int v = .ok n ∧ 0 ≤ n) ∨ v.truthy = false ↔
    Countable lib v := by
  cases v with
  | null => exact iff_of_true (.inr rfl) trivial
  | bool b => exact iff_of_true (.inl ⟨if b then 1 else 0, rfl, by split <;> decide⟩) trivial
  | int n =>
      constructor
      · rintro (⟨m, same, nonneg⟩ | zero)
        · exact Except.ok.inj same ▸ nonneg
        · exact (of_decide_eq_false zero |> not_not.mp).ge
      · exact fun nonneg => .inl ⟨n, rfl, nonneg⟩
  | float x =>
      cases x with
      | finite q =>
          rw [Countable, ← trunc_nonneg]
          constructor
          · rintro (⟨m, same, nonneg⟩ | zero)
            · exact Except.ok.inj same ▸ nonneg
            · rw [of_decide_eq_false zero |> not_not.mp]
              rfl
          · exact fun nonneg => .inl ⟨_, rfl, nonneg⟩
      | inf | nan =>
          refine iff_of_false ?_ id
          rintro (⟨_, made, _⟩ | zero)
          · cases made
          · cases zero
  | str s =>
      rw [Countable, or_comm]
      refine or_congr ?_ (exists_congr fun n => and_congr_left' mapError_ok)
      exact decide_eq_false_iff_not.trans not_not
  | arr xs =>
      have unmade : ¬ ∃ n, lib.int (.arr xs) = .ok n ∧ 0 ≤ n := by
        rintro ⟨_, made, _⟩
        cases made
      rw [Countable, or_iff_right unmade]
      simp only [Value.truthy, Bool.not_eq_false', List.isEmpty_iff]
  | obj fields =>
      have unmade : ¬ ∃ n, lib.int (.obj fields) = .ok n ∧ 0 ≤ n := by
        rintro ⟨_, made, _⟩
        cases made
      rw [Countable, or_iff_right unmade]
      simp only [Value.truthy, Bool.not_eq_false', List.isEmpty_iff]

theorem tokens_ok_iff {usage : Fields} {key : String} :
    (∃ n, tokens lib usage key = .ok n ∧ 0 ≤ n) ↔ Countable lib (usage.get key) := by
  rw [← int_count_iff]
  cases some : (usage.get key).truthy with
  | true =>
      rw [tokens_truthy some]
      exact (or_iff_left nofun).symm
  | false =>
      rw [tokens_falsy some]
      exact iff_of_true ⟨0, rfl, le_refl 0⟩ (.inr rfl)

/-- Usage and model name of a response that telemetry can report. -/
structure Accounted (lib : Library) (modelName : String) (resp : Fields) : Prop where
  modelName : modelName.length ≤ 128
  counts : ∀ key ∈ ["prompt_tokens", "completion_tokens", "total_tokens"],
    Countable lib (Fields.get (resp.get "usage").asDict key)

theorem make_ok_iff {latencyMs : Nat} {providerType modelName : String} {i o t : Int} :
    (∃ telemetry, Telemetry.make latencyMs providerType modelName i o t = .ok telemetry) ↔
      providerType.length ≤ 32 ∧ modelName.length ≤ 128 ∧ 0 ≤ i ∧ 0 ≤ o ∧ 0 ≤ t := by
  unfold Telemetry.make
  split
  · next fits => exact iff_of_true ⟨_, rfl⟩ fits
  · next unfit => exact iff_of_false (fun made => made.elim nofun) unfit

theorem readTelemetry_ok_iff {providerType modelName : String} {latencyMs : Nat} {resp : Fields}
    (short : providerType.length ≤ 32) :
    (∃ telemetry, readTelemetry lib providerType modelName latencyMs resp = .ok telemetry) ↔
      Accounted lib modelName resp := by
  unfold readTelemetry
  simp only [exists_ok_bind, make_ok_iff]
  constructor
  · rintro ⟨i, input, o, output, t, total, _, named, hi, ho, ht⟩
    refine ⟨named, ?_⟩
    simp only [List.forall_mem_cons, ← tokens_ok_iff]
    exact ⟨⟨i, input, hi⟩, ⟨o, output, ho⟩, ⟨t, total, ht⟩, nofun⟩
  · rintro ⟨named, counts⟩
    simp only [List.forall_mem_cons, ← tokens_ok_iff] at counts
    obtain ⟨⟨i, input, hi⟩, ⟨o, output, ho⟩, ⟨t, total, ht⟩, _⟩ := counts
    exact ⟨i, input, o, output, t, total, short, named, hi, ho, ht⟩

theorem readTelemetry_raises {providerType modelName : String} {latencyMs : Nat} {resp : Fields} :
    RaisesOnly (fun exc => ¬ IsSchemaError exc)
    (readTelemetry lib providerType modelName latencyMs resp) := by
  have count {usage : Fields} {key : String} : RaisesOnly (fun exc => ¬ IsSchemaError exc)
    (tokens lib usage key) := by
    intro exc failed
    obtain ⟨raised, rfl⟩ := tokens_raises failed
    exact raised_not_schemaError raised
  simp only [readTelemetry, raisesOnly_bind, count, true_and]
  intro i _ o _ t _
  unfold Telemetry.make
  split
  · exact raisesOnly_ok
  · exact raisesOnly_error.mpr (invalid_not_schemaError _)

/-- The message of the first choice has a text that is not blank. -/
def HasContent (resp : Fields) (content : String) : Prop :=
  ∃ first rest message, resp.get "choices" = .arr (.obj first :: rest) ∧
    Fields.get first "message" = .obj message ∧
    Fields.get message "content" = .str content ∧ content.toList.all isSpace = false

theorem extract_ok_iff {resp : Fields} {content : String} :
    extractMessageContent resp = .ok content ↔ HasContent resp content := by
  constructor
  · intro found
    unfold extractMessageContent at found
    split at found
    · next first rest choices =>
        split at found
        · next first =>
            split at found
            · next message shape =>
                split at found
                · next text known =>
                    split at found
                    · cases found
                    · next filled =>
                        cases found
                        exact ⟨first, rest, message, choices, shape, known,
                          Bool.eq_false_iff.mpr filled⟩
                · cases found
            · cases found
        · cases found
    · cases found
  · rintro ⟨first, rest, message, choices, shape, known, filled⟩
    simp only [extractMessageContent, choices, shape, known, filled]
    rfl

theorem extract_raises {resp : Fields} : RaisesOnly IsSchemaError (extractMessageContent resp) := by
  unfold extractMessageContent
  repeat' split
  all_goals first | exact raisesOnly_ok | exact raisesOnly_error.mpr rfl

/-- Reading a text as JSON raises nothing but a `JSONDecodeError`. -/
def Decodes (lib : Library) (content : String) : Prop :=
  ∀ raised, lib.loads content = .error raised → raised.cls = .jsonDecodeError

theorem parseContent_raises_iff {content : String} :
    RaisesOnly IsSchemaError (parseContent lib content) ↔ Decodes lib content := by
  unfold parseContent Decodes
  cases lib.loads content with
  | ok v =>
      refine iff_of_true ?_ nofun
      cases v with
      | obj parsed => exact raisesOnly_ok
      | null | bool | int | float | str | arr => exact raisesOnly_error.mpr rfl
  | error raised =>
      obtain ⟨cls, text⟩ := raised
      have only : (∀ other : Raised, (Except.error ⟨cls, text⟩ : Except Raised Value) =
        .error other → other.cls = .jsonDecodeError) ↔
          cls = .jsonDecodeError :=
        ⟨fun all => all _ rfl, fun same other eq => Except.error.inj eq ▸ same⟩
      rw [only]
      cases cls with
      | jsonDecodeError => exact iff_of_true (raisesOnly_error.mpr rfl) rfl
      | valueError | typeError | overflowError | recursionError | memoryError =>
          exact iff_of_false (fun raises => raised_not_schemaError _ (raisesOnly_error.mp raises))
            nofun

theorem parseContent_ok_iff {content : String} {parsed : Fields} :
    parseContent lib content = .ok parsed ↔ lib.loads content = .ok (.obj parsed) := by
  unfold parseContent
  constructor
  · intro found
    split at found
    · next parsed' loaded =>
        obtain rfl := Except.ok.inj found
        exact loaded
    all_goals cases found
  · intro loaded
    rw [loaded]

theorem str_raises_iff {P : ModelError → Prop} {v : Value}
    (foreign : ∀ raised : Raised, ¬ P raised.error) :
    RaisesOnly P (lib.str v) ↔ Renders lib v :=
  raisesOnly_iff_ok fun exc failed => by
    obtain ⟨raised, rfl⟩ := str_raises failed
    exact foreign raised

theorem float_raises_iff {v : Value} : RaisesOnly IsRejected (lib.float v) ↔ Numeric lib v := by
  rw [← float_ok_iff]
  refine raisesOnly_iff_ok fun exc failed => ?_
  obtain ⟨raised, rfl⟩ := float_raises failed
  exact raised_not_rejected raised

theorem analysis_rejected {summary invId label : String} {causes : List String}
    {telemetry : Telemetry} :
    RaisesOnly IsRejected
      (IncidentAnalysisReasoningOutput.make summary causes invId label telemetry) := by
  unfold IncidentAnalysisReasoningOutput.make
  split
  · exact raisesOnly_ok
  · exact raisesOnly_error.mpr (invalid_rejected _)

theorem validation_rejected
    {likelyCause validationStatus rationaleShort digest invId label : String} {score : PyFloat}
    {telemetry : Telemetry} : RaisesOnly IsRejected
      (IncidentValidationReasoningOutput.make lib likelyCause validationStatus
      score rationaleShort digest invId label telemetry) := by
  unfold IncidentValidationReasoningOutput.make
  split
  · exact raisesOnly_ok
  · exact raisesOnly_error.mpr (invalid_rejected _)

/-- The texts of an object that `analyze_incident` renders. -/
structure Analyzable (lib : Library) (parsed : Fields) : Prop where
  causes : ∀ causes, parsed.get "possible_causes" = .arr causes →
    ∀ cause ∈ causes, Renders lib cause
  summary : Renders lib (parsed.getOr "incident_summary" (.str ""))

/-- The texts of an object that `validate_incident` renders, and its score. -/
structure Validatable (lib : Library) (parsed : Fields) : Prop where
  texts : ∀ key ∈ ["likely_cause", "validation_status", "rationale_short", "digest"], Renders lib
    (parsed.getOr key (.str ""))
  score : Numeric lib (parsed.getOr "confidence_score" (.float (.finite 0)))

theorem renderCauses_ok_iff {v : Value} : (∃ texts, renderCauses lib v = .ok texts) ↔
    ∀ causes, v = .arr causes → ∀ cause ∈ causes, Renders lib cause := by
  cases v with
  | arr causes =>
      simp only [Value.arr.injEq, forall_eq']
      exact mapM_ok_exists
  | null | bool | int | float | str | obj => exact iff_of_true ⟨[], rfl⟩ nofun

theorem renderCauses_raises {v : Value} {exc : ModelError}
    (failed : renderCauses lib v = .error exc) :
    ∃ raised : Raised, exc = raised.error := by
  cases v with
  | arr causes =>
      obtain ⟨cause, _, failed⟩ := mapM_error failed
      exact str_raises failed
  | null | bool | int | float | str | obj => cases failed

theorem parseAnalyze_raises_iff {parsed : Fields} {invId label : String} {telemetry : Telemetry} :
    RaisesOnly IsSchemaError (parseAnalyze lib parsed invId label telemetry) ↔
      Analyzable lib parsed := by
  have never : ∀ exc, renderCauses lib (parsed.get "possible_causes") = .error exc →
    ¬ IsSchemaError exc := by
    intro exc failed
    obtain ⟨raised, rfl⟩ := renderCauses_raises failed
    exact raised_not_schemaError raised
  have summary (causes : List String) : RaisesOnly IsSchemaError (rejecting do
      let summary ← lib.str (parsed.getOr "incident_summary" (.str ""))
      IncidentAnalysisReasoningOutput.make (slice summary 0 4000) (causes.take 16) invId
        label telemetry) ↔
      Renders lib (parsed.getOr "incident_summary" (.str "")) := by
    simp only [raisesOnly_rejecting, raisesOnly_bind, str_raises_iff raised_not_rejected,
      analysis_rejected, implies_true, and_true]
  unfold parseAnalyze
  rw [raisesOnly_bind_iff_ok never summary, renderCauses_ok_iff]
  exact ⟨fun both => ⟨both.1, both.2⟩, fun both => ⟨both.causes, both.summary⟩⟩

theorem parseValidate_raises_iff {parsed : Fields} {invId label : String} {telemetry : Telemetry} :
    RaisesOnly IsSchemaError (parseValidate lib parsed invId label telemetry) ↔
      Validatable lib parsed := by
  simp only [parseValidate, raisesOnly_rejecting, raisesOnly_bind, str_raises_iff
    raised_not_rejected, float_raises_iff, validation_rejected, implies_true, and_true]
  constructor
  · rintro ⟨⟨cause, likely⟩, later⟩
    obtain ⟨⟨status, validated⟩, later⟩ := later cause likely
    obtain ⟨score, later⟩ := later status validated
    obtain ⟨x, number⟩ := float_ok_iff.mpr score
    obtain ⟨⟨rationale, short⟩, later⟩ := later x number
    refine ⟨?_, score⟩
    simp only [List.forall_mem_cons]
    exact ⟨⟨cause, likely⟩, ⟨status, validated⟩, ⟨rationale, short⟩, later rationale short, nofun⟩
  · rintro ⟨texts, score⟩
    simp only [List.forall_mem_cons] at texts
    obtain ⟨likely, validated, short, digest, _⟩ := texts
    exact ⟨likely, fun _ _ =>
      ⟨validated, fun _ _ => ⟨score, fun _ _ => ⟨short, fun _ _ => digest⟩⟩⟩⟩

/-- What both providers do with an answer, for an output of which it is known when it is built. -/
theorem chat_raises_iff {Out : Type} {providerType modelName : String} {latencyMs : Nat}
    {invId : String} {resp : Fields} {buildOutput : Fields → String → String → Telemetry →
      Except ModelError Out} {Builds : Fields → Prop}
    (short : providerType.length ≤ 32)
    (builds : ∀ parsed label telemetry, RaisesOnly IsSchemaError
      (buildOutput parsed invId label telemetry) ↔ Builds parsed) :
    RaisesOnly IsSchemaError
      (chat lib providerType modelName latencyMs invId buildOutput (.ok resp)) ↔
      Accounted lib modelName resp ∧ ∀ content, HasContent resp content →
        Decodes lib content ∧ ∀ parsed, lib.loads content = .ok (.obj parsed) → Builds parsed := by
  change RaisesOnly IsSchemaError (readTelemetry lib providerType modelName latencyMs resp >>=
    fun telemetry =>
    extractMessageContent resp >>= fun content => parseContent lib content >>= fun parsed =>
      buildOutput parsed invId (providerType ++ ":" ++ modelName) telemetry >>= fun out =>
        pure (out, telemetry)) ↔ _
  rw [← @readTelemetry_ok_iff lib _ _ latencyMs _ short]
  refine raisesOnly_bind_iff_ok readTelemetry_raises fun telemetry => ?_
  simp only [raisesOnly_bind, extract_raises, extract_ok_iff, parseContent_raises_iff,
    parseContent_ok_iff, builds, true_and]
  refine forall₂_congr fun content _ => and_congr_right' (forall₂_congr fun parsed _ => ?_)
  exact and_iff_left fun out _ => raisesOnly_ok

end

/-- A provider answers with an output of the schema or with a schema error exactly when the usage
can be reported and the content of the message can be read as far as the task reads it. -/
theorem provider_answers_iff (lib : Library) (provider : Provider) (config : Config)
    (latencyMs : Nat) (invId : String) (resp : Fields) :
    (RaisesOnly IsSchemaError (provider.analyzeIncident lib config latencyMs invId (.ok resp)) ↔
      Accounted lib (provider.modelName config) resp ∧ ∀ content, HasContent resp content →
        Decodes lib content ∧ ∀ parsed, lib.loads content = .ok (.obj parsed) →
          Analyzable lib parsed) ∧
    (RaisesOnly IsSchemaError (provider.validateIncident lib config latencyMs invId (.ok resp)) ↔
      Accounted lib (provider.modelName config) resp ∧ ∀ content, HasContent resp content →
        Decodes lib content ∧ ∀ parsed, lib.loads content = .ok (.obj parsed) →
          Validatable lib parsed) := by
  have short : provider.providerType.length ≤ 32 := by
    cases provider
    all_goals decide
  exact ⟨chat_raises_iff short fun _ _ _ => parseAnalyze_raises_iff, chat_raises_iff short
    fun _ _ _ => parseValidate_raises_iff⟩

/-- A usage block with a list where a number should be. -/
def listedTokens : Fields := [("usage", .obj [("prompt_tokens", .arr [.int 10])])]

/-- A library that reads no text but the empty object. -/
def Library.empty : Library where
  loads content := if content = "\x7b\x7d" then .ok (.obj [])
    else .error ⟨.jsonDecodeError, "Expecting value"⟩
  repr _ := .error ⟨.memoryError, ""⟩
  intOfText _ := .error "invalid literal for int() with base 10"
  floatOfText _ := .error "could not convert string to float"
  floatOfInt n := some n
  nanInBounds := true

/-- An `analyze_incident` whose answer has a list for a count of tokens. -/
def listedAnswer : Except ModelError (IncidentAnalysisReasoningOutput × Telemetry) :=
  Provider.openai.analyzeIncident .empty ⟨"gpt-4o-mini", none⟩ 12 "0" (.ok listedTokens)

theorem provider_answer_escapes : listedAnswer = .error ⟨.other "TypeError",
      "int() argument must be a string, a bytes-like object or a real number, not 'list'"⟩ ∧
    ¬ RaisesOnly IsSchemaError listedAnswer := by
  have escaped : listedAnswer = .error ⟨.other "TypeError",
      "int() argument must be a string, a bytes-like object or a real number, not 'list'"⟩ := rfl
  refine ⟨escaped, ?_⟩
  rw [escaped, raisesOnly_error]
  exact nofun

end Providers
end AgenticPlatform
