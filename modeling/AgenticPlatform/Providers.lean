import AgenticPlatform.ModelRuntime
import Mathlib.Data.Rat.Floor

/-! The HTTP providers of the model runtime: how the body of a chat completion becomes a structured
output. The request that is posted is left out. -/
namespace AgenticPlatform
namespace Providers

/-- A `float`. -/
inductive PyFloat where
  | finite (q : Rat)
  | inf (negative : Bool)
  | nan

/-- What `json.loads` gives, which reads `NaN` and `Infinity` too. -/
inductive Value where
  | null
  | bool (b : Bool)
  | int (n : Int)
  | float (x : PyFloat)
  | str (s : String)
  | arr (xs : List Value)
  | obj (fields : List (String × Value))

abbrev Fields := List (String × Value)

namespace Value

/-- `bool(v)`. -/
def truthy : Value → Bool
  | null => false
  | bool b => b
  | int n => n ≠ 0
  | float (.finite q) => q ≠ 0
  | float _ => true
  | str s => s ≠ ""
  | arr xs => !xs.isEmpty
  | obj fields => !fields.isEmpty

/-- `a or b`. -/
def pyOr (a b : Value) : Value := if a.truthy then a else b

/-- `v if isinstance(v, dict) else {}`. -/
def asDict : Value → Fields
  | obj fields => fields
  | _ => []

/-- `type(v).__name__`. -/
def typeName : Value → String
  | null => "NoneType"
  | bool _ => "bool"
  | int _ => "int"
  | float _ => "float"
  | str _ => "str"
  | arr _ => "list"
  | obj _ => "dict"

end Value

namespace Fields

/-- `d.get(k, default)`. -/
def getOr (d : Fields) (k : String) (default : Value) : Value :=
  ((d.find? fun field => field.1 = k).map Prod.snd).getD default

/-- `d.get(k)`. -/
def get (d : Fields) (k : String) : Value := getOr d k .null

end Fields

/-- The exceptions of the conversions. -/
inductive Builtin where
  | jsonDecodeError | valueError | typeError | overflowError | recursionError | memoryError

def Builtin.name : Builtin → String
  | jsonDecodeError => "JSONDecodeError"
  | valueError => "ValueError"
  | typeError => "TypeError"
  | overflowError => "OverflowError"
  | recursionError => "RecursionError"
  | memoryError => "MemoryError"

structure Raised where
  cls : Builtin
  text : String

def Raised.error (raised : Raised) : ModelError := ⟨.other raised.cls.name, raised.text⟩

/-- What the standard library and the schemas contribute: `json.loads`, `repr`, `int` and `float` of
a text (with the text of the `ValueError`), the nearest `float` to an integer, and whether the
bounds of a field let `NaN` pass. -/
structure Library where
  loads : String → Except Raised Value
  repr : Value → Except Raised String
  intOfText : String → Except String Int
  floatOfText : String → Except String PyFloat
  floatOfInt : Int → Option Rat
  nanInBounds : Bool

namespace Library
variable (lib : Library)

/-- `str(v)`. -/
def str : Value → Except ModelError String
  | .str s => .ok s
  | v => (lib.repr v).mapError Raised.error

/-- `int(v)`. -/
def int : Value → Except ModelError Int
  | .bool b => .ok (if b then 1 else 0)
  | .int n => .ok n
  | .float (.finite q) => .ok (if 0 ≤ q then q.floor else q.ceil)
  | .float (.inf _) =>
      .error (Raised.error ⟨.overflowError, "cannot convert float infinity to integer"⟩)
  | .float .nan => .error (Raised.error ⟨.valueError, "cannot convert float NaN to integer"⟩)
  | .str s => (lib.intOfText s).mapError fun text => Raised.error ⟨.valueError, text⟩
  | v => .error (Raised.error ⟨.typeError,
      "int() argument must be a string, a bytes-like object or a real number, not '" ++
        v.typeName ++ "'"⟩)

/-- `float(v)`. -/
def float : Value → Except ModelError PyFloat
  | .bool b => .ok (.finite (if b then 1 else 0))
  | .int n =>
      match lib.floatOfInt n with
      | some q => .ok (.finite q)
      | none => .error (Raised.error ⟨.overflowError, "int too large to convert to float"⟩)
  | .float x => .ok x
  | .str s => (lib.floatOfText s).mapError fun text => Raised.error ⟨.valueError, text⟩
  | v =>
      .error (Raised.error
        ⟨.typeError, "float() argument must be a string or a real number, not '" ++
        v.typeName ++ "'"⟩)

/-- `Field(ge=0.0, le=1.0)`. -/
def inUnit : PyFloat → Bool
  | .finite q => 0 ≤ q && q ≤ 1
  | .inf _ => false
  | .nan => lib.nanInBounds

end Library

/-- A `ValidationError`; the list of its findings is left out. -/
def invalid (model : String) : ModelError :=
  ⟨.other "ValidationError", "validation errors for " ++ model⟩

/-- Telemetry within the bounds of its schema. -/
structure Telemetry extends ModelInvocationTelemetry where
  providerType_le : providerType.length ≤ 32
  modelName_le : modelName.length ≤ 128

/-- `ModelInvocationTelemetry(…)`. -/
def Telemetry.make (latencyMs : Nat) (providerType modelName : String)
    (inputTokens outputTokens totalTokens : Int) :
    Except ModelError Telemetry :=
  if fits : providerType.length ≤ 32 ∧ modelName.length ≤ 128 ∧ 0 ≤ inputTokens ∧ 0 ≤ outputTokens ∧
    0 ≤ totalTokens then
    .ok
      { latencyMs := latencyMs
        retryCount := 0
        providerType := providerType
        modelName := modelName
        inputTokens := inputTokens.toNat
        outputTokens := outputTokens.toNat
        totalTokens := totalTokens.toNat
        timedOut := false
        providerType_le := fits.1
        modelName_le := fits.2.1 }
  else .error (invalid "ModelInvocationTelemetry")

/-- The output of `analyze_incident`, within the bounds of its schema. -/
structure IncidentAnalysisReasoningOutput where
  incidentSummary : String
  possibleCauses : List String
  modelInvocationId : String
  providerLabel : String
  invocation : Telemetry
  incidentSummary_le : incidentSummary.length ≤ 4000
  possibleCauses_le : possibleCauses.length ≤ 16
  modelInvocationId_le : modelInvocationId.length ≤ 128
  providerLabel_le : providerLabel.length ≤ 64

def IncidentAnalysisReasoningOutput.make (incidentSummary : String) (possibleCauses : List String)
    (modelInvocationId providerLabel : String) (invocation : Telemetry) :
    Except ModelError IncidentAnalysisReasoningOutput :=
  if fits : incidentSummary.length ≤ 4000 ∧ possibleCauses.length ≤ 16 ∧
    modelInvocationId.length ≤ 128 ∧
      providerLabel.length ≤ 64 then
    .ok ⟨incidentSummary, possibleCauses, modelInvocationId, providerLabel, invocation, fits.1,
      fits.2.1, fits.2.2.1, fits.2.2.2⟩
  else .error (invalid "IncidentAnalysisReasoningOutput")

/-- The output of `validate_incident`, within the bounds of its schema. -/
structure IncidentValidationReasoningOutput (lib : Library) where
  likelyCause : String
  validationStatus : String
  confidenceScore : PyFloat
  rationaleShort : String
  digest : String
  modelInvocationId : String
  providerLabel : String
  invocation : Telemetry
  likelyCause_le : likelyCause.length ≤ 128
  validationStatus_le : validationStatus.length ≤ 32
  confidenceScore_in : lib.inUnit confidenceScore = true
  rationaleShort_le : rationaleShort.length ≤ 500
  digest_le : digest.length ≤ 64
  modelInvocationId_le : modelInvocationId.length ≤ 128
  providerLabel_le : providerLabel.length ≤ 64

def IncidentValidationReasoningOutput.make (lib : Library) (likelyCause validationStatus : String)
    (confidenceScore : PyFloat) (rationaleShort digest modelInvocationId providerLabel : String)
    (invocation : Telemetry) : Except ModelError (IncidentValidationReasoningOutput lib) :=
  if fits : likelyCause.length ≤ 128 ∧ validationStatus.length ≤ 32 ∧
    lib.inUnit confidenceScore = true ∧
      rationaleShort.length ≤ 500 ∧ digest.length ≤ 64 ∧ modelInvocationId.length ≤ 128 ∧
        providerLabel.length ≤ 64 then
    .ok ⟨likelyCause, validationStatus, confidenceScore, rationaleShort, digest, modelInvocationId,
      providerLabel, invocation, fits.1, fits.2.1, fits.2.2.1, fits.2.2.2.1, fits.2.2.2.2.1,
        fits.2.2.2.2.2.1, fits.2.2.2.2.2.2⟩
  else .error (invalid "IncidentValidationReasoningOutput")

def malformed (text : String) : ModelError := ⟨.schemaValidation, text⟩

/-- `except ValidationError as exc: raise SchemaValidationModelError(str(exc)) from exc`. -/
def rejecting {α : Type} : Except ModelError α → Except ModelError α
  | .ok a => .ok a
  | .error exc => .error (if exc.kind = .other "ValidationError" then malformed exc.text else exc)

/-- `_extract_message_content`. -/
def extractMessageContent (resp : Fields) : Except ModelError String :=
  match resp.get "choices" with
  | .arr (first :: _) =>
      match first with
      | .obj first =>
          match Fields.get first "message" with
          | .obj message =>
              match Fields.get message "content" with
              | .str content =>
                  if content.toList.all isSpace then .error (malformed "empty message content")
                    else .ok content
              | _ => .error (malformed "empty message content")
          | _ => .error (malformed "missing message in choice")
      | _ => .error (malformed "invalid choice shape")
  | _ => .error (malformed "missing choices in provider response")

section
variable (lib : Library)

/-- `json.loads(content)`, of which only an object is accepted. -/
def parseContent (content : String) : Except ModelError Fields :=
  match lib.loads content with
  | .ok (.obj parsed) => .ok parsed
  | .ok _ => .error (malformed "provider response must be a JSON object")
  | .error ⟨.jsonDecodeError, text⟩ => .error (malformed ("provider JSON parse failed: " ++ text))
  | .error raised => .error raised.error

/-- `[str(x) for x in causes_raw] if isinstance(causes_raw, list) else []`. -/
def renderCauses : Value → Except ModelError (List String)
  | .arr causesRaw => causesRaw.mapM lib.str
  | _ => .ok []

def parseAnalyze (parsed : Fields) (invId label : String) (telemetry : Telemetry) :
    Except ModelError IncidentAnalysisReasoningOutput := do
  let causes ← renderCauses lib (parsed.get "possible_causes")
  rejecting do
    let summary ← lib.str (parsed.getOr "incident_summary" (.str ""))
    IncidentAnalysisReasoningOutput.make (slice summary 0 4000) (causes.take 16) invId
      label telemetry

def parseValidate (parsed : Fields) (invId label : String) (telemetry : Telemetry) :
    Except ModelError (IncidentValidationReasoningOutput lib) :=
  rejecting do
    let likelyCause ← lib.str (parsed.getOr "likely_cause" (.str ""))
    let validationStatus ← lib.str (parsed.getOr "validation_status" (.str ""))
    let confidenceScore ← lib.float (parsed.getOr "confidence_score" (.float (.finite 0)))
    let rationaleShort ← lib.str (parsed.getOr "rationale_short" (.str ""))
    let digest ← lib.str (parsed.getOr "digest" (.str ""))
    IncidentValidationReasoningOutput.make lib (slice likelyCause 0 128)
      (slice validationStatus 0 32) confidenceScore
      (slice rationaleShort 0 500) (slice digest 0 64) invId label telemetry

/-- `int(usage.get(key) or 0)`. -/
def tokens (usage : Fields) (key : String) : Except ModelError Int :=
  lib.int ((usage.get key).pyOr (.int 0))

/-- The telemetry of a response. -/
def readTelemetry (providerType modelName : String) (latencyMs : Nat) (resp : Fields) :
    Except ModelError Telemetry := do
  let usage := (resp.get "usage").asDict
  let inputTokens ← tokens lib usage "prompt_tokens"
  let outputTokens ← tokens lib usage "completion_tokens"
  let totalTokens ← tokens lib usage "total_tokens"
  Telemetry.make latencyMs providerType modelName inputTokens outputTokens totalTokens

/-- What both providers do with an answer of the HTTP layer. -/
def chat {Out : Type} (providerType modelName : String) (latencyMs : Nat) (invId : String)
    (buildOutput : Fields → String → String → Telemetry → Except ModelError Out)
    (post : Except ModelError Fields) :
    Except ModelError (Out × Telemetry) := do
  let resp ← post
  let telemetry ← readTelemetry lib providerType modelName latencyMs resp
  let content ← extractMessageContent resp
  let parsed ← parseContent lib content
  let out ← buildOutput parsed invId (providerType ++ ":" ++ modelName) telemetry
  pure (out, telemetry)

/-- What the providers read of `ModelRuntimeConfig`. -/
structure Config where
  modelName : String
  azureDeployment : Option String

inductive Provider where
  | openai | azureOpenai
  deriving DecidableEq

namespace Provider

/-- The name under which a model is billed: Azure has deployments. -/
def modelName (config : Config) : Provider → String
  | openai => config.modelName
  | azureOpenai => if config.azureDeployment.getD "" = "" then config.modelName
    else config.azureDeployment.getD ""

/-- `provider_type`. -/
def providerType : Provider → String
  | openai => "openai"
  | azureOpenai => "azure_openai"

/-- `_invoke`, given the latency of the request and the fresh identifier. -/
def invoke {Out : Type} (provider : Provider) (config : Config) (latencyMs : Nat) (invId : String)
    (buildOutput : Fields → String → String → Telemetry → Except ModelError Out)
    (post : Except ModelError Fields) :
    Except ModelError (Out × Telemetry) :=
  chat lib provider.providerType (provider.modelName config) latencyMs invId buildOutput post

def analyzeIncident (provider : Provider) (config : Config) (latencyMs : Nat) (invId : String)
    (post : Except ModelError Fields) : Except ModelError
      (IncidentAnalysisReasoningOutput × Telemetry) :=
  provider.invoke lib config latencyMs invId (parseAnalyze lib) post

def validateIncident (provider : Provider) (config : Config) (latencyMs : Nat) (invId : String)
    (post : Except ModelError Fields) : Except ModelError
      (IncidentValidationReasoningOutput lib × Telemetry) :=
  provider.invoke lib config latencyMs invId (parseValidate lib) post

end Provider

end
end Providers
end AgenticPlatform
