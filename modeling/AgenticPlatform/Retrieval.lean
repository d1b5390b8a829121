import AgenticPlatform.Ranking.Stable
import AgenticPlatform.Schema
import Mathlib.Algebra.Order.Field.Basic
import Mathlib.Data.List.Dedup
import Mathlib.Data.Prod.Lex
import Mathlib.Data.String.Basic

/-! Retrieval from the corpus of the knowledge service: scope, ranking and citation. Scores are
exact numbers of an ordered field. -/
namespace AgenticPlatform
namespace Knowledge

/-- `_CorpusDoc`. -/
structure CorpusDoc where
  chunkId : String
  documentId : Option String
  sourceUri : String
  title : Option String
  textExcerpt : String
  keywords : List String
  metadata : Dict
  corpusVersion : Option String

def defaultCorpusVersion : String := "phase5_local_v1"

/-- A row of the default corpus. -/
def playbook (chunkId documentId sourceUri title textExcerpt : String) (keywords : List String)
    (metadata : Dict) :
    CorpusDoc :=
  ⟨chunkId, some documentId, sourceUri, some title, textExcerpt, keywords, metadata,
    some defaultCorpusVersion⟩

def platformRunbook : Dict := [("document_type", .str "runbook"), ("team", .str "platform")]

def finopsPlaybook : Dict :=
  [("document_type", .str "playbook"), ("team", .str "finops"),
    ("workflow", .str "cost_attribution")]

def defaultCorpus : List CorpusDoc :=
  [playbook "rb-slo-001" "doc-slo-regression" "kb://runbooks/slo-regression" "SLO regression triage"
      ("When error rate and latency spike together, check recent deploys and dependency health. " ++
        "Correlate metrics window with change events.")
      ["latency", "error", "slo", "spike", "deploy", "incident"] platformRunbook,
    playbook "rb-cap-002" "doc-capacity" "kb://runbooks/capacity" "Capacity saturation"
      ("Saturation patterns include queue depth growth and timeout cascades. " ++
        "Validate autoscaling limits and downstream quotas.")
      ["capacity", "saturation", "queue", "timeout", "quota"] platformRunbook,
    playbook "rb-config-003" "doc-config-drift" "kb://runbooks/config-drift" "Configuration drift"
      ("Config drift often follows partial rollouts. " ++
        "Compare effective config revision across instances.")
      ["config", "drift", "rollout", "incident"] platformRunbook,
    playbook "cost-bill-001" "doc-billing-anomaly" "kb://billing/anomaly-playbook"
      "Spend anomaly investigation"
      ("Compare daily spend against trailing baseline. " ++
        "Attribute spikes to service, team, and region. " ++
        "Cross-check usage metrics and reserved capacity changes.")
      ["cost", "billing", "spend", "anomaly", "attribution", "usage", "metrics"] finopsPlaybook,
    playbook "cost-opt-002" "doc-optimization" "kb://billing/optimization"
      "Cost optimization candidates"
      ("Review idle resources, oversized instances, and egress-heavy services. " ++
        "Prioritize rightsizing and autoscaling policy tuning.")
      ["optimization", "rightsizing", "idle", "egress", "autoscaling", "cost"] finopsPlaybook]

/-- What the ranking needs of the standard library: `str.lower`, `math.sqrt` of a sum of squares,
and `round` to three digits, which keeps the order and the ends of the scale. -/
structure Scoring (K : Type) [Field K] [LinearOrder K] where
  lower : String → String
  sqrt : Nat → K
  round : K → K
  round_mono : Monotone round
  round_zero : round 0 = 0
  round_one : round 1 = 1

/-- `[a-zA-Z0-9_]`. -/
def isWordChar (c : Char) : Bool := c.isAlphanum || c = '_'

/-- `re.findall(r"[a-zA-Z0-9_]{least,}", text)`: the runs of such characters that are long
enough. -/
def findWords (least : Nat) (text : String) : List String :=
  ((text.toList.splitOnP fun c => !isWordChar c).filter fun word => least ≤ word.length).map
    String.ofList

/-- `part in text`. -/
def occursIn (part text : String) : Prop := part.toList <:+: text.toList

instance (part text : String) : Decidable (occursIn part text) := inferInstanceAs
    (Decidable (_ <:+: _))

/-- The citable unit, with the bounds of its schema. -/
structure EvidenceChunk (K : Type) [Field K] [LinearOrder K] where
  chunkId : String
  documentId : Option String
  sourceUri : String
  title : Option String
  textExcerpt : String
  score : K
  corpusVersion : Option String
  metadata : Dict
  documentId_le : (documentId.getD "").length ≤ 128
  corpusVersion_le : (corpusVersion.getD "").length ≤ 64
  score_nonneg : 0 ≤ score
  score_le_one : score ≤ 1

/-- A document whose fields fit the schema of the citation. -/
structure CorpusDoc.Fits (doc : CorpusDoc) : Prop where
  documentId : (doc.documentId.getD "").length ≤ 128
  corpusVersion : (doc.corpusVersion.getD "").length ≤ 64

instance (doc : CorpusDoc) : Decidable doc.Fits :=
  decidable_of_iff ((doc.documentId.getD "").length ≤ 128 ∧ (doc.corpusVersion.getD "").length ≤ 64)
    ⟨fun h => ⟨h.1, h.2⟩, fun h => ⟨h.1, h.2⟩⟩

section
variable {K : Type} [Field K] [LinearOrder K] (scoring : Scoring K)

/-- `_query_tokens`, a set. -/
def queryTokens (query : String) : List String := (findWords 2 (scoring.lower query)).dedup

/-- `_term_freq`, where the count of a term is its count in the list. -/
def termFreq (text : String) : List String := findWords 3 (scoring.lower text)

/-- `sum(a[t] * b.get(t, 0) for t in a)`. -/
def dot (a b : List String) : Nat := (a.dedup.map fun t => a.count t * b.count t).sum

/-- `_cosine_similarity`. -/
def cosineSimilarity (a b : List String) : K :=
  if a = [] ∨ b = [] then 0
  else
    let na := scoring.sqrt (dot a a)
    let nb := scoring.sqrt (dot b b)
    if na = 0 ∨ nb = 0 then 0 else (dot a b : K) / (na * nb)

/-- `str(doc.get("title") or "")`. -/
def CorpusDoc.titleText (doc : CorpusDoc) : String := doc.title.getD ""

def score (query : String) (doc : CorpusDoc) : K :=
  let tokens := queryTokens scoring query
  let kws := doc.keywords.map scoring.lower
  let overlap := (tokens.filter (· ∈ kws)).length
  let title := doc.titleText
  let titleHit := occursIn (scoring.lower title) (scoring.lower query) ∨ ∃ t ∈ tokens, occursIn t
    (scoring.lower title)
  let semantic := cosineSimilarity scoring (termFreq scoring query)
    (termFreq scoring (title ++ " " ++ doc.textExcerpt))
  (overlap : K) + (if titleHit then 1 / 2 else 0) + semantic * 2

/-- `title or None`. -/
def orNone (title : String) : Option String := if title = "" then none else some title

/-- `EvidenceChunk(…)` of a document, under a title and a score. -/
def cite (doc : CorpusDoc) (title : String) (score : K) : Except Exn (EvidenceChunk K) :=
  if fits : doc.Fits ∧ 0 ≤ score ∧ score ≤ 1 then
    .ok
      { chunkId := doc.chunkId
        documentId := doc.documentId
        sourceUri := doc.sourceUri
        title := orNone title
        textExcerpt := doc.textExcerpt
        score := score
        corpusVersion := doc.corpusVersion
        metadata := doc.metadata
        documentId_le := fits.1.documentId
        corpusVersion_le := fits.1.corpusVersion
        score_nonneg := fits.2.1
        score_le_one := fits.2.2 }
  else .error ⟨.validationError, "1 validation error for EvidenceChunk"⟩

/-- `(-x[0], x[1]["chunk_id"])`. -/
def rankKey (entry : K × CorpusDoc) : K ×ₗ String := toLex (-entry.1, entry.2.chunkId)

/-- The documents with a score above zero, with their scores. -/
def scored (query : String) (corpus : List CorpusDoc) : List (K × CorpusDoc) :=
  (corpus.map fun doc => (score scoring query doc, doc)).filter fun entry => 0 < entry.1

/-- The title that the loop over the corpus leaves in its variable. -/
def lastTitle (corpus : List CorpusDoc) : String :=
  (corpus.getLast?.map CorpusDoc.titleText).getD ""

/-- `min(1.0, s / 5.0)`, rounded. -/
def reported (s : K) : K := scoring.round (min 1 (s / 5))

def scoreAndRank (query : String) (corpus : List CorpusDoc) (maxResults : Nat) : Except Exn
    (List (EvidenceChunk K)) := do
  let ranked := Ranking.sortOn rankKey (scored scoring query corpus)
  -- the second loop reads the variable of the first one
  let title := lastTitle corpus
  let out ← (ranked.take maxResults).mapM fun entry => cite entry.2 title (reported scoring entry.1)
  match out, corpus with
  | [], doc :: _ => do
      let chunk ← cite doc doc.titleText (1 / 10)
      pure ([chunk].take maxResults)
  | _, _ => pure (out.take maxResults)

end

section
variable (text : Rendering)

/-- `_metadata_matches`. -/
def metadataMatches (docMeta filters : Dict) : Bool :=
  filters.all fun filter =>
    filter.1 = "corpus_version" || filter.2 = .null ||
      (docMeta.get filter.1 ≠ .null && text.str (docMeta.get filter.1) = text.str filter.2)

def inScope (filters : Dict) (corpusVersion : Option String) (doc : CorpusDoc) : Bool :=
  let docVersion := doc.corpusVersion.getD ""
  !(corpusVersion.getD "" ≠ "" && docVersion ≠ "" && docVersion ≠ corpusVersion.getD "") &&
    (filters.isEmpty || metadataMatches text doc.metadata filters)

def filterCorpus (corpus : List CorpusDoc) (filters : Dict) (corpusVersion : Option String) :
    List CorpusDoc :=
  let out := corpus.filter (inScope text filters corpusVersion)
  if out.isEmpty then corpus else out

/-- `value or default` of a text. -/
def textOr (value : Option String) (default : String) : String := if value.getD "" = "" then default
    else value.getD ""

def CorpusDoc.normalize (raw : CorpusDoc) : CorpusDoc where
  chunkId := raw.chunkId
  documentId := some (textOr raw.documentId raw.chunkId)
  sourceUri := raw.sourceUri
  title := some (textOr raw.title "")
  textExcerpt := raw.textExcerpt
  keywords := raw.keywords
  metadata := raw.metadata
  corpusVersion := some (textOr raw.corpusVersion defaultCorpusVersion)

/-- The label of a retrieval: the version that is asked for, or that of the first document. -/
def versionLabel (request : RetrievalRequest) (normalized : List CorpusDoc) : String :=
  textOr request.corpusVersion ((normalized.head?.bind CorpusDoc.corpusVersion).getD
    defaultCorpusVersion)

variable {K : Type} [Field K] [LinearOrder K] (scoring : Scoring K)

def retrieveFromCorpus (request : RetrievalRequest) (corpus : List CorpusDoc) :
    Except Exn (List (EvidenceChunk K) × String) := do
  let normalized := corpus.map CorpusDoc.normalize
  let scope := filterCorpus text normalized request.filters request.corpusVersion
  let chunks ← scoreAndRank scoring request.query scope request.maxResults
  pure (chunks, versionLabel request normalized)

structure RetrievalResponse (K : Type) [Field K] [LinearOrder K] where
  retrievalId : UUID
  query : String
  chunks : List (EvidenceChunk K)
  corpusVersion : String
  metadata : Dict

end

structure KnowledgeService where
  corpusVersion : String
  corpus : List CorpusDoc

namespace KnowledgeService

/-- `KnowledgeService(corpus, corpus_version=…)`; an empty corpus counts as none. -/
def init (corpus : List CorpusDoc) (corpusVersion : String) : KnowledgeService :=
  ⟨corpusVersion, if corpus.isEmpty then defaultCorpus else corpus⟩

/-- `retrieve`, given the fresh identifier and the latency of the call. -/
def retrieve {K : Type} [Field K] [LinearOrder K] (service : KnowledgeService) (text : Rendering)
    (scoring : Scoring K) (request : RetrievalRequest) (rid : UUID) (latencyMs : Nat) : Except Exn
      (RetrievalResponse K) := do
  let (chunks, version) ← retrieveFromCorpus text scoring request service.corpus
  pure
    { retrievalId := rid
      query := request.query
      chunks := chunks
      corpusVersion := textOr request.corpusVersion version
      metadata :=
        [("tenant_id", .str request.tenantId), ("workflow_type", .str request.workflowType),
          ("filters", .obj request.filters), ("latency_ms", .int latencyMs),
          ("corpus_version_requested", Json.ofOption .str request.corpusVersion)] }

end KnowledgeService
end Knowledge
end AgenticPlatform
