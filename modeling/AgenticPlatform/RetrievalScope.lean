import AgenticPlatform.RetrievalRanking

/-! The documents that a retrieval returns: when each is cited correctly, and when all of them are
in the scope of the request. -/
namespace AgenticPlatform
open Interaction
namespace Knowledge

section
variable {K : Type} [Field K] [LinearOrder K] {scoring : Scoring K} {query : String}
  {scope : List CorpusDoc} {n : Nat}

/-- A document of positive score that fewer than `n` others outrank. -/
def Top (scoring : Scoring K) (query : String) (scope : List CorpusDoc) (n : Nat)
    (doc : CorpusDoc) : Prop :=
  Ranking.Among rankKey n (scored scoring query scope) (score scoring query doc, doc)

/-- A document at the top, or the first one of a scope without any positive score. -/
def Returned (scoring : Scoring K) (query : String) (scope : List CorpusDoc) (n : Nat)
    (doc : CorpusDoc) : Prop :=
  Top scoring query scope n doc ∨ scored scoring query scope = [] ∧ scope.head? = some doc

theorem mem_topScored {entry : K × CorpusDoc} : entry ∈ topScored scoring query scope n ↔
    entry.1 = score scoring query entry.2 ∧ Top scoring query scope n entry.2 := by
  obtain ⟨s, doc⟩ := entry
  constructor
  · intro top
    obtain rfl : s = score scoring query doc := (mem_scored.mp (topScored_subset top)).2.1
    exact ⟨rfl, Ranking.mem_take_sortOn.mp top⟩
  · rintro ⟨same, top⟩
    obtain rfl : s = score scoring query doc := same
    exact Ranking.mem_take_sortOn.mpr top

theorem top_mem {doc : CorpusDoc} : (score scoring query doc, doc) ∈ topScored scoring
    query scope n ↔
    Top scoring query scope n doc := by
  rw [mem_topScored]
  exact and_iff_right rfl

theorem topScored_eq_nil_iff (asked : 1 ≤ n) : topScored scoring query scope n = [] ↔
    scored scoring query scope = [] := by
  unfold topScored
  rw [List.take_eq_nil_iff]
  constructor
  · rintro (none | empty)
    · omega
    · exact List.perm_nil.mp (empty ▸ Ranking.sortOn_perm.symm)
  · intro empty
    rw [empty]
    exact .inr rfl

theorem returned_mem {doc : CorpusDoc} (returned : Returned scoring query scope n doc) :
    doc ∈ scope := by
  rcases returned with top | ⟨_, first⟩
  · exact (mem_scored.mp (topScored_subset (top_mem.mpr top))).1
  · exact List.mem_of_mem_head? first

theorem exists_returned (asked : 1 ≤ n) (inhabited : scope ≠ []) :
    ∃ doc, Returned scoring query scope n doc := by
  cases top : topScored scoring query scope n with
  | nil =>
      obtain ⟨doc, rest, rfl⟩ := List.exists_cons_of_ne_nil inhabited
      exact ⟨doc, .inr ⟨(topScored_eq_nil_iff asked).mp top, rfl⟩⟩
  | cons entry rest =>
      have member : entry ∈ topScored scoring query scope n := top ▸ List.mem_cons_self
      exact ⟨entry.2, .inl (mem_topScored.mp member).2⟩

variable [IsStrictOrderedRing K]

/-- The title under which a document is cited. -/
def titleOf (scoring : Scoring K) (query : String) (scope : List CorpusDoc)
    (doc : CorpusDoc) : String :=
  if scored scoring query scope = [] then doc.titleText else lastTitle scope

/-- The chunks of a ranking are the citations of what is returned, which all have to fit the
schema. -/
theorem scoreAndRank_returned (asked : 1 ≤ n) :
    (∀ chunks, scoreAndRank scoring query scope n = .ok chunks →
      (∀ chunk ∈ chunks, ∃ doc s, Returned scoring query scope n doc ∧
        CitedAs chunk doc (titleOf scoring query scope doc) s) ∧
      ∀ doc, Returned scoring query scope n doc → ∃ chunk ∈ chunks, ∃ s,
        CitedAs chunk doc (titleOf scoring query scope doc) s) ∧
    ((∃ chunks, scoreAndRank scoring query scope n = .ok chunks) ↔
      ∀ doc, Returned scoring query scope n doc → doc.Fits) := by
  by_cases none : topScored scoring query scope n = []
  · have empty := (topScored_eq_nil_iff asked).mp none
    have returned {doc : CorpusDoc} : Returned scoring query scope n doc ↔
      scope.head? = some doc := by
      refine ⟨fun returned => ?_, fun first => .inr ⟨empty, first⟩⟩
      rcases returned with top | ⟨_, first⟩
      · have member := top_mem.mpr top
        rw [none] at member
        cases member
      · exact first
    have title (doc : CorpusDoc) : titleOf scoring query scope doc = doc.titleText := if_pos empty
    obtain ⟨whole, made⟩ := scoreAndRank_fallback none asked
    simp only [returned, title]
    refine ⟨fun chunks answer => ?_, made⟩
    have cited := whole chunks answer
    constructor
    · intro chunk member
      obtain ⟨doc, first, holds⟩ := forall₂_right cited _ member
      exact ⟨doc, _, Option.mem_toList.mp first, holds⟩
    · intro doc first
      obtain ⟨chunk, member, holds⟩ := forall₂_right cited.flip _ (Option.mem_toList.mpr first)
      exact ⟨chunk, member, _, holds⟩
  · have some : scored scoring query scope ≠ [] :=
      fun empty => none ((topScored_eq_nil_iff asked).mpr empty)
    have returned {doc : CorpusDoc} : Returned scoring query scope n doc ↔
      Top scoring query scope n doc :=
      or_iff_left fun both => some both.1
    have title (doc : CorpusDoc) : titleOf scoring query scope doc = lastTitle scope := if_neg some
    obtain ⟨whole, made⟩ := scoreAndRank_top none
    simp only [returned, title]
    refine ⟨fun chunks answer => ?_, ?_⟩
    · have cited := whole chunks answer
      constructor
      · intro chunk member
        obtain ⟨entry, top, holds⟩ := forall₂_right cited _ member
        exact ⟨entry.2, _, (mem_topScored.mp top).2, holds⟩
      · intro doc top
        obtain ⟨chunk, member, holds⟩ := forall₂_right cited.flip _ (top_mem.mpr top)
        exact ⟨chunk, member, _, holds⟩
    · rw [made]
      constructor
      · exact fun fits doc top => fits _ (top_mem.mpr top)
      · exact fun fits entry top => fits entry.2 (mem_topScored.mp top).2

/-- A chunk carries the fields of a document. -/
structure CitesDoc (chunk : EvidenceChunk K) (doc : CorpusDoc) : Prop where
  documentId : chunk.documentId = doc.documentId
  sourceUri : chunk.sourceUri = doc.sourceUri
  title : chunk.title = orNone doc.titleText
  textExcerpt : chunk.textExcerpt = doc.textExcerpt
  corpusVersion : chunk.corpusVersion = doc.corpusVersion
  metadata : chunk.metadata = doc.metadata

/-- Each chunk has the identifier of a document of the corpus, and carries the fields of every
document that has it. -/
def CitedCorrectly (corpus : List CorpusDoc) (chunks : List (EvidenceChunk K)) : Prop :=
  ∀ chunk ∈ chunks, (∃ doc ∈ corpus, doc.chunkId = chunk.chunkId) ∧
    ∀ doc ∈ corpus, doc.chunkId = chunk.chunkId → CitesDoc chunk doc.normalize

/-- Whatever a retrieval from the corpus returns is cited correctly. -/
def CitesCorrectly (text : Rendering) (scoring : Scoring K) (request : RetrievalRequest)
    (corpus : List CorpusDoc) : Prop :=
  ∀ chunks version, retrieveFromCorpus text scoring request corpus = .ok (chunks, version) →
    CitedCorrectly corpus chunks

omit [IsStrictOrderedRing K] in
theorem CitedAs.citesDoc_iff {chunk : EvidenceChunk K} {doc : CorpusDoc} {title : String} {s : K}
    (cited : CitedAs chunk doc title s) : CitesDoc chunk doc ↔ title = doc.titleText := by
  constructor
  · intro cites
    have same : orNone title = orNone doc.titleText := cited.title.symm.trans cites.title
    unfold orNone at same
    split at same
    · split at same
      · next empty empty' => rw [empty, empty']
      · cases same
    · split at same
      · cases same
      · exact Option.some.inj same
  · rintro rfl
    exact ⟨cited.documentId, cited.sourceUri, cited.title, cited.textExcerpt, cited.corpusVersion,
      cited.metadata⟩

section
variable (text : Rendering) (request : RetrievalRequest) (corpus : List CorpusDoc)

/-- The documents that a retrieval ranks. -/
def scopeOf : List CorpusDoc :=
  filterCorpus text (corpus.map CorpusDoc.normalize) request.filters request.corpusVersion

variable {text request corpus}

theorem scopeOf_subset {doc : CorpusDoc} (member : doc ∈ scopeOf text request corpus) :
    ∃ raw ∈ corpus, raw.normalize = doc := by
  unfold scopeOf filterCorpus at member
  simp only at member
  split at member
  · exact List.mem_map.mp member
  · exact List.mem_map.mp (List.mem_of_mem_filter member)

omit [IsStrictOrderedRing K] in
theorem retrieveFromCorpus_ok {chunks : List (EvidenceChunk K)} {version : String} :
    retrieveFromCorpus text scoring request corpus = .ok (chunks, version) ↔
      scoreAndRank scoring request.query (scopeOf text request corpus) request.maxResults =
        .ok chunks ∧
        versionLabel request (corpus.map CorpusDoc.normalize) = version := by
  unfold retrieveFromCorpus scopeOf
  dsimp only
  cases scoreAndRank scoring request.query
      (filterCorpus text (corpus.map CorpusDoc.normalize) request.filters request.corpusVersion)
        request.maxResults with
  | error e =>
      refine iff_of_false ?_ ?_
      · rintro ⟨⟩
      · rintro ⟨⟨⟩, _⟩
  | ok found =>
      constructor
      · intro same
        obtain ⟨rfl, rfl⟩ := Prod.mk.inj (Except.ok.inj same)
        exact ⟨rfl, rfl⟩
      · rintro ⟨same, rfl⟩
        obtain rfl := Except.ok.inj same
        rfl

end

/-- A citation of what is returned is refused by the schema, so that the retrieval raises. -/
def Refused (scoring : Scoring K) (query : String) (scope : List CorpusDoc) (n : Nat) : Prop :=
  ∃ doc, Returned scoring query scope n doc ∧ ¬ doc.Fits

/-- Every retrieval cites correctly exactly when all documents at the top have the title of the last
document in scope, unless the retrieval raises. -/
theorem citations_correct_iff (text : Rendering) (scoring : Scoring K) (request : RetrievalRequest)
    (corpus : List CorpusDoc) (asked : 1 ≤ request.maxResults)
    (distinct : (corpus.map CorpusDoc.chunkId).Nodup) :
    CitesCorrectly text scoring request corpus ↔
      Refused scoring request.query (scopeOf text request corpus) request.maxResults ∨
        ∀ doc, Top scoring request.query (scopeOf text request corpus) request.maxResults doc →
          doc.titleText = lastTitle (scopeOf text request corpus) := by
  obtain ⟨whole, made⟩ := @scoreAndRank_returned K _ _ scoring request.query
    (scopeOf text request corpus)
    request.maxResults _ asked
  simp only [CitesCorrectly, retrieveFromCorpus_ok]
  constructor
  · intro correct
    by_cases refused : Refused scoring request.query (scopeOf text request corpus)
      request.maxResults
    · exact .inl refused
    · refine .inr fun doc top => ?_
      simp only [Refused, not_exists, not_and, not_not] at refused
      obtain ⟨chunks, answer⟩ := made.mpr refused
      obtain ⟨chunk, member, s, cited⟩ := (whole chunks answer).2 doc (.inl top)
      obtain ⟨raw, known, rfl⟩ :=
        scopeOf_subset (returned_mem (.inl top : Returned scoring request.query _ _ doc))
      have title := cited.citesDoc_iff.mp
        ((correct chunks _ ⟨answer, rfl⟩ chunk member).2 raw known cited.chunkId.symm)
      rw [← title, titleOf, if_neg]
      intro empty
      have ranked := mem_scored.mp (topScored_subset (top_mem.mpr top))
      rw [← mem_scored, empty] at ranked
      cases ranked
  · rintro (⟨doc, returned, unfit⟩ | same) chunks version ⟨answer, _⟩ chunk member
    · exact absurd (made.mp ⟨chunks, answer⟩ doc returned) unfit
    · obtain ⟨doc, s, returned, cited⟩ := (whole chunks answer).1 chunk member
      obtain ⟨raw, known, rfl⟩ := scopeOf_subset (returned_mem returned)
      refine ⟨⟨raw, known, cited.chunkId.symm⟩, fun other member' sameId => ?_⟩
      obtain rfl : other = raw := List.inj_on_of_nodup_map distinct member' known
        (sameId.trans cited.chunkId)
      refine cited.citesDoc_iff.mpr ?_
      unfold titleOf
      rcases returned with top | ⟨empty, _⟩
      · split
        · rfl
        · exact (same _ top).symm
      · exact if_pos empty

end

/-- A request without filters and version. -/
def plainRequest (query : String) : RetrievalRequest where
  tenantId := "t"
  workflowType := "incident_triage"
  query := query
  maxResults := 5
  filters := []
  corpusVersion := none
  correlationRequestId := none

/-- What a retrieval cites, by identifier and title. -/
def citedTitles (request : RetrievalRequest) (corpus : List CorpusDoc) : List
    (String × Option String) :=
  match retrieveFromCorpus .flat Scoring.rational request corpus with
  | .ok (chunks, _) => chunks.map fun chunk => (chunk.chunkId, chunk.title)
  | .error _ => []

/-- A query for the first of two documents, which is cited under the title of the second. -/
theorem citation_mistitled : citedTitles (plainRequest "go") twoTitles = [("a", some "Ada")] ∧
    ¬ CitesCorrectly .flat Scoring.rational (plainRequest "go") twoTitles := by
  have titles : citedTitles (plainRequest "go") twoTitles = [("a", some "Ada")] := by decide +kernel
  refine ⟨titles, fun correct => ?_⟩
  unfold citedTitles at titles
  split at titles
  · next chunks version answer =>
      obtain ⟨chunk, member, same⟩ : ∃ chunk ∈ chunks, (chunk.chunkId, chunk.title) =
        ("a", some "Ada") :=
        List.mem_map.mp (titles ▸ List.mem_cons_self)
      obtain ⟨id, title⟩ := Prod.mk.inj same
      have cites := (correct chunks version answer chunk member).2 (twoTitles.get ⟨0, by decide⟩)
        (List.get_mem _ _) id.symm
      have wrong : some "Ada" = some "Go" := title.symm.trans cites.title
      exact absurd wrong (by decide)
  · cases titles

/-- A query for the second of two documents, whose title is that of the citation. -/
theorem citations_correct_single : citedTitles
    (plainRequest "ada") twoTitles = [("b", some "Ada")] ∧
    CitesCorrectly .flat Scoring.rational (plainRequest "ada") twoTitles := by
  have titles : citedTitles (plainRequest "ada") twoTitles = [("b", some "Ada")] := by
    decide +kernel
  have titled :
    ∀ entry ∈ topScored Scoring.rational "ada" (scopeOf .flat (plainRequest "ada") twoTitles) 5,
      entry.2.titleText = lastTitle (scopeOf .flat (plainRequest "ada") twoTitles) := by
    decide +kernel
  refine ⟨titles, ?_⟩
  exact (citations_correct_iff .flat .rational (plainRequest "ada") twoTitles (by decide)
    (by decide)).mpr
    (.inr fun doc top => titled _ (top_mem.mpr top))

section
variable {K : Type} [Field K] [LinearOrder K] {scoring : Scoring K} {text : Rendering}
  {request : RetrievalRequest}
  {corpus : List CorpusDoc}

/-- A metadata filter that metadata satisfy: it is null, or the key has the same string value. -/
def Satisfies (text : Rendering) (metadata : Dict) (filter : String × Json) : Prop :=
  filter.2 = .null ∨ metadata.get filter.1 ≠ .null ∧ text.str (metadata.get filter.1) =
    text.str filter.2

/-- Metadata and a version that are in the scope of a request. -/
structure Admits (text : Rendering) (request : RetrievalRequest) (metadata : Dict)
    (version : Option String) : Prop where
  filters : ∀ filter ∈ request.filters, Satisfies text metadata filter
  version : ∀ v, request.corpusVersion = some v → v ≠ "" → version = some v

/-- What the caller of a retrieval may rely on. -/
structure StaysInScope (text : Rendering) (request : RetrievalRequest) (corpus : List CorpusDoc)
    (response : RetrievalResponse K) : Prop where
  admitted : ∀ chunk ∈ response.chunks, Admits text request chunk.metadata chunk.corpusVersion
  nothing : (∀ doc ∈ corpus, ¬ Admits text request doc.normalize.metadata
    doc.normalize.corpusVersion) →
    response.chunks = []
  label : ∀ chunk ∈ response.chunks, chunk.corpusVersion = some response.corpusVersion

/-- Every response of the service stays in the scope of the request. -/
def KnowledgeService.KeepsScope (service : KnowledgeService) (text : Rendering)
    (scoring : Scoring K) (request : RetrievalRequest) (rid : UUID) (latencyMs : Nat) : Prop :=
  ∀ response, service.retrieve text scoring request rid latencyMs = .ok response →
    StaysInScope text request service.corpus response

theorem textOr_ne {value : Option String} {default : String} (named : default ≠ "") :
    textOr value default ≠ "" := by
  unfold textOr
  split
  · exact named
  · next some => exact some

theorem textOr_some {v default : String} (named : v ≠ "") : textOr (some v) default = v :=
  if_neg named

theorem metadataMatches_iff {metadata filters : Dict} :
    metadataMatches text metadata filters = true ↔
    ∀ filter ∈ filters, filter.1 ≠ "corpus_version" → Satisfies text metadata filter := by
  simp only [metadataMatches, List.all_eq_true, Bool.or_eq_true, Bool.and_eq_true,
    decide_eq_true_eq, Satisfies, or_assoc, ne_eq]
  exact forall₂_congr fun filter _ => or_iff_not_imp_left

/-- The filter of the code, which leaves out the key of the version. -/
theorem inScope_iff {raw : CorpusDoc} : inScope text request.filters request.corpusVersion
    raw.normalize = true ↔
    (∀ filter ∈ request.filters, filter.1 ≠ "corpus_version" → Satisfies text raw.metadata filter) ∧
      ∀ v, request.corpusVersion = some v → v ≠ "" → raw.normalize.corpusVersion = some v := by
  have dated : textOr raw.corpusVersion defaultCorpusVersion ≠ "" := textOr_ne (by decide)
  have unfiltered : request.filters.isEmpty = true →
      ∀ filter ∈ request.filters, filter.1 ≠ "corpus_version" →
        Satisfies text raw.metadata filter := by
    intro none filter member
    rw [List.isEmpty_iff.mp none] at member
    cases member
  unfold inScope
  rw [Bool.and_eq_true, Bool.or_eq_true, metadataMatches_iff, and_comm]
  refine and_congr ⟨fun either => either.elim unfiltered id, .inr⟩ ?_
  cases request.corpusVersion with
  | none => simp
  | some v =>
      by_cases empty : v = ""
      · simp [empty]
      · simp only [CorpusDoc.normalize, dated, empty, Option.getD_some, Option.some.injEq, ne_eq,
          not_false_eq_true, decide_true, Bool.true_and, Bool.not_eq_true',
            forall_eq', forall_const]
        exact decide_eq_false_iff_not.trans not_not

/-- What a response is made of. -/
theorem retrieve_ok {service : KnowledgeService} {rid : UUID} {latencyMs : Nat}
    {response : RetrievalResponse K}
    (answer : service.retrieve text scoring request rid latencyMs = .ok response) :
    scoreAndRank scoring request.query (scopeOf text request service.corpus) request.maxResults =
      .ok response.chunks ∧
      response.corpusVersion = textOr request.corpusVersion
        (versionLabel request (service.corpus.map CorpusDoc.normalize)) := by
  unfold KnowledgeService.retrieve at answer
  cases found : retrieveFromCorpus text scoring request service.corpus with
  | error e =>
      rw [found] at answer
      cases answer
  | ok result =>
      obtain ⟨chunks, version⟩ := result
      rw [found] at answer
      obtain ⟨ranked, rfl⟩ := retrieveFromCorpus_ok.mp found
      cases answer
      exact ⟨ranked, rfl⟩

theorem retrieve_answers {service : KnowledgeService} {chunks : List (EvidenceChunk K)} (rid : UUID)
    (latencyMs : Nat)
    (ranked : scoreAndRank scoring request.query (scopeOf text request service.corpus)
      request.maxResults = .ok chunks) :
    ∃ response, service.retrieve text scoring request rid latencyMs = .ok response ∧
      response.chunks = chunks := by
  unfold KnowledgeService.retrieve
  rw [retrieveFromCorpus_ok.mpr ⟨ranked, rfl⟩]
  exact ⟨_, rfl, rfl⟩

theorem versionLabel_unnamed {normalized : List CorpusDoc}
    (unnamed : request.corpusVersion.getD "" = "") :
    textOr request.corpusVersion (versionLabel request normalized) =
      (normalized.head?.bind CorpusDoc.corpusVersion).getD defaultCorpusVersion := by
  unfold versionLabel textOr
  rw [if_pos unnamed, if_pos unnamed]

/-- Something of the corpus matches, what is returned has the version that a filter of that name
asks for, and without a version in the request it has that of the first document. -/
structure Matched (text : Rendering) (scoring : Scoring K) (request : RetrievalRequest)
    (corpus : List CorpusDoc) :
    Prop where
  some : ∃ doc ∈ corpus, inScope text request.filters request.corpusVersion doc.normalize = true
  filtered : ∀ doc, Returned scoring request.query (scopeOf text request corpus)
    request.maxResults doc →
    ∀ filter ∈ request.filters, filter.1 = "corpus_version" → Satisfies text doc.metadata filter
  labelled : request.corpusVersion.getD "" = "" →
    ∀ doc, Returned scoring request.query (scopeOf text request corpus) request.maxResults doc →
      doc.corpusVersion = (corpus.map CorpusDoc.normalize).head?.bind CorpusDoc.corpusVersion

theorem scopeOf_ne_nil (inhabited : corpus ≠ []) : scopeOf text request corpus ≠ [] := by
  unfold scopeOf filterCorpus
  dsimp only
  split
  · simpa using inhabited
  · next some => exact fun empty => some (List.isEmpty_iff.mpr empty)

theorem scopeOf_inScope {doc : CorpusDoc} (member : doc ∈ scopeOf text request corpus)
    (some : ∃ doc ∈ corpus, inScope text request.filters request.corpusVersion
      doc.normalize = true) :
    ∃ raw ∈ corpus, raw.normalize = doc ∧ inScope text request.filters request.corpusVersion
      raw.normalize = true := by
  unfold scopeOf filterCorpus at member
  dsimp only at member
  split at member
  · next none =>
      obtain ⟨found, known, fits⟩ := some
      have kept := List.mem_filter.mpr ⟨List.mem_map_of_mem known, fits⟩
      rw [List.isEmpty_iff.mp none] at kept
      cases kept
  · obtain ⟨kept, fits⟩ := List.mem_filter.mp member
    obtain ⟨raw, known, rfl⟩ := List.mem_map.mp kept
    exact ⟨raw, known, rfl, fits⟩

theorem Admits.inScope {raw : CorpusDoc}
    (admits : Admits text request raw.metadata raw.normalize.corpusVersion) :
    inScope text request.filters request.corpusVersion raw.normalize = true :=
  inScope_iff.mpr ⟨fun filter member _ => admits.filters filter member, admits.version⟩

theorem admits_of_inScope {raw : CorpusDoc}
    (fits : Knowledge.inScope text request.filters request.corpusVersion raw.normalize = true)
    (filtered : ∀ filter ∈ request.filters, filter.1 = "corpus_version" →
      Satisfies text raw.metadata filter) :
    Admits text request raw.metadata raw.normalize.corpusVersion := by
  obtain ⟨filters, version⟩ := inScope_iff.mp fits
  refine ⟨fun filter member => ?_, version⟩
  by_cases versioned : filter.1 = "corpus_version"
  · exact filtered filter member versioned
  · exact filters filter member versioned

/-- The first document has the version that labels a request without one. -/
theorem head_version (inhabited : corpus ≠ []) :
    (corpus.map CorpusDoc.normalize).head?.bind CorpusDoc.corpusVersion =
    some (((corpus.map CorpusDoc.normalize).head?.bind CorpusDoc.corpusVersion).getD
      defaultCorpusVersion) := by
  obtain ⟨raw, rest, rfl⟩ := List.exists_cons_of_ne_nil inhabited
  rfl

variable [IsStrictOrderedRing K]

/-- What a response that stays in scope says of the documents that are returned. -/
theorem matched_of_stays {service : KnowledgeService} {rid : UUID} {latencyMs : Nat}
    (asked : 1 ≤ request.maxResults)
    (stays : ∀ response, service.retrieve text scoring request rid latencyMs = .ok response →
      StaysInScope text request service.corpus response)
    (accepted : ∀ doc, Returned scoring request.query (scopeOf text request service.corpus)
      request.maxResults doc → doc.Fits)
    (inhabited : service.corpus ≠ []) : Matched text scoring request service.corpus := by
  obtain ⟨whole, made⟩ := @scoreAndRank_returned K _ _ scoring request.query
    (scopeOf text request service.corpus)
    request.maxResults _ asked
  obtain ⟨chunks, ranked⟩ := made.mpr accepted
  obtain ⟨response, answer, rfl⟩ := retrieve_answers rid latencyMs ranked
  have label := (retrieve_ok answer).2
  have scope := stays response answer
  have cited {doc : CorpusDoc} (returned : Returned scoring request.query
    (scopeOf text request service.corpus)
      request.maxResults doc) : Admits text request doc.metadata doc.corpusVersion ∧
        doc.corpusVersion = some response.corpusVersion := by
    obtain ⟨chunk, member, s, cited⟩ := (whole _ ranked).2 doc returned
    have admitted := scope.admitted chunk member
    have labelled := scope.label chunk member
    rw [cited.metadata, cited.corpusVersion] at admitted
    rw [cited.corpusVersion] at labelled
    exact ⟨admitted, labelled⟩
  constructor
  · obtain ⟨doc, returned⟩ := @exists_returned K _ _ scoring request.query _
      request.maxResults asked
      (@scopeOf_ne_nil text request _ inhabited)
    obtain ⟨raw, known, rfl⟩ := scopeOf_subset (returned_mem returned)
    exact ⟨raw, known, (cited returned).1.inScope⟩
  · exact fun doc returned filter member _ => (cited returned).1.filters filter member
  · intro unnamed doc returned
    rw [(cited returned).2, label, versionLabel_unnamed unnamed, ← head_version inhabited]

theorem stays_of_matched {service : KnowledgeService} {rid : UUID} {latencyMs : Nat}
    (asked : 1 ≤ request.maxResults) (matched : Matched text scoring request service.corpus)
    (response : RetrievalResponse K)
    (answer : service.retrieve text scoring request rid latencyMs = .ok response) :
    StaysInScope text request service.corpus response := by
  obtain ⟨ranked, label⟩ := retrieve_ok answer
  have cited {chunk : EvidenceChunk K} (member : chunk ∈ response.chunks) : ∃ raw ∈ service.corpus,
      Admits text request raw.normalize.metadata raw.normalize.corpusVersion ∧ chunk.metadata =
        raw.metadata ∧
        chunk.corpusVersion = raw.normalize.corpusVersion ∧
        Returned scoring request.query (scopeOf text request service.corpus) request.maxResults
          raw.normalize := by
    obtain ⟨doc, s, returned, cited⟩ := (((scoreAndRank_returned asked).1 _ ranked).1 chunk member)
    obtain ⟨raw, known, rfl, fits⟩ := scopeOf_inScope (returned_mem returned) matched.some
    exact ⟨raw, known, admits_of_inScope fits (matched.filtered raw.normalize returned),
      cited.metadata, cited.corpusVersion, returned⟩
  constructor
  · intro chunk member
    obtain ⟨raw, _, admits, metadata, version, _⟩ := cited member
    rw [metadata, version]
    exact admits
  · intro none
    refine List.eq_nil_iff_forall_not_mem.mpr fun chunk member => ?_
    obtain ⟨raw, known, admits, _⟩ := cited member
    exact none raw known admits
  · intro chunk member
    obtain ⟨raw, known, admits, _, version, returned⟩ := cited member
    rw [version, label]
    by_cases unnamed : request.corpusVersion.getD "" = ""
    · rw [versionLabel_unnamed unnamed, matched.labelled unnamed _ returned]
      exact head_version fun empty => by
        rw [empty] at known
        cases known
    · cases asked' : request.corpusVersion with
      | none =>
          rw [asked'] at unnamed
          exact absurd rfl unnamed
      | some v =>
          rw [asked'] at unnamed
          have named : v ≠ "" := unnamed
          rw [admits.version v asked' named, textOr_some named]

/-- Every response stays in the scope of the request exactly when the corpus is empty or matched,
unless the retrieval raises. -/
theorem stays_in_scope_iff (text : Rendering) (scoring : Scoring K) (service : KnowledgeService)
    (request : RetrievalRequest) (rid : UUID) (latencyMs : Nat) (asked : 1 ≤ request.maxResults) :
    service.KeepsScope text scoring request rid latencyMs ↔
    Refused scoring request.query (scopeOf text request service.corpus) request.maxResults ∨
      service.corpus = [] ∨
      Matched text scoring request service.corpus := by
  constructor
  · intro stays
    by_cases refused : Refused scoring request.query (scopeOf text request service.corpus)
      request.maxResults
    · exact .inl refused
    · simp only [Refused, not_exists, not_and, not_not] at refused
      by_cases empty : service.corpus = []
      · exact .inr (.inl empty)
      · exact .inr (.inr (matched_of_stays asked stays refused empty))
  · rintro (⟨doc, returned, unfit⟩ | empty | matched) response answer
    · have fits := (scoreAndRank_returned asked).2.mp ⟨_, (retrieve_ok answer).1⟩
      exact absurd (fits doc returned) unfit
    · have ranked := (retrieve_ok answer).1
      have none : ∀ chunk, chunk ∉ response.chunks := by
        intro chunk member
        obtain ⟨doc, s, returned, _⟩ := ((scoreAndRank_returned asked).1 _ ranked).1 chunk member
        obtain ⟨raw, known, _⟩ := scopeOf_subset (returned_mem returned)
        rw [empty] at known
        cases known
      exact ⟨fun chunk member => absurd member (none chunk), fun _ =>
        List.eq_nil_iff_forall_not_mem.mpr none, fun chunk member => absurd member (none chunk)⟩
    · exact stays_of_matched asked matched response answer

end

/-- A request for the version `v9`, which no document has. -/
def unknownVersion : RetrievalRequest := { plainRequest "go" with corpusVersion := some "v9" }

/-- What a service answers with, by identifier and version. -/
def citedVersions (request : RetrievalRequest) (corpus : List CorpusDoc) : List
    (String × Option String) :=
  match KnowledgeService.retrieve ⟨defaultCorpusVersion, corpus⟩ .flat Scoring.rational
    request ⟨1⟩ 0 with
  | .ok response => response.chunks.map fun chunk => (chunk.chunkId, chunk.corpusVersion)
  | .error _ => []

/-- Nothing has the version that is asked for, and a document of another version is returned. -/
theorem scope_left : citedVersions unknownVersion twoTitles = [("a", some "phase5_local_v1")] ∧
    ¬ KnowledgeService.KeepsScope ⟨defaultCorpusVersion, twoTitles⟩ .flat Scoring.rational
      unknownVersion ⟨1⟩ 0 := by
  have versions : citedVersions unknownVersion twoTitles = [("a", some "phase5_local_v1")] := by
    decide +kernel
  refine ⟨versions, fun stays => ?_⟩
  unfold citedVersions at versions
  split at versions
  · next response answer =>
      obtain ⟨chunk, member, same⟩ : ∃ chunk ∈ response.chunks,
        (chunk.chunkId, chunk.corpusVersion) = ("a", some "phase5_local_v1") :=
        List.mem_map.mp (versions ▸ List.mem_cons_self)
      have asked := ((stays response answer).admitted chunk member).version "v9" rfl (by decide)
      have wrong : some "phase5_local_v1" = some "v9" := (Prod.mk.inj same).2.symm.trans asked
      exact absurd wrong (by decide)
  · cases versions

/-- Three documents, of which the first is of the version and of the team that are asked for. -/
def threeScopes : List CorpusDoc :=
  [⟨"a", some "doc-a", "kb://a", some "Go", "", [], [("team", .str "sre")], some "v2"⟩,
    ⟨"b", some "doc-b", "kb://b", some "Go", "", [], [("team", .str "sre")], some "v1"⟩,
    ⟨"c", some "doc-c", "kb://c", some "Go", "", [], [("team", .str "finops")], some "v2"⟩]

/-- A request with a filter and a version. -/
def scopedRequest : RetrievalRequest :=
  { plainRequest "go" with
    filters := [("team", .str "sre")]
    corpusVersion := some "v2" }

theorem stays_in_scope_two : citedVersions scopedRequest threeScopes = [("a", some "v2")] ∧
    KnowledgeService.KeepsScope ⟨defaultCorpusVersion, threeScopes⟩ .flat Scoring.rational
      scopedRequest ⟨1⟩ 0 := by
  have versions : citedVersions scopedRequest threeScopes = [("a", some "v2")] := by decide +kernel
  have matched : Matched .flat Scoring.rational scopedRequest threeScopes := by
    constructor
    case some => exact ⟨threeScopes.get ⟨0, by decide⟩, List.get_mem _ _, by decide +kernel⟩
    case filtered =>
      intro doc _ filter member named
      rw [List.mem_singleton.mp member] at named
      exact absurd named (by decide)
    case labelled => exact fun unnamed => absurd unnamed (by decide)
  refine ⟨versions, ?_⟩
  exact (stays_in_scope_iff .flat .rational ⟨defaultCorpusVersion, threeScopes⟩ scopedRequest ⟨1⟩ 0
    (by decide)).mpr
    (.inr (.inr matched))

end Knowledge
end AgenticPlatform
