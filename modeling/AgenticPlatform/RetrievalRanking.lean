import AgenticPlatform.Interaction.Raising
import AgenticPlatform.Retrieval
import AgenticPlatform.Rounding.HalfEven
import Mathlib.Tactic.NormNum
import Mathlib.Tactic.Positivity

/-! The ranking of the knowledge service: what is cited, in which order, and with which title. -/
namespace AgenticPlatform
open Interaction Rounding
namespace Knowledge

section
variable {K : Type} [Field K] [LinearOrder K] {scoring : Scoring K} {query : String}
  {corpus : List CorpusDoc} {n : Nat}

/-- A citation of a document under a title and a score. -/
structure CitedAs (chunk : EvidenceChunk K) (doc : CorpusDoc) (title : String)
    (score : K) : Prop where
  chunkId : chunk.chunkId = doc.chunkId
  documentId : chunk.documentId = doc.documentId
  sourceUri : chunk.sourceUri = doc.sourceUri
  title : chunk.title = orNone title
  textExcerpt : chunk.textExcerpt = doc.textExcerpt
  score : chunk.score = score
  corpusVersion : chunk.corpusVersion = doc.corpusVersion
  metadata : chunk.metadata = doc.metadata

theorem cite_ok {doc : CorpusDoc} {title : String} {s : K} {chunk : EvidenceChunk K}
    (made : cite doc title s = .ok chunk) :
    CitedAs chunk doc title s := by
  unfold cite at made
  split at made
  · cases made
    exact ⟨rfl, rfl, rfl, rfl, rfl, rfl, rfl, rfl⟩
  · cases made

theorem cite_iff {doc : CorpusDoc} {title : String} {s : K} (least : 0 ≤ s) (most : s ≤ 1) :
    (∃ chunk : EvidenceChunk K, cite doc title s = .ok chunk) ↔ doc.Fits := by
  unfold cite
  by_cases fits : doc.Fits
  · rw [dif_pos ⟨fits, least, most⟩]
    exact iff_of_true ⟨_, rfl⟩ fits
  · rw [dif_neg fun both => fits both.1]
    refine iff_of_false ?_ fits
    rintro ⟨_, ⟨⟩⟩

theorem reported_le_one {s : K} : reported scoring s ≤ 1 := by
  have bounded : scoring.round (min 1 (s / 5)) ≤ scoring.round 1 :=
    scoring.round_mono (min_le_left _ _)
  rwa [scoring.round_one] at bounded

/-- The documents that are cited for their scores. -/
def topScored (scoring : Scoring K) (query : String) (corpus : List CorpusDoc) (n : Nat) : List
    (K × CorpusDoc) :=
  (Ranking.sortOn rankKey (scored scoring query corpus)).take n

theorem mem_scored {entry : K × CorpusDoc} : entry ∈ scored scoring query corpus ↔
    entry.2 ∈ corpus ∧ entry.1 = score scoring query entry.2 ∧ 0 < entry.1 := by
  simp only [scored, List.mem_filter, List.mem_map, decide_eq_true_eq]
  constructor
  · rintro ⟨⟨doc, member, rfl⟩, positive⟩
    exact ⟨member, rfl, positive⟩
  · rintro ⟨member, same, positive⟩
    exact ⟨⟨entry.2, member, by rw [← same]⟩, positive⟩

theorem topScored_subset {entry : K × CorpusDoc} (top : entry ∈ topScored scoring query corpus n) :
    entry ∈ scored scoring query corpus :=
  Ranking.sortOn_perm.mem_iff.mp (List.mem_of_mem_take top)

/-- A document goes before another one by its score, and by its identifier where the scores are
equal. -/
def Before (scoring : Scoring K) (query : String) (a b : CorpusDoc) : Prop :=
  score scoring query b < score scoring query a ∨
    score scoring query a = score scoring query b ∧ a.chunkId < b.chunkId

theorem scored_docs : (scored scoring query corpus).map Prod.snd = corpus.filter fun doc => 0 <
    score scoring query doc := by
  induction corpus with
  | nil => rfl
  | cons doc rest ih =>
      unfold scored at ih ⊢
      rw [List.map_cons, List.filter_cons, List.filter_cons]
      by_cases positive : 0 < score scoring query doc
      · simp only [positive, decide_true, if_true, List.map_cons, ih]
      · simp only [positive, decide_false, Bool.false_eq_true, if_false, ih]

theorem scored_ids_nodup (distinct : (corpus.map CorpusDoc.chunkId).Nodup) :
    ((scored scoring query corpus).map fun entry => entry.2.chunkId).Nodup := by
  have same : (scored scoring query corpus).map (fun entry => entry.2.chunkId) =
      (corpus.filter fun doc => 0 < score scoring query doc).map CorpusDoc.chunkId := by
    rw [← scored_docs, List.map_map]
    rfl
  rw [same]
  exact distinct.sublist (List.filter_sublist.map _)

theorem rankKey_nodup (distinct : (corpus.map CorpusDoc.chunkId).Nodup) :
    ((scored scoring query corpus).map rankKey).Nodup := by
  refine List.Nodup.of_map (fun key => (ofLex key).2) ?_
  rw [List.map_map]
  exact scored_ids_nodup distinct

theorem topScored_ne_nil (asked : 1 ≤ n) (positive : ∃ doc ∈ corpus, 0 < score scoring query doc) :
    topScored scoring query corpus n ≠ [] := by
  obtain ⟨doc, member, above⟩ := positive
  have known : (score scoring query doc, doc) ∈ Ranking.sortOn rankKey
    (scored scoring query corpus) :=
    Ranking.sortOn_perm.mem_iff.mpr (mem_scored.mpr ⟨member, rfl, above⟩)
  intro empty
  rcases List.take_eq_nil_iff.mp empty with none | none
  · omega
  · rw [none] at known
    cases known

theorem topScored_fits (fits : ∀ doc ∈ corpus, doc.Fits) :
    ∀ entry ∈ topScored scoring query corpus n, entry.2.Fits :=
  fun entry top => fits entry.2 (mem_scored.mp (topScored_subset top)).1

/-- The pairs that are reported do not depend on the order of the corpus. -/
theorem topScored_perm {shuffled : List CorpusDoc} (distinct : (corpus.map CorpusDoc.chunkId).Nodup)
    (perm : shuffled.Perm corpus) : topScored scoring query shuffled n = topScored scoring query
      corpus n := by
  unfold topScored
  have same : (scored scoring query shuffled).Perm (scored scoring query corpus) :=
    (perm.map _).filter _
  rw [Ranking.sortOn_eq_of_perm (rankKey_nodup distinct) same.symm]

variable [IsStrictOrderedRing K]

theorem reported_nonneg {s : K} (positive : 0 < s) : 0 ≤ reported scoring s := by
  have scaled : 0 ≤ min 1 (s / 5) := le_min zero_le_one (by positivity)
  exact scoring.round_zero ▸ scoring.round_mono scaled

theorem reported_mono {s t : K} (below : s ≤ t) : reported scoring s ≤ reported scoring t :=
  scoring.round_mono (min_le_min_left 1 (div_le_div_of_nonneg_right below (by positivity)))

/-- The citations of the documents at the top. -/
def cites (scoring : Scoring K) (corpus : List CorpusDoc) (top : List (K × CorpusDoc))
    (chunks : List (EvidenceChunk K)) :
    Prop :=
  List.Forall₂ (fun entry chunk => CitedAs chunk entry.2 (lastTitle corpus)
    (reported scoring entry.1)) top chunks

/-- The citations of the top before the fallback. -/
theorem cited_top : (∀ out, (topScored scoring query corpus n).mapM
        (fun entry => cite entry.2 (lastTitle corpus) (reported scoring entry.1)) = .ok out →
      cites scoring corpus (topScored scoring query corpus n) out) ∧
    ((∃ out, (topScored scoring query corpus n).mapM
        (fun entry => cite entry.2 (lastTitle corpus) (reported scoring entry.1)) = .ok out) ↔
      ∀ entry ∈ topScored scoring query corpus n, entry.2.Fits) := by
  constructor
  · intro out made
    exact (mapM_ok_iff.mp made).imp fun _ _ cited => cite_ok cited
  · rw [mapM_ok_exists]
    refine forall₂_congr fun entry top => cite_iff ?_ reported_le_one
    exact reported_nonneg (mem_scored.mp (topScored_subset top)).2.2

/-- With a document at the top, all of the top is cited or a citation is refused. -/
theorem scoreAndRank_top (some : topScored scoring query corpus n ≠ []) :
    (∀ chunks, scoreAndRank scoring query corpus n = .ok chunks →
      cites scoring corpus (topScored scoring query corpus n) chunks) ∧
      ((∃ chunks, scoreAndRank scoring query corpus n = .ok chunks) ↔
        ∀ entry ∈ topScored scoring query corpus n, entry.2.Fits) := by
  obtain ⟨cited, fits⟩ := @cited_top K _ _ scoring query corpus n _
  rw [← fits]
  have whole : scoreAndRank scoring query corpus n = (topScored scoring query corpus n).mapM
      (fun entry => cite entry.2 (lastTitle corpus) (reported scoring entry.1)) := by
    unfold scoreAndRank
    cases made : (topScored scoring query corpus n).mapM
        (fun entry => cite entry.2 (lastTitle corpus) (reported scoring entry.1)) with
    | error e =>
        unfold topScored at made
        simp only [made]
        rfl
    | ok out =>
        have length := (cited out made).length_eq
        have most : out.length ≤ n := length ▸ List.length_take_le _ _
        unfold topScored at made
        simp only [made]
        cases out with
        | nil => exact absurd (List.length_eq_zero_iff.mp length) some
        | cons chunk rest => exact congrArg Except.ok (List.take_of_length_le most)
  rw [whole]
  exact ⟨cited, Iff.rfl⟩

/-- Without one, the first document is cited if there is one. -/
theorem scoreAndRank_fallback (none : topScored scoring query corpus n = []) (asked : 1 ≤ n) :
    (∀ chunks, scoreAndRank scoring query corpus n = .ok chunks →
        List.Forall₂ (fun doc chunk => CitedAs chunk doc doc.titleText (1 / 10))
          corpus.head?.toList chunks) ∧
      ((∃ chunks, scoreAndRank scoring query corpus n = .ok chunks) ↔
        ∀ doc ∈ corpus.head?, doc.Fits) := by
  unfold topScored at none
  cases corpus with
  | nil =>
      have empty : scoreAndRank scoring query [] n = .ok [] := by
        unfold scoreAndRank
        simp only [none]
        exact congrArg Except.ok List.take_nil
      rw [empty]
      constructor
      · rintro chunks ⟨⟩
        exact .nil
      · exact iff_of_true ⟨[], rfl⟩ (by simp)
  | cons doc rest =>
      have whole : scoreAndRank scoring query (doc :: rest) n =
          (cite doc doc.titleText (1 / 10)).bind fun chunk => .ok (List.take n [chunk]) := by
        unfold scoreAndRank
        simp only [none]
        rfl
      have citable := @cite_iff K _ _ doc doc.titleText (1 / 10) (by positivity) (by norm_num)
      simp only [whole, List.head?_cons, Option.mem_some, forall_eq']
      rw [← citable]
      cases made : (cite doc doc.titleText (1 / 10) : Except Exn (EvidenceChunk K)) with
      | error e =>
          constructor
          · rintro chunks ⟨⟩
          · refine iff_of_false ?_ ?_
            · rintro ⟨_, ⟨⟩⟩
            · rintro ⟨_, ⟨⟩⟩
      | ok chunk =>
          have single : List.take n [chunk] = [chunk] := List.take_of_length_le asked
          simp only [Except.bind, single]
          constructor
          · rintro chunks ⟨⟩
            exact .cons (cite_ok made) .nil
          · exact iff_of_true ⟨_, rfl⟩ ⟨chunk, rfl⟩

theorem rankKey_le {a b : K × CorpusDoc} : rankKey a ≤ rankKey b ↔
    b.1 < a.1 ∨ a.1 = b.1 ∧ a.2.chunkId ≤ b.2.chunkId := by
  unfold rankKey
  rw [Prod.Lex.toLex_le_toLex, neg_lt_neg_iff, neg_inj]

/-- The documents with a positive score, in the order of their rank. -/
theorem ranked_order (distinct : (corpus.map CorpusDoc.chunkId).Nodup) :
    let sorted := (Ranking.sortOn rankKey (scored scoring query corpus)).map Prod.snd
    sorted.Perm (corpus.filter fun doc => 0 < score scoring query doc) ∧
      sorted.Pairwise (Before scoring query) := by
  constructor
  · rw [← scored_docs]
    exact Ranking.sortOn_perm.map Prod.snd
  · rw [List.pairwise_map]
    have ids := ((@Ranking.sortOn_perm _ _ _ rankKey (scored scoring query corpus)).map fun entry =>
      entry.2.chunkId).nodup_iff.mpr
      (@scored_ids_nodup K _ _ scoring query corpus distinct)
    have apart := List.pairwise_map.mp (List.nodup_iff_pairwise_ne.mp ids)
    refine (Ranking.sortOn_ordered.and apart).imp_of_mem fun {a b} first second both => ?_
    have scoreA := (mem_scored.mp (Ranking.sortOn_perm.mem_iff.mp first)).2.1
    have scoreB := (mem_scored.mp (Ranking.sortOn_perm.mem_iff.mp second)).2.1
    rw [Before, ← scoreA, ← scoreB]
    rcases rankKey_le.mp both.1 with more | ⟨same, least⟩
    · exact .inl more
    · exact .inr ⟨same, lt_of_le_of_ne least both.2⟩

/-- What is reported for a query with a document of positive score. -/
structure TopOfOrder (scoring : Scoring K) (query : String) (corpus : List CorpusDoc) (n : Nat)
    (chunks : List (EvidenceChunk K)) : Prop where
  /-- The first documents of those with a positive score, in the order of their rank. -/
  first : ∃ sorted : List CorpusDoc, sorted.Perm (corpus.filter fun doc => 0 <
    score scoring query doc) ∧
    sorted.Pairwise (Before scoring query) ∧
    chunks.map EvidenceChunk.chunkId = (sorted.take (min n sorted.length)).map CorpusDoc.chunkId
  distinct : (chunks.map EvidenceChunk.chunkId).Nodup
  descending : chunks.Pairwise fun a b => b.score ≤ a.score
  scaled : ∀ chunk ∈ chunks, 0 ≤ chunk.score ∧ chunk.score ≤ 1
  /-- The order of the corpus does not matter. -/
  orderless : ∀ shuffled : List CorpusDoc, shuffled.Perm corpus → ∃ others,
    scoreAndRank scoring query shuffled n = .ok others ∧
      others.map (fun chunk => (chunk.chunkId, chunk.score)) = chunks.map fun chunk =>
        (chunk.chunkId, chunk.score)

theorem cites_order (distinct : (corpus.map CorpusDoc.chunkId).Nodup)
    {chunks : List (EvidenceChunk K)} (asked : 1 ≤ n) (fits : ∀ doc ∈ corpus, doc.Fits)
    (positive : ∃ doc ∈ corpus, 0 < score scoring query doc)
    (cited : cites scoring corpus (topScored scoring query corpus n) chunks) :
    TopOfOrder scoring query corpus n chunks := by
  have ids := (forall₂_map_eq cited fun entry chunk cited => cited.chunkId.symm).symm
  have scores := (forall₂_map_eq cited fun entry chunk cited => cited.score.symm).symm
  have sameIds : chunks.map EvidenceChunk.chunkId =
      (((Ranking.sortOn rankKey (scored scoring query corpus)).map Prod.snd).take n).map
        CorpusDoc.chunkId := by
    rw [← List.map_take, List.map_map]
    exact ids
  have order := @ranked_order K _ _ scoring query corpus _ distinct
  constructor
  · refine ⟨_, order.1, order.2, ?_⟩
    rw [← List.take_eq_take_min]
    exact sameIds
  · rw [sameIds]
    refine List.Nodup.sublist ((List.take_sublist _ _).map _) ?_
    exact (order.1.map _).nodup_iff.mpr (distinct.sublist (List.filter_sublist.map _))
  · have ordered : (topScored scoring query corpus n).Pairwise fun a b => rankKey a ≤ rankKey b :=
      Ranking.sortOn_ordered.sublist (List.take_sublist _ _)
    rw [← List.pairwise_map (f := EvidenceChunk.score) (R := fun s t : K => t ≤ s), scores,
      List.pairwise_map]
    refine ordered.imp fun {a b} ahead => reported_mono ?_
    rcases rankKey_le.mp ahead with more | ⟨same, _⟩
    · exact more.le
    · exact same.ge
  · exact fun chunk _ => ⟨chunk.score_nonneg, chunk.score_le_one⟩
  · intro shuffled perm
    have top : topScored scoring query shuffled n = topScored scoring query corpus n :=
      topScored_perm distinct perm
    obtain ⟨whole, made⟩ := @scoreAndRank_top K _ _ scoring query shuffled n _
      (by rw [top]; exact topScored_ne_nil asked positive)
    obtain ⟨others, answer⟩ :=
      made.mpr (topScored_fits fun doc member => fits doc (perm.mem_iff.mp member))
    refine ⟨others, answer, ?_⟩
    have cited' := whole others answer
    rw [top] at cited'
    have pairs {title : String} {reports : List (EvidenceChunk K)}
      (cited : List.Forall₂ (fun entry chunk =>
        CitedAs chunk entry.2 title (reported scoring entry.1))
          (topScored scoring query corpus n) reports) :
        reports.map (fun chunk => (chunk.chunkId, chunk.score)) =
          (topScored scoring query corpus n).map fun entry =>
            (entry.2.chunkId, reported scoring entry.1) :=
      (forall₂_map_eq cited fun entry chunk cited =>
        (Prod.ext cited.chunkId cited.score).symm).symm
    rw [pairs cited, pairs cited']

/-- The chunks that `score_and_rank` returns are the top of a total order of the documents. -/
theorem score_and_rank_top (scoring : Scoring K) (query : String) (corpus : List CorpusDoc)
    (n : Nat) (asked : 1 ≤ n) (distinct : (corpus.map CorpusDoc.chunkId).Nodup)
    (fits : ∀ doc ∈ corpus, doc.Fits) :
    ∃ chunks, scoreAndRank scoring query corpus n = .ok chunks ∧
      ((∃ doc ∈ corpus, 0 < score scoring query doc) → TopOfOrder scoring query corpus n chunks) ∧
      (corpus ≠ [] → chunks ≠ []) := by
  by_cases some : topScored scoring query corpus n = []
  · obtain ⟨whole, made⟩ := scoreAndRank_fallback some asked
    obtain ⟨chunks, answer⟩ := made.mpr fun doc first => fits doc (List.mem_of_mem_head? first)
    refine ⟨chunks, answer, fun positive => absurd some (topScored_ne_nil asked positive),
      fun inhabited => ?_⟩
    cases corpus with
    | nil => exact absurd rfl inhabited
    | cons doc rest =>
        have length := (whole chunks answer).length_eq
        rintro rfl
        cases length
  · obtain ⟨whole, made⟩ := scoreAndRank_top some
    obtain ⟨chunks, answer⟩ := made.mpr (topScored_fits fits)
    have cited := whole chunks answer
    refine ⟨chunks, answer, fun positive => cites_order distinct asked fits positive
      cited, fun _ => ?_⟩
    rintro rfl
    exact some (List.length_eq_zero_iff.mp cited.length_eq)

end

/-- The largest number whose square is not above `n`. -/
def floorSqrt : Nat → Nat
  | 0 => 0
  | n + 1 => if (floorSqrt n + 1) * (floorSqrt n + 1) ≤ n + 1 then floorSqrt n + 1 else floorSqrt n

/-- Scores in the rationals, where the roots of squares are exact. -/
def Scoring.rational : Scoring ℚ where
  lower := String.toLower
  sqrt n := floorSqrt n
  round q := roundEven (q * 1000) / 1000
  round_mono := roundTo_mono (by norm_num)
  round_zero := by decide +kernel
  round_one := by decide +kernel

/-- Two documents without anything but their identifiers and titles. -/
def twoTitles : List CorpusDoc :=
  [⟨"a", some "doc-a", "kb://a", some "Go", "", [], [], none⟩, ⟨"b", some "doc-b", "kb://b",
    some "Ada", "", [], [], none⟩]

/-- A query that hits one title. -/
theorem score_and_rank_two : ∃ chunks, scoreAndRank Scoring.rational "go" twoTitles 5 = .ok chunks ∧
    TopOfOrder Scoring.rational "go" twoTitles 5 chunks ∧ chunks ≠ [] := by
  obtain ⟨chunks, answer, top, some⟩ := score_and_rank_top .rational "go" twoTitles 5 (by decide)
    (by decide) (by decide)
  have positive : 0 < score Scoring.rational "go" (twoTitles.get ⟨0, by decide⟩) := by
    decide +kernel
  exact ⟨chunks, answer, top ⟨_, List.get_mem _ _, positive⟩, some (by simp [twoTitles])⟩

end Knowledge
end AgenticPlatform
