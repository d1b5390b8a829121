import AgenticPlatform.Retrieval

/-! Ingestion into the knowledge service: chunking by overlapping windows, and the rows of a
document. -/
namespace AgenticPlatform
namespace Knowledge

/-- `text.strip()`. -/
def strip (text : List Char) : List Char :=
  ((text.dropWhile isSpace).reverse.dropWhile isSpace).reverse

/-- `re.sub(r"\s+", " ", text)`: of each run of white space the last character becomes a space. -/
def collapseSpaces : List Char → List Char
  | [] => []
  | c :: rest =>
      if isSpace c then
        if rest.head?.any isSpace then collapseSpaces rest else ' ' :: collapseSpaces rest
      else c :: collapseSpaces rest

def normalizeText (text : String) : String := String.ofList (collapseSpaces (strip text.toList))

/-- The loop of `chunk_text`, cut short after that many windows. -/
def windows (normalized : String) (chunkSize overlap : Nat) : Nat → Nat → Option (List String)
  | 0, _ => none
  | fuel + 1, start =>
      if start < normalized.length then
        let stop := min normalized.length (start + chunkSize)
        let chunk := slice normalized start stop
        if normalized.length ≤ stop then some [chunk]
        else (windows normalized chunkSize overlap fuel (stop - overlap)).map (chunk :: ·)
      else some []

def chunkText (fuel : Nat) (text : String) (chunkSize overlap : Nat) : Option (List String) :=
  let normalized := normalizeText text
  if normalized = "" then some []
  else if normalized.length ≤ chunkSize then some [normalized]
  else windows normalized chunkSize overlap fuel 0

section
variable (lower digest : String → String)

/-- `_tokenize_keywords`. -/
def tokenizeKeywords (text : String) : List String :=
  ((((findWords 3 (lower text)).map lower).dedup).insertionSort (· ≤ ·)).take 24

/-- What is hashed for a chunk. -/
def hashed (documentId : String) (idx : Nat) (excerpt : String) : String :=
  documentId ++ ":" ++ toString idx ++ ":" ++ excerpt

/-- The row of a chunk; `digest` gives the first twelve digits of the hash of the UTF-8 form, which
every text has that is free of lone surrogates. -/
def chunkRow (documentId sourceUri title : String) (metadata : Dict)
    (corpusVersion : String) (idx : Nat) (excerpt : String) : CorpusDoc where
  chunkId := documentId ++ "-c" ++ toString idx ++ "-" ++ digest (hashed documentId idx excerpt)
  documentId := some documentId
  sourceUri := sourceUri
  title := some title
  textExcerpt := excerpt
  keywords := tokenizeKeywords lower (title ++ " " ++ excerpt)
  metadata := metadata
  corpusVersion := some corpusVersion

def ingestDocument (fuel : Nat) (documentId sourceUri title text : String) (metadata : Dict)
    (corpusVersion : String) (chunkSize overlap : Nat) : Option (List CorpusDoc) :=
  (chunkText fuel text chunkSize overlap).map fun parts =>
    (if parts.isEmpty then [""] else parts).zipIdx.map fun part =>
      chunkRow lower digest documentId sourceUri title metadata corpusVersion part.2 part.1

end

section
variable {normalized text : String} {chunkSize overlap : Nat}

/-- A window that is no longer than the overlap starts again where it started. -/
theorem windows_stuck (long : chunkSize < normalized.length) (stuck : chunkSize ≤ overlap)
    (fuel : Nat) :
    windows normalized chunkSize overlap fuel 0 = none := by
  induction fuel with
  | zero => rfl
  | succ fuel ih =>
      have stop : min normalized.length (0 + chunkSize) = chunkSize := by omega
      rw [windows, if_pos (by omega)]
      simp only [stop]
      rw [if_neg (by omega), Nat.sub_eq_zero_of_le stuck, ih]
      rfl

/-- With a smaller overlap every window starts later than the one before. -/
theorem windows_end (progress : overlap < chunkSize) {fuel start : Nat}
    (enough : normalized.length - start < fuel) :
    (windows normalized chunkSize overlap fuel start).isSome = true := by
  induction fuel generalizing start with
  | zero => exact absurd enough (Nat.not_lt_zero _)
  | succ fuel ih =>
      rw [windows]
      by_cases inside : start < normalized.length
      · rw [if_pos inside]
        dsimp only
        by_cases last : normalized.length ≤ min normalized.length (start + chunkSize)
        · rw [if_pos last]
          rfl
        · rw [if_neg last, Option.isSome_map]
          exact ih (by omega)
      · rw [if_neg inside]
        rfl

theorem chunkText_stuck (long : chunkSize < (normalizeText text).length)
    (stuck : chunkSize ≤ overlap) (fuel : Nat) :
    chunkText fuel text chunkSize overlap = none := by
  have filled : normalizeText text ≠ "" := fun empty => absurd long (by simp [empty])
  simp only [chunkText, if_neg filled, if_neg (Nat.not_le.mpr long)]
  exact windows_stuck long stuck fuel

theorem chunkText_ends_iff : (∃ fuel, (chunkText fuel text chunkSize overlap).isSome = true) ↔
    (normalizeText text).length ≤ chunkSize ∨ overlap < chunkSize := by
  unfold chunkText
  dsimp only
  by_cases empty : normalizeText text = ""
  · rw [empty]
    exact iff_of_true ⟨0, rfl⟩ (.inl (Nat.zero_le _))
  · simp only [if_neg empty]
    by_cases short : (normalizeText text).length ≤ chunkSize
    · simp only [if_pos short]
      exact iff_of_true ⟨0, rfl⟩ (.inl short)
    · simp only [short, if_false, false_or]
      constructor
      · rintro ⟨fuel, ended⟩
        by_contra stuck
        rw [windows_stuck (Nat.not_le.mp short) (Nat.not_lt.mp stuck)] at ended
        cases ended
      · exact fun progress => ⟨_, windows_end progress (Nat.lt_succ_self _)⟩

/-- Ingestion returns exactly when the normalized text fits a chunk or the overlap is smaller than
it. -/
theorem ingest_document_returns_iff (lower digest : String → String)
    (documentId sourceUri title text : String) (metadata : Dict) (corpusVersion : String)
    (chunkSize overlap : Nat) :
    (∃ fuel rows, ingestDocument lower digest fuel documentId sourceUri title text metadata
      corpusVersion chunkSize overlap =
      some rows) ↔ (normalizeText text).length ≤ chunkSize ∨ overlap < chunkSize := by
  rw [← chunkText_ends_iff]
  refine exists_congr fun fuel => ?_
  rw [ingestDocument, ← Option.isSome_iff_exists, Option.isSome_map]

end

/-- Two characters in windows of one, with an overlap of one. -/
theorem ingest_document_hangs : ¬ ∃ fuel rows,
    ingestDocument id id fuel "doc" "kb://doc" "Doc" "ab" [] "v1" 1 1 = some rows := by
  rintro ⟨fuel, rows, answer⟩
  have kept : normalizeText "ab" = "ab" := by decide
  have stuck : chunkText fuel "ab" 1 1 = none := chunkText_stuck (by rw [kept]; decide)
    (Nat.le_refl 1) fuel
  rw [ingestDocument, stuck] at answer
  cases answer

end Knowledge
end AgenticPlatform
