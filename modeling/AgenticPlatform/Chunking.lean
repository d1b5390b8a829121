import AgenticPlatform.Ingestion
import AgenticPlatform.Sliding.Windows
import Mathlib.Data.List.Induction

/-! What the chunks of a text are: the words of the text with one space between them, shown by
windows that overlap. -/
namespace AgenticPlatform
namespace Knowledge
open Sliding

/-- The words of a text: what its white space separates. -/
def words (text : List Char) : List (List Char) :=
  (text.splitOnP isSpace).filter fun word => !word.isEmpty

/-- The text trimmed, with one space for every run of white space. -/
def singleSpaced (text : List Char) : List Char := [' '].intercalate (words text)

section
variable {text rest : List Char} {c : Char}

theorem words_space (space : isSpace c = true) : words (c :: text) = words text := by
  rw [words, List.splitOnP_cons_eq_if_modifyHead, if_pos space]
  rfl

theorem words_concat_space (space : isSpace c = true) : words (text ++ [c]) = words text := by
  rw [words, List.splitOnP_append_cons text [] space, List.splitOnP_nil, List.filter_append]
  exact List.append_nil _

theorem words_dropWhile : words (text.dropWhile isSpace) = words text := by
  induction text with
  | nil => rfl
  | cons c rest ih =>
      rw [List.dropWhile_cons]
      split
      · next space => rw [ih, words_space space]
      · rfl

theorem words_rdropWhile : words (text.reverse.dropWhile isSpace).reverse = words text := by
  induction text using List.reverseRecOn with
  | nil => rfl
  | append_singleton rest c ih =>
      rw [List.reverse_append, List.reverse_singleton, List.singleton_append, List.dropWhile_cons]
      split
      · next space => rw [ih, words_concat_space space]
      · rw [List.reverse_cons, List.reverse_reverse]

theorem words_strip : words (strip text) = words text := by
  rw [strip, words_rdropWhile, words_dropWhile]

/-- A letter begins a word, or is a word before white space. -/
theorem words_letter (letter : isSpace c = false) : words (c :: text) =
    if text.head?.any isSpace then [c] :: words text else
      match words text with
      | [] => [[c]]
      | word :: others => (c :: word) :: others := by
  have notSpace : ¬ isSpace c = true := by rw [letter]; nofun
  cases text with
  | nil => simp [words, List.splitOnP_cons_eq_if_modifyHead, letter]
  | cons d rest =>
      obtain ⟨first, others, parts⟩ := List.exists_cons_of_ne_nil
        (List.splitOnP_ne_nil isSpace rest)
      by_cases space : isSpace d = true
      · simp [words, List.splitOnP_cons_eq_if_modifyHead, letter, space]
      · simp [words, List.splitOnP_cons_eq_if_modifyHead, letter, space, parts]

/-- A text that does not end in white space has a word. -/
theorem words_ne_nil (filled : text ≠ []) (solid : isSpace (text.getLast filled) = false) :
    words text ≠ [] := by
  induction text with
  | nil => exact absurd rfl filled
  | cons c rest ih =>
      by_cases space : isSpace c = true
      · rw [words_space space]
        have more : rest ≠ [] := by
          rintro rfl
          exact absurd space (by simpa using solid)
        exact ih more (by rwa [List.getLast_cons more] at solid)
      · rw [words_letter (Bool.eq_false_iff.mpr space)]
        split
        · exact List.cons_ne_nil _ _
        · split
          · exact List.cons_ne_nil _ _
          · exact List.cons_ne_nil _ _

/-- Collapsing, where the text does not end in white space: white space before the first word leaves
a space. -/
theorem collapseSpaces_eq (solid : ∀ filled : text ≠ [], isSpace (text.getLast filled) = false) :
    collapseSpaces text = (if text.head?.any isSpace then [' '] else []) ++ singleSpaced text := by
  induction text with
  | nil => rfl
  | cons c rest ih =>
      have solidRest : ∀ filled : rest ≠ [], isSpace (rest.getLast filled) = false :=
        fun filled => by
        have last := solid (List.cons_ne_nil c rest)
        rwa [List.getLast_cons filled] at last
      rw [collapseSpaces, ih solidRest]
      by_cases space : isSpace c = true
      · simp only [List.head?_cons, Option.any_some, space, if_true, singleSpaced,
          words_space space]
        split
        · next next => rfl
        · next next => rfl
      · have letter := Bool.eq_false_iff.mpr space
        simp only [List.head?_cons, Option.any_some, letter, Bool.false_eq_true, if_false,
          List.nil_append, singleSpaced, words_letter letter]
        cases rest with
        | nil => rfl
        | cons d tail =>
            have some := words_ne_nil (List.cons_ne_nil d tail) (solidRest _)
            split
            · rw [List.intercalate_cons_of_ne_nil some]
              rfl
            · obtain ⟨word, others, shown⟩ := List.exists_cons_of_ne_nil some
              rw [shown]
              cases others with
              | nil => rfl
              | cons next others => rfl

theorem strip_isPrefix_dropWhile : strip text <+: text.dropWhile isSpace := by
  have suffix := List.dropWhile_suffix isSpace (l := (text.dropWhile isSpace).reverse)
  rw [← List.reverse_prefix, List.reverse_reverse] at suffix
  exact suffix

theorem strip_head : (strip text).head?.any isSpace = false := by
  cases shown : strip text with
  | nil => rfl
  | cons c rest =>
      obtain ⟨spaces, whole⟩ := @strip_isPrefix_dropWhile text
      have first := List.head?_dropWhile_not isSpace text
      rw [← whole, shown] at first
      exact first

theorem strip_last (filled : strip text ≠ []) : isSpace ((strip text).getLast filled) = false := by
  have first : isSpace ((((text.dropWhile isSpace).reverse).dropWhile isSpace).head
    (by simpa [strip] using filled)) = false :=
    List.head_dropWhile_not isSpace _
  simpa only [strip, List.getLast_reverse] using first

/-- What the source computes. -/
theorem normalizeText_eq (text : String) : normalizeText text = String.ofList
    (singleSpaced text.toList) := by
  rw [normalizeText, collapseSpaces_eq strip_last, strip_head, singleSpaced, words_strip]
  rfl

end

section
variable {normalized text : String} {chunkSize overlap fuel start : Nat} {chunks : List String}

theorem toList_slice (s : String) (i j : Nat) : (slice s i j).toList = (s.toList.drop i).take
    (j - i) := String.toList_ofList

/-- From every start that leaves more than the overlap the windows cover what is left. -/
theorem windows_cover (progress : overlap < chunkSize)
    (inside : start + overlap < normalized.length)
    (shown : windows normalized chunkSize overlap fuel start = some chunks) :
    Covers chunkSize overlap (normalized.toList.drop start) (chunks.map String.toList) := by
  induction fuel generalizing start chunks with
  | zero => cases shown
  | succ fuel ih =>
      rw [windows, if_pos (by omega)] at shown
      dsimp only at shown
      have length : normalized.toList.length = normalized.length := String.length_toList
      split at shown
      · next last =>
          obtain rfl := Option.some.inj shown
          have whole : (slice normalized start (min normalized.length (start + chunkSize))).toList =
            normalized.toList.drop start := by
            rw [toList_slice, List.take_of_length_le (by rw [List.length_drop]; omega)]
          rw [List.map_singleton, whole]
          refine .singleton (List.ne_nil_of_length_pos ?_) ?_
          · rw [List.length_drop]
            omega
          · rw [List.length_drop]
            omega
      · next more =>
          have stop : min normalized.length (start + chunkSize) = start + chunkSize := by omega
          rw [stop] at shown more
          obtain ⟨later, rest, rfl⟩ := Option.map_eq_some_iff.mp shown
          have covers := ih (by omega) rest
          -- What the window shows alone, and what the next one starts with.
          have split : normalized.toList.drop start = (normalized.toList.drop start).take
            (chunkSize - overlap) ++
              normalized.toList.drop (start + chunkSize - overlap) := by
            rw [show start + chunkSize - overlap = start + (chunkSize - overlap) by omega,
              ← List.drop_drop, List.take_append_drop]
          have window : (slice normalized start (start + chunkSize)).toList =
              (normalized.toList.drop start).take (chunkSize - overlap) ++
                (normalized.toList.drop (start + chunkSize - overlap)).take overlap := by
            rw [toList_slice, show start + chunkSize - overlap =
              start + (chunkSize - overlap) by omega, ← List.drop_drop, ← List.take_add,
                show start + chunkSize - start = chunkSize - overlap + overlap by omega]
          have full : (slice normalized start (start + chunkSize)).toList.length = chunkSize := by
            rw [toList_slice, List.length_take, List.length_drop]
            omega
          rw [List.map_cons, split, window]
          refine covers.cons progress ?_ (window ▸ full)
          rw [List.length_drop]
          omega

/-- What the chunks of a text are. -/
structure Chunked (chunkSize overlap : Nat) (text : String) (chunks : List String) : Prop where
  empty : singleSpaced text.toList = [] → chunks = []
  covers : singleSpaced text.toList ≠ [] →
    Covers chunkSize overlap (singleSpaced text.toList) (chunks.map String.toList)

theorem chunkText_chunked (progress : overlap < chunkSize)
    (shown : chunkText fuel text chunkSize overlap = some chunks) :
    Chunked chunkSize overlap text chunks := by
  have letters : (normalizeText text).toList = singleSpaced text.toList := by
    rw [normalizeText_eq, String.toList_ofList]
  have length : (normalizeText text).length = (singleSpaced text.toList).length := by
    rw [← letters, String.length_toList]
  unfold chunkText at shown
  dsimp only at shown
  split at shown
  · next empty =>
      have none : singleSpaced text.toList = [] := by rw [← letters, empty, String.toList_empty]
      obtain rfl := Option.some.inj shown
      exact ⟨fun _ => rfl, fun filled => absurd none filled⟩
  · next some =>
      have filled : singleSpaced text.toList ≠ [] :=
        fun none => some (String.toList_inj.mp (by rw [letters, none, String.toList_empty]))
      refine ⟨fun none => absurd none filled, fun _ => ?_⟩
      split at shown
      · next short =>
          obtain rfl := Option.some.inj shown
          rw [List.map_singleton, letters]
          exact .singleton filled (by omega)
      · next long =>
          have covers := windows_cover progress (by omega) shown
          rw [List.drop_zero, letters] at covers
          exact covers

/-- More fuel changes no answer. -/
theorem windows_more {more : Nat} (le : fuel ≤ more)
    (shown : windows normalized chunkSize overlap fuel start = some chunks) :
    windows normalized chunkSize overlap more start = some chunks := by
  induction fuel generalizing start chunks more with
  | zero => cases shown
  | succ fuel ih =>
      obtain ⟨more, rfl⟩ : ∃ n, more = n + 1 := ⟨more - 1, by omega⟩
      rw [windows] at shown ⊢
      dsimp only at shown ⊢
      split
      · next inside =>
          rw [if_pos inside] at shown
          split
          · next last => rwa [if_pos last] at shown
          · next further =>
              rw [if_neg further] at shown
              obtain ⟨later, rest, rfl⟩ := Option.map_eq_some_iff.mp shown
              rw [ih (by omega) rest]
              rfl
      · next outside => rwa [if_neg outside] at shown

theorem chunkText_more {more : Nat} (le : fuel ≤ more)
    (shown : chunkText fuel text chunkSize overlap = some chunks) :
    chunkText more text chunkSize overlap = some chunks := by
  unfold chunkText at shown ⊢
  dsimp only at shown ⊢
  split
  · next empty => rwa [if_pos empty] at shown
  · next filled =>
      rw [if_neg filled] at shown
      split
      · next short => rwa [if_pos short] at shown
      · next long =>
          rw [if_neg long] at shown
          exact windows_more le shown

theorem chunkText_ends (progress : overlap < chunkSize) :
    ∃ chunks, chunkText ((normalizeText text).length + 1) text chunkSize overlap = some chunks := by
  unfold chunkText
  dsimp only
  split
  · exact ⟨_, rfl⟩
  · split
    · exact ⟨_, rfl⟩
    · exact Option.isSome_iff_exists.mp (windows_end progress (by omega))

/-- With an overlap that is smaller than a chunk, enough fuel gives chunks that cover the text. -/
theorem chunk_text_covers (text : String) (chunkSize overlap : Nat)
    (progress : overlap < chunkSize) :
    ∃ chunks, (∀ fuel, (normalizeText text).length < fuel → chunkText fuel text chunkSize overlap =
      some chunks) ∧
      Chunked chunkSize overlap text chunks := by
  obtain ⟨chunks, shown⟩ := @chunkText_ends text chunkSize overlap progress
  exact ⟨chunks, fun fuel enough => chunkText_more enough shown, chunkText_chunked progress shown⟩

/-- Two windows of five that share two characters. -/
theorem chunk_text_covers_two : ∃ chunks,
    (∀ fuel, (normalizeText " one \n two").length < fuel → chunkText fuel " one \n two" 5 2 =
      some chunks) ∧
      Chunked 5 2 " one \n two" chunks :=
  chunk_text_covers " one \n two" 5 2 (by decide)

example : chunkText 8 " one \n two" 5 2 = some ["one t", " two"] := by decide

end
end Knowledge
end AgenticPlatform
