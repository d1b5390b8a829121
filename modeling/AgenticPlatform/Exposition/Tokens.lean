import Mathlib.Data.List.TakeWhile

/-! The tokens of the text format in which metrics are exposed: names, quoted values with their
escapes, and what reading gives of a value that was written without any escape. -/
namespace Exposition

def isBlank (c : Char) : Bool := c = ' ' || c = '\t'

/-- A character of a word: neither blank nor the end of the line. -/
def isSolid (c : Char) : Bool := !isBlank c && c ≠ '\n'

def skipBlanks (text : List Char) : List Char := text.dropWhile isBlank

/-- The text after a character, which blanks may precede. -/
def expect (c : Char) (text : List Char) : Option (List Char) :=
  match skipBlanks text with
  | [] => none
  | d :: rest => if d = c then some rest else none

/-- The first word, and the text after it. -/
def readWord (text : List Char) : String × List Char :=
  (String.ofList ((skipBlanks text).takeWhile isSolid), (skipBlanks text).dropWhile isSolid)

def isMetricStart (c : Char) : Bool := c.isAlpha || c = '_' || c = ':'

def isLabelStart (c : Char) : Bool := c.isAlpha || c = '_'

/-- A character of a name, after the first one. -/
def isNameChar (start : Char → Bool) (c : Char) : Bool := start c || c.isDigit

def isName (start : Char → Bool) (s : String) : Bool :=
  match s.toList with
  | [] => false
  | c :: rest => start c && rest.all (isNameChar start)

/-- The name that the text begins with, and the text after it. -/
def readName (start : Char → Bool) (text : List Char) : Option (String × List Char) :=
  let name := String.ofList ((skipBlanks text).takeWhile (isNameChar start))
  if isName start name then some (name, (skipBlanks text).dropWhile (isNameChar start)) else none

def unescape (c : Char) : Option Char :=
  if c = '\\' ∨ c = '"' then some c else if c = 'n' then some '\n' else none

/-- A value up to its closing quote, and the text after that. -/
def readQuoted : List Char → Option (List Char × List Char)
  | [] => none
  | '"' :: rest => some ([], rest)
  | '\n' :: _ => none
  | ['\\'] => none
  | '\\' :: e :: rest => do
      let x ← unescape e
      let (value, after) ← readQuoted rest
      some (x :: value, after)
  | c :: rest => do
      let (value, after) ← readQuoted rest
      some (c :: value, after)

/-- A character that stands for itself in a quoted value. -/
def IsPlain (c : Char) : Prop := c ≠ '"' ∧ c ≠ '\\' ∧ c ≠ '\n'

instance : DecidablePred IsPlain := fun _ => inferInstanceAs (Decidable (_ ∧ _))

/-- A value without anything to escape. -/
def Clean (value : String) : Prop := ∀ c ∈ value.toList, IsPlain c

instance : DecidablePred Clean := fun _ => List.decidableBAll _ _

section
variable {c : Char} {value rest after text : List Char} {start : Char → Bool} {name : String}

theorem skipBlanks_cons (solid : isBlank c = false) : skipBlanks (c :: rest) = c :: rest := by
  rw [skipBlanks, List.dropWhile_cons, if_neg (Bool.eq_false_iff.mp solid)]

theorem expect_cons (solid : isBlank c = false) : expect c (c :: rest) = some rest := by
  rw [expect, skipBlanks_cons solid]
  exact if_pos rfl

theorem expect_cons_ne {d : Char} (solid : isBlank c = false) (apart : c ≠ d) : expect d
    (c :: rest) = none := by
  rw [expect, skipBlanks_cons solid]
  exact if_neg apart

/-- A stretch of characters of a kind ends at the first other one. -/
theorem takeWhile_stretch {p : Char → Bool} (all : ∀ c ∈ value, p c = true) (ends : p c = false) :
    (value ++ c :: rest).takeWhile p = value ∧ (value ++ c :: rest).dropWhile p = c :: rest := by
  rw [List.takeWhile_append_of_pos all, List.dropWhile_append_of_pos all,
    List.takeWhile_cons_of_neg (Bool.eq_false_iff.mp ends), List.dropWhile_cons_of_neg
      (Bool.eq_false_iff.mp ends), List.append_nil]
  exact ⟨rfl, rfl⟩

/-- A name is read back up to the first character that belongs to no name. -/
theorem readName_append (valid : isName start name = true)
    (apart : ∀ c, start c = true → isBlank c = false) (ends : isNameChar start c = false) :
    readName start (name.toList ++ c :: rest) = some (name, c :: rest) := by
  have all : ∀ d ∈ name.toList, isNameChar start d = true := by
    rw [isName] at valid
    cases chars : name.toList with
    | nil => exact nofun
    | cons d more =>
        rw [chars, Bool.and_eq_true, List.all_eq_true] at valid
        exact List.forall_mem_cons.mpr ⟨by rw [isNameChar, valid.1, Bool.true_or], valid.2⟩
  have begins : skipBlanks (name.toList ++ c :: rest) = name.toList ++ c :: rest := by
    rw [isName] at valid
    cases chars : name.toList with
    | nil => rw [chars] at valid; cases valid
    | cons d more =>
        rw [chars, Bool.and_eq_true] at valid
        exact skipBlanks_cons (apart d valid.1)
  obtain ⟨taken, left⟩ := @takeWhile_stretch c _ rest _ all ends
  rw [readName, begins, taken, left, String.ofList_toList, if_pos valid]

/-- A name stays a name with more of its characters at the end. -/
theorem isName_append {more : String} (valid : isName start name = true)
    (all : more.toList.all (isNameChar start) = true) :
    isName start (name ++ more) = true := by
  rw [isName] at valid ⊢
  rw [String.toList_append]
  cases chars : name.toList with
  | nil =>
      rw [chars] at valid
      cases valid
  | cons c rest =>
      rw [chars, Bool.and_eq_true] at valid
      rw [List.cons_append, Bool.and_eq_true, List.all_append, Bool.and_eq_true]
      exact ⟨valid.1, valid.2, all⟩

/-- A word is read back up to the first blank or the end of the line. -/
theorem readWord_append {word : String} (solid : ∀ c ∈ word.toList, isSolid c = true)
    (ends : isSolid c = false) (nonempty : word ≠ "") : readWord
      (word.toList ++ c :: rest) = (word, c :: rest) := by
  have begins : skipBlanks (word.toList ++ c :: rest) = word.toList ++ c :: rest := by
    cases chars : word.toList with
    | nil => exact absurd (String.toList_inj.mp (chars.trans rfl)) nonempty
    | cons d more =>
        have first := solid d (chars ▸ List.mem_cons_self)
        rw [isSolid, Bool.and_eq_true, Bool.not_eq_true'] at first
        exact skipBlanks_cons first.1
  obtain ⟨taken, left⟩ := @takeWhile_stretch c _ rest _ solid ends
  rw [readWord, begins, taken, left, String.ofList_toList]

theorem readQuoted_quote : readQuoted ('"' :: rest) = some ([], rest) := rfl

theorem readQuoted_newline : readQuoted ('\n' :: rest) = none := rfl

theorem readQuoted_escape {e : Char} : readQuoted ('\\' :: e :: rest) =
    (unescape e).bind fun x => (readQuoted rest).bind fun read => some (x :: read.1, read.2) := rfl

theorem readQuoted_plain (plain : IsPlain c) :
    readQuoted (c :: rest) = (readQuoted rest).bind fun read => some (c :: read.1, read.2) := by
  obtain ⟨quote, slash, newline⟩ := plain
  rw [readQuoted.eq_6 c rest]
  · rfl
  · exact quote
  · exact newline
  · exact fun eq => absurd eq slash
  · exact fun _ _ eq => absurd eq slash

theorem readQuoted_clean (plain : ∀ c ∈ value, IsPlain c) : readQuoted (value ++ '"' :: rest) = some
    (value, rest) := by
  induction value with
  | nil => exact readQuoted_quote
  | cons c value ih =>
      obtain ⟨first, later⟩ := List.forall_mem_cons.mp plain
      rw [List.cons_append, readQuoted_plain first, ih later]
      rfl

/-- Only a backslash is read from an escaped backslash. -/
theorem unescape_slash {e : Char} (read : unescape e = some '\\') : e = '\\' := by
  rw [unescape] at read
  split at read
  · exact Option.some.inj read
  · split at read
    · cases Option.some.inj read
    · cases read

/-- Something is read from a character that does not stand for itself only where it is a
backslash. -/
theorem slash_of_readQuoted (special : ¬ IsPlain c) (nonempty : value ≠ [])
    (read : readQuoted (c :: rest) = some (value, after)) :
    c = '\\' := by
  by_cases quote : c = '"'
  · subst quote
    exact absurd (congrArg Prod.fst (Option.some.inj (readQuoted_quote.symm.trans read))).symm
      nonempty
  · by_cases newline : c = '\n'
    · subst newline
      cases readQuoted_newline.symm.trans read
    · by_contra slash
      exact special ⟨quote, slash, newline⟩

/-- Reading takes a backslash away with each escape, so that what is read back with more of them in
front was not written so. -/
theorem plain_of_readQuoted {n : Nat}
    (read : readQuoted (value ++ '"' :: rest) = some (List.replicate n '\\' ++ value, after)) :
    n = 0 ∧ after = rest ∧ ∀ c ∈ value, IsPlain c := by
  -- two characters of an escape go at once, so that the induction is on the length
  induction length : value.length using Nat.strong_induction_on generalizing value n after with
  | _ l ih =>
      cases value with
      | nil =>
          have both := Option.some.inj (readQuoted_quote.symm.trans read)
          obtain ⟨none, same⟩ := Prod.ext_iff.mp both
          exact ⟨by simpa using none, same.symm, nofun⟩
      | cons c value =>
          by_cases plain : IsPlain c
          · rw [List.cons_append, readQuoted_plain plain, Option.bind_eq_some_iff] at read
            obtain ⟨⟨value', after'⟩, inner, same⟩ := read
            obtain ⟨chars, rfl⟩ := Prod.ext_iff.mp (Option.some.inj same)
            cases n with
            | zero =>
                obtain rfl : value' = value := (List.cons.inj chars).2
                obtain ⟨_, same, later⟩ :=
                  ih value'.length (by rw [← length]; exact Nat.lt_succ_self _) (n := 0) inner rfl
                exact ⟨rfl, same, List.forall_mem_cons.mpr ⟨plain, later⟩⟩
            | succ n => exact absurd (List.cons.inj chars).1 plain.2.1
          · obtain rfl := slash_of_readQuoted plain (List.append_ne_nil_of_right_ne_nil _
              (List.cons_ne_nil c value)) read
            -- the backslash is read together with the character after it, which has to be a
            -- backslash too
            have front : List.replicate n '\\' ++ '\\' :: value = '\\' ::
              (List.replicate n '\\' ++ value) := by
              rw [← List.cons_append, ← List.replicate_succ, List.replicate_succ',
                List.append_assoc]
              rfl
            cases value with
            | nil =>
                rw [List.cons_append, List.nil_append, readQuoted_escape,
                  Option.bind_eq_some_iff] at read
                obtain ⟨x, escape, read⟩ := read
                rw [Option.bind_eq_some_iff] at read
                obtain ⟨_, _, same⟩ := read
                have first :=
                  (List.cons.inj ((congrArg Prod.fst (Option.some.inj same)).trans front)).1
                cases unescape_slash (first ▸ escape)
            | cons e value =>
                rw [List.cons_append, List.cons_append, readQuoted_escape,
                  Option.bind_eq_some_iff] at read
                obtain ⟨x, escape, read⟩ := read
                rw [Option.bind_eq_some_iff] at read
                obtain ⟨⟨value', after'⟩, inner, same⟩ := read
                obtain ⟨chars, rfl⟩ := Prod.ext_iff.mp (Option.some.inj same)
                obtain ⟨first, left⟩ := List.cons.inj (chars.trans front)
                obtain rfl := unescape_slash (first ▸ escape)
                have more : value' = List.replicate (n + 1) '\\' ++ value := by
                  refine left.trans ?_
                  rw [List.replicate_succ', List.append_assoc]
                  rfl
                have shorter : value.length < l := by
                  rw [← length]
                  exact Nat.lt_of_lt_of_le (Nat.lt_succ_self _) (Nat.le_succ _)
                exact absurd (ih _ shorter (more ▸ inner) rfl).1 (Nat.succ_ne_zero n)

theorem readQuoted_iff : readQuoted (value ++ '"' :: rest) = some (value, after) ↔ after = rest ∧
    ∀ c ∈ value, IsPlain c := by
  constructor
  · exact fun read => (plain_of_readQuoted (n := 0) read).2
  · rintro ⟨rfl, plain⟩
    exact readQuoted_clean plain

end
end Exposition
