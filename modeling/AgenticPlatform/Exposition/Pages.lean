import AgenticPlatform.Exposition.Tokens
import Mathlib.Data.List.Nodup

/-! Pages of the text format: their lines, a parser for them, and what it gives of lines that were
written without any escape: the samples come back exactly where no label value has anything to
escape. -/
namespace Exposition

structure Sample (V : Type) where
  name : String
  labels : List (String × String)
  value : V

inductive Line (V : Type) where
  | typed (name kind : String)
  | sample (s : Sample V)

/-- How values are written, and how they are read. -/
structure ValueText (V : Type) where
  text : V → String
  read : String → Option V
  read_text : ∀ v, read (text v) = some v
  solid : ∀ v, ∀ c ∈ (text v).toList, isSolid c = true ∧ c ≠ '{'
  nonempty : ∀ v, text v ≠ ""

/-- `name="value"`. -/
def readLabel (text : List Char) : Option ((String × String) × List Char) := do
  let (name, rest) ← readName isLabelStart text
  let rest ← expect '=' rest
  let rest ← expect '"' rest
  let (value, rest) ← readQuoted rest
  some ((name, String.ofList value), rest)

/-- Labels between commas, up to the closing brace; a comma may follow the last one. -/
def readLabels : Nat → List Char → Option (List (String × String) × List Char)
  | 0, _ => none
  | fuel + 1, text =>
      match expect '}' text with
      | some rest => some ([], rest)
      | none => do
          let (label, rest) ← readLabel text
          match expect ',' rest with
          | some rest => do
              let (labels, rest) ← readLabels fuel rest
              some (label :: labels, rest)
          | none => do
              let rest ← expect '}' rest
              some ([label], rest)

/-- The labels in braces, where there are braces. -/
def readBraces (text : List Char) : Option (List (String × String) × List Char) :=
  match expect '{' text with
  | some inner => readLabels (inner.length + 1) inner
  | none => some ([], text)

/-- The end of a line. -/
def readEnd (text : List Char) : Option (List Char) :=
  match skipBlanks text with
  | [] => some []
  | c :: rest => if c = '\n' then some rest else none

def isInteger (word : String) : Bool :=
  match word.toList with
  | [] => false
  | c :: rest => ((c = '-' && !rest.isEmpty) || c.isDigit) && rest.all Char.isDigit

/-- The end of a line, which a time stamp may precede. -/
def readStamp (text : List Char) : Option (List Char) :=
  match readEnd text with
  | some rest => some rest
  | none => if isInteger (readWord text).1 then readEnd (readWord text).2 else none

section
variable {V : Type} (values : ValueText V)

def readSample (text : List Char) : Option (Sample V × List Char) := do
  let (name, rest) ← readName isMetricStart text
  let (labels, rest) ← readBraces rest
  if (labels.map Prod.fst).Nodup then
    let value ← values.read (readWord rest).1
    let rest ← readStamp (readWord rest).2
    some (⟨name, labels, value⟩, rest)
  else none

def kinds : List String := ["counter", "gauge", "histogram", "summary", "untyped"]

/-- What follows a number sign: the type of a family, or a comment. -/
def readComment (text : List Char) : Option (Option (Line V) × List Char) :=
  if (readWord text).1 = "TYPE" then do
    let (name, rest) ← readName isMetricStart (readWord text).2
    if (readWord rest).1 ∈ kinds then
      let after ← readEnd (readWord rest).2
      some (some (.typed name (readWord rest).1), after)
    else none
  else some (none, (text.dropWhile (· ≠ '\n')).tail)

/-- A line, where it is neither blank nor a comment. -/
def readLine (text : List Char) : Option (Option (Line V) × List Char) :=
  match skipBlanks text with
  | [] => some (none, [])
  | c :: rest =>
      if c = '\n' then some (none, rest)
      else if c = '#' then readComment rest
      else do
        let (s, after) ← readSample values (c :: rest)
        some (some (.sample s), after)

def readLines : Nat → List Char → Option (List (Line V))
  | _, [] => some []
  | 0, _ :: _ => none
  | fuel + 1, text => do
      let (line, rest) ← readLine values text
      let lines ← readLines fuel rest
      some (line.toList ++ lines)

/-- The lines of a page. Every line takes a character at least. -/
def parsePage (text : String) : Option (List (Line V)) := readLines values text.length text.toList

def plainLabel (l : String × String) : List Char := l.1.toList ++ '=' :: '"' :: l.2.toList ++ ['"']

def plainLabels (ls : List (String × String)) : List Char := [','].intercalate (ls.map plainLabel)

def plainBraces (ls : List (String × String)) : List Char := if ls = [] then
    [] else '{' :: plainLabels ls ++ ['}']

def plainSample (s : Sample V) : List Char :=
  s.name.toList ++ plainBraces s.labels ++ ' ' :: (values.text s.value).toList

def typeMark : List Char := "# TYPE ".toList

def plainTyped (name kind : String) : List Char := typeMark ++ name.toList ++ ' ' :: kind.toList

def plainLine : Line V → List Char
  | .typed name kind => plainTyped name kind
  | .sample s => plainSample values s

def plainPage (lines : List (Line V)) : List Char :=
  lines.flatMap fun line => plainLine values line ++ ['\n']

end

/-- The names are names, and no label has two values. -/
def Sample.Valid {V : Type} (s : Sample V) : Prop :=
  isName isMetricStart s.name = true ∧ (∀ l ∈ s.labels, isName isLabelStart l.1 = true) ∧
    (s.labels.map Prod.fst).Nodup

def Line.Valid {V : Type} : Line V → Prop
  | .typed name kind => isName isMetricStart name = true ∧ kind ∈ kinds
  | .sample s => s.Valid

/-- No label value has anything to escape. -/
def Sample.Clean {V : Type} (s : Sample V) : Prop := ∀ l ∈ s.labels, Exposition.Clean l.2

def Line.sample? {V : Type} : Line V → Option (Sample V)
  | .typed _ _ => none
  | .sample s => some s

section
variable {c : Char} {rest after text : List Char} {l : String × String}
  {ls : List (String × String)} {name : String} {fuel : Nat}

theorem isMetricStart_solid (c : Char) (start : isMetricStart c = true) : isBlank c = false := by
  by_contra blank
  rw [Bool.not_eq_false, isBlank, Bool.or_eq_true, decide_eq_true_eq, decide_eq_true_eq] at blank
  rcases blank with rfl | rfl
  · exact absurd start (by decide)
  · exact absurd start (by decide)

theorem isLabelStart_solid (c : Char) (start : isLabelStart c = true) : isBlank c = false :=
  isMetricStart_solid c (by rw [isMetricStart]; exact Bool.or_eq_true_iff.mpr (.inl start))

/-- A name does not begin with another character. -/
theorem expect_name {start : Char → Bool} (valid : isName start name = true)
    (apart : ∀ c, start c = true → isBlank c = false) (other : start c = false) : expect c
      (name.toList ++ rest) = none := by
  rw [isName] at valid
  cases chars : name.toList with
  | nil =>
      rw [chars] at valid
      cases valid
  | cons d more =>
      rw [chars, Bool.and_eq_true] at valid
      refine expect_cons_ne (apart d valid.1) fun same => ?_
      rw [same, other] at valid
      cases valid.1

theorem plainLabel_append : plainLabel l ++ rest = l.1.toList ++ '=' :: '"' ::
    (l.2.toList ++ '"' :: rest) := by
  rw [plainLabel]
  simp

theorem readLabel_plain (valid : isName isLabelStart l.1 = true) : readLabel
    (plainLabel l ++ rest) =
    (readQuoted (l.2.toList ++ '"' :: rest)).bind fun read => some
      ((l.1, String.ofList read.1), read.2) := by
  rw [plainLabel_append, readLabel, readName_append valid isLabelStart_solid (by decide)]
  rfl

theorem readLabel_plain_iff (valid : isName isLabelStart l.1 = true) :
    readLabel (plainLabel l ++ rest) = some (l, after) ↔ after = rest ∧ Clean l.2 := by
  rw [readLabel_plain valid, Clean, ← readQuoted_iff]
  cases readQuoted (l.2.toList ++ '"' :: rest) with
  | none => simp
  | some read =>
      obtain ⟨name, value⟩ := l
      simp [Prod.ext_iff, String.ext_iff]

theorem readLabels_last (opens : expect '}' text = none) (first : readLabel text = some (l, rest))
    (ends : expect ',' rest = none) :
    readLabels (fuel + 1) text = (expect '}' rest).bind fun after => some ([l], after) := by
  rw [readLabels, opens, first]
  change (match expect ',' rest with | some _ => _ | none => _) = _
  rw [ends]
  rfl

theorem readLabels_more (opens : expect '}' text = none) (first : readLabel text = some (l, rest))
    (more : expect ',' rest = some after) :
    readLabels (fuel + 1) text = (readLabels fuel after).bind fun read => some
      (l :: read.1, read.2) := by
  rw [readLabels, opens, first]
  change (match expect ',' rest with | some _ => _ | none => _) = _
  rw [more]
  rfl

/-- The first label that is given is read first. -/
theorem readLabel_of_readLabels (opens : expect '}' text = none)
    (read : readLabels fuel text = some (l :: ls, after)) :
    ∃ rest, readLabel text = some (l, rest) := by
  cases fuel with
  | zero => cases read
  | succ fuel =>
      cases first : readLabel text with
      | none =>
          rw [readLabels, opens, first] at read
          cases read
      | some label =>
          obtain ⟨label, rest⟩ := label
          refine ⟨rest, ?_⟩
          cases next : expect ',' rest with
          | none =>
              rw [readLabels_last opens first next, Option.bind_eq_some_iff] at read
              obtain ⟨_, _, same⟩ := read
              rw [(List.cons.inj (Prod.ext_iff.mp (Option.some.inj same)).1).1]
          | some more =>
              rw [readLabels_more opens first next, Option.bind_eq_some_iff] at read
              obtain ⟨_, _, same⟩ := read
              rw [(List.cons.inj (Prod.ext_iff.mp (Option.some.inj same)).1).1]

theorem plainLabels_singleton : plainLabels [l] = plainLabel l := List.intercalate_singleton

theorem plainLabels_cons {l' : String × String} : plainLabels
    (l :: l' :: ls) = plainLabel l ++ ',' :: plainLabels (l' :: ls) := by
  rw [plainLabels, List.map_cons, List.map_cons, List.intercalate_cons_cons, List.append_assoc]
  rfl

/-- Labels are read back exactly where none has anything to escape. -/
theorem readLabels_plain_iff (names : ∀ l ∈ ls, isName isLabelStart l.1 = true) (nonempty : ls ≠ [])
    (enough : ls.length ≤ fuel) :
    readLabels fuel (plainLabels ls ++ '}' :: rest) = some (ls, after) ↔ after = rest ∧
      ∀ l ∈ ls, Clean l.2 := by
  induction ls generalizing fuel with
  | nil => exact absurd rfl nonempty
  | cons l ls ih =>
      obtain ⟨fuel, rfl⟩ : ∃ n, fuel = n + 1 := ⟨fuel - 1, by simp at enough; omega⟩
      obtain ⟨valid, names⟩ := List.forall_mem_cons.mp names
      have opens (tail : List Char) : expect '}' (plainLabel l ++ tail) = none := by
        rw [plainLabel_append]
        exact expect_name valid isLabelStart_solid (by decide)
      cases ls with
      | nil =>
          rw [plainLabels_singleton, List.forall_mem_singleton]
          have closes : expect ',' ('}' :: rest) = none := expect_cons_ne (by decide) (by decide)
          constructor
          · intro read
            obtain ⟨left, first⟩ := readLabel_of_readLabels (opens _) read
            obtain ⟨rfl, clean⟩ := (readLabel_plain_iff valid).mp first
            rw [readLabels_last (opens _) first closes, expect_cons (by decide)] at read
            exact ⟨(Prod.ext_iff.mp (Option.some.inj read)).2.symm, clean⟩
          · rintro ⟨rfl, clean⟩
            rw [readLabels_last (opens _) ((readLabel_plain_iff valid).mpr ⟨rfl, clean⟩) closes,
              expect_cons (by decide)]
            rfl
      | cons l' ls =>
          have others := @ih fuel names (List.cons_ne_nil l' ls) (by simp at enough ⊢; omega)
          have comma : expect ',' (',' :: (plainLabels (l' :: ls) ++ '}' :: rest)) =
            some (plainLabels (l' :: ls) ++ '}' :: rest) :=
            expect_cons (by decide)
          rw [plainLabels_cons, List.append_assoc, List.cons_append, List.forall_mem_cons]
          constructor
          · intro read
            obtain ⟨left, first⟩ := readLabel_of_readLabels (opens _) read
            obtain ⟨rfl, clean⟩ := (readLabel_plain_iff valid).mp first
            rw [readLabels_more (opens _) first comma, Option.bind_eq_some_iff] at read
            obtain ⟨⟨_, _⟩, inner, same⟩ := read
            obtain ⟨tail, rfl⟩ := Prod.ext_iff.mp (Option.some.inj same)
            obtain rfl := (List.cons.inj tail).2
            obtain ⟨same, later⟩ := others.mp inner
            exact ⟨same, clean, later⟩
          · rintro ⟨rfl, clean, later⟩
            rw [readLabels_more (opens _) ((readLabel_plain_iff valid).mpr ⟨rfl, clean⟩) comma,
              others.mpr ⟨rfl, later⟩]
            rfl

end

section
variable {V : Type} {values : ValueText V} {s : Sample V} {rest after tail : List Char}
  {ls : List (String × String)} {v : V}

/-- The text of a value, with the end of its line. -/
theorem readWord_value : readWord (' ' :: ((values.text v).toList ++ '\n' :: rest)) =
    (values.text v, '\n' :: rest) := by
  have blank (text : List Char) : readWord (' ' :: text) = readWord text := rfl
  rw [blank]
  exact readWord_append (fun c member => (values.solid v c member).1) (by decide)
    (values.nonempty v)

theorem expect_value : expect '{' (' ' :: ((values.text v).toList ++ tail)) = none := by
  have blank (text : List Char) : expect '{' (' ' :: text) = expect '{' text := rfl
  rw [blank]
  cases chars : (values.text v).toList with
  | nil => exact absurd (String.toList_inj.mp (chars.trans rfl)) (values.nonempty v)
  | cons c more =>
      obtain ⟨solid, unbraced⟩ := values.solid v c (chars ▸ List.mem_cons_self)
      rw [isSolid, Bool.and_eq_true, Bool.not_eq_true'] at solid
      exact expect_cons_ne solid.1 unbraced

theorem length_plainLabels : ls.length ≤ (plainLabels ls).length := by
  induction ls with
  | nil => exact Nat.zero_le _
  | cons l ls ih =>
      cases ls with
      | nil =>
          rw [plainLabels_singleton, plainLabel]
          simp
          omega
      | cons l' ls =>
          rw [plainLabels_cons, List.length_append, List.length_cons (a := ','), List.length_cons]
          omega

theorem readBraces_plain_iff (names : ∀ l ∈ ls, isName isLabelStart l.1 = true) :
    readBraces (plainBraces ls ++ ' ' :: ((values.text v).toList ++ tail)) = some (ls, after) ↔
      after = ' ' :: ((values.text v).toList ++ tail) ∧ ∀ l ∈ ls, Clean l.2 := by
  by_cases none : ls = []
  · subst none
    rw [plainBraces, if_pos rfl, List.nil_append, readBraces, expect_value]
    simp [eq_comm]
  · have opens (text : List Char) : expect '{' ('{' :: text) = some text := expect_cons (by decide)
    rw [plainBraces, if_neg none, List.cons_append, List.cons_append, List.append_assoc,
      readBraces, opens]
    refine readLabels_plain_iff names none ?_
    rw [List.length_append]
    exact Nat.le_succ_of_le (Nat.le_trans length_plainLabels (Nat.le_add_right _ _))

/-- A sample is read back exactly where no label has anything to escape. -/
theorem readSample_plain_iff (valid : s.Valid) :
    readSample values (plainSample values s ++ '\n' :: rest) = some
      (s, after) ↔ after = rest ∧ s.Clean := by
  obtain ⟨name, names, distinct⟩ := valid
  have text : plainSample values s ++ '\n' :: rest =
      s.name.toList ++ (plainBraces s.labels ++ ' ' :: ((values.text s.value).toList ++
        '\n' :: rest)) := by
    simp [plainSample]
  have named : readName isMetricStart (plainSample values s ++ '\n' :: rest) =
      some (s.name, plainBraces s.labels ++ ' ' :: ((values.text s.value).toList ++
        '\n' :: rest)) := by
    rw [text, plainBraces]
    split
    · exact readName_append name isMetricStart_solid (by decide)
    · exact readName_append name isMetricStart_solid (by decide)
  have chain : readSample values (plainSample values s ++ '\n' :: rest) =
      (readBraces (plainBraces s.labels ++ ' ' :: ((values.text s.value).toList ++ '\n' ::
        rest))).bind fun read =>
        if (read.1.map Prod.fst).Nodup then
          (values.read (readWord read.2).1).bind fun value =>
            (readStamp (readWord read.2).2).bind fun rest => some (⟨s.name, read.1, value⟩, rest)
        else none := by
    rw [readSample, named]
    rfl
  have good (clean : s.Clean) : readSample values (plainSample values s ++ '\n' :: rest) =
    some (s, rest) := by
    rw [chain, (readBraces_plain_iff names).mpr ⟨rfl, clean⟩, Option.bind_some, if_pos distinct,
      readWord_value, values.read_text]
    rfl
  constructor
  · intro read
    have clean : s.Clean := by
      have given := read
      rw [chain, Option.bind_eq_some_iff] at given
      obtain ⟨⟨labels, left⟩, inner, given⟩ := given
      split at given
      · rw [Option.bind_eq_some_iff] at given
        obtain ⟨value, _, given⟩ := given
        rw [Option.bind_eq_some_iff] at given
        obtain ⟨_, _, same⟩ := given
        obtain rfl : labels = s.labels :=
          congrArg Sample.labels (Prod.ext_iff.mp (Option.some.inj same)).1
        exact ((readBraces_plain_iff names).mp inner).2
      · cases given
    exact ⟨(Prod.ext_iff.mp (Option.some.inj ((good clean).symm.trans read))).2.symm, clean⟩
  · rintro ⟨rfl, clean⟩
    exact good clean

end

/-- The samples of a page. -/
def samplesOf {V : Type} (lines : List (Line V)) : List (Sample V) := lines.filterMap Line.sample?

section
variable {V : Type} {values : ValueText V} {s : Sample V} {rest : List Char} {name kind : String}
  {lines read : List (Line V)}
  {fuel : Nat}

theorem kinds_solid : ∀ kind ∈ kinds, kind ≠ "" ∧ kind.toList.all isSolid = true := by
  decide +kernel

theorem readLine_cons {c : Char} (solid : isBlank c = false) : readLine values (c :: rest) =
    if c = '\n' then some (none, rest)
    else if c = '#' then readComment rest
    else (readSample values (c :: rest)).bind fun read => some (some (.sample read.1), read.2) := by
  rw [readLine, skipBlanks_cons solid]
  rfl

theorem typeMark_eq : typeMark = '#' :: ' ' :: ("TYPE".toList ++ [' ']) := by decide +kernel

theorem readLine_typed (valid : isName isMetricStart name = true) (known : kind ∈ kinds) :
    readLine values (plainLine values (.typed name kind) ++ '\n' :: rest) = some
      (some (.typed name kind), rest) := by
  obtain ⟨nonempty, solid⟩ := kinds_solid kind known
  have text : plainLine values (.typed name kind) ++ '\n' :: rest =
      '#' :: ' ' ::
        ("TYPE".toList ++ ' ' :: (name.toList ++ ' ' :: (kind.toList ++ '\n' :: rest))) := by
    simp only [plainLine, plainTyped, typeMark_eq, List.cons_append, List.append_assoc,
      List.nil_append]
  have blank (text : List Char) : readWord (' ' :: text) = readWord text := rfl
  have marked : readWord
    (' ' :: ("TYPE".toList ++ ' ' :: (name.toList ++ ' ' :: (kind.toList ++ '\n' :: rest)))) =
      ("TYPE", ' ' :: (name.toList ++ ' ' :: (kind.toList ++ '\n' :: rest))) := by
    rw [blank]
    exact readWord_append (List.all_eq_true.mp (by decide +kernel)) (by decide) (by decide)
  have named : readName isMetricStart
    (' ' :: (name.toList ++ ' ' :: (kind.toList ++ '\n' :: rest))) =
      some (name, ' ' :: (kind.toList ++ '\n' :: rest)) :=
    readName_append (c := ' ') valid isMetricStart_solid (by decide)
  have typed : readWord (' ' :: (kind.toList ++ '\n' :: rest)) = (kind, '\n' :: rest) := by
    rw [blank]
    exact readWord_append (List.all_eq_true.mp solid) (by decide) nonempty
  have newline : ¬ '#' = '\n' := by decide
  rw [text, readLine_cons (by decide), if_neg newline, if_pos rfl, readComment, marked,
    if_pos rfl, named]
  change (if (readWord (' ' :: (kind.toList ++ '\n' :: rest))).1 ∈ kinds then _ else none) = _
  rw [typed, if_pos known]
  rfl

theorem readLine_sample (valid : isName isMetricStart s.name = true) :
    readLine values (plainLine values (.sample s) ++ '\n' :: rest) =
      (readSample values (plainSample values s ++ '\n' :: rest)).bind fun read => some
        (some (.sample read.1), read.2) := by
  rw [isName] at valid
  cases chars : s.name.toList with
  | nil =>
      rw [chars] at valid
      cases valid
  | cons c more =>
      rw [chars, Bool.and_eq_true] at valid
      have text : plainSample values s ++ '\n' :: rest =
          c :: (more ++ plainBraces s.labels ++ ' ' :: (values.text s.value).toList ++
            '\n' :: rest) := by
        simp only [plainSample, chars, List.cons_append, List.append_assoc]
      have newline : c ≠ '\n' := by
        rintro rfl
        exact absurd valid.1 (by decide)
      have comment : c ≠ '#' := by
        rintro rfl
        exact absurd valid.1 (by decide)
      rw [plainLine, text, readLine_cons (isMetricStart_solid c valid.1), if_neg newline,
        if_neg comment]

theorem plainPage_cons {line : Line V} : plainPage values (line :: lines) = plainLine values line ++
    '\n' :: plainPage values lines := by
  rw [plainPage, List.flatMap_cons, List.append_assoc]
  rfl

theorem readLines_zero {text : List Char} (more : text ≠ []) : readLines values 0 text = none := by
  cases text with
  | nil => exact absurd rfl more
  | cons c rest => rfl

/-- One line is read after the other. -/
theorem readLines_succ {text : List Char} (more : text ≠ []) : readLines values (fuel + 1) text =
    (readLine values text).bind fun first => (readLines values fuel first.2).bind fun others => some
      (first.1.toList ++ others) := by
  cases text with
  | nil => exact absurd rfl more
  | cons c rest => rfl

theorem plainLine_ne_nil {line : Line V} : plainLine values line ++ '\n' :: rest ≠ [] :=
  List.append_ne_nil_of_right_ne_nil _ (List.cons_ne_nil _ _)

/-- A line that has nothing to escape is read back. -/
theorem readLine_plain {line : Line V} (valid : line.Valid) (clean : ∀ s ∈ line.sample?, s.Clean) :
    readLine values (plainLine values line ++ '\n' :: rest) = some (some line, rest) := by
  cases line with
  | typed name kind => exact readLine_typed valid.1 valid.2
  | sample s =>
      rw [readLine_sample valid.1, (readSample_plain_iff valid).mpr ⟨rfl, clean s rfl⟩]
      rfl

/-- The first sample of a page that is read back has nothing to escape. -/
theorem clean_of_readLines (valid : s.Valid)
    (text : readLines values fuel (plainPage values (.sample s :: lines)) = some read)
    (same : samplesOf read = s :: samplesOf lines) : s.Clean := by
  rw [plainPage_cons] at text
  cases fuel with
  | zero => cases (readLines_zero plainLine_ne_nil).symm.trans text
  | succ fuel =>
      rw [readLines_succ plainLine_ne_nil, readLine_sample valid.1, Option.bind_eq_some_iff] at text
      obtain ⟨first, sample, text⟩ := text
      rw [Option.bind_eq_some_iff] at sample text
      obtain ⟨⟨s', left⟩, sample, line⟩ := sample
      obtain ⟨others, _, all⟩ := text
      obtain rfl := Option.some.inj line
      obtain rfl := Option.some.inj all
      obtain rfl : s' = s := (List.cons.inj same).1
      exact ((readSample_plain_iff valid).mp sample).2

/-- The samples of a page are read back exactly where no label has anything to escape; the types are
then, too. -/
theorem readLines_plain_iff (valid : ∀ line ∈ lines, line.Valid) (enough : lines.length ≤ fuel) :
    (readLines values fuel (plainPage values lines) = some read ∧ samplesOf read =
      samplesOf lines) ↔
      read = lines ∧ ∀ s ∈ samplesOf lines, s.Clean := by
  induction lines generalizing fuel read with
  | nil =>
      have none : readLines values fuel (plainPage values []) = some [] := by
        cases fuel with
        | zero => rfl
        | succ fuel => rfl
      rw [none, Option.some_inj]
      constructor
      · rintro ⟨rfl, _⟩
        exact ⟨rfl, nofun⟩
      · rintro ⟨rfl, _⟩
        exact ⟨rfl, rfl⟩
  | cons line lines ih =>
      obtain ⟨here, later⟩ := List.forall_mem_cons.mp valid
      obtain ⟨fuel, rfl⟩ : ∃ n, fuel = n + 1 := ⟨fuel - 1, by simp at enough; omega⟩
      have others {read : List (Line V)} := @ih read fuel later (by simp at enough; omega)
      have step (clean : ∀ s ∈ line.sample?, s.Clean) : readLines values (fuel + 1)
        (plainPage values (line :: lines)) =
          (readLines values fuel (plainPage values lines)).bind fun more => some
            (line :: more) := by
        rw [plainPage_cons, readLines_succ plainLine_ne_nil, readLine_plain here clean]
        rfl
      have split (more : List (Line V)) : samplesOf (line :: more) = line.sample?.toList ++
        samplesOf more := by
        rw [samplesOf, List.filterMap_cons]
        cases line.sample? with
        | none => rfl
        | some s => rfl
      constructor
      · rintro ⟨text, same⟩
        have clean : ∀ s ∈ line.sample?, s.Clean := by
          cases line with
          | typed name kind => exact nofun
          | sample s =>
              rintro _ ⟨⟩
              exact clean_of_readLines here text same
        rw [step clean, Option.bind_eq_some_iff] at text
        obtain ⟨more, text, all⟩ := text
        obtain rfl := Option.some.inj all
        rw [split, split, List.append_cancel_left_eq] at same
        obtain ⟨rfl, cleanLater⟩ := others.mp ⟨text, same⟩
        refine ⟨rfl, ?_⟩
        rw [split]
        intro s member
        rcases List.mem_append.mp member with own | other
        · exact clean s (Option.mem_toList.mp own)
        · exact cleanLater s other
      · rintro ⟨rfl, clean⟩
        rw [split] at clean
        obtain ⟨text, _⟩ :=
          others.mpr ⟨rfl, fun s member => clean s (List.mem_append_right _ member)⟩
        rw [step fun s own => clean s (List.mem_append_left _ (Option.mem_toList.mpr own)), text]
        exact ⟨rfl, rfl⟩

end

end Exposition
