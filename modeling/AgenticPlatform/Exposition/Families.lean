import AgenticPlatform.Exposition.Pages

/-! The families of a page: a type line and the samples after it. A page is well grouped when every
family has one type line, and all its samples come right after that. -/
namespace Exposition
variable {V : Type}

structure Family (V : Type) where
  name : String
  kind : String
  samples : List (Sample V)

def Family.lines (f : Family V) : List (Line V) := .typed f.name f.kind :: f.samples.map .sample

def pageOf (families : List (Family V)) : List (Line V) := families.flatMap Family.lines

/-- What the names of the samples of a family add to its own name. -/
def suffixes (kind : String) : List String :=
  if kind = "summary" then ["_sum", "_count"]
  else if kind = "histogram" then ["_bucket", "_sum", "_count"]
  else []

/-- The family of the samples of a name: the one that is called so, or the one that the name adds a
suffix to. -/
def familyOf (families : List (Family V)) (name : String) : String :=
  if name ∈ families.map Family.name then name
  else ((families.find? fun f => (suffixes f.kind).any fun suffix => f.name ++ suffix = name).map
    Family.name).getD name

/-- No family has two type lines, and every sample stands with its own family. -/
structure Grouping (families : List (Family V)) : Prop where
  once : (families.map Family.name).Nodup
  own : ∀ f ∈ families, ∀ s ∈ f.samples, familyOf families s.name = f.name

/-- The lines are those of families. -/
def WellGrouped (lines : List (Line V)) : Prop := ∃ families, lines = pageOf families ∧
    Grouping families

variable {families others : List (Family V)} {xs ys : List (Sample V)} {f : Family V} {s : Sample V}
  {lines : List (Line V)}

theorem pageOf_cons : pageOf
    (f :: families) = .typed f.name f.kind :: (f.samples.map .sample ++ pageOf families) := rfl

/-- A page does not begin with a sample. -/
theorem pageOf_ne_sample : pageOf families ≠ .sample s :: lines := by
  cases families with
  | nil => exact nofun
  | cons f rest =>
      rw [pageOf_cons]
      exact nofun

/-- Samples end where the next family begins. -/
theorem samples_injective
    (same : xs.map Line.sample ++ pageOf families = ys.map Line.sample ++ pageOf others) :
    xs = ys ∧ pageOf families = pageOf others := by
  induction xs generalizing ys with
  | nil =>
      cases ys with
      | nil => exact ⟨rfl, same⟩
      | cons y ys => exact absurd same pageOf_ne_sample
  | cons x xs ih =>
      cases ys with
      | nil => exact absurd same.symm pageOf_ne_sample
      | cons y ys =>
          rw [List.map_cons, List.map_cons, List.cons_append, List.cons_append] at same
          obtain ⟨head, tail⟩ := List.cons.inj same
          obtain ⟨rfl, rest⟩ := ih tail
          exact ⟨congrArg (fun x => x :: xs) (Line.sample.inj head), rest⟩

/-- The lines determine the families. -/
theorem pageOf_injective (same : pageOf families = pageOf others) : families = others := by
  induction families generalizing others with
  | nil =>
      cases others with
      | nil => rfl
      | cons g rest => cases same
  | cons f families ih =>
      cases others with
      | nil => cases same
      | cons g others =>
          rw [pageOf_cons, pageOf_cons] at same
          obtain ⟨head, tail⟩ := List.cons.inj same
          obtain ⟨name, kind⟩ := Line.typed.inj head
          obtain ⟨samples, rest⟩ := samples_injective tail
          obtain ⟨_, _, _⟩ := f
          obtain ⟨_, _, _⟩ := g
          obtain rfl : _ = _ := name
          obtain rfl : _ = _ := kind
          obtain rfl : _ = _ := samples
          rw [ih rest]

theorem wellGrouped_pageOf : WellGrouped (pageOf families) ↔ Grouping families := by
  constructor
  · rintro ⟨others, same, grouping⟩
    exact pageOf_injective same ▸ grouping
  · exact fun grouping => ⟨families, rfl, grouping⟩

theorem samplesOf_pageOf : samplesOf (pageOf families) = families.flatMap Family.samples := by
  induction families with
  | nil => rfl
  | cons f families ih =>
      have own : (f.samples.map Line.sample).filterMap Line.sample? = f.samples := by
        rw [List.filterMap_map]
        exact List.filterMap_some
      rw [pageOf_cons, samplesOf, List.filterMap_cons, Line.sample?, List.filterMap_append, own,
        List.flatMap_cons, ← ih]
      rfl

theorem familyOf_self {name : String} (member : name ∈ families.map Family.name) :
    familyOf families name = name := if_pos member

theorem suffixes_summary : suffixes "summary" = ["_sum", "_count"] := if_pos rfl

/-- The last two characters tell the suffixes apart. -/
theorem suffixes_end : ∀ a ∈ ["_bucket", "_sum", "_count"], ∀ b ∈ ["_bucket", "_sum", "_count"],
    2 ≤ a.toList.length ∧ (a.toList.reverse.take 2 = b.toList.reverse.take 2 → a = b) := by
  decide +kernel

theorem suffixes_known {kind suffix : String} (known : suffix ∈ suffixes kind) :
    suffix ∈ ["_bucket", "_sum", "_count"] := by
  rw [suffixes] at known
  split at known
  · exact List.mem_cons_of_mem _ known
  · split at known
    · exact known
    · cases known

/-- A name that adds a suffix to another one adds it to that one only. -/
theorem append_suffix_injective {name name' suffix suffix' : String}
    (known : suffix ∈ ["_bucket", "_sum", "_count"])
    (known' : suffix' ∈ ["_bucket", "_sum", "_count"]) (same : name ++ suffix = name' ++ suffix') :
    name = name' := by
  have chars : suffix.toList.reverse ++ name.toList.reverse = suffix'.toList.reverse ++
    name'.toList.reverse := by
    rw [← List.reverse_append, ← List.reverse_append, ← String.toList_append,
      ← String.toList_append, same]
  obtain ⟨long, ends⟩ := suffixes_end suffix known suffix' known'
  obtain ⟨long', _⟩ := suffixes_end suffix' known' suffix known
  have last := congrArg (List.take 2) chars
  rw [List.take_append_of_le_length (by rwa [List.length_reverse]), List.take_append_of_le_length
    (by rwa [List.length_reverse])] at last
  obtain rfl := ends last
  exact String.toList_inj.mp (List.reverse_inj.mp (List.append_cancel_left chars))

/-- A sample with a suffix belongs to the family of the rest of its name, unless a family is called
like it. -/
theorem familyOf_suffix {suffix : String} (member : f ∈ families) (known : suffix ∈ suffixes f.kind)
    (free : f.name ++ suffix ∉ families.map Family.name) : familyOf families
      (f.name ++ suffix) = f.name := by
  rw [familyOf, if_neg free]
  cases found : families.find? fun g => (suffixes g.kind).any fun other => g.name ++ other =
    f.name ++ suffix with
  | none =>
      refine absurd ?_ (List.find?_eq_none.mp found f member)
      exact List.any_eq_true.mpr ⟨suffix, known, decide_eq_true rfl⟩
  | some g =>
      have named := List.find?_some found
      obtain ⟨other, known', same⟩ := List.any_eq_true.mp named
      exact append_suffix_injective (suffixes_known known') (suffixes_known known)
        (of_decide_eq_true same)

end Exposition
