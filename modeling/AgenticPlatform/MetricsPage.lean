import AgenticPlatform.Counting.Grouped
import AgenticPlatform.Exposition.Families
import AgenticPlatform.Metrics
import Mathlib.Data.Nat.Digits.Defs

/-! The registry with the values that callers pass, and the page that shows it: the page parses
exactly where every family has one set of labels, no label value has anything to escape, and no
family is called like a sample of another. -/
namespace AgenticPlatform
open Counting Exposition

/-- A metric and its labels. -/
abbrev MetricKey := String × Labels

/-- `MetricsRegistry`, with values of any kind that can be added. -/
structure ValueRegistry (V : Type) where
  counters : Grouped MetricKey V
  latencySum : Grouped MetricKey V
  latencyCount : Grouped MetricKey V

/-- A call of a method of the registry. -/
inductive MetricCall (V : Type) where
  | inc (name : String) (value : V) (labels : Labels)
  | observeLatencyMs (name : String) (latencyMs : V) (labels : Labels)

section
variable {V : Type} [Zero V] [One V] [Add V]

namespace ValueRegistry

def empty : ValueRegistry V := ⟨[], [], []⟩

def inc (reg : ValueRegistry V) (name : String) (value : V) (labels : Labels) : ValueRegistry V :=
  { reg with counters := reg.counters.update 0 (· + value) (name, labelKey labels) }

def observeLatencyMs (reg : ValueRegistry V) (name : String) (latencyMs : V) (labels : Labels) :
    ValueRegistry V :=
  let key := (name, labelKey labels)
  { reg with
    latencySum := reg.latencySum.update 0 (· + latencyMs) key
    latencyCount := reg.latencyCount.update 0 (· + 1) key }

def call (reg : ValueRegistry V) : MetricCall V → ValueRegistry V
  | .inc name value labels => reg.inc name value labels
  | .observeLatencyMs name latencyMs labels => reg.observeLatencyMs name latencyMs labels

/-- What a sequence of calls records. -/
def run (calls : List (MetricCall V)) : ValueRegistry V := calls.foldl call empty

end ValueRegistry

/-- `observe_latency_ms` of the module, as calls of the registry. -/
def observeLatencyCalls (metricBase : String) (latencyMs : V) (labels : Labels) : List
    (MetricCall V) :=
  [.observeLatencyMs (metricBase ++ "_ms") latencyMs labels, .inc (metricBase ++ "_count") 1 labels]

/-- Whether a label comes before another one. -/
def labelLt (a b : String × String) : Bool := a.1 < b.1 || (a.1 = b.1 && a.2 < b.2)

def labelsLe : Labels → Labels → Bool
  | [], _ => true
  | _ :: _, [] => false
  | a :: as, b :: bs => labelLt a b || (a = b && labelsLe as bs)

/-- `sorted(groups.items())`, where the keys are distinct. -/
def sortedItems (groups : Grouped MetricKey V) : Grouped MetricKey V :=
  groups.insertionSort fun a b => a.1.1 < b.1.1 ∨ a.1.1 = b.1.1 ∧ labelsLe a.1.2 b.1.2 = true

/-- `_prom_labels`. -/
def promLabels (labelTuples : Labels) : String :=
  if labelTuples.isEmpty then ""
  else "\x7b" ++ String.intercalate "," (labelTuples.map fun l => l.1 ++ "=\"" ++ l.2 ++ "\"") ++
    "\x7d"

def sumName (name : String) : String := if "_ms".toList <:+ name.toList then name else name ++ "_ms"

variable (values : ValueText V)

def typeLine (name kind : String) : String := "# TYPE " ++ name ++ " " ++ kind

def sampleLine (s : Sample V) : String :=
  s.name ++ promLabels s.labels ++ " " ++ values.text s.value

/-- The lines of a counter. -/
def counterLines (item : MetricKey × V) : List String :=
  [typeLine item.1.1 "counter", sampleLine values ⟨item.1.1, item.1.2, item.2⟩]

/-- The lines of the latencies of a metric. -/
def latencyLines (latencyCount : Grouped MetricKey V) (item : MetricKey × V) : List String :=
  let count := (latencyCount.get? item.1).getD 0
  [typeLine (sumName item.1.1) "summary",
    sampleLine values ⟨sumName item.1.1 ++ "_sum", item.1.2, item.2⟩,
    sampleLine values ⟨sumName item.1.1 ++ "_count", item.1.2, count⟩]

def renderPrometheus (reg : ValueRegistry V) : String :=
  let lines := (sortedItems reg.counters).flatMap (counterLines values) ++
    (sortedItems reg.latencySum).flatMap (latencyLines values reg.latencyCount)
  String.intercalate "\n" lines ++ if lines.isEmpty then "" else "\n"

/-- The samples that show what is recorded, in the order of the page. -/
def recorded (reg : ValueRegistry V) : List (Sample V) :=
  ((sortedItems reg.counters).map fun item => ⟨item.1.1, item.1.2, item.2⟩) ++
    (sortedItems reg.latencySum).flatMap fun item =>
      [⟨sumName item.1.1 ++ "_sum", item.1.2, item.2⟩,
        ⟨sumName item.1.1 ++ "_count", item.1.2, (reg.latencyCount.get? item.1).getD 0⟩]

/-- The page parses: its samples are those that are recorded, they are grouped by their families,
and samples of one metric with different labels have different lines. -/
def PageParses (reg : ValueRegistry V) : Prop :=
  ∃ lines, parsePage values (renderPrometheus values reg) = some lines ∧ samplesOf lines =
    recorded reg ∧ WellGrouped lines ∧
    ∀ s ∈ recorded reg, ∀ s' ∈ recorded reg, s.name = s'.name → s.labels ≠ s'.labels →
      sampleLine values s ≠ sampleLine values s'

namespace MetricCall
variable {values}

def name : MetricCall V → String
  | inc name _ _ => name
  | observeLatencyMs name _ _ => name

def labels : MetricCall V → Labels
  | inc _ _ labels => labels
  | observeLatencyMs _ _ labels => labels

def isLatency : MetricCall V → Bool
  | inc _ _ _ => false
  | observeLatencyMs _ _ _ => true

/-- The family that shows what the call records. -/
def family (call : MetricCall V) : String := if call.isLatency then sumName call.name else call.name

/-- The place in the registry that the call adds to. -/
def key (call : MetricCall V) : Bool × MetricKey :=
  (call.isLatency, call.name, labelKey call.labels)

/-- The names are names, and no label has two values. -/
def Valid (call : MetricCall V) : Prop :=
  isName isMetricStart call.name = true ∧ (∀ l ∈ call.labels, isName isLabelStart l.1 = true) ∧
    (call.labels.map Prod.fst).Nodup

instance : DecidablePred (Valid (V := V)) := fun _ => inferInstanceAs (Decidable (_ ∧ _))

end MetricCall

/-- No label value has anything to escape, every family has one set of labels, and no family is
called like a sample of a family of latencies. -/
structure Exposable (calls : List (MetricCall V)) : Prop where
  clean : ∀ c ∈ calls, ∀ l ∈ c.labels, Clean l.2
  single : ∀ c ∈ calls, ∀ d ∈ calls, c.family = d.family → c.key = d.key
  apart : ∀ c ∈ calls, ∀ d ∈ calls, d.isLatency = true → c.family ≠ d.family ++ "_sum" ∧
    c.family ≠ d.family ++ "_count"

def counterFamily (item : MetricKey × V) : Family V :=
  ⟨item.1.1, "counter", [⟨item.1.1, item.1.2, item.2⟩]⟩

def latencyFamily (latencyCount : Grouped MetricKey V) (item : MetricKey × V) : Family V where
  name := sumName item.1.1
  kind := "summary"
  samples := [⟨sumName item.1.1 ++ "_sum", item.1.2, item.2⟩,
    ⟨sumName item.1.1 ++ "_count", item.1.2, (latencyCount.get? item.1).getD 0⟩]

def familiesOf (reg : ValueRegistry V) : List (Family V) :=
  (sortedItems reg.counters).map counterFamily ++ (sortedItems reg.latencySum).map
    (latencyFamily reg.latencyCount)

end

section
variable {V : Type} {values : ValueText V} {s : Sample V} {ls : Labels} {name kind : String}
  {lines : List (Line V)}

theorem toList_promLabels : (promLabels ls).toList = plainBraces ls := by
  have label : String.toList ∘ (fun l : String × String => l.1 ++ "=\"" ++ l.2 ++ "\"") =
    plainLabel := by
    funext l
    simp [plainLabel]
  cases ls with
  | nil => rfl
  | cons l ls =>
      have some : ¬ (l :: ls).isEmpty = true := Bool.false_ne_true
      rw [plainBraces, if_neg (List.cons_ne_nil l ls), promLabels, if_neg some,
        String.toList_append, String.toList_append, String.toList_intercalate, List.map_map, label]
      rfl

theorem toList_sampleLine : (sampleLine values s).toList = plainSample values s := by
  rw [sampleLine, plainSample]
  simp [toList_promLabels]

theorem toList_typeLine : (typeLine name kind).toList = plainTyped name kind := by
  change ("# TYPE " ++ name ++ " " ++ kind).toList = typeMark ++ name.toList ++ ' ' :: kind.toList
  rw [String.toList_append, String.toList_append, String.toList_append,
    List.append_assoc _ " ".toList]
  rfl

/-- The text of a line. -/
def lineText (values : ValueText V) : Line V → String
  | .typed name kind => typeLine name kind
  | .sample s => sampleLine values s

theorem toList_lineText {line : Line V} :
    (lineText values line).toList = plainLine values line := by
  cases line with
  | typed name kind => exact toList_typeLine
  | sample s => exact toList_sampleLine

/-- Lines that are joined, with a line end after the last one. -/
theorem toList_joined : (String.intercalate "\n" (lines.map (lineText values)) ++
      if (lines.map (lineText values)).isEmpty then "" else "\n").toList =
    plainPage values lines := by
  induction lines with
  | nil => rfl
  | cons line lines ih =>
      cases lines with
      | nil => simp [plainPage, toList_lineText]
      | cons line' lines =>
          rw [plainPage_cons, ← ih]
          simp [toList_lineText]

section
variable [Zero V] {reg : ValueRegistry V} {item : MetricKey × V} {counts : Grouped MetricKey V}

/-- The page is that of the families of the registry, written plainly. -/
theorem renderPrometheus_plain : (renderPrometheus values reg).toList = plainPage values
    (pageOf (familiesOf reg)) := by
  have lines : (sortedItems reg.counters).flatMap (counterLines values) ++
      (sortedItems reg.latencySum).flatMap (latencyLines values reg.latencyCount) =
        (pageOf (familiesOf reg)).map (lineText values) := by
    rw [pageOf, familiesOf, List.flatMap_append, List.map_append, List.flatMap_map,
      List.flatMap_map, List.map_flatMap, List.map_flatMap]
    rfl
  rw [renderPrometheus, lines]
  exact toList_joined

theorem recorded_eq : recorded reg = samplesOf (pageOf (familiesOf reg)) := by
  have single (items : Grouped MetricKey V) :
    items.flatMap (fun item => (counterFamily item).samples) =
      items.map fun item => ⟨item.1.1, item.1.2, item.2⟩ := List.flatMap_pure_eq_map _ _
  rw [samplesOf_pageOf, familiesOf, List.flatMap_append, List.flatMap_map, List.flatMap_map, single]
  rfl

end

section
variable {reg : ValueRegistry V} {groups : Grouped MetricKey V} {k : Bool × MetricKey}
  {calls : List (MetricCall V)} {call : MetricCall V}

theorem sortedItems_perm : (sortedItems groups).Perm groups := List.perm_insertionSort _ _

/-- The places of the registry that are in use, in the order of the page. -/
def keysOf (reg : ValueRegistry V) : List (Bool × MetricKey) :=
  (sortedItems reg.counters).keys.map (Prod.mk false) ++ (sortedItems reg.latencySum).keys.map
    (Prod.mk true)

theorem mem_keysOf : k ∈ keysOf reg ↔ k.2 ∈ if k.1 then reg.latencySum.keys
    else reg.counters.keys := by
  have sorted (groups : Grouped MetricKey V) (j : MetricKey) : j ∈ (sortedItems groups).keys ↔
    j ∈ groups.keys :=
    (sortedItems_perm.map Prod.fst).mem_iff
  obtain ⟨latency, j⟩ := k
  cases latency with
  | false => simp [keysOf, sorted]
  | true => simp [keysOf, sorted]

theorem nodup_keysOf (counters : reg.counters.keys.Nodup) (latencies : reg.latencySum.keys.Nodup) :
    (keysOf reg).Nodup := by
  have sorted {groups : Grouped MetricKey V} (distinct : groups.keys.Nodup) (latency : Bool) :
      ((sortedItems groups).keys.map (Prod.mk latency)).Nodup :=
    (((sortedItems_perm.map Prod.fst).nodup_iff).mpr distinct).map fun _ _ same =>
      (Prod.mk.inj same).2
  refine List.nodup_append'.mpr ⟨sorted counters false, sorted latencies true,
    fun k counter latency => ?_⟩
  obtain ⟨_, _, rfl⟩ := List.mem_map.mp counter
  obtain ⟨_, _, same⟩ := List.mem_map.mp latency
  cases (Prod.mk.inj same).1

variable [Zero V] [One V] [Add V]

theorem run_concat : ValueRegistry.run (calls ++ [call]) = (ValueRegistry.run calls).call call :=
  List.foldl_append

/-- A call uses its own place, and no other one. -/
theorem mem_keysOf_call : k ∈ keysOf (reg.call call) ↔ k ∈ keysOf reg ∨ k = call.key := by
  have added (groups : Grouped MetricKey V) (f : V → V) (j own : MetricKey) :
      j ∈ (groups.update 0 f own).keys ↔ j ∈ groups.keys ∨ j = own := by
    rw [Grouped.keys_update]
    exact mem_insertNew
  obtain ⟨latency, j⟩ := k
  rw [mem_keysOf, mem_keysOf]
  cases call with
  | inc name value labels =>
      cases latency with
      | false => simp [ValueRegistry.call, ValueRegistry.inc, added, MetricCall.key,
        MetricCall.isLatency, MetricCall.name, MetricCall.labels]
      | true => simp [ValueRegistry.call, ValueRegistry.inc, MetricCall.key, MetricCall.isLatency]
  | observeLatencyMs name latencyMs labels =>
      cases latency with
      | false => simp [ValueRegistry.call, ValueRegistry.observeLatencyMs, MetricCall.key,
        MetricCall.isLatency]
      | true =>
          simp [ValueRegistry.call, ValueRegistry.observeLatencyMs, added, MetricCall.key,
            MetricCall.isLatency, MetricCall.name, MetricCall.labels]

/-- The places in use are those of the calls. -/
theorem mem_keysOf_run : k ∈ keysOf (ValueRegistry.run calls) ↔ ∃ c ∈ calls, c.key = k := by
  induction calls using List.reverseRecOn with
  | nil => simp [keysOf, ValueRegistry.run, ValueRegistry.empty, sortedItems, Grouped.keys]
  | append_singleton calls call ih =>
      rw [run_concat, mem_keysOf_call, ih]
      simp [or_and_right, exists_or, eq_comm]

theorem nodup_keysOf_run : (keysOf (ValueRegistry.run calls)).Nodup := by
  suffices distinct : (ValueRegistry.run calls).counters.keys.Nodup ∧
    (ValueRegistry.run calls).latencySum.keys.Nodup from
    nodup_keysOf distinct.1 distinct.2
  induction calls using List.reverseRecOn with
  | nil => exact ⟨List.nodup_nil, List.nodup_nil⟩
  | append_singleton calls call ih =>
      rw [run_concat]
      cases call with
      | inc name value labels => exact ⟨Grouped.nodup_update ih.1, ih.2⟩
      | observeLatencyMs name latencyMs labels => exact ⟨ih.1, Grouped.nodup_update ih.2⟩

/-- The family that shows a place of the registry. -/
def familyName (k : Bool × MetricKey) : String := if k.1 then sumName k.2.1 else k.2.1

theorem familyName_latency {key : MetricKey} : familyName (true, key) = sumName key.1 := rfl

omit [One V] [Add V] in
theorem names_familiesOf : (familiesOf reg).map Family.name = (keysOf reg).map familyName := by
  rw [familiesOf, keysOf, List.map_append, List.map_append, Grouped.keys, Grouped.keys]
  simp only [List.map_map]
  rfl

/-- No family has two type lines exactly where every family has one set of labels. -/
theorem once_iff : ((familiesOf (ValueRegistry.run calls)).map Family.name).Nodup ↔
    ∀ c ∈ calls, ∀ d ∈ calls, c.family = d.family → c.key = d.key := by
  rw [names_familiesOf, List.nodup_map_iff_inj_on nodup_keysOf_run]
  constructor
  · intro single c here d there same
    exact single _ (mem_keysOf_run.mpr ⟨c, here, rfl⟩) _ (mem_keysOf_run.mpr ⟨d, there, rfl⟩) same
  · intro single k first k' second same
    obtain ⟨c, here, rfl⟩ := mem_keysOf_run.mp first
    obtain ⟨d, there, rfl⟩ := mem_keysOf_run.mp second
    exact single c here d there same

omit [One V] [Add V] in
/-- Every sample stands with its own family exactly where no family is called like a sample of
latencies. -/
theorem own_iff :
    (∀ f ∈ familiesOf reg, ∀ s ∈ f.samples, familyOf (familiesOf reg) s.name = f.name) ↔
    ∀ k ∈ keysOf reg, ∀ k' ∈ keysOf reg, k'.1 = true →
      familyName k ≠ familyName k' ++ "_sum" ∧ familyName k ≠ familyName k' ++ "_count" := by
  have names {name : String} : name ∈ (familiesOf reg).map Family.name ↔
    ∃ k ∈ keysOf reg, familyName k = name := by
    rw [names_familiesOf, List.mem_map]
  constructor
  · intro own k here k' there latency
    obtain ⟨item, member, rfl⟩ : ∃ item ∈ sortedItems reg.latencySum, (true, item.1) = k' := by
      obtain ⟨_, j⟩ := k'
      obtain rfl : _ = true := latency
      have shown : j ∈ (sortedItems reg.latencySum).keys :=
        (sortedItems_perm.map Prod.fst).mem_iff.mpr (mem_keysOf.mp there)
      obtain ⟨item, member, rfl⟩ := List.mem_map.mp shown
      exact ⟨item, member, rfl⟩
    have family : latencyFamily reg.latencyCount item ∈ familiesOf reg :=
      List.mem_append_right _ (List.mem_map_of_mem member)
    rw [familyName_latency]
    have apart {suffix : String} {s : Sample V}
      (sample : s ∈ (latencyFamily reg.latencyCount item).samples)
        (named : s.name = sumName item.1.1 ++ suffix) (some : suffix ≠ "") : familyName k ≠
          sumName item.1.1 ++ suffix := by
      intro same
      have own := own _ family s sample
      rw [named, familyOf_self (names.mpr ⟨k, here, same⟩)] at own
      exact some (String.toList_inj.mp (List.append_right_eq_self.mp
        ((String.toList_append).symm.trans (congrArg String.toList own))))
    exact ⟨apart List.mem_cons_self rfl (by decide), apart
      (List.mem_cons_of_mem _ List.mem_cons_self) rfl (by decide)⟩
  · intro apart f member s sample
    rcases List.mem_append.mp member with counter | latency
    · obtain ⟨item, _, rfl⟩ := List.mem_map.mp counter
      obtain rfl := List.mem_singleton.mp sample
      exact familyOf_self (List.mem_map_of_mem member)
    · obtain ⟨item, there, rfl⟩ := List.mem_map.mp latency
      have key : (true, item.1) ∈ keysOf reg :=
        mem_keysOf.mpr ((sortedItems_perm.map Prod.fst).mem_iff.mp (List.mem_map_of_mem there))
      have free (suffix : String) (named : suffix = "_sum" ∨ suffix = "_count") :
          (latencyFamily reg.latencyCount item).name ++ suffix ∉ (familiesOf reg).map
            Family.name := by
        intro taken
        obtain ⟨k, here, same⟩ := names.mp taken
        obtain ⟨sum, count⟩ := apart k here _ key rfl
        rcases named with rfl | rfl
        · exact sum same
        · exact count same
      have known : suffixes (latencyFamily reg.latencyCount item).kind = ["_sum", "_count"] :=
        suffixes_summary
      have sum : "_sum" ∈ suffixes (latencyFamily reg.latencyCount item).kind :=
        known ▸ List.mem_cons_self
      have count : "_count" ∈ suffixes (latencyFamily reg.latencyCount item).kind :=
        known ▸ List.mem_cons_of_mem _ List.mem_cons_self
      rcases List.mem_cons.mp sample with rfl | other
      · exact @familyOf_suffix V _ (latencyFamily reg.latencyCount item) "_sum" member sum
          (free "_sum" (.inl rfl))
      · obtain rfl := List.mem_singleton.mp other
        exact @familyOf_suffix V _ (latencyFamily reg.latencyCount item) "_count" member count
          (free "_count" (.inr rfl))

omit [One V] [Add V] in
/-- The labels of the samples are those of the places in use. -/
theorem labels_samples {ls : Labels} : (∃ s ∈ samplesOf (pageOf (familiesOf reg)), s.labels = ls) ↔
    ∃ k ∈ keysOf reg, k.2.2 = ls := by
  rw [samplesOf_pageOf]
  constructor
  · rintro ⟨s, member, rfl⟩
    obtain ⟨f, there, sample⟩ := List.mem_flatMap.mp member
    rcases List.mem_append.mp there with counter | latency
    · obtain ⟨item, shown, rfl⟩ := List.mem_map.mp counter
      obtain rfl := List.mem_singleton.mp sample
      exact ⟨(false, item.1), List.mem_append_left _
        (List.mem_map_of_mem (List.mem_map_of_mem shown)), rfl⟩
    · obtain ⟨item, shown, rfl⟩ := List.mem_map.mp latency
      refine ⟨(true, item.1), List.mem_append_right _
        (List.mem_map_of_mem (List.mem_map_of_mem shown)), ?_⟩
      rcases List.mem_cons.mp sample with rfl | other
      · rfl
      · obtain rfl := List.mem_singleton.mp other
        rfl
  · rintro ⟨k, member, rfl⟩
    rcases List.mem_append.mp member with counter | latency
    · obtain ⟨_, shown, rfl⟩ := List.mem_map.mp counter
      obtain ⟨item, there, rfl⟩ := List.mem_map.mp shown
      exact ⟨_, List.mem_flatMap.mpr ⟨_, List.mem_append_left _ (List.mem_map_of_mem there),
        List.mem_cons_self⟩, rfl⟩
    · obtain ⟨_, shown, rfl⟩ := List.mem_map.mp latency
      obtain ⟨item, there, rfl⟩ := List.mem_map.mp shown
      exact ⟨_, List.mem_flatMap.mpr ⟨_, List.mem_append_right _ (List.mem_map_of_mem there),
        List.mem_cons_self⟩, rfl⟩

theorem mem_labelKey {labels : Labels} {l : String × String} : l ∈ labelKey labels ↔ l ∈ labels :=
  List.mem_insertionSort _

/-- No sample has anything to escape exactly where no call does. -/
theorem clean_iff : (∀ s ∈ samplesOf (pageOf (familiesOf (ValueRegistry.run calls))), s.Clean) ↔
    ∀ c ∈ calls, ∀ l ∈ c.labels, Clean l.2 := by
  constructor
  · intro clean c here l member
    obtain ⟨s, there, labels⟩ := labels_samples.mpr ⟨c.key, mem_keysOf_run.mpr ⟨c, here, rfl⟩, rfl⟩
    exact clean s there l (labels ▸ mem_labelKey.mpr member)
  · intro clean s there l member
    obtain ⟨k, shown, labels⟩ := labels_samples.mp ⟨s, there, rfl⟩
    obtain ⟨c, here, rfl⟩ := mem_keysOf_run.mp shown
    have own : l ∈ c.key.2.2 := labels.symm ▸ member
    exact clean c here l (mem_labelKey.mp own)

/-- The name and the labels of a place of the registry are names. -/
def ValidKey (key : MetricKey) : Prop :=
  isName isMetricStart key.1 = true ∧ (∀ l ∈ key.2, isName isLabelStart l.1 = true) ∧
    (key.2.map Prod.fst).Nodup

omit [Zero V] [One V] [Add V] in
theorem MetricCall.Valid.key (valid : call.Valid) : ValidKey call.key.2 := by
  obtain ⟨name, labels, distinct⟩ := valid
  exact ⟨name, fun l member => labels l (mem_labelKey.mp member),
    ((List.perm_insertionSort _ _).map Prod.fst).nodup_iff.mpr distinct⟩

/-- Calls with valid names use valid places. -/
theorem validKeys_run (valid : ∀ c ∈ calls, c.Valid) :
    ∀ k ∈ keysOf (ValueRegistry.run calls), ValidKey k.2 := by
  intro k shown
  obtain ⟨c, here, rfl⟩ := mem_keysOf_run.mp shown
  exact (valid c here).key

theorem isName_sumName {name : String} (valid : isName isMetricStart name = true) :
    isName isMetricStart (sumName name) = true := by
  rw [sumName]
  split
  · exact valid
  · exact isName_append valid (by decide +kernel)

omit [One V] [Add V] in
/-- Every line of the page is well formed where the keys are. -/
theorem lines_valid (valid : ∀ k ∈ keysOf reg, ValidKey k.2) :
    ∀ line ∈ pageOf (familiesOf reg), line.Valid := by
  intro line member
  obtain ⟨f, there, shown⟩ := List.mem_flatMap.mp member
  have kind (name : String) (known : name = "counter" ∨ name = "summary") : name ∈ kinds := by
    rcases known with rfl | rfl
    · exact List.mem_cons_self
    · exact List.mem_cons_of_mem _
        (List.mem_cons_of_mem _ (List.mem_cons_of_mem _ List.mem_cons_self))
  rcases List.mem_append.mp there with counter | latency
  · obtain ⟨item, inside, rfl⟩ := List.mem_map.mp counter
    have valid := valid (false, item.1)
      (List.mem_append_left _ (List.mem_map_of_mem (List.mem_map_of_mem inside)))
    rcases List.mem_cons.mp shown with rfl | sample
    · exact ⟨valid.1, kind _ (.inl rfl)⟩
    · obtain rfl := List.mem_singleton.mp sample
      exact valid
  · obtain ⟨item, inside, rfl⟩ := List.mem_map.mp latency
    obtain ⟨name, labels⟩ := valid (true, item.1)
      (List.mem_append_right _ (List.mem_map_of_mem (List.mem_map_of_mem inside)))
    have sum := isName_sumName name
    rcases List.mem_cons.mp shown with rfl | sample
    · exact ⟨sum, kind _ (.inr rfl)⟩
    · rcases List.mem_cons.mp sample with rfl | other
      · exact ⟨isName_append sum (by decide +kernel), labels⟩
      · obtain rfl := List.mem_singleton.mp other
        exact ⟨isName_append sum (by decide +kernel), labels⟩

end
end

section
variable {V : Type} {values : ValueText V} {lines : List (Line V)} {s s' : Sample V}

/-- Every line takes a character of the page at least. -/
theorem length_plainPage : lines.length ≤ (plainPage values lines).length := by
  induction lines with
  | nil => exact Nat.zero_le _
  | cons line lines ih =>
      rw [plainPage_cons, List.length_append, List.length_cons, List.length_cons]
      omega

/-- Samples without anything to escape have one line only where they are the same. -/
theorem sampleLine_injective (valid : s.Valid) (valid' : s'.Valid) (clean : s.Clean)
    (clean' : s'.Clean) (same : sampleLine values s = sampleLine values s') : s = s' := by
  have read := (@readSample_plain_iff V values s [] [] valid).mpr ⟨rfl, clean⟩
  have read' := (@readSample_plain_iff V values s' [] [] valid').mpr ⟨rfl, clean'⟩
  rw [← toList_sampleLine, same, toList_sampleLine] at read
  exact (Prod.ext_iff.mp (Option.some.inj (read.symm.trans read'))).1

end

section
variable {V : Type} [Zero V] [One V] [Add V]

/-- What the parser gives of the page: its own lines, where no label value has anything to
escape. -/
theorem parsePage_run_iff {values : ValueText V} {calls : List (MetricCall V)}
    (valid : ∀ c ∈ calls, c.Valid) {read : List (Line V)} :
    (parsePage values (renderPrometheus values (ValueRegistry.run calls)) = some read ∧
      samplesOf read = recorded (ValueRegistry.run calls)) ↔
      read = pageOf (familiesOf (ValueRegistry.run calls)) ∧ ∀ c ∈ calls, ∀ l ∈ c.labels,
        Clean l.2 := by
  have enough : (pageOf (familiesOf (ValueRegistry.run calls))).length ≤
    (renderPrometheus values (ValueRegistry.run calls)).length := by
    rw [← String.length_toList, renderPrometheus_plain]
    exact length_plainPage
  rw [parsePage, renderPrometheus_plain, recorded_eq, ← clean_iff]
  exact readLines_plain_iff (lines_valid (validKeys_run valid)) enough

theorem exposable_of_parses {values : ValueText V} {calls : List (MetricCall V)}
    (valid : ∀ c ∈ calls, c.Valid) (parses : PageParses values (ValueRegistry.run calls)) :
    Exposable calls := by
  obtain ⟨read, text, same, grouped, _⟩ := parses
  obtain ⟨rfl, clean⟩ := (parsePage_run_iff valid).mp ⟨text, same⟩
  obtain ⟨once, own⟩ := wellGrouped_pageOf.mp grouped
  refine ⟨clean, once_iff.mp once, fun c here d there latency => ?_⟩
  exact own_iff.mp own _ (mem_keysOf_run.mpr ⟨c, here, rfl⟩) _ (mem_keysOf_run.mpr ⟨d, there, rfl⟩)
    latency

/-- The page parses exactly where every family has one set of labels, no label value has anything to
escape, and no family is called like a sample of latencies. -/
theorem metrics_page_parses_iff (values : ValueText V) (calls : List (MetricCall V))
    (valid : ∀ c ∈ calls, c.Valid) :
    PageParses values (ValueRegistry.run calls) ↔ Exposable calls := by
  constructor
  · exact exposable_of_parses valid
  · rintro ⟨clean, single, apart⟩
    obtain ⟨text, same⟩ := (@parsePage_run_iff V _ _ _ values calls valid _).mpr ⟨rfl, clean⟩
    refine ⟨_, text, same, wellGrouped_pageOf.mpr ⟨once_iff.mpr single, own_iff.mpr ?_⟩, ?_⟩
    · intro k here k' there latency
      obtain ⟨c, called, rfl⟩ := mem_keysOf_run.mp here
      obtain ⟨d, called', rfl⟩ := mem_keysOf_run.mp there
      exact apart c called d called' latency
    · intro s here s' there _ labels sameLine
      rw [recorded_eq] at here there
      have sampleOf {s : Sample V} (member : s ∈ samplesOf
        (pageOf (familiesOf (ValueRegistry.run calls)))) : s.Valid ∧ s.Clean := by
        obtain ⟨line, shown, isSample⟩ := List.mem_filterMap.mp member
        cases line with
        | typed name kind => cases isSample
        | sample s' =>
            obtain rfl := Option.some.inj isSample
            exact ⟨lines_valid (validKeys_run valid) _ shown, clean_iff.mpr clean _ member⟩
      obtain ⟨valid, clean⟩ := sampleOf here
      obtain ⟨valid', clean'⟩ := sampleOf there
      exact labels (congrArg Sample.labels (sampleLine_injective valid valid' clean
        clean' sameLine))

end

/-- The digits of a number, as a float shows it. -/
def wholeText (n : ℕ) : List Char :=
  (if n = 0 then ['0'] else (Nat.digits 10 n).reverse.map Nat.digitChar) ++ ['.', '0']

theorem digitChar_solid : ∀ d < 10, isSolid (Nat.digitChar d) = true ∧ Nat.digitChar d ≠ '\x7b' ∧
    (Nat.digitChar d).toNat - 48 = d := by
  decide

theorem wholeText_solid {n : ℕ} : ∀ c ∈ wholeText n, isSolid c = true ∧ c ≠ '\x7b' := by
  intro c member
  rcases List.mem_append.mp member with digit | ending
  · split at digit
    · obtain rfl := List.mem_singleton.mp digit
      decide
    · obtain ⟨d, place, rfl⟩ := List.mem_map.mp digit
      obtain ⟨solid, unbraced, _⟩ :=
        digitChar_solid d (Nat.digits_lt_base (by decide) (List.mem_reverse.mp place))
      exact ⟨solid, unbraced⟩
  · rcases List.mem_cons.mp ending with rfl | last
    · decide
    · obtain rfl := List.mem_singleton.mp last
      decide

/-- Floats that are whole numbers, as Python writes them. -/
def wholeValues : ValueText ℕ where
  text n := String.ofList (wholeText n)
  read s := some (Nat.ofDigits 10 ((s.toList.dropLast.dropLast.map fun c => c.toNat - 48).reverse))
  read_text n := by
    have digits (xs : List Char) : (xs ++ ['.', '0']).dropLast.dropLast = xs := by
      rw [List.append_cons xs '.' ['0'], List.dropLast_concat, List.dropLast_concat]
    rw [String.toList_ofList, wholeText, digits]
    split
    · next zero =>
        subst zero
        rfl
    · have back : (((Nat.digits 10 n).reverse.map Nat.digitChar).map fun c => c.toNat - 48) =
        (Nat.digits 10 n).reverse := by
        rw [List.map_map]
        refine (List.map_congr_left fun d place => ?_).trans (List.map_id _)
        exact (digitChar_solid d (Nat.digits_lt_base (by decide) (List.mem_reverse.mp place))).2.2
      rw [back, List.reverse_reverse, Nat.ofDigits_digits]
  solid n c member := by
    rw [String.toList_ofList] at member
    exact wholeText_solid c member
  nonempty n empty := by
    have none := congrArg String.toList empty
    rw [String.toList_ofList, wholeText] at none
    exact absurd none (List.append_ne_nil_of_right_ne_nil _ (List.cons_ne_nil _ _))

/-- A counter with one set of labels, and the latencies of a model. -/
def servingCalls : List (MetricCall ℕ) :=
  [.inc "model_failures_total" 1 [("reason", "timeout")], .observeLatencyMs "model_request_ms" 42
    [("provider", "fake")], .inc "model_failures_total" 1 [("reason", "timeout")]]

theorem metrics_page_parses_serving : PageParses wholeValues (ValueRegistry.run servingCalls) := by
  have valid : ∀ c ∈ servingCalls, c.Valid := by decide +kernel
  refine (metrics_page_parses_iff wholeValues servingCalls valid).mpr ⟨?_, ?_, ?_⟩
  · decide +kernel
  · decide +kernel
  · decide +kernel

/-- Two workers count their jobs. -/
def jobCalls : List (MetricCall ℕ) :=
  [.inc "worker_jobs_total" 1 [("worker", "a")], .inc "worker_jobs_total" 1 [("worker", "b")]]

/-- The family of the jobs has a type line for each worker. -/
theorem metrics_page_two_workers : ¬ PageParses wholeValues (ValueRegistry.run jobCalls) := by
  intro parses
  have valid : ∀ c ∈ jobCalls, c.Valid := by decide +kernel
  have same := (exposable_of_parses valid parses).single _ List.mem_cons_self _
    (List.mem_cons_of_mem _ List.mem_cons_self) rfl
  revert same
  decide +kernel

end AgenticPlatform
