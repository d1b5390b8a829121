import AgenticPlatform.Counting.Tally
import AgenticPlatform.Json

/-! The operational counters of a process. The counters are whole numbers, since every caller counts
in steps of one. -/
namespace AgenticPlatform
open Counting

abbrev Labels := List (String × String)

/-- `_label_key`. -/
def labelKey (labels : Labels) : Labels :=
  labels.insertionSort fun a b => a.1 < b.1 ∨ a.1 = b.1 ∧ a.2 ≤ b.2

structure MetricsRegistry where
  counters : Tally (String × Labels)
  latencySum : Tally (String × Labels)
  latencyCount : Tally (String × Labels)

namespace MetricsRegistry

def empty : MetricsRegistry := ⟨[], [], []⟩

def inc (reg : MetricsRegistry) (name : String) (labels : Labels) : MetricsRegistry :=
  { reg with counters := reg.counters.add (name, labelKey labels) 1 }

/-- `observe_latency_ms` of the module, which also counts the observation. -/
def observeLatencyMs (reg : MetricsRegistry) (metricBase : String) (latencyMs : Nat)
    (labels : Labels) : MetricsRegistry :=
  let key := (metricBase ++ "_ms", labelKey labels)
  { reg with
    latencySum := reg.latencySum.add key latencyMs
    latencyCount := reg.latencyCount.add key 1 }.inc (metricBase ++ "_count") labels

/-- A counter, summed over its labels. -/
def total (reg : MetricsRegistry) (name : String) : Nat :=
  reg.counters.total fun key => key.1 = name

variable {reg : MetricsRegistry} {name other base : String} {labels : Labels} {latencyMs : Nat}

theorem total_inc : (reg.inc other labels).total name = reg.total name + if other = name then 1
    else 0 := by
  refine Tally.total_add.trans ?_
  simp only [decide_eq_true_eq]
  rfl

theorem total_inc_self : (reg.inc name labels).total name = reg.total name + 1 := by
  rw [total_inc, if_pos rfl]

theorem total_inc_other (apart : other ≠ name) : (reg.inc other labels).total name =
    reg.total name := by
  rw [total_inc, if_neg apart, Nat.add_zero]

theorem total_observe (apart : base ++ "_count" ≠ name) :
    (reg.observeLatencyMs base latencyMs labels).total name = reg.total name :=
  total_inc_other apart

end MetricsRegistry
end AgenticPlatform
