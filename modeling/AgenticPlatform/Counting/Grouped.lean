import AgenticPlatform.Counting.Distinct
import Mathlib.Algebra.BigOperators.Group.List.Basic
import Mathlib.Algebra.GroupWithZero.Nat
import Mathlib.Data.List.Nodup

/-! Values by key, kept in the order in which the keys are first used, and what loops over them sum
up to. -/
namespace Counting

section
variable {α β γ : Type} {step : β → α → β} {xs : List α} {b : β}

/-- A loop whose every step adds a known amount to a measure. -/
theorem foldl_measure {m : β → Nat} {c : α → Nat} (each : ∀ b, ∀ x ∈ xs, m (step b x) = m b + c x) :
    m (xs.foldl step b) = m b + (xs.map c).sum := by
  induction xs generalizing b with
  | nil => rfl
  | cons x rest ih =>
      obtain ⟨first, later⟩ : (∀ b, m (step b x) = m b + c x) ∧
        ∀ b, ∀ y ∈ rest, m (step b y) = m b + c y :=
        ⟨fun b => each b x List.mem_cons_self, fun b y member => each b y
          (List.mem_cons_of_mem x member)⟩
      rw [List.foldl_cons, ih later, first, List.map_cons, List.sum_cons, Nat.add_assoc]

/-- A loop whose every step appends to a list. -/
theorem foldl_collects {m : β → List γ} {c : α → List γ} (each : ∀ b x, m (step b x) = m b ++ c x) :
    m (xs.foldl step b) = m b ++ xs.flatMap c := by
  induction xs generalizing b with
  | nil => exact (List.append_nil _).symm
  | cons x rest ih => rw [List.foldl_cons, ih, each, List.flatMap_cons, List.append_assoc]

/-- What every step keeps. -/
theorem foldl_keeps {P : β → Prop} (each : ∀ b x, P b → P (step b x)) (first : P b) : P
    (xs.foldl step b) := by
  induction xs generalizing b with
  | nil => exact first
  | cons x rest ih => exact ih (each b x first)

end

abbrev Grouped (κ ν : Type) := List (κ × ν)

namespace Grouped
variable {κ ν ω : Type} [DecidableEq κ]

/-- `groups.get(k)`. -/
def get? (k : κ) (groups : Grouped κ ν) : Option ν :=
  (groups.find? fun entry => entry.1 = k).map Prod.snd

/-- `groups[k] = f(groups[k])`, where a key that is missing has the value `start`. -/
def update (start : ν) (f : ν → ν) (k : κ) : Grouped κ ν → Grouped κ ν
  | [] => [(k, f start)]
  | entry :: rest => if entry.1 = k then (k, f entry.2) :: rest else entry :: update start f k rest

def keys (groups : Grouped κ ν) : List κ := groups.map Prod.fst

/-- A number that every value has, at a key; a key that is missing counts zero. -/
def measure (h : ν → Nat) (k : κ) (groups : Grouped κ ν) : Nat := (get? k groups).elim 0 h

/-- That number, over all keys. -/
def total (h : ν → Nat) (groups : Grouped κ ν) : Nat := (groups.map fun entry => h entry.2).sum

variable {groups : Grouped κ ν} {entry : κ × ν} {start v : ν} {f : ν → ν} {j k : κ}
  {h : ν → Nat} {c : Nat}

@[simp] theorem get?_nil : get? k ([] : Grouped κ ν) = none := rfl

theorem get?_cons : get? k (entry :: groups) = if entry.1 = k then some entry.2
    else get? k groups := by
  unfold get?
  by_cases same : entry.1 = k
  · simp [same]
  · simp [same]

theorem get?_update : get? j (update start f k groups) =
    if k = j then some (f ((get? k groups).getD start)) else get? j groups := by
  induction groups with
  | nil =>
      rw [update, get?_cons]
      rfl
  | cons entry rest ih =>
      by_cases same : entry.1 = k
      · subst same
        rw [update, if_pos rfl, get?_cons, get?_cons, get?_cons, if_pos rfl]
        split
        · rfl
        · rfl
      · rw [update, if_neg same, get?_cons, ih, get?_cons, get?_cons, if_neg same]
        by_cases here : entry.1 = j
        · rw [if_pos here, if_pos here, if_neg fun other => same (here.trans other.symm)]
        · rw [if_neg here, if_neg here]

/-- The values may be looked at one by one. -/
theorem get?_map {t : κ → ν → ω} : get? k (groups.map fun entry => (entry.1, t entry.1 entry.2)) =
    (get? k groups).map (t k) := by
  induction groups with
  | nil => rfl
  | cons entry rest ih =>
      rw [List.map_cons, get?_cons, get?_cons, ih]
      split
      · next same => rw [← same, Option.map_some]
      · rfl

theorem keys_update : keys (update start f k groups) = if k ∈ keys groups then keys groups
    else keys groups ++ [k] := by
  induction groups with
  | nil => rfl
  | cons entry rest ih =>
      by_cases same : entry.1 = k
      · subst same
        have known : entry.1 ∈ keys (entry :: rest) := List.mem_cons_self
        rw [update, if_pos rfl, if_pos known]
        rfl
      · have apart : k ∈ keys (entry :: rest) ↔ k ∈ keys rest := by
          rw [keys, List.map_cons, List.mem_cons]
          exact or_iff_right fun eq => same eq.symm
        rw [update, if_neg same]
        change entry.1 :: keys (update start f k rest) = _
        rw [ih]
        by_cases known : k ∈ keys rest
        · rw [if_pos known, if_pos (apart.mpr known)]
          rfl
        · rw [if_neg known, if_neg fun known' => known (apart.mp known')]
          rfl

theorem nodup_update (distinct : (keys groups).Nodup) : (keys (update start f k groups)).Nodup := by
  rw [keys_update]
  split
  · exact distinct
  · next fresh =>
      exact List.nodup_append'.mpr ⟨distinct, List.nodup_singleton k,
        List.disjoint_singleton.mpr fresh⟩

theorem mem_keys : k ∈ keys groups ↔ (get? k groups).isSome = true := by
  induction groups with
  | nil => simp [keys]
  | cons entry rest ih =>
      rw [get?_cons, keys, List.map_cons, List.mem_cons]
      by_cases same : entry.1 = k
      · rw [if_pos same]
        exact iff_of_true (.inl same.symm) rfl
      · rw [if_neg same, ← ih]
        exact or_iff_right fun eq => same eq.symm

/-- Where no key has two values, an entry is the value of its key. -/
theorem mem_iff (distinct : (keys groups).Nodup) : (k, v) ∈ groups ↔ get? k groups = some v := by
  induction groups with
  | nil => simp
  | cons entry rest ih =>
      obtain ⟨fresh, later⟩ := List.nodup_cons.mp distinct
      rw [get?_cons, List.mem_cons, ih later]
      by_cases same : entry.1 = k
      · subst same
        have absent : get? entry.1 rest = none := Option.not_isSome_iff_eq_none.mp fun known =>
          fresh (mem_keys.mpr known)
        rw [if_pos rfl, absent, Option.some_inj, Prod.ext_iff]
        simp [eq_comm]
      · rw [if_neg same]
        exact or_iff_right fun eq => same (congrArg Prod.fst eq).symm

/-- An update adds to the number of its key, where the function adds to every value. -/
theorem measure_update (zero : h start = 0) (adds : ∀ v, h (f v) = h v + c) :
    measure h j (update start f k groups) = measure h j groups + if k = j then c else 0 := by
  rw [measure, measure, get?_update]
  by_cases same : k = j
  · subst same
    rw [if_pos rfl, if_pos rfl]
    cases get? k groups with
    | none => rw [Option.elim_some, Option.getD_none, adds, zero, Option.elim_none]
    | some v => rw [Option.elim_some, Option.getD_some, adds, Option.elim_some]
  · rw [if_neg same, if_neg same, Nat.add_zero]

theorem total_update (zero : h start = 0) (adds : ∀ v, h (f v) = h v + c) :
    total h (update start f k groups) = total h groups + c := by
  induction groups with
  | nil =>
      change h (f start) + 0 = 0 + c
      rw [adds, zero]
      omega
  | cons entry rest ih =>
      have peel (e : κ × ν) (g : Grouped κ ν) : total h (e :: g) = h e.2 + total h g := rfl
      by_cases same : entry.1 = k
      · rw [update, if_pos same, peel, peel, adds]
        omega
      · rw [update, if_neg same, peel, peel, ih]
        omega

/-- The number at a key, where the values are looked at one by one. -/
theorem measure_map {t : κ → ν → ω} {h : ω → Nat} :
    measure h k (groups.map fun entry => (entry.1, t entry.1 entry.2)) = measure
      (fun v => h (t k v)) k groups := by
  rw [measure, measure, get?_map]
  cases get? k groups with
  | none => rfl
  | some v => rfl

omit [DecidableEq κ] in
theorem total_map {t : ν → ω} {h : ω → Nat} :
    total h (groups.map fun entry => (entry.1, t entry.2)) = total (fun v => h (t v)) groups := by
  rw [total, List.map_map]
  rfl

/-- What every value keeps. -/
theorem forall_update {P : ν → Prop} (first : P start) (keeps : ∀ v, P v → P (f v))
    (all : ∀ entry ∈ groups, P entry.2) :
    ∀ entry ∈ update start f k groups, P entry.2 := by
  induction groups with
  | nil => exact List.forall_mem_singleton.mpr (keeps start first)
  | cons entry rest ih =>
      obtain ⟨here, later⟩ := List.forall_mem_cons.mp all
      by_cases same : entry.1 = k
      · rw [update, if_pos same]
        exact List.forall_mem_cons.mpr ⟨keeps _ here, later⟩
      · rw [update, if_neg same]
        exact List.forall_mem_cons.mpr ⟨here, ih later⟩

/-- `for k, x in entries: groups[k] = f(groups[k], x)`. -/
def gather {α : Type} (start : ν) (f : ν → α → ν) (entries : List (κ × α)) : Grouped κ ν :=
  entries.foldl (fun groups e => update start (fun v => f v e.2) e.1 groups) []

section
variable {α : Type} {g : ν → α → ν} {entries : List (κ × α)}

theorem gather_concat {e : κ × α} :
    gather start g (entries ++ [e]) = update start (fun v => g v e.2) e.1
      (gather start g entries) := List.foldl_append

theorem keys_gather : keys (gather start g entries) = distinct (entries.map Prod.fst) := by
  induction entries using List.reverseRecOn with
  | nil => rfl
  | append_singleton entries e ih =>
      rw [gather_concat, keys_update, ih, List.map_append, List.map_singleton, distinct_concat]
      rfl

/-- The value of a key is made of its own entries. -/
theorem get?_gather : (get? k (gather start g entries)).getD start =
    ((entries.filter fun e => e.1 = k).map Prod.snd).foldl g start := by
  induction entries using List.reverseRecOn with
  | nil => rfl
  | append_singleton entries e ih =>
      rw [gather_concat, get?_update, List.filter_append]
      by_cases same : e.1 = k
      · rw [if_pos same, Option.getD_some, same, ih]
        simp [same]
      · rw [if_neg same, ih]
        simp [same]

/-- The entries: the keys that occur, each with the value that is made of its own entries. -/
theorem mem_gather : (k, v) ∈ gather start g entries ↔
    k ∈ entries.map Prod.fst ∧ v = ((entries.filter fun e => e.1 = k).map Prod.snd).foldl g
      start := by
  have distinctKeys : (keys (gather start g entries)).Nodup := by
    rw [keys_gather]
    exact nodup_distinct
  rw [mem_iff distinctKeys, ← get?_gather, ← mem_distinct, ← keys_gather, mem_keys]
  cases get? k (gather start g entries) with
  | none => simp
  | some v' => simp [eq_comm]

end

end Grouped
end Counting
