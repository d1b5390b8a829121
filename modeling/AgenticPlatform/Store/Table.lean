import Mathlib.Data.List.Sort
import Mathlib.Data.List.Nodup

/-! Keyed stores: rows in insertion order, at most one per key. Overwriting a row
keeps its place, as a Python `dict` does. -/
namespace Store

class Keyed (κ : outParam Type) (α : Type) where
  key : α → κ

export Keyed (key)

section Rows
variable {κ α : Type} [DecidableEq κ] [Keyed κ α]

def putRow (r : α) : List α → List α
  | [] => [r]
  | x :: rest => if key x = key r then r :: rest else x :: putRow r rest

theorem putRow_keys (r : α) (rows : List α) :
    (putRow r rows).map key = if key r ∈ rows.map key then rows.map key
      else rows.map key ++ [key r] := by
  induction rows with
  | nil => simp [putRow]
  | cons x rest ih =>
      by_cases same : key x = key r
      · simp [putRow, same]
      · have other : key r ≠ key x := fun eq => same eq.symm
        by_cases member : key r ∈ rest.map key
        · simp only [putRow, same, if_false, List.map_cons, ih, if_pos member, List.mem_cons,
            other, false_or]
        · simp only [putRow, same, if_false, List.map_cons, ih, if_neg member, List.mem_cons, other,
            false_or, List.cons_append]

theorem putRow_fresh {r : α} {rows : List α} (fresh : ∀ y ∈ rows, key y ≠ key r) :
    putRow r rows = rows ++ [r] := by
  induction rows with
  | nil => rfl
  | cons y rest ih =>
      rw [putRow, if_neg (fresh y List.mem_cons_self), ih fun z member => fresh z
        (List.mem_cons_of_mem y member)]
      rfl

/-- A row that is known takes the place of the old one. -/
theorem putRow_map {r : α} {rows : List α} (distinct : (rows.map key).Nodup)
    (known : key r ∈ rows.map key) :
    putRow r rows = rows.map fun x => if key x = key r then r else x := by
  induction rows with
  | nil => cases known
  | cons x rest ih =>
      simp only [List.map_cons, List.nodup_cons] at distinct
      rw [putRow, List.map_cons]
      by_cases same : key x = key r
      · rw [if_pos same, if_pos same]
        congr 1
        refine (List.map_id' rest).symm.trans (List.map_congr_left fun y member => ?_)
        rw [if_neg]
        exact fun eq => distinct.1 (same.trans eq.symm ▸ List.mem_map_of_mem member)
      · rw [if_neg same, if_neg same, ih distinct.2]
        exact (List.mem_cons.mp known).resolve_left fun eq => same eq.symm
theorem mem_putRow {r y : α} {rows : List α} (distinct : (rows.map key).Nodup) :
    y ∈ putRow r rows ↔ y = r ∨ (y ∈ rows ∧ key y ≠ key r) := by
  induction rows with
  | nil => simp [putRow]
  | cons x rest ih =>
      simp only [List.map_cons, List.nodup_cons] at distinct
      by_cases same : key x = key r
      · have apart : y ∈ rest → key y ≠ key r := by
          intro member eq
          exact distinct.1 (same.trans eq.symm ▸ List.mem_map_of_mem member)
        simp only [putRow, same, if_true, List.mem_cons]
        constructor
        · rintro (rfl | later)
          · exact .inl rfl
          · exact .inr ⟨.inr later, apart later⟩
        · rintro (rfl | ⟨rfl | later, ne⟩)
          · exact .inl rfl
          · exact absurd same ne
          · exact .inr later
      · simp only [putRow, same, if_false, List.mem_cons, ih distinct.2]
        constructor
        · rintro (rfl | rfl | ⟨later, ne⟩)
          · exact .inr ⟨.inl rfl, same⟩
          · exact .inl rfl
          · exact .inr ⟨.inr later, ne⟩
        · rintro (rfl | ⟨rfl | later, ne⟩)
          · exact .inr (.inl rfl)
          · exact .inl rfl
          · exact .inr (.inr ⟨later, ne⟩)

/-- A put adds at most one to a count. -/
theorem countP_putRow_le {p : α → Bool} {r : α} {rows : List α} :
    (putRow r rows).countP p ≤ rows.countP p + 1 := by
  induction rows with
  | nil => cases out : p r <;> simp [putRow, out]
  | cons x rest ih =>
      unfold putRow
      split
      · simp only [List.countP_cons]
        split <;> omega
      · simp only [List.countP_cons]
        omega

theorem countP_putRow_of_not {p : α → Bool} {r : α} (out : p r = false) {rows : List α} :
    (putRow r rows).countP p ≤ rows.countP p := by
  induction rows with
  | nil => simp [putRow, out]
  | cons x rest ih =>
      unfold putRow
      split
      · cases old : p x <;> simp [out, old]
      · simp only [List.countP_cons]
        omega

theorem countP_putRow_lt {p : α → Bool} {r old : α} (out : p r = false) {rows : List α}
    (distinct : (rows.map key).Nodup) (member : old ∈ rows) (same : key old = key r)
    (counted : p old = true) :
    (putRow r rows).countP p < rows.countP p := by
  induction rows with
  | nil => exact absurd member List.not_mem_nil
  | cons x rest ih =>
      simp only [List.map_cons, List.nodup_cons] at distinct
      unfold putRow
      split
      · next here =>
          obtain rfl | later := List.mem_cons.mp member
          · simp [out, counted]
          · exact absurd (here.trans same.symm ▸ List.mem_map_of_mem later) distinct.1
      · next apart =>
          obtain rfl | later := List.mem_cons.mp member
          · exact absurd same apart
          · simp only [List.countP_cons]
            have := ih distinct.2 later
            omega

end Rows

section Last
variable {time : α → ℕ} {r x : α} {l : List α}

theorem getLast?_orderedInsert (last : l.getLast? = some r) (before : time x ≤ time r) :
    (l.orderedInsert (fun a b => time a ≤ time b) x).getLast? = some r := by
  induction l with
  | nil => cases last
  | cons y rest ih =>
      rw [List.orderedInsert_cons]
      split
      · rwa [List.getLast?_cons_cons]
      · next later =>
          have more : rest ≠ [] := by
            rintro rfl
            obtain rfl := Option.some.inj last
            exact later before
          have filled : rest.orderedInsert (fun a b => time a ≤ time b) x ≠ [] :=
            List.ne_nil_of_length_pos (by rw [List.orderedInsert_length]; omega)
          rw [List.getLast?_cons_of_ne_nil more] at last
          rw [List.getLast?_cons_of_ne_nil filled]
          exact ih last

/-- The last of a stable sort is the row that was added last, unless another one is later. -/
theorem getLast?_insertionSort_append (fresh : r ∉ l) :
    ((l ++ [r]).insertionSort (fun a b => time a ≤ time b)).getLast? = some r ↔
      ∀ x ∈ l, time x ≤ time r := by
  constructor
  · intro last x member
    have sorted : ((l ++ [r]).insertionSort (fun a b => time a ≤ time b)).Pairwise
      (fun a b => time a ≤ time b) :=
      haveI : Std.Total (fun a b : α => time a ≤ time b) := ⟨fun _ _ => Nat.le_total _ _⟩
      haveI : IsTrans α (fun a b => time a ≤ time b) := ⟨fun _ _ _ => Nat.le_trans⟩
      List.pairwise_insertionSort _ _
    obtain ⟨init, split⟩ := List.getLast?_eq_some_iff.mp last
    have inside : x ∈ init ++ [r] := split ▸ List.mem_insertionSort _ |>.mpr
      (List.mem_append_left _ member)
    rw [split] at sorted
    rcases List.mem_append.mp inside with early | end_
    · exact (List.pairwise_append.mp sorted).2.2 x early r (List.mem_singleton_self r)
    · obtain rfl := List.mem_singleton.mp end_
      exact absurd member fresh
  · intro before
    induction l with
    | nil => rfl
    | cons y rest ih =>
        have tail := ih (fun member => fresh (List.mem_cons_of_mem y member))
          fun x member => before x (List.mem_cons_of_mem y member)
        exact getLast?_orderedInsert tail (before y List.mem_cons_self)

end Last

/-- At most one row per key, by construction. -/
structure Table (κ α : Type) [Keyed κ α] where
  rows : List α
  distinct : (rows.map key).Nodup

namespace Table
variable {κ α : Type} [Keyed κ α]

instance : Membership α (Table κ α) := ⟨fun t r => r ∈ t.rows⟩

def empty : Table κ α := ⟨[], List.nodup_nil⟩

/-- The rows that satisfy `p`, sorted stably by `time`. -/
def sortedBy (t : Table κ α) (p : α → Bool) (time : α → ℕ) : List α :=
  (t.rows.filter p).insertionSort (fun a b => time a ≤ time b)

variable {t : Table κ α} {r x : α}

@[simp] theorem not_mem_empty : x ∉ (empty : Table κ α) := List.not_mem_nil

theorem eq_of_key (hr : r ∈ t) (hx : x ∈ t) (same : key r = key x) : r = x :=
  List.inj_on_of_nodup_map t.distinct hr hx same

theorem mem_sortedBy {p : α → Bool} {time : α → ℕ} :
    x ∈ t.sortedBy p time ↔ x ∈ t ∧ p x = true := by
  rw [sortedBy, List.mem_insertionSort, List.mem_filter]
  exact Iff.rfl

variable [DecidableEq κ]

def get (t : Table κ α) (k : κ) : Option α := t.rows.find? (fun r => key r = k)

def put (t : Table κ α) (r : α) : Table κ α where
  rows := putRow r t.rows
  distinct := by
    rw [putRow_keys]
    split
    · exact t.distinct
    · next fresh =>
        refine List.nodup_append.mpr ⟨t.distinct, List.nodup_singleton _, ?_⟩
        intro a ha b hb
        rw [List.mem_singleton] at hb
        exact fun eq => fresh (hb ▸ eq ▸ ha)

variable {k : κ}

theorem mem_put : x ∈ t.put r ↔ x = r ∨ (x ∈ t ∧ key x ≠ key r) := mem_putRow t.distinct

theorem get_eq_some : t.get k = some r ↔ r ∈ t ∧ key r = k := by
  constructor
  · intro found
    exact ⟨List.mem_of_find?_eq_some found, by simpa using List.find?_some found⟩
  · rintro ⟨member, rfl⟩
    cases found : t.get (key r) with
    | none => exact False.elim (by simpa using List.find?_eq_none.mp found r member)
    | some y =>
        have same : key y = key r := by simpa using List.find?_some found
        rw [eq_of_key (List.mem_of_find?_eq_some found) member same]

theorem get_of_mem (member : r ∈ t) : t.get (key r) = some r := get_eq_some.mpr ⟨member, rfl⟩

theorem get_eq_none : t.get k = none ↔ ∀ r ∈ t, key r ≠ k := by
  simp only [get, List.find?_eq_none, decide_eq_true_eq]
  exact Iff.rfl

@[simp] theorem get_empty : (empty : Table κ α).get k = none := rfl

@[simp] theorem get_put_self : (t.put r).get (key r) = some r :=
  get_eq_some.mpr ⟨mem_put.mpr (.inl rfl), rfl⟩

theorem get_put_of_ne (ne : k ≠ key r) : (t.put r).get k = t.get k := by
  cases found : t.get k with
  | none =>
      rw [get_eq_none] at found ⊢
      intro y hy
      rcases mem_put.mp hy with rfl | ⟨old, _⟩
      · exact ne.symm
      · exact found y old
  | some y =>
      obtain ⟨old, rfl⟩ := get_eq_some.mp found
      exact get_eq_some.mpr ⟨mem_put.mpr (.inr ⟨old, ne⟩), rfl⟩

theorem get_put : (t.put r).get k = if k = key r then some r else t.get k := by
  split
  · next same => rw [same, get_put_self]
  · next ne => exact get_put_of_ne ne

/-- A new row is the last by time exactly when no other row is later. -/
theorem getLast?_sortedBy_put {p : α → Bool} {time : α → ℕ} (fresh : t.get (key r) = none)
    (own : p r = true) :
    ((t.put r).sortedBy p time).getLast? = some r ↔ ∀ x ∈ t, p x = true → time x ≤ time r := by
  have unused := get_eq_none.mp fresh
  have rows : (t.put r).rows.filter p = t.rows.filter p ++ [r] := by
    change (putRow r t.rows).filter p = _
    rw [putRow_fresh unused, List.filter_append, List.filter_singleton, own]
    rfl
  rw [sortedBy, rows, getLast?_insertionSort_append fun member => unused r
    (List.mem_filter.mp member).1 rfl]
  constructor
  · exact fun all x member own => all x (List.mem_filter.mpr ⟨member, own⟩)
  · exact fun all x member => all x (List.mem_filter.mp member).1 (List.mem_filter.mp member).2

/-- A new version of a row that is listed at the same place is all that changes in a listing. -/
theorem sortedBy_put {old : α} {p : α → Bool} {time : α → ℕ} (stored : t.get (key r) = some old)
    (own : p old = p r) (dated : time old = time r) :
    (t.put r).sortedBy p time = (t.sortedBy p time).map fun x => if key x = key r then r
      else x := by
  obtain ⟨member, same⟩ := get_eq_some.mp stored
  have version : ∀ x ∈ t.rows, key x = key r → x = old := fun x inside keyed =>
    eq_of_key inside member (keyed.trans same.symm)
  let f := fun x => if key x = key r then r else x
  have rows : (t.put r).rows = t.rows.map f :=
    putRow_map t.distinct (same ▸ List.mem_map_of_mem member)
  have kept : t.rows.filter (p ∘ f) = t.rows.filter p := by
    refine List.filter_congr fun x inside => ?_
    dsimp only [Function.comp, f]
    split
    · next keyed => rw [version x inside keyed, own]
    · rfl
  have times : ∀ x ∈ t.rows, time (f x) = time x := by
    intro x inside
    dsimp only [f]
    split
    · next keyed => rw [version x inside keyed, dated]
    · rfl
  rw [sortedBy, sortedBy, rows, List.filter_map, kept]
  refine (List.map_insertionSort _ _ _ _ fun a ha b hb => ?_).symm
  rw [times a (List.mem_filter.mp ha).1, times b (List.mem_filter.mp hb).1]

/-- What holds of every row, and of the new one, holds of every row after the write. -/
theorem forall_put {p : α → Prop} (all : ∀ y ∈ t, p y) (new : p r) : ∀ y ∈ t.put r, p y := by
  intro y member
  rcases mem_put.mp member with rfl | ⟨old, _⟩
  · exact new
  · exact all y old

/-- What is filed under `f` elsewhere is not changed by a row that only takes the place of rows
filed with it. -/
theorem mem_put_elsewhere {β : Type} {f : α → β} {b : β} (own : ∀ y ∈ t, key y = key r → f y = f r)
    (ne : f r ≠ b) : (x ∈ t.put r ∧ f x = b) ↔ (x ∈ t ∧ f x = b) := by
  rw [mem_put]
  constructor
  · rintro ⟨rfl | ⟨old, _⟩, same⟩
    · exact absurd same ne
    · exact ⟨old, same⟩
  · rintro ⟨old, same⟩
    exact ⟨.inr ⟨old, fun keyed => ne ((own x old keyed).symm.trans same)⟩, same⟩

/-- Every row is still there, as it was. -/
def Keeps (t u : Table κ α) : Prop := ∀ k r, t.get k = some r → u.get k = some r

theorem Keeps.refl : t.Keeps t := fun _ _ stored => stored

/-- A row under a key that was not in use displaces none of the rows. -/
theorem Keeps.put {u : Table κ α} (keeps : t.Keeps u) (unused : t.get (key r) = none) : t.Keeps
    (u.put r) := by
  intro k x stored
  rw [get_put_of_ne]
  · exact keeps k x stored
  · rintro rfl
    exact absurd (unused.symm.trans stored) (by simp)

theorem Keeps.mem {u : Table κ α} (keeps : t.Keeps u) (member : x ∈ t) : x ∈ u :=
  (get_eq_some.mp (keeps _ x (get_of_mem member))).1

/-- A key that is free later was free before. -/
theorem Keeps.free {u : Table κ α} (keeps : t.Keeps u) (free : u.get k = none) :
    t.get k = none := by
  cases stored : t.get k with
  | none => rfl
  | some x => exact absurd (free.symm.trans (keeps k x stored)) (by simp)

/-- How many rows satisfy `p`. -/
def count (t : Table κ α) (p : α → Bool) : Nat := t.rows.countP p

theorem count_put_le {p : α → Bool} : (t.put r).count p ≤ t.count p + 1 := countP_putRow_le

theorem count_put_of_not {p : α → Bool} (out : p r = false) : (t.put r).count p ≤ t.count p :=
  countP_putRow_of_not out

theorem count_put_lt {p : α → Bool} {old : α} (out : p r = false)
    (stored : t.get (key r) = some old) (counted : p old = true) : (t.put r).count p < t.count p :=
  countP_putRow_lt out t.distinct (get_eq_some.mp stored).1 (get_eq_some.mp stored).2 counted

end Table
end Store
