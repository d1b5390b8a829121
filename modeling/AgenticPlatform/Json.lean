import Mathlib.Data.Rat.Init
import Mathlib.Data.List.Sort

/-! JSON values with the Python operations the platform applies to them, and the
identifiers and clock readings that are written into JSON as text. -/
namespace AgenticPlatform

inductive Json where
  | null
  | bool (b : Bool)
  | int (n : Int)
  | float (q : Rat)
  | str (s : String)
  | arr (xs : List Json)
  | obj (kvs : List (String × Json))

mutual

def Json.decEq : (a b : Json) → Decidable (a = b)
  | .null, .null => .isTrue rfl
  | .bool a, .bool b => decidable_of_iff (a = b) (by simp)
  | .int a, .int b => decidable_of_iff (a = b) (by simp)
  | .float a, .float b => decidable_of_iff (a = b) (by simp)
  | .str a, .str b => decidable_of_iff (a = b) (by simp)
  | .arr a, .arr b => @decidable_of_iff _ _ (by simp) (Json.decEqItems a b)
  | .obj a, .obj b => @decidable_of_iff _ _ (by simp) (Json.decEqFields a b)
  | .null, .bool _ | .null, .int _ | .null, .float _ | .null, .str _ | .null, .arr _ | .null, .obj _
  | .bool _, .null | .bool _, .int _ | .bool _, .float _ | .bool _, .str _ | .bool _, .arr _
  | .bool _, .obj _ | .int _, .null | .int _, .bool _ | .int _, .float _ | .int _, .str _
  | .int _, .arr _ | .int _, .obj _ | .float _, .null | .float _, .bool _ | .float _, .int _
  | .float _, .str _ | .float _, .arr _ | .float _, .obj _ | .str _, .null | .str _, .bool _
  | .str _, .int _ | .str _, .float _ | .str _, .arr _ | .str _, .obj _ | .arr _, .null
  | .arr _, .bool _ | .arr _, .int _ | .arr _, .float _ | .arr _, .str _ | .arr _, .obj _
  | .obj _, .null | .obj _, .bool _ | .obj _, .int _ | .obj _, .float _ | .obj _, .str _
  | .obj _, .arr _ => .isFalse (by simp)

def Json.decEqItems : (a b : List Json) → Decidable (a = b)
  | [], [] => .isTrue rfl
  | x :: a, y :: b =>
      match Json.decEq x y, Json.decEqItems a b with
      | .isTrue h, .isTrue h' => .isTrue (by rw [h, h'])
      | .isFalse h, _ => .isFalse (by simp [h])
      | _, .isFalse h => .isFalse (by simp [h])
  | [], _ :: _ | _ :: _, [] => .isFalse (by simp)

def Json.decEqFields : (a b : List (String × Json)) → Decidable (a = b)
  | [], [] => .isTrue rfl
  | (k, x) :: a, (j, y) :: b =>
      match instDecidableEqString k j, Json.decEq x y, Json.decEqFields a b with
      | .isTrue h, .isTrue h', .isTrue h'' => .isTrue (by rw [h, h', h''])
      | .isFalse h, _, _ => .isFalse (by simp [h])
      | _, .isFalse h, _ => .isFalse (by simp [h])
      | _, _, .isFalse h => .isFalse (by simp [h])
  | [], _ :: _ | _ :: _, [] => .isFalse (by simp)

end

instance : DecidableEq Json := Json.decEq

/-- A JSON object: its items in insertion order. -/
abbrev Dict := List (String × Json)

namespace Json

/-- `bool(v)`. -/
def truthy : Json → Bool
  | null => false
  | bool b => b
  | int n => n ≠ 0
  | float q => q.num ≠ 0
  | str s => s ≠ ""
  | arr xs => !xs.isEmpty
  | obj kvs => !kvs.isEmpty

/-- `a or b`. -/
def pyOr (a b : Json) : Json := if a.truthy then a else b

/-- `v == s` for a string `s`. -/
def isStr (v : Json) (s : String) : Bool :=
  match v with
  | str t => t = s
  | _ => false

/-- `v if isinstance(v, dict) else {}`. -/
def asDict : Json → Dict
  | obj kvs => kvs
  | _ => []

/-- `v` where it is a string. -/
def str? : Json → Option String
  | str s => some s
  | _ => none

def ofOption {α : Type} (f : α → Json) : Option α → Json
  | none => null
  | some a => f a

@[simp] theorem isStr_str (t s : String) : (str t).isStr s = decide (t = s) := rfl

theorem isStr_iff {v : Json} {s : String} : v.isStr s = true ↔ v = .str s := by
  cases v <;> simp [isStr]

end Json

/-- The renderings of JSON values as text that the standard library provides:
`repr(v)` and `json.dumps(v, sort_keys=True)`. -/
structure Rendering where
  repr : Json → String
  dumps : Json → String

/-- `str(v)`. -/
def Rendering.str (text : Rendering) : Json → String
  | .str s => s
  | v => text.repr v

/-- The renderings of a value without nesting, floats and characters to escape. -/
def Rendering.flat : Rendering :=
  let atom : Json → String
    | .null => "None"
    | .bool b => if b then "True" else "False"
    | .int n => toString n
    | _ => ""
  let item : Json → String
    | .null => "null"
    | .bool b => if b then "true" else "false"
    | .int n => toString n
    | .str s => "\"" ++ s ++ "\""
    | _ => ""
  { repr := atom
    dumps := fun v => match v with
      | .obj kvs => "\x7b" ++ ", ".intercalate
          ((kvs.insertionSort fun a b => a.1 ≤ b.1).map fun kv => "\"" ++ kv.1 ++ "\": " ++
            item kv.2) ++ "\x7d"
      | v => item v }

/-- `c.isspace()`. -/
def isSpace (c : Char) : Bool :=
  let n := c.toNat
  (9 ≤ n && n ≤ 13) || (28 ≤ n && n ≤ 32) || n = 0x85 || n = 0xA0 || n = 0x1680 ||
    (0x2000 ≤ n && n ≤ 0x200A) || n = 0x2028 || n = 0x2029 || n = 0x202F || n = 0x205F || n = 0x3000

/-- `s[i:j]`. -/
def slice (s : String) (i j : Nat) : String := String.ofList ((s.toList.drop i).take (j - i))

namespace Dict

def get? (d : Dict) (k : String) : Option Json := (d.find? (fun kv => kv.1 = k)).map Prod.snd

/-- `d.get(k)`. -/
def get (d : Dict) (k : String) : Json := (d.get? k).getD .null

/-- `d.get(k, default)`. -/
def getOr (d : Dict) (k : String) (default : Json) : Json := (d.get? k).getD default

/-- `d[k] = v`. -/
def set (d : Dict) (k : String) (v : Json) : Dict :=
  match d with
  | [] => [(k, v)]
  | kv :: rest => if kv.1 = k then (k, v) :: rest else kv :: Dict.set rest k v

/-- `d.pop(k, None)`, keeping the dictionary. -/
def pop (d : Dict) (k : String) : Dict := d.filter (fun kv => kv.1 ≠ k)

/-- `{**a, **b}`. -/
def merge (a b : Dict) : Dict := b.foldl (fun d kv => d.set kv.1 kv.2) a

def keys (d : Dict) : List String := d.map Prod.fst

/-- `sorted(d.keys())`. -/
def sortedKeys (d : Dict) : List String := d.keys.insertionSort (fun a b => a ≤ b)

/-- Equality of dictionaries, which ignores the order of the items. -/
def Same (a b : Dict) : Prop := ∀ k, a.get? k = b.get? k

variable {d a b : Dict} {k j : String} {v : Json}

@[simp] theorem get?_nil : get? [] k = none := rfl

@[simp] theorem get?_cons {kv : String × Json} :
    get? (kv :: d) k = if kv.1 = k then some kv.2 else d.get? k := by
  by_cases same : kv.1 = k <;> simp [get?, same]

@[simp] theorem get?_append : get? (a ++ b) k = (a.get? k).or (b.get? k) := by
  simp only [get?, List.find?_append]
  cases List.find? (fun kv => decide (kv.1 = k)) a with
  | none => rfl
  | some kv => rfl

theorem get?_set : (d.set k v).get? j = if k = j then some v else d.get? j := by
  induction d with
  | nil => simp [set]
  | cons kv rest ih =>
      by_cases here : kv.1 = k
      · rw [set, if_pos here, get?_cons, get?_cons, here]
        split
        · rfl
        · rfl
      · rw [set, if_neg here, get?_cons, get?_cons, ih]
        by_cases same : k = j
        · rw [if_neg (fun eq => here (eq.trans same.symm)), if_pos same, if_pos same]
        · rw [if_neg same, if_neg same]

theorem get?_pop : (d.pop k).get? j = if k = j then none else d.get? j := by
  induction d with
  | nil => simp [pop]
  | cons kv rest ih =>
      by_cases here : kv.1 = k
      · have tail : pop (kv :: rest) k = pop rest k := by simp [pop, here]
        rw [tail, ih, get?_cons, here]
        split
        · rfl
        · rfl
      · have tail : pop (kv :: rest) k = kv :: pop rest k := by simp [pop, here]
        rw [tail, get?_cons, get?_cons, ih]
        by_cases same : k = j
        · rw [if_neg (fun eq => here (eq.trans same.symm)), if_pos same, if_pos same]
        · rw [if_neg same, if_neg same]

theorem get?_eq_none : d.get? k = none ↔ k ∉ d.keys := by
  induction d with
  | nil => simp [keys]
  | cons kv rest ih =>
      rw [get?_cons]
      by_cases here : kv.1 = k
      · simp [here, keys]
      · have apart : ¬k = kv.1 := fun eq => here eq.symm
        simp only [here, if_false, ih, keys, List.map_cons, List.mem_cons, apart, false_or]

theorem same_iff : a.Same b ↔ ∀ k ∈ a.keys ++ b.keys, a.get? k = b.get? k := by
  constructor
  · exact fun same k _ => same k
  · intro same k
    by_cases known : k ∈ a.keys ++ b.keys
    · exact same k known
    · obtain ⟨left, right⟩ := not_or.mp (List.mem_append.not.mp known)
      rw [get?_eq_none.mpr left, get?_eq_none.mpr right]

instance (a b : Dict) : Decidable (a.Same b) := decidable_of_iff _ same_iff.symm

theorem get?_merge_of_absent (absent : b.get? j = none) : (a.merge b).get? j = a.get? j := by
  induction b generalizing a with
  | nil => rfl
  | cons kv rest ih =>
      rw [get?_cons] at absent
      by_cases here : kv.1 = j
      · simp [here] at absent
      · simp only [here, if_false] at absent
        change (Dict.merge (a.set kv.1 kv.2) rest).get? j = _
        rw [ih absent, get?_set, if_neg here]

theorem merge_append {c : Dict} : a.merge (b ++ c) = (a.merge b).merge c := List.foldl_append

@[simp] theorem pop_self_get? : (d.pop k).get? k = none := by rw [get?_pop, if_pos rfl]

theorem pop_set : (d.set k v).pop k = d.pop k := by
  induction d with
  | nil => simp [set, pop]
  | cons kv rest ih =>
      by_cases here : kv.1 = k
      · simp [set, pop, here]
      · have tail : pop (kv :: set rest k v) k = kv :: pop (set rest k v) k := by simp [pop, here]
        rw [set, if_neg here, tail, ih]
        simp [pop, here]

theorem pop_of_absent (absent : d.get? k = none) : d.pop k = d := by
  rw [get?_eq_none] at absent
  refine List.filter_eq_self.mpr fun kv member => ?_
  have apart : kv.1 ≠ k := fun eq => absent (eq ▸ List.mem_map_of_mem member)
  simpa using apart

end Dict

/-- `uuid.UUID`, of which the platform uses identity and text only. -/
structure UUID where
  n : Nat
  deriving DecidableEq, Repr

namespace UUID

/-- `str(u)`. -/
def str (u : UUID) : String := Nat.repr u.n

/-- `UUID(s)`, where it does not raise. -/
def parse (s : String) : Option UUID :=
  if s.toList ≠ [] ∧ s.toList.all Char.isDigit then some ⟨Nat.ofDigitChars 10 s.toList 0⟩ else none

@[simp] theorem parse_str (u : UUID) : parse u.str = some u := by
  have digits : ∀ c ∈ Nat.toDigits 10 u.n, c.isDigit :=
    fun c hc => Nat.isDigit_of_mem_toDigits (by omega) (by omega) hc
  have some_digit : Nat.toDigits 10 u.n ≠ [] := Nat.toDigits_ne_nil
  simp only [parse, str, Nat.toList_repr]
  rw [if_pos ⟨some_digit, List.all_eq_true.mpr digits⟩, Nat.ofDigitChars_ten_toDigits]

theorem str_injective : Function.Injective str := by
  intro u v same
  exact Option.some.inj ((parse_str u).symm.trans ((congrArg parse same).trans (parse_str v)))

end UUID

/-- A UTC instant, in microseconds since 1970. -/
abbrev Time := Nat

namespace Time

/-- Year, month and day of a day counted from 1970-01-01. -/
def civil (day : Nat) : Nat × Nat × Nat :=
  let z := day + 719468
  let era := z / 146097
  let doe := z % 146097
  let yoe := (doe - doe / 1460 + doe / 36524 - doe / 146096) / 365
  let doy := doe - (365 * yoe + yoe / 4 - yoe / 100)
  let mp := (5 * doy + 2) / 153
  let month := if mp < 10 then mp + 3 else mp - 9
  (yoe + era * 400 + (if month ≤ 2 then 1 else 0), month, doy - (153 * mp + 2) / 5 + 1)

def pad (width n : Nat) : String :=
  let digits := Nat.toDigits 10 n
  String.ofList (List.replicate (width - digits.length) '0' ++ digits)

/-- The text of an instant without its zone. -/
def civilText (t : Time) : String :=
  let (y, mo, d) := civil (t / 86400000000)
  let s := t / 1000000 % 86400
  let micros := t % 1000000
  pad 4 y ++ "-" ++ pad 2 mo ++ "-" ++ pad 2 d ++ "T" ++
    pad 2 (s / 3600) ++ ":" ++ pad 2 (s / 60 % 60) ++ ":" ++ pad 2 (s % 60) ++
    (if micros = 0 then "" else "." ++ pad 6 micros)

/-- `t.isoformat()`. -/
def isoformat (t : Time) : String := civilText t ++ "+00:00"

/-- The form of an instant in `model_dump(mode="json")`. -/
def jsonText (t : Time) : String := civilText t ++ "Z"

example : isoformat 1700000000000000 = "2023-11-14T22:13:20+00:00" := by decide

end Time
end AgenticPlatform
