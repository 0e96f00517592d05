/-
Values of Go's empty interface, as a program that reads JSON meets them.

A value carries its dynamic type: a type assertion looks at nothing else, and two interface
values are equal only if they have the same one. Encoding a value as JSON and decoding it into
an `interface{}` again keeps what it says and changes its type (`json`): an integer comes back
as a `float64`, a time as a string, and a `[]string` as a `[]interface{}`.

A `map[string]interface{}` inside a value is the list of its entries; it is read through
`GoEntries.toMap`, so that the order of the entries says nothing.
-/
import LinkFlow.Lib.GoMap

set_option autoImplicit false

mutual

/-- A value of an `interface{}` with its dynamic type. A `float64` is given by its value, a time
by its instant. -/
inductive GoValue
  | nil
  | bool (b : Bool)
  | int (n : ℤ)
  | float (x : ℚ)
  | string (s : String)
  | time (t : ℤ)
  | strings (l : List String)
  | slice (l : GoSlice)
  | map (m : GoEntries)
deriving DecidableEq, Repr

/-- `[]interface{}` -/
inductive GoSlice
  | nil
  | cons (v : GoValue) (l : GoSlice)
deriving DecidableEq, Repr

/-- The entries of a `map[string]interface{}` -/
inductive GoEntries
  | nil
  | cons (k : String) (v : GoValue) (m : GoEntries)
deriving DecidableEq, Repr

end

namespace GoEntries

def toList : GoEntries → List (String × GoValue)
  | .nil => []
  | .cons k v m => (k, v) :: m.toList

def ofList : List (String × GoValue) → GoEntries
  | [] => .nil
  | (k, v) :: l => .cons k v (ofList l)

@[simp] theorem toList_ofList (l : List (String × GoValue)) : (ofList l).toList = l := by
  induction l with
  | nil => rfl
  | cons e l ih => rw [ofList, toList, ih]

def toMap (m : GoEntries) : GoMap String GoValue := GoMap.ofPairs m.toList

def ofMap (m : GoMap String GoValue) : GoEntries := ofList (m.entries.map (fun e => (e.1, e.2)))

end GoEntries

/-! ## Equality -/

/-- The runtime panic of a comparison. -/
inductive Uncomparable
  | uncomparable
deriving DecidableEq, Repr

namespace GoValue

def comparable : GoValue → Bool
  | .strings _ | .slice _ | .map _ => false
  | _ => true

/-- `a == b` of two interface values: of different types they are unequal, of one type that
cannot be compared the comparison panics. -/
def equal (a b : GoValue) : Except Uncomparable Bool :=
  match a, b with
  | .strings _, .strings _ => .error .uncomparable
  | .slice _, .slice _ => .error .uncomparable
  | .map _, .map _ => .error .uncomparable
  | a, b => .ok (a = b)

theorem equal_eq_true_iff (a b : GoValue) : a.equal b = .ok true ↔ a = b ∧ b.comparable = true := by
  cases a <;> cases b <;> simp [equal, comparable]

end GoValue

/-! ## JSON -/

/-- The `float64` nearest to an integer, ties to even. -/
def nearestFloat64 (n : ℤ) : ℚ :=
  let m := n.natAbs
  if m < 2 ^ 53 then n
  else
    let shift := m.log2 - 52
    let q := m / 2 ^ shift
    let r := m % 2 ^ shift
    let q := if 2 ^ (shift - 1) < r ∨ (r = 2 ^ (shift - 1) ∧ q % 2 = 1) then q + 1 else q
    n.sign * (q * 2 ^ shift : ℕ)

mutual

/-- A value after `json.Marshal` and `json.Unmarshal` into an `interface{}`; `formatTime` is the
text of a time. -/
def GoValue.json (formatTime : ℤ → String) : GoValue → GoValue
  | .int n => .float (nearestFloat64 n)
  | .time t => .string (formatTime t)
  | .strings l => .slice (l.foldr (fun s l => .cons (.string s) l) .nil)
  | .slice l => .slice (l.json formatTime)
  | .map m => .map (m.json formatTime)
  | .nil => .nil
  | .bool b => .bool b
  | .float x => .float x
  | .string s => .string s

def GoSlice.json (formatTime : ℤ → String) : GoSlice → GoSlice
  | .nil => .nil
  | .cons v l => .cons (v.json formatTime) (l.json formatTime)

def GoEntries.json (formatTime : ℤ → String) : GoEntries → GoEntries
  | .nil => .nil
  | .cons k v m => .cons k (v.json formatTime) (m.json formatTime)

end

namespace GoEntries

variable (formatTime : ℤ → String)

theorem toList_json : ∀ m : GoEntries,
    (m.json formatTime).toList = m.toList.map (fun e => (e.1, e.2.json formatTime))
  | .nil => rfl
  | .cons k v m => congrArg ((k, v.json formatTime) :: ·) (toList_json m)

theorem lookup_ofPairs_entries (f : GoValue → GoValue) (m : GoMap String GoValue) (k : String) :
    (GoMap.ofPairs (m.entries.map (fun e => (e.1, f e.2)))).lookup k = (m.lookup k).map f := by
  have hmem : ∀ p : String × GoValue, p ∈ m.entries.map (fun e => (e.1, f e.2)) ↔
      ∃ v, m.lookup p.1 = some v ∧ f v = p.2 := by
    rintro ⟨a, b⟩
    simp only [List.mem_map, Prod.mk.injEq]
    constructor
    · rintro ⟨e, he, rfl, rfl⟩
      exact ⟨e.2, GoMap.lookup_of_entry he, rfl⟩
    · rintro ⟨v, hv, rfl⟩
      exact ⟨⟨a, v⟩, AList.mem_lookup_iff.mp hv, rfl, rfl⟩
  have hfun : ∀ e ∈ m.entries.map (fun e => (e.1, f e.2)),
      ∀ e' ∈ m.entries.map (fun e => (e.1, f e.2)), e.1 = e'.1 → e.2 = e'.2 := by
    intro e he e' he' hkey
    obtain ⟨v, hv, hfv⟩ := (hmem e).mp he
    obtain ⟨v', hv', hfv'⟩ := (hmem e').mp he'
    rw [hkey, hv', Option.some.injEq] at hv
    rw [← hfv, ← hfv', hv]
  refine Option.ext (fun w => ?_)
  rw [GoMap.lookup_ofPairs hfun, hmem, Option.map_eq_some_iff]

@[simp] theorem lookup_toMap_ofMap (m : GoMap String GoValue) (k : String) :
    (ofMap m).toMap.lookup k = m.lookup k := by
  rw [toMap, ofMap, toList_ofList]
  exact (lookup_ofPairs_entries id m k).trans (by rw [Option.map_id, id])

@[simp] theorem lookup_toMap_json (m : GoMap String GoValue) (k : String) :
    ((ofMap m).json formatTime).toMap.lookup k = (m.lookup k).map (GoValue.json formatTime) := by
  rw [toMap, toList_json, ofMap, toList_ofList, List.map_map]
  exact lookup_ofPairs_entries (GoValue.json formatTime) m k

end GoEntries

/-! ### JSON values -/

mutual

/-- The value is one that JSON decodes: a number is a `float64`, a list a `[]interface{}`. -/
def GoValue.isJSON : GoValue → Bool
  | .nil | .bool _ | .float _ | .string _ => true
  | .int _ | .time _ | .strings _ => false
  | .slice l => l.isJSON
  | .map m => m.isJSON

def GoSlice.isJSON : GoSlice → Bool
  | .nil => true
  | .cons v l => v.isJSON && l.isJSON

def GoEntries.isJSON : GoEntries → Bool
  | .nil => true
  | .cons _ v m => v.isJSON && m.isJSON

end

mutual

theorem GoValue.json_of_isJSON (formatTime : ℤ → String) :
    ∀ v : GoValue, v.isJSON = true → v.json formatTime = v
  | .nil, _ | .bool _, _ | .float _, _ | .string _, _ => rfl
  | .slice l, h => congrArg GoValue.slice (GoSlice.json_of_isJSON formatTime l h)
  | .map m, h => congrArg GoValue.map (GoEntries.json_of_isJSON formatTime m h)

theorem GoSlice.json_of_isJSON (formatTime : ℤ → String) :
    ∀ l : GoSlice, l.isJSON = true → l.json formatTime = l
  | .nil, _ => rfl
  | .cons v l, h => by
      obtain ⟨hv, hl⟩ := Bool.and_eq_true_iff.mp h
      rw [GoSlice.json, GoValue.json_of_isJSON formatTime v hv,
        GoSlice.json_of_isJSON formatTime l hl]

theorem GoEntries.json_of_isJSON (formatTime : ℤ → String) :
    ∀ m : GoEntries, m.isJSON = true → m.json formatTime = m
  | .nil, _ => rfl
  | .cons k v m, h => by
      obtain ⟨hv, hm⟩ := Bool.and_eq_true_iff.mp h
      rw [GoEntries.json, GoValue.json_of_isJSON formatTime v hv,
        GoEntries.json_of_isJSON formatTime m hm]

end

/-! ## YAML -/

def GoSlice.map (f : GoValue → GoValue) : GoSlice → GoSlice
  | .nil => .nil
  | .cons v l => .cons (f v) (l.map f)

def GoEntries.map (f : GoValue → GoValue) : GoEntries → GoEntries
  | .nil => .nil
  | .cons k v m => .cons k (f v) (m.map f)

/-- A whole number below a million. -/
def SmallWhole (x : ℚ) : Prop := x.den = 1 ∧ |x| < 1000000

instance (x : ℚ) : Decidable (SmallWhole x) := inferInstanceAs (Decidable (_ ∧ _))

/-- What `yaml.Marshal` and `yaml.Unmarshal` (`yaml.v3`) into an `interface{}` make of a value. A
`float64` is written in its shortest form, with an exponent from a million on, and a whole number
below that is read as an `int`; the other values of JSON come back as they are. -/
class Yaml where
  yaml : GoValue → GoValue
  nil : yaml .nil = .nil
  bool : ∀ b, yaml (.bool b) = .bool b
  string : ∀ s, yaml (.string s) = .string s
  smallWhole : ∀ x, SmallWhole x → yaml (.float x) = .int x.num
  float : ∀ x, ¬ SmallWhole x → yaml (.float x) = .float x
  slice : ∀ l, yaml (.slice l) = .slice (l.map yaml)
  map : ∀ m, yaml (.map m) = .map (m.map yaml)

mutual

/-- No number in the value is a whole number below a million. -/
def GoValue.noSmallWhole : GoValue → Bool
  | .float x => !decide (SmallWhole x)
  | .slice l => l.noSmallWhole
  | .map m => m.noSmallWhole
  | .nil | .bool _ | .int _ | .string _ | .time _ | .strings _ => true

def GoSlice.noSmallWhole : GoSlice → Bool
  | .nil => true
  | .cons v l => v.noSmallWhole && l.noSmallWhole

def GoEntries.noSmallWhole : GoEntries → Bool
  | .nil => true
  | .cons _ v m => v.noSmallWhole && m.noSmallWhole

end

theorem Yaml.float_eq_iff [Yaml] (x : ℚ) : Yaml.yaml (.float x) = .float x ↔ ¬ SmallWhole x := by
  refine ⟨fun h hsmall => ?_, Yaml.float x⟩
  rw [Yaml.smallWhole x hsmall] at h
  cases h

mutual

/-- A value of JSON comes back from YAML exactly if there is no whole number below a million in
it. -/
theorem GoValue.yaml_eq_iff [Yaml] :
    ∀ v : GoValue, v.isJSON = true → (Yaml.yaml v = v ↔ v.noSmallWhole = true)
  | .nil, _ => iff_of_true Yaml.nil rfl
  | .bool b, _ => iff_of_true (Yaml.bool b) rfl
  | .string s, _ => iff_of_true (Yaml.string s) rfl
  | .float x, _ => by
      rw [Yaml.float_eq_iff, GoValue.noSmallWhole, Bool.not_eq_true', decide_eq_false_iff_not]
  | .slice l, h => by
      rw [Yaml.slice, GoValue.slice.injEq, GoValue.noSmallWhole]
      exact GoSlice.map_yaml_eq_iff l h
  | .map m, h => by
      rw [Yaml.map, GoValue.map.injEq, GoValue.noSmallWhole]
      exact GoEntries.map_yaml_eq_iff m h

theorem GoSlice.map_yaml_eq_iff [Yaml] :
    ∀ l : GoSlice, l.isJSON = true → (l.map Yaml.yaml = l ↔ l.noSmallWhole = true)
  | .nil, _ => iff_of_true rfl rfl
  | .cons v l, h => by
      obtain ⟨hv, hl⟩ := Bool.and_eq_true_iff.mp h
      rw [GoSlice.map, GoSlice.noSmallWhole, GoSlice.cons.injEq, Bool.and_eq_true,
        GoValue.yaml_eq_iff v hv, GoSlice.map_yaml_eq_iff l hl]

theorem GoEntries.map_yaml_eq_iff [Yaml] :
    ∀ m : GoEntries, m.isJSON = true → (m.map Yaml.yaml = m ↔ m.noSmallWhole = true)
  | .nil, _ => iff_of_true rfl rfl
  | .cons k v m, h => by
      obtain ⟨hv, hm⟩ := Bool.and_eq_true_iff.mp h
      rw [GoEntries.map, GoEntries.noSmallWhole, GoEntries.cons.injEq, Bool.and_eq_true,
        GoValue.yaml_eq_iff v hv, GoEntries.map_yaml_eq_iff m hm, eq_self_iff_true, true_and]

end

mutual

/-- A value as `yaml.v3` gives it back, where other values than those of JSON are kept too. -/
def GoValue.yaml : GoValue → GoValue
  | .float x => if SmallWhole x then .int x.num else .float x
  | .strings l => .slice (l.foldr (fun s l => .cons (.string s) l) .nil)
  | .slice l => .slice l.yaml
  | .map m => .map m.yaml
  | .nil => .nil
  | .bool b => .bool b
  | .int n => .int n
  | .string s => .string s
  | .time t => .time t

def GoSlice.yaml : GoSlice → GoSlice
  | .nil => .nil
  | .cons v l => .cons v.yaml l.yaml

def GoEntries.yaml : GoEntries → GoEntries
  | .nil => .nil
  | .cons k v m => .cons k v.yaml m.yaml

end

theorem GoSlice.map_yaml : ∀ l : GoSlice, l.map GoValue.yaml = l.yaml
  | .nil => rfl
  | .cons v l => congrArg (GoSlice.cons v.yaml) (GoSlice.map_yaml l)

theorem GoEntries.map_yaml : ∀ m : GoEntries, m.map GoValue.yaml = m.yaml
  | .nil => rfl
  | .cons k v m => congrArg (GoEntries.cons k v.yaml) (GoEntries.map_yaml m)

instance yamlV3 : Yaml where
  yaml := GoValue.yaml
  nil := rfl
  bool _ := rfl
  string _ := rfl
  smallWhole _ h := if_pos h
  float _ h := if_neg h
  slice l := congrArg GoValue.slice l.map_yaml.symm
  map m := congrArg GoValue.map m.map_yaml.symm

/-! ## Type assertions -/

/-- `v, ok := x.(string)` of a map element -/
def Option.asString : Option GoValue → Option String
  | some (.string s) => some s
  | _ => none

theorem Option.asString_eq_some {x : Option GoValue} {s : String} :
    x.asString = some s ↔ x = some (.string s) := by
  unfold asString
  split <;> simp_all

/-- `v, ok := x.(float64)` -/
def Option.asFloat : Option GoValue → Option ℚ
  | some (.float x) => some x
  | _ => none

/-- `v, ok := x.(bool)` -/
def Option.asBool : Option GoValue → Option Bool
  | some (.bool b) => some b
  | _ => none

/-- `v, ok := x.([]string)` -/
def Option.asStrings : Option GoValue → Option (List String)
  | some (.strings l) => some l
  | _ => none

@[simp] theorem Option.asStrings_json (formatTime : ℤ → String) (x : Option GoValue) :
    (x.map (GoValue.json formatTime)).asStrings = none := by
  cases x with
  | none => rfl
  | some v => cases v <;> rfl

/-- `v, ok := x.(map[string]interface{})` -/
def Option.asMap : Option GoValue → Option (GoMap String GoValue)
  | some (.map m) => some m.toMap
  | _ => none
