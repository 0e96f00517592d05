/-
Paths into JSON objects: `getNestedValue` of `executor/domain/types/conditional_node.go` and
`setNestedValue` of `utility_nodes.go`.

At a segment that holds something else than an object, `setNestedValue` goes on in the object that
it is in, and so writes under another path. Reading and setting a path are a lens exactly if there
is no such segment before the last (`setNestedValue_lens_iff`).
-/
import LinkFlow.Lib.GoValue

set_option autoImplicit false

namespace LinkFlow.Nodes

open List

/-! ## Objects -/

/-- `m[key]`, if it is there -/
def find (key : String) (m : GoEntries) : Option GoValue := m.toList.lookup key

/-- `m[key] = value` -/
def put (key : String) (value : GoValue) (m : GoEntries) : GoEntries :=
  .ofList ((key, value) :: m.toList.filter (·.1 ≠ key))

/-- Writing a key changes what is under it and nothing else. -/
theorem find_put (key k : String) (value : GoValue) (m : GoEntries) :
    find k (put key value m) = if k = key then some value else find k m := by
  have hrest : ∀ l : List (String × GoValue), k ≠ key →
      (l.filter (·.1 ≠ key)).lookup k = l.lookup k := by
    intro l hk
    induction l with
    | nil => rfl
    | cons e l ih =>
      by_cases he : e.1 = key
      · have hne : (k == e.1) = false := beq_false_of_ne (he ▸ hk)
        rw [filter_cons_of_neg (by simpa using he), ih, lookup_cons, hne]
      · rw [filter_cons_of_pos (by simpa using he), lookup_cons, lookup_cons, ih]
  rw [find, put, GoEntries.toList_ofList, lookup_cons]
  split_ifs with hk
  · simp [hk]
  · rw [beq_false_of_ne hk]
    exact hrest _ hk

theorem put_put (key : String) (v w : GoValue) (m : GoEntries) :
    put key v (put key w m) = put key v m := by
  simp [put, filter_filter]

/-! ## The two functions -/

/-- `strings.Split(path, ".")` -/
def split (path : String) : List String := (path.toList.splitOn '.').map String.ofList

def parseUint : ℕ → List Char → ℕ
  | n, [] => n
  | n, c :: cs =>
    let n := 10 * n + (c.toNat - 48)
    if ¬ c.isDigit then 0 else if 2 ^ 64 ≤ n then 2 ^ 64 - 1 else parseUint n cs

/-- The number that `strconv.Atoi` returns, with an error or without. -/
def atoi : List Char → ℤ
  | '-' :: s => max (-2 ^ 63) (-parseUint 0 s)
  | '+' :: s => min (2 ^ 63 - 1) (parseUint 0 s)
  | s => min (2 ^ 63 - 1) (parseUint 0 s)

def elems : GoSlice → List GoValue
  | .nil => []
  | .cons v l => v :: elems l

/-- The rounds of `getNestedValue`. No result is a panic: a bracket ends the segment, or the index
is negative. The last byte is taken for the closing bracket. -/
def getIn : List String → GoValue → Option GoValue
  | [], current => some current
  | part :: parts, current =>
    match current, part.toList.dropWhile (· ≠ '[') with
    | .nil, _ => some .nil
    | .map m, [] => getIn parts ((find part m).getD .nil)
    | _, [] => some .nil
    | _, [_] => none
    | current, _ :: c :: s =>
      let index := if ((c :: s).getLast (by simp)).utf8Size = 1 then atoi (c :: s).dropLast else 0
      let key := String.ofList (part.toList.takeWhile (· ≠ '['))
      match match current with | .map m => (find key m).getD .nil | v => v with
      | .slice l =>
        if index < (elems l).length then
          if index < 0 then none else getIn parts ((elems l).getD index.toNat .nil)
        else some .nil
      | _ => some .nil

def getNestedValue (data : GoEntries) (path : String) : Option GoValue :=
  getIn (split path) (.map data)

/-- The rounds of `setNestedValue`. -/
def setIn (value : GoValue) : List String → GoEntries → GoEntries
  | [], m => m
  | [part], m => put part value m
  | part :: next :: parts, m =>
    match find part m with
    | none => put part (.map (setIn value (next :: parts) .nil)) m
    | some (.map n) => put part (.map (setIn value (next :: parts) n)) m
    | some _ => setIn value (next :: parts) m

def setNestedValue (data : GoEntries) (path : String) (value : GoValue) : GoEntries :=
  setIn value (split path) data

/-! ## A lens -/

/-- The segments before the last are missing or hold objects. -/
def Clear : List String → GoEntries → Prop
  | part :: next :: parts, m =>
    ∀ v, find part m = some v → ∃ n, v = .map n ∧ Clear (next :: parts) n
  | _, _ => True

section Lens

variable {parts : List String} {m : GoEntries} (v : GoValue)

theorem getIn_nil (parts : List String) : getIn parts .nil = some .nil := by
  cases parts <;> rfl

theorem dropWhile_bracket {part : String} (h : '[' ∉ part.toList) :
    part.toList.dropWhile (· ≠ '[') = [] := by
  rw [List.dropWhile_eq_nil_iff]
  intro c hc
  rw [decide_eq_true_iff]
  rintro rfl
  exact h hc

/-- A segment without a bracket is looked up as a key. -/
theorem getIn_cons {part : String} (h : '[' ∉ part.toList) (parts : List String)
    (m : GoEntries) : getIn (part :: parts) (.map m) = getIn parts ((find part m).getD .nil) := by
  rw [getIn]
  exact dropWhile_bracket h

/-- On a clear path a round goes into the object under the segment, or into a new one. -/
theorem setIn_clear {part next : String} (h : Clear (part :: next :: parts) m) :
    ∃ n, Clear (next :: parts) n ∧ (find part m = none ∧ n = .nil ∨ find part m = some (.map n)) ∧
      setIn v (part :: next :: parts) m = put part (.map (setIn v (next :: parts) n)) m := by
  cases hfind : find part m with
  | none =>
    refine ⟨.nil, ?_, .inl ⟨rfl, rfl⟩, by rw [setIn, hfind]⟩
    cases parts with
    | nil => trivial
    | cons p parts => intro v hv; cases hv
  | some w =>
    obtain ⟨n, rfl, hn⟩ := h w hfind
    exact ⟨n, hn, .inr rfl, by rw [setIn, hfind]⟩

/-- What was set is read. -/
theorem getIn_setIn (hparts : ∀ part ∈ parts, '[' ∉ part.toList) (hne : parts ≠ [])
    (h : Clear parts m) : getIn parts (.map (setIn v parts m)) = some v := by
  induction parts generalizing m with
  | nil => exact absurd rfl hne
  | cons part parts ih =>
    rw [getIn_cons (hparts part List.mem_cons_self)]
    cases parts with
    | nil => rw [setIn, find_put, if_pos rfl]; rfl
    | cons next parts =>
      obtain ⟨n, hn, -, heq⟩ := setIn_clear v h
      rw [heq, find_put, if_pos rfl]
      exact ih (fun p hp => hparts p (.tail part hp)) (List.cons_ne_nil _ _) hn

/-- The second set walks through the objects that the first has left. -/
theorem setIn_setIn (w : GoValue) (h : Clear parts m) :
    setIn v parts (setIn w parts m) = setIn v parts m := by
  induction parts generalizing m with
  | nil => rfl
  | cons part parts ih =>
    cases parts with
    | nil => exact put_put part v w m
    | cons next parts =>
      obtain ⟨n, hn, hfind, heq⟩ := setIn_clear w h
      have hsecond : setIn v (part :: next :: parts) m =
          put part (.map (setIn v (next :: parts) n)) m := by
        rcases hfind with ⟨hnone, rfl⟩ | hsome
        · rw [setIn, hnone]
        · rw [setIn, hsome]
      rw [heq, setIn, find_put, if_pos rfl, hsecond]
      simp only [ih hn, put_put]

/-- Where two paths part, the one that is not set keeps its value. -/
theorem getIn_setIn_ne {other : List String} (hparts : ∀ part ∈ parts, '[' ∉ part.toList)
    (hother : ∀ part ∈ other, '[' ∉ part.toList) (hnot : ¬ other <+: parts)
    (hnot' : ¬ parts <+: other) (h : Clear parts m) :
    getIn other (.map (setIn v parts m)) = getIn other (.map m) := by
  induction parts generalizing m other with
  | nil => exact absurd (List.nil_prefix) hnot'
  | cons part parts ih =>
    cases other with
    | nil => exact absurd (List.nil_prefix) hnot
    | cons o other =>
      have ho := hother o List.mem_cons_self
      rw [getIn_cons ho, getIn_cons ho]
      cases parts with
      | nil =>
        have hne : o ≠ part := by
          rintro rfl
          exact hnot' (List.cons_prefix_cons.mpr ⟨rfl, List.nil_prefix⟩)
        rw [setIn, find_put, if_neg hne]
      | cons next parts =>
        obtain ⟨n, hn, hfind, heq⟩ := setIn_clear v h
        rw [heq, find_put]
        split_ifs with hop
        · subst hop
          rw [List.cons_prefix_cons, and_iff_right rfl] at hnot hnot'
          have hrest := ih (fun p hp => hparts p (.tail _ hp)) (fun p hp => hother p (.tail _ hp))
            hnot hnot' hn
          rcases hfind with ⟨hnone, rfl⟩ | hsome
          · rw [Option.getD_some, hrest, hnone, Option.getD_none, getIn_nil]
            cases other with
            | nil => exact absurd (List.nil_prefix) hnot
            | cons p other =>
              rw [getIn_cons (hother p (.tail _ List.mem_cons_self))]
              exact getIn_nil other
          · rw [hsome]
            exact hrest
        · rfl

/-- What is no object is either left as it is or replaced by the value itself. -/
theorem find_setIn_of_not_map (parts : List String) {key : String} {x : GoValue}
    (hx : ∀ n, x ≠ .map n) (hfind : find key m = some x) :
    find key (setIn v parts m) = some x ∨ find key (setIn v parts m) = some v := by
  induction parts generalizing m with
  | nil => exact .inl hfind
  | cons part parts ih =>
    cases parts with
    | nil =>
      rw [setIn, find_put]
      split_ifs
      · exact .inr rfl
      · exact .inl hfind
    | cons next parts =>
      rw [setIn]
      cases hpart : find part m with
      | none =>
        have hne : key ≠ part := by
          rintro rfl
          rw [hfind] at hpart
          cases hpart
        rw [find_put, if_neg hne]
        exact .inl hfind
      | some y =>
        cases y with
        | map n =>
          have hne : key ≠ part := by
            rintro rfl
            rw [hfind] at hpart
            exact hx n (Option.some.inj hpart)
          rw [find_put, if_neg hne]
          exact .inl hfind
        | _ => exact ih hfind

/-- Below what is no object there is nothing to read. -/
theorem getIn_of_not_map {part : String} (h : '[' ∉ part.toList) (parts : List String)
    {x : GoValue} (hx : ∀ n, x ≠ .map n) : getIn (part :: parts) x = some .nil := by
  cases x with
  | map n => exact absurd rfl (hx n)
  | nil => rfl
  | _ =>
    unfold getIn
    rw [dropWhile_bracket h]

/-- A value that is read back where it was set had only objects on its way. -/
theorem clear_of_getIn_setIn (hparts : ∀ part ∈ parts, '[' ∉ part.toList)
    (h : getIn parts (.map (setIn (.bool true) parts m)) = some (.bool true)) :
    Clear parts m := by
  induction parts generalizing m with
  | nil => trivial
  | cons part parts ih =>
    cases parts with
    | nil => trivial
    | cons next parts =>
      intro x hfind
      rw [getIn_cons (hparts part List.mem_cons_self)] at h
      by_cases hmap : ∃ n, x = .map n
      · obtain ⟨n, rfl⟩ := hmap
        refine ⟨n, rfl, ih (fun p hp => hparts p (.tail part hp)) ?_⟩
        rw [setIn, hfind] at h
        dsimp only at h
        rw [find_put, if_pos rfl] at h
        exact h
      · -- the segment holds `x` or the value, and neither has anything below it
        have hx : ∀ n, x ≠ .map n := fun n hn => hmap ⟨n, hn⟩
        have hnext := hparts next (.tail part List.mem_cons_self)
        rcases find_setIn_of_not_map (.bool true) (part :: next :: parts) hx hfind with
          hold | hnew
        · rw [hold, Option.getD_some, getIn_of_not_map hnext parts hx] at h
          cases h
        · rw [hnew, Option.getD_some,
            getIn_of_not_map hnext parts (fun n hn => by cases hn)] at h
          cases h

end Lens

/-- A path of segments without dots and brackets. -/
structure Segments (segs : List String) : Prop where
  ne_nil : segs ≠ []
  dot : ∀ seg ∈ segs, '.' ∉ seg.toList
  bracket : ∀ seg ∈ segs, '[' ∉ seg.toList

def dotted (segs : List String) : String :=
  String.ofList (['.'].intercalate (segs.map String.toList))

/-- Splitting at dots gives the segments back. -/
theorem Segments.split_dotted {segs : List String} (h : Segments segs) :
    split (dotted segs) = segs := by
  have hdot : ∀ l ∈ segs.map String.toList, '.' ∉ l := by
    intro l hl
    obtain ⟨seg, hseg, rfl⟩ := mem_map.mp hl
    exact h.dot seg hseg
  rw [split, dotted, String.toList_ofList, splitOn_intercalate _ hdot (by simp [h.ne_nil]), map_map]
  exact (map_congr_left (fun s _ => String.ofList_toList)).trans (map_id segs)

/-- What is read after a value is set is the value, the last value that is set counts, and a path
that is no prefix and no extension reads as before; for every value. -/
def LensAt (segs : List String) (data : GoEntries) : Prop :=
  ∀ v w : GoValue,
    getNestedValue (setNestedValue data (dotted segs) v) (dotted segs) = some v ∧
    setNestedValue (setNestedValue data (dotted segs) w) (dotted segs) v =
      setNestedValue data (dotted segs) v ∧
    ∀ other, Segments other → ¬ other <+: segs → ¬ segs <+: other →
      getNestedValue (setNestedValue data (dotted segs) v) (dotted other) =
        getNestedValue data (dotted other)

/-- **Reading and setting a path are a lens** exactly if the segments before the last are missing or
hold objects. -/
theorem setNestedValue_lens_iff {segs : List String} (hsegs : Segments segs) (data : GoEntries) :
    LensAt segs data ↔ Clear segs data := by
  simp only [LensAt, getNestedValue, setNestedValue, hsegs.split_dotted]
  constructor
  · intro hlens
    exact clear_of_getIn_setIn hsegs.bracket (hlens (.bool true) .nil).1
  · intro hclear v w
    refine ⟨getIn_setIn v hsegs.bracket hsegs.ne_nil hclear, setIn_setIn v w hclear, ?_⟩
    intro other hother hnot hnot'
    rw [hother.split_dotted]
    exact getIn_setIn_ne v hsegs.bracket hother.bracket hnot hnot' hclear

/-- Both segments are missing. -/
theorem setNestedValue_lens_ab : LensAt ["a", "b"] .nil :=
  (setNestedValue_lens_iff ⟨by decide, by decide, by decide⟩ .nil).mpr (fun v hv => by cases hv)

/-- Under a number: the value is written beside it, and a second one inside the first. -/
theorem setNestedValue_number : let data := GoEntries.cons "a" (.float 5) .nil
    getNestedValue (setNestedValue data "a.b" (.bool true)) "a.b" = some .nil ∧
    setNestedValue data "a.b" (.bool true) = .cons "b" (.bool true) (.cons "a" (.float 5) .nil) ∧
    setNestedValue data "a.a" (.bool true) = .cons "a" (.bool true) .nil ∧
    setNestedValue (setNestedValue data "a.a" (.map .nil)) "a.a" (.bool true) =
      .cons "a" (.map (.cons "a" (.bool true) .nil)) .nil := by
  decide

end LinkFlow.Nodes
