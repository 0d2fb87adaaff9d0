import Mathlib.Data.List.Basic

/-!
# jsoncpp values as authentication vectors carry them

The HSS answers with a `Json::Value`; `create_challenge` and `user_lookup` read
it through `isMember`, the non-const `operator[]`, `asString` and `asCString`.

## Implementation notes

A read that jsoncpp rejects (it throws `Json::LogicError`) is `none`. Numbers
are kept as the text `asString` renders for them; no read in the source
distinguishes integers from reals. `operator[]` on a missing member inserts a
null member before returning it: the model returns null without inserting,
since every later read of such a value either reads that same member again or
throws first. Strings are kept whole, embedded NUL characters included, as
jsoncpp stores them with their length.
-/

namespace Sprout.Json

/-- A `Json::Value`. Object members are kept in order; jsoncpp's objects are maps,
so a name occurs once and lookup takes the first. -/
inductive Value where
  | null
  | bool (b : Bool)
  | number (rendered : String)
  | string (s : String)
  | array (items : List Value)
  | object (members : List (String × Value))
  deriving Repr

namespace Value

/-- `isMember(key)`: false on null; jsoncpp throws on a value that is not an object. -/
def isMember : Value → String → Option Bool
  | .null, _ => some false
  | .object ms, k => some (ms.any fun m => m.1 == k)
  | _, _ => none

/-- The non-const `operator[](key)`: a missing member, or any member of null, reads as null. -/
def member : Value → String → Option Value
  | .null, _ => some .null
  | .object ms, k => some ((ms.lookup k).getD .null)
  | _, _ => none

/-- `asString()`: null is the empty string; arrays and objects throw. -/
def asString : Value → Option String
  | .null => some ""
  | .bool b => some (if b then "true" else "false")
  | .number r => some r
  | .string s => some s
  | _ => none

/-- `asCString()`: only a string value has one. -/
def asCString : Value → Option String
  | .string s => some s
  | _ => none

@[simp] theorem isMember_object (ms : List (String × Value)) (k : String) :
    (object ms).isMember k = some (ms.any fun m => m.1 == k) := rfl

@[simp] theorem member_object (ms : List (String × Value)) (k : String) :
    (object ms).member k = some ((ms.lookup k).getD .null) := rfl

@[simp] theorem asString_string (s : String) : (string s).asString = some s := rfl

@[simp] theorem asCString_string (s : String) : (string s).asCString = some s := rfl

theorem asCString_eq_some {v : Value} {s : String} (h : v.asCString = some s) : v = .string s := by
  cases v <;> simp_all [asCString]

/-! ### Editing members

Two edits used to say which members a reader of a value looks at: the reader gives
the same result on a value and on the value with those members edited. -/

/-- The object without its members named `key`; any other value as it is. -/
def eraseMember (key : String) : Value → Value
  | .object ms => .object (ms.filter fun m => m.1 != key)
  | v => v

/-- The object with `f` applied to its members named `key`; any other value as it is. -/
def updateMember (key : String) (f : Value → Value) : Value → Value
  | .object ms => .object (ms.map fun m => if m.1 = key then (m.1, f m.2) else m)
  | v => v

@[simp] theorem eraseMember_null (key : String) : eraseMember key .null = .null := rfl

theorem lookup_cons_eq_ite {k a : String} {b : Value} {ms : List (String × Value)} :
    ((a, b) :: ms).lookup k = if k = a then some b else ms.lookup k := by
  by_cases h : k = a <;> simp [List.lookup_cons, h, beq_false_of_ne]

theorem lookup_filter_ne {key k : String} (h : k ≠ key) (ms : List (String × Value)) :
    (ms.filter fun m => m.1 != key).lookup k = ms.lookup k := by
  induction ms with
  | nil => rfl
  | cons m ms ih =>
      obtain ⟨a, b⟩ := m
      by_cases ha : a = key
      · subst ha
        simp [List.filter_cons, lookup_cons_eq_ite, h, ih]
      · simp [List.filter_cons, ha, lookup_cons_eq_ite, ih]

theorem lookup_map_update {key k : String} {f : Value → Value} (ms : List (String × Value)) :
    (ms.map fun m => if m.1 = key then (m.1, f m.2) else m).lookup k =
      if k = key then (ms.lookup k).map f else ms.lookup k := by
  induction ms with
  | nil => split <;> rfl
  | cons m ms ih =>
      obtain ⟨a, b⟩ := m
      by_cases ha : a = key
      · subst ha
        by_cases hk : k = a <;> simp [lookup_cons_eq_ite, hk, ih]
      · by_cases hk : k = a
        · simp [lookup_cons_eq_ite, hk, ha]
        · simp [lookup_cons_eq_ite, ha, hk, ih]

/-- Editing members keeps the names, so membership tests see no change. -/
@[simp] theorem isMember_updateMember (key k : String) (f : Value → Value) (v : Value) :
    (v.updateMember key f).isMember k = v.isMember k := by
  cases v with
  | object ms =>
      simp only [updateMember, isMember_object, List.any_map]
      congr 2
      funext ⟨a, b⟩
      by_cases h : a = key <;> simp [h]
  | _ => rfl

theorem member_updateMember_of_ne {key k : String} (h : k ≠ key) (f : Value → Value) (v : Value) :
    (v.updateMember key f).member k = v.member k := by
  cases v with
  | object ms => simp [updateMember, lookup_map_update, h]
  | _ => rfl

/-- For an edit that leaves null as it is, the edited member is read edited. -/
theorem member_updateMember {key : String} {f : Value → Value} (hf : f .null = .null) (v : Value) :
    (v.updateMember key f).member key = (v.member key).map f := by
  cases v with
  | null => simp [updateMember, member, hf]
  | object ms =>
      simp only [updateMember, member_object, lookup_map_update, if_true, Option.map_some']
      cases ms.lookup key <;> simp [hf]
  | _ => rfl

theorem member_eraseMember_of_ne {key k : String} (h : k ≠ key) (v : Value) :
    (v.eraseMember key).member k = v.member k := by
  cases v with
  | object ms => simp [eraseMember, lookup_filter_ne h]
  | _ => rfl

end Value

end Sprout.Json
