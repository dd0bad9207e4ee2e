import ManualPages.Number.Binary64

/-! # JSON values

The members of an object stand in increasing order of their keys, each key once: `insert` keeps
that order, and the last value written under a key is the one that stays.  Keys are compared by
code points, which is also the order of their UTF-8 bytes. -/

namespace ManualPages.Json

/-- A number is an integer, or a signed binary fraction. -/
inductive Number where
  | integer (n : Int)
  | fraction (negative : Bool) (magnitude : Number.Binary64)
deriving DecidableEq, Repr

inductive Value where
  | null
  | bool (b : Bool)
  | number (n : Number)
  | string (s : String)
  | array (items : List Value)
  | object (members : List (String × Value))
deriving Inhabited, Repr

/-- The members of an object. -/
abbrev Members := List (String × Value)

namespace Members

/-- Write `value` under `key`. -/
def insert (key : String) (value : Value) : Members → Members
  | [] => [(key, value)]
  | (k, v) :: rest =>
    if key = k then (key, value) :: rest
    else if key < k then (key, value) :: (k, v) :: rest
    else (k, v) :: insert key value rest

/-- The value under `key`. -/
def get? (members : Members) (key : String) : Option Value :=
  (members.find? fun m => m.1 == key).map (·.2)

/-- The keys are in increasing order, each once. -/
def Ordered (members : Members) : Prop := members.Pairwise fun a b => a.1 < b.1

theorem get?_cons (k : String) (v : Value) (rest : Members) (key : String) :
    get? ((k, v) :: rest) key = if k = key then some v else get? rest key := by
  by_cases h : k = key <;> simp [get?, h]

end Members

namespace Value

/-- The member of an object under `key`; `none` for every other value. -/
def get? : Value → String → Option Value
  | object members, key => Members.get? members key
  | _, _ => none

/-- The text of a string; `none` for every other value. -/
def text? : Value → Option String
  | string s => some s
  | _ => none

end Value

end ManualPages.Json
