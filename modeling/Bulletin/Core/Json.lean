import Mathlib.Algebra.Group.Int.Defs
import Mathlib.Data.List.Sort
import Mathlib.Data.String.Basic

/-! # JSON values

Values as they are parsed: the fields of an object in the order of the text, where a key may come
up again and its last value counts. A number that is no integer is its text. Integers are of any
size: those beyond the 64 bits that a reader may stop at are integers here, too, not floats.
-/

namespace Json

inductive Value where
  | null
  | bool (b : Bool)
  | int (n : Int)
  | float (text : String)
  | str (s : String)
  | arr (items : List Value)
  | obj (fields : List (String × Value))

namespace Value

/-- The value of a key, if this is an object that has it. -/
def get (key : String) : Value → Option Value
  | obj fields => (fields.reverse.find? (·.1 = key)).map (·.2)
  | _ => none

/-- The value at the end of a path of keys. -/
def dig (v : Value) : List String → Option Value
  | [] => some v
  | key :: path => (v.get key).bind (dig · path)

theorem dig_pair (v : Value) (a b : String) : v.dig [a, b] = (v.get a).bind (·.get b) := by
  simp [dig]

def asStr : Value → Option String
  | str s => some s
  | _ => none

def asBool : Value → Option Bool
  | bool b => some b
  | _ => none

def asInt64 : Value → Option Int
  | int n => if -2 ^ 63 ≤ n ∧ n < 2 ^ 63 then some n else none
  | _ => none

/-! ## Text -/

def hexDigit (n : Nat) : Char := if n < 10 then Char.ofNat (48 + n) else Char.ofNat (87 + n)

def escape (c : Char) : List Char :=
  match c.toNat with
  | 8 => ['\\', 'b']
  | 9 => ['\\', 't']
  | 10 => ['\\', 'n']
  | 12 => ['\\', 'f']
  | 13 => ['\\', 'r']
  | 34 => ['\\', '"']
  | 92 => ['\\', '\\']
  | n => if n < 32 then ['\\', 'u', '0', '0', hexDigit (n / 16), hexDigit (n % 16)] else [c]

def quote (s : String) : String := String.ofList ('"' :: s.toList.flatMap escape ++ ['"'])

def sortFields (fields : List (String × String)) : List (String × String) :=
  let last := fields.foldr (fun f rest => if rest.any (·.1 = f.1) then rest else f :: rest) []
  last.insertionSort fun x y => x.1 ≤ y.1

mutual

def compact : Value → String
  | null => "null"
  | bool b => toString b
  | int n => toString n
  | float text => text
  | str s => quote s
  | arr items => "[" ++ String.intercalate "," (compactItems items) ++ "]"
  | obj fields => "\x7b" ++ String.intercalate ","
      ((sortFields (compactFields fields)).map fun f => quote f.1 ++ ":" ++ f.2) ++ "\x7d"

def compactItems : List Value → List String
  | [] => []
  | v :: vs => v.compact :: compactItems vs

def compactFields : List (String × Value) → List (String × String)
  | [] => []
  | (key, v) :: fields => (key, v.compact) :: compactFields fields

end

example : (obj [("b", int 1), ("a", str "x\"y"), ("b", null)]).compact =
    "\x7b\"a\":\"x\\\"y\",\"b\":null\x7d" := by decide +kernel

end Value

end Json
