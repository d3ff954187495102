import Mathlib.Data.Int.Notation
import Mathlib.Data.List.Infix
import Mathlib.Data.Nat.Notation
import Mathlib.Tactic.Common

/-!
# JSON values as the trace tools see them

The tools are Python scripts over the events of a Chrome trace.  An operation that
raises is an `Except` error; the builtins that convert text and floats are parameters,
all others are written out.
-/

namespace ChunkScaledDotKkt.Trace

/-- A JSON value with floats in `F`. -/
inductive Json (F : Type) where
  | null
  | bool (b : Bool)
  | int (i : ℤ)
  | float (x : F)
  | str (s : String)
  | arr (items : List (Json F))
  | obj (fields : List (String × Json F))

inductive PyError where
  | typeError | valueError | attributeError | overflowError
  deriving Repr, DecidableEq

/-- Builtins on text and floats. -/
structure Python (F : Type) where
  /-- `str` of a float, a list or a dict -/
  repr : Json F → String
  upper : String → String
  isSpace : Char → Bool
  isDigit : Char → Bool
  /-- letters, digits and the underscore -/
  isWord : Char → Bool
  /-- `int` of a string -/
  intOfStr : String → Except PyError ℤ
  /-- `int` of a string with base 0 -/
  intOfStrBase0 : String → Except PyError ℤ
  intOfFloat : F → Except PyError ℤ
  floatOfInt : ℤ → Except PyError F
  floatOfStr : String → Except PyError F
  isZero : F → Bool
  eq : F → F → Bool
  lt : F → F → Bool
  add : F → F → F
  neg : F → F
  /-- `round(value, 6)` -/
  round6 : F → F

/-- The number of a text of decimal digits. -/
def decimal (s : String) : Except PyError ℤ :=
  if s ≠ "" ∧ s.toList.all Char.isDigit then
    .ok (s.toList.foldl (fun n c => n * 10 + ((c.toNat : ℤ) - 48)) 0)
  else .error .valueError

/-- Builtins on plain text without signs, with whole numbers for times. -/
def plainPython : Python ℤ where
  repr _ := ""
  upper s := String.ofList (s.toList.map Char.toUpper)
  isSpace c := c = ' '
  isDigit c := c.isDigit
  isWord c := c.isAlphanum || c = '_'
  intOfStr := decimal
  intOfStrBase0 := decimal
  intOfFloat := .ok
  floatOfInt := .ok
  floatOfStr := decimal
  isZero x := x = 0
  eq a b := a = b
  lt a b := a < b
  add := (· + ·)
  neg x := -x
  round6 x := x

namespace Json

variable {F : Type}

/-- `value.get(key, default)`; of two fields with one key the later counts. -/
def get (value : Json F) (key : String) (default : Json F) : Except PyError (Json F) :=
  match value with
  | .obj fields => .ok ((fields.reverse.lookup key).getD default)
  | _ => .error .attributeError

/-- `value == text`. -/
def isStr (value : Json F) (text : String) : Bool :=
  match value with
  | .str s => s == text
  | _ => false

def isNull : Json F → Bool
  | .null => true
  | _ => false

end Json

namespace Python

variable {F : Type} (py : Python F)

/-- `str(value)`. -/
def str : Json F → String
  | .str s => s
  | .null => "None"
  | .bool b => if b then "True" else "False"
  | .int i => toString i
  | value => py.repr value

/-- `int(value)`. -/
def int : Json F → Except PyError ℤ
  | .int i => .ok i
  | .bool b => .ok (if b then 1 else 0)
  | .float x => py.intOfFloat x
  | .str s => py.intOfStr s
  | _ => .error .typeError

/-- `float(value)`. -/
def float : Json F → Except PyError F
  | .int i => py.floatOfInt i
  | .bool b => py.floatOfInt (if b then 1 else 0)
  | .float x => .ok x
  | .str s => py.floatOfStr s
  | _ => .error .typeError

/-- The truth value of `value`. -/
def truth : Json F → Bool
  | .null => false
  | .bool b => b
  | .int i => i != 0
  | .float x => !py.isZero x
  | .str s => s != ""
  | .arr items => !items.isEmpty
  | .obj fields => !fields.isEmpty

/-- `value or default`. -/
def orElse (value default : Json F) : Json F := if py.truth value then value else default

end Python

/-- `text.strip()` on characters. -/
def Python.strip {F : Type} (py : Python F) (text : List Char) : List Char :=
  ((text.dropWhile py.isSpace).reverse.dropWhile py.isSpace).reverse

/-- `needle in text`. -/
def contains (text needle : String) : Bool := needle.toList <:+: text.toList

/-- `text.startswith(start)`. -/
def startsWith (text start : String) : Bool := start.toList <+: text.toList

/-- The exceptions that `except (TypeError, ValueError)` catches. -/
def PyError.caught : PyError → Bool
  | .typeError | .valueError => true
  | _ => false

end ChunkScaledDotKkt.Trace
