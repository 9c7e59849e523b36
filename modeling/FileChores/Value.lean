import FileChores.Number
import FileChores.Program

/-!
# Values

A value is a number or a text. Where a text is needed a number stands for its decimal form, and a
comparison is numeric only between two numbers.
-/

namespace FileChores

/-- The derived equality is that of IEEE numbers: no NaN equals itself, and both zeros are equal. -/
inductive Value
  | number (x : Float)
  | text (content : String)
  deriving BEq, Repr, Inhabited

namespace Value

def asNumber : Value → Option Float
  | number x => some x
  | text _ => none

def asText : Value → Option String
  | number _ => none
  | text content => some content

def toText : Value → String
  | number x => Number.text x
  | text content => content

def typeName : Value → String
  | number _ => "Number"
  | text _ => "Text"

/-- The value with its type, as a message names it. -/
def describe : Value → String
  | number x => s!"Number {Number.text x}"
  | text content => s!"Text \"{content}\""

/-- How two values stand to each other: numbers by size, anything else by its characters. A NaN
stands in no order to a number. -/
def order? : Value → Value → Option Ordering
  | number x, number y =>
      if x < y then some .lt else if x == y then some .eq else if y < x then some .gt else none
  | a, b => some (compare a.toText b.toText)

def add : Value → Value → Value
  | number x, number y => number (x + y)
  | a, b => text (a.toText ++ b.toText)

/-- The difference of two numbers. A text cannot be subtracted, nor subtracted from. -/
def sub? : Value → Value → Option Value
  | number x, number y => some (number (x - y))
  | _, _ => none

end Value

namespace Comparison

def holds : Comparison → Value → Value → Bool
  | equal, a, b => a.order? b == some .eq
  | notEqual, a, b => a.order? b != some .eq
  | greater, a, b => a.order? b == some .gt
  | less, a, b => a.order? b == some .lt

end Comparison

end FileChores
