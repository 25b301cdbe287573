import Codemod.Decimal.Double
/-!
# JSON values

Trees, rules and matches are exchanged as JSON. A number without fraction and
exponent is a whole number as long as a 64-bit integer can hold it, and a
double otherwise. An object keeps its entries in the order they were written
in, those with a repeated key included. A part of a text may be well written
and yet have no value; it then spoils only what asks for it.
-/

namespace Codemod

/-- A value as it is written in JSON. -/
inductive Json where
  | null
  | bool (value : Bool)
  | int (value : Int)
  | float (value : Double)
  | str (value : String)
  | arr (items : List Json)
  | obj (entries : List (String × Json))
  /-- What no value can hold: a number beyond every double, a text with half a
  surrogate pair, an object with such a key, or a container nested too deep. -/
  | unreadable
  deriving Inhabited

namespace Json

/-- The least whole number that is kept as one. -/
def leastInt : Int := -(twoPow 63 : Int)

/-- The greatest whole number that is kept as one. -/
def greatestInt : Int := (twoPow 64 : Int) - 1

/-- The value is null. -/
def isNull : Json → Bool
  | .null => true
  | _ => false

mutual

/-- How deep the value nests. -/
def depth : Json → Nat
  | .arr items => 1 + itemsDepth items
  | .obj entries => 1 + entriesDepth entries
  | _ => 1

/-- How deep the deepest item nests. -/
def itemsDepth : List Json → Nat
  | [] => 0
  | v :: rest => max (depth v) (itemsDepth rest)

/-- How deep the deepest value nests. -/
def entriesDepth : List (String × Json) → Nat
  | [] => 0
  | (_, v) :: rest => max (depth v) (entriesDepth rest)

end

mutual

/-- Every part of it has a value. -/
def readable : Json → Bool
  | .unreadable => false
  | .arr items => itemsReadable items
  | .obj entries => entriesReadable entries
  | _ => true

/-- Every part of every item has a value. -/
def itemsReadable : List Json → Bool
  | [] => true
  | v :: rest => readable v && itemsReadable rest

/-- Every part of every value has one. -/
def entriesReadable : List (String × Json) → Bool
  | [] => true
  | (_, v) :: rest => readable v && entriesReadable rest

end

/-- The value under a key, of repeated keys the last; a missing key and a
value that is no object read as null. -/
def get (j : Json) (key : String) : Json :=
  match j with
  | .obj entries => (entries.reverse.lookup key).getD .null
  | _ => .null

end Json

end Codemod
