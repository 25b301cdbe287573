import Codemod.Dict
import Codemod.Json.Value
/-!
# Records and variants as JSON

A record is an object with one entry for each field, where a field that may
be absent may also be null; other entries are passed over. Fields may also
stand in an array, all of them and in order. A variant is an object whose only
key names it, with its content as the value, or the bare name when it has no
content. A variant with several fields of its own has them named like those of
a record; where it was written as a file they may stand in an array, too.
-/

namespace Codemod.Interchange

/-- Where JSON comes from: another program, or a file that anyone may have
written. -/
inductive Origin where
  /-- Another program wrote it. -/
  | message
  /-- Anyone may have written it. -/
  | file
  deriving DecidableEq, Inhabited

/-- A reader of one kind of value. -/
abbrev Reader (α : Type) := Json → Option α

variable {α β : Type}

/-- A text. -/
def text? : Reader String
  | .str s => some s
  | _ => none

/-- A truth value. -/
def bool? : Reader Bool
  | .bool b => some b
  | _ => none

/-- A number of bytes or a place in a text: sixty-four bits without sign. -/
def nat? : Reader Nat
  | .int n => if 0 ≤ n then some n.toNat else none
  | _ => none

/-- A whole number of sixty-four bits with sign. -/
def int? : Reader Int
  | .int n => if n < twoPow 63 then some n else none
  | _ => none

/-- A double, which may be written as a whole number. -/
def double? : Reader Double
  | .float x => some x
  | .int n => Double.nearest? (n < 0) n.natAbs 0
  | _ => none

/-- A character, written as a text of its own. -/
def char? : Reader Char
  | .str s =>
    match s.toList with
    | [c] => some c
    | _ => none
  | _ => none

/-- A list whose items can all be read. -/
def list? (item : Reader α) : Reader (List α)
  | .arr items => items.mapM item
  | _ => none

/-- Of repeated keys the last counts. -/
def dict? (value : Reader α) : Reader (Dict α)
  | .obj entries =>
    (entries.mapM fun (entry : String × Json) => (value entry.2).map (entry.1, ·)).map Dict.ofList
  | _ => none

/-- The fields of a record, in the order asked for. A field given twice
spoils the record. -/
def fields? (names : List String) : Reader (List (Option Json))
  | .obj entries =>
    names.mapM fun name =>
      match entries.filter (·.1 == name) with
      | [] => some none
      | [(_, v)] => some (some v)
      | _ => none
  | .arr items => if items.length = names.length then some (items.map some) else none
  | _ => none

/-- The fields of a variant. -/
def variantFields? (origin : Origin) (names : List String) : Reader (List (Option Json))
  | .arr items => if origin = .file then fields? names (.arr items) else none
  | j => fields? names j

/-- A field that must be there. -/
def required (value : Reader α) (field : Option Json) : Option α := field.bind value

/-- A field that may be missing or null. -/
def optional (value : Reader α) : Option Json → Option (Option α)
  | none => some none
  | some .null => some none
  | some j => (value j).map some

/-- A field that may be missing, with the value it then has. -/
def defaulted (value : Reader α) (default : α) : Option Json → Option α
  | none => some default
  | some j => value j

/-- The name of a variant, and its content where it is written. -/
def variant? : Reader (String × Option Json)
  | .str name => some (name, none)
  | .obj [(name, content)] => some (name, some content)
  | _ => none

/-- A variant without content. -/
def unitContent (value : α) : Option Json → Option α
  | none => some value
  | some .null => some value
  | some _ => none

/-! ## Writing -/

/-- A list of texts. -/
def texts (items : List String) : Json := .arr (items.map .str)

/-- A number that is not negative. -/
def nat (n : Nat) : Json := .int n

/-- Null stands for nothing. -/
def option (write : α → Json) : Option α → Json
  | none => .null
  | some v => write v

/-- A list. -/
def list (write : α → Json) (items : List α) : Json := .arr (items.map write)

/-- A dictionary, as an object with ascending keys. -/
def dict (write : α → Json) (d : Dict α) : Json :=
  .obj (d.entries.map fun (k, v) => (k, write v))

/-- A variant with its content. -/
def variant (name : String) (content : Json) : Json := .obj [(name, content)]

end Codemod.Interchange
