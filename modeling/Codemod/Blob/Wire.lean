import Codemod.Decimal.Double
import Codemod.Text.Utf8
/-!
# Numbers, texts and lists as bytes

Numbers have a fixed width and come least byte first. A text is its UTF-8
bytes after their number, a list its items after theirs. What may be absent
begins with a byte that says so, and a variant begins with its number among
its kind.

Each form is written by a function of `Encode` and read by the function of the
same name in `Decode`, which takes the bytes it needs from the front and
leaves the rest.
-/

namespace Codemod.Blob

/-! ## What may be wrong -/

/-- Why bytes are not the form of a value. -/
inductive DecodeError where
  /-- A number ends early. -/
  | endsInNumber
  /-- A text ends early. -/
  | endsInText
  | notUtf8 (fault : Text.Utf8Fault)
  | notBool (byte : UInt8)
  | notChar
  /-- A byte that should say whether something is there. -/
  | notPresence (byte : UInt8)
  /-- A number of a variant, where there are so many. -/
  | noVariant (number count : Nat)
  deriving DecidableEq, Inhabited

namespace DecodeError

/-- What is reported. -/
def message : DecodeError → String
  | .endsInNumber => "io error: unexpected end of file"
  | .endsInText => "io error: "
  | .notUtf8 fault => "string is not valid utf8: " ++ fault.message
  | .notBool byte =>
    "invalid u8 while decoding bool, expected 0 or 1, found " ++ toString byte.toNat
  | .notChar => "char is not valid"
  | .notPresence byte => "tag for enum is not valid, found " ++ toString byte.toNat
  | .noVariant number count =>
    "invalid value: integer `" ++ toString number ++ "`, expected variant index 0 <= i < " ++
      toString count

end DecodeError

/-! ## Writing -/

namespace Encode

/-- A number by so many bytes, the least first. -/
def fixed : (width : Nat) → Nat → Bytes
  | 0, _ => []
  | width + 1, n => UInt8.ofNat (n % 256) :: fixed width (n / 256)

/-- The number of a variant. -/
def tag (n : Nat) : Bytes := fixed 4 n

/-- A number of bytes or items. -/
def length (n : Nat) : Bytes := fixed 8 n

/-- A whole number, the negative ones counted down from the greatest. -/
def int (n : Int) : Bytes := fixed 8 (n % twoPow 64).toNat

/-- A floating point number by its bits. -/
def double (x : Double) : Bytes := fixed 8 x.bits.toNat

/-- A truth value as a byte. -/
def bool (b : Bool) : Bytes := [if b then 1 else 0]

/-- A character by its UTF-8 bytes, which tell how many they are. -/
def char (c : Char) : Bytes := Text.utf8 (String.singleton c)

/-- A text by its UTF-8 bytes, after how many they are. -/
def text (s : String) : Bytes := length (Text.utf8 s).length ++ Text.utf8 s

variable {α : Type}

/-- What may be absent, after a byte that says whether it is there. -/
def option (item : α → Bytes) : Option α → Bytes
  | none => [0]
  | some x => 1 :: item x

/-- A list by its items, after how many they are. -/
def list (item : α → Bytes) (items : List α) : Bytes := length items.length ++ items.flatMap item

/-- One of the values of a kind, by its number among them. -/
def oneOf [BEq α] (all : List α) (x : α) : Bytes := tag (all.idxOf x)

end Encode

/-! ## Reading -/

/-- Reads a value from the front of bytes and leaves the rest. -/
abbrev Decoder := StateT Bytes (Except DecodeError)

namespace Decode

/-- The bytes that are left. -/
def rest : Decoder Bytes := get

/-- Takes so many bytes. -/
def take (error : DecodeError) (n : Nat) : Decoder Bytes := fun bytes =>
  if n ≤ bytes.length then .ok (bytes.take n, bytes.drop n) else .error error

/-- The number that bytes stand for, the least first. -/
def number : Bytes → Nat
  | [] => 0
  | b :: rest => b.toNat + 256 * number rest

/-- A number of so many bytes, the least first. -/
def fixed (width : Nat) : Decoder Nat := do return number (← take .endsInNumber width)

/-- The number of a variant. -/
def tag : Decoder Nat := fixed 4

/-- A number of bytes or items. -/
def length : Decoder Nat := fixed 8

/-- A whole number; those past the middle are negative. -/
def int : Decoder Int := do
  let n ← fixed 8
  return if n < twoPow 63 then n else (n : Int) - twoPow 64

/-- A floating point number, whatever its bits. -/
def double : Decoder Double := do return ⟨UInt64.ofNat (← fixed 8)⟩

/-- One byte. -/
def byte : Decoder UInt8 := do return UInt8.ofNat (← fixed 1)

/-- A truth value, which no other byte stands for. -/
def bool : Decoder Bool := do
  match ← byte with
  | 0 => return false
  | 1 => return true
  | b => throw (.notBool b)

/-- A character, whose first byte tells how many bytes it has. -/
def char : Decoder Char := do
  let first ← byte
  let more ← take .notChar (Text.utf8Width first - 1)
  match (Text.ofUtf8? (first :: more)).map String.toList with
  | some [c] => return c
  | _ => throw .notChar

/-- A text of as many bytes as the number before it says. -/
def text : Decoder String := do
  let bytes ← take .endsInText (← length)
  match Text.ofUtf8? bytes with
  | some s => return s
  | none => throw (.notUtf8 (Text.utf8Fault 0 bytes))

variable {α : Type}

/-- What may be absent. -/
def option (item : Decoder α) : Decoder (Option α) := do
  match ← byte with
  | 0 => return none
  | 1 => return some (← item)
  | b => throw (.notPresence b)

/-- So many items. -/
def times (item : Decoder α) : Nat → Decoder (List α)
  | 0 => return []
  | n + 1 => do return (← item) :: (← times item n)

/-- A list of as many items as the number before it says. -/
def list (item : Decoder α) : Decoder (List α) := do times item (← length)

/-- One of the values of a kind, by its number among them. -/
def oneOf (all : List α) : Decoder α := do
  let n ← tag
  match all[n]? with
  | some x => return x
  | none => throw (.noVariant n all.length)

end Decode

end Codemod.Blob
