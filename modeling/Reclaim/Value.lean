import Reclaim.Fault
import Reclaim.Text.Record

/-!
# Values on stacks

Scripts put documents on their stacks: numbers, texts, lists and records of documents.  A record
with a field `bomb` is a value whose destructor faults; the fault shows the document in that field
in its compact form, without any blanks between the parts.
-/

namespace Reclaim

/-- A document.  A number is `mantissa / 10 ^ decimals`. -/
inductive Value where
  | null
  | flag (value : Bool)
  | number (mantissa : Int) (decimals : Nat)
  | text (value : String)
  | list (items : List Value)
  | record (fields : List (String × Value))
deriving Inhabited

namespace Value

instance : IntCast Value := ⟨fun value ↦ .number value 0⟩

/-- A decimal number, with at least one digit on each side of the point. -/
def decimal (mantissa : Int) (decimals : Nat) : String :=
  if decimals = 0 then
    toString mantissa
  else
    let digits := Nat.toDigits 10 mantissa.natAbs
    let digits := List.replicate (decimals + 1 - digits.length) '0' ++ digits
    let whole := digits.take (digits.length - decimals)
    let fraction := digits.drop (digits.length - decimals)
    (if mantissa < 0 then "-" else "") ++ String.ofList whole ++ "." ++ String.ofList fraction

/-- A character within quotes: the quote, the backslash and control characters are escaped. -/
def escape (c : Char) : String :=
  match c with
  | '"' => "\\\""
  | '\\' => "\\\\"
  | '\n' => "\\n"
  | '\r' => "\\r"
  | '\t' => "\\t"
  | '\x08' => "\\b"
  | '\x0c' => "\\f"
  | c => if c.toNat < 32 then "\\u" ++ Text.hexDigits 4 c.toNat else String.singleton c

def quote (text : String) : String := "\"" ++ String.join (text.toList.map escape) ++ "\""

mutual

def compact : Value → String
  | null => "null"
  | flag value => if value then "true" else "false"
  | number mantissa decimals => decimal mantissa decimals
  | text value => quote value
  | list items => "[" ++ ",".intercalate (compactItems items) ++ "]"
  | record fields => "\x7b" ++ ",".intercalate (compactFields fields) ++ "\x7d"

def compactItems : List Value → List String
  | [] => []
  | item :: rest => compact item :: compactItems rest

def compactFields : List (String × Value) → List String
  | [] => []
  | (name, value) :: rest => (quote name ++ ":" ++ compact value) :: compactFields rest

end

def bomb? : Value → Option Value
  | record fields => fields.lookup "bomb"
  | _ => none

instance : Destructor Value where
  fault? value := value.bomb?.map fun payload ↦ .valueBomb payload.compact

end Value

end Reclaim
