/-!
# Records as text

A record is shown on one line, `Name { field: value, other: value }`, or spread out with one
indented field per line and a comma after each.  Addresses are shown in lower-case hexadecimal.
-/

namespace Reclaim.Text

/-- A record on one line. -/
def record (name : String) (fields : List (String × String)) : String :=
  let shown := fields.map fun field ↦ field.1 ++ ": " ++ field.2
  name ++ " \x7b " ++ ", ".intercalate shown ++ " \x7d"

/-- A record with one field per line. -/
def recordLines (name : String) (fields : List (String × String)) : String :=
  let shown := fields.map fun field ↦ "    " ++ field.1 ++ ": " ++ field.2 ++ ",\n"
  name ++ " \x7b\n" ++ String.join shown ++ "\x7d"

/-- The hexadecimal digits of a number, with zeros in front up to `width` digits. -/
def hexDigits (width number : Nat) : String :=
  let digits := Nat.toDigits 16 number
  String.ofList (List.replicate (width - digits.length) '0' ++ digits)

/-- An address with as many digits as it needs. -/
def address (a : UInt64) : String := "0x" ++ hexDigits 1 a.toNat

/-- An address with all its sixteen digits. -/
def fullAddress (a : UInt64) : String := "0x" ++ hexDigits 16 a.toNat

end Reclaim.Text
