/-!
The text of values in reports: records with named fields, tuples, lists, options and quoted
characters.
-/

namespace Conclave.Text

def commas (parts : List String) : String := ", ".intercalate parts

def record (name : String) (fields : List (String × String)) : String :=
  name ++ " \x7b " ++ commas (fields.map fun (key, value) => key ++ ": " ++ value) ++ " \x7d"

/-- A record that shows only some of its fields. -/
def openRecord (name : String) (fields : List (String × String)) : String :=
  name ++ " \x7b " ++ commas (fields.map fun (key, value) => key ++ ": " ++ value) ++ ", .. \x7d"

def list {α : Type} (text : α → String) (xs : List α) : String := "[" ++ commas (xs.map text) ++ "]"

def option {α : Type} (text : α → String) : Option α → String
  | none => "None"
  | some a => "Some(" ++ text a ++ ")"

def hexNat (n : Nat) : String := String.ofList (Nat.toDigits 16 n)

/-- A Latin-1 character inside quotes. -/
def escaped (quote c : Char) : String :=
  if c = '\t' then "\\t" else if c = '\n' then "\\n" else if c = '\r' then "\\r"
  else if c.toNat = 0 then "\\0"
  else if c = quote ∨ c = '\\' then "\\" ++ c.toString
  else if c.toNat < 0x20 ∨ (0x7f ≤ c.toNat ∧ c.toNat ≤ 0xa0) ∨ c.toNat = 0xad then
    "\\u\x7b" ++ hexNat c.toNat ++ "\x7d"
  else c.toString

def quotedChar (c : Char) : String := "'" ++ escaped '\'' c ++ "'"

def quoted (s : String) : String := "\"" ++ String.join (s.toList.map (escaped '"')) ++ "\""

end Conclave.Text
