import Conclave.LogFilter.Pattern

/-!
Log filters: directives separated by commas. A directive names a target, a span in brackets or both,
and may end in a level behind an equals sign. A target that spells a level stands for everything.
-/

namespace Conclave

structure LogConfig where
  filter : String := "info,strata=debug"
  threadNames : Bool := true
  colors : Bool := true
deriving DecidableEq

namespace LogFilter

/-- A level by name, in either case, or a number up to five. -/
def isLevel (cs : List Char) : Bool :=
  let digits := if cs.head? = some '+' then cs.tail else cs
  String.ofList (cs.map Char.toLower) ∈ ["trace", "debug", "info", "warn", "error", "off"] ||
    (!digits.isEmpty && digits.all Char.isDigit &&
      String.ofList (digits.dropWhile (· = '0')) ∈ ["", "1", "2", "3", "4", "5"])

/-- A decimal number without a sign: digits, of which some may stand behind a point, and an exponent
perhaps. -/
def isDecimal (cs : List Char) : Bool :=
  let whole := cs.takeWhile Char.isDigit
  let rest := cs.dropWhile Char.isDigit
  let places := if rest.head? = some '.' then rest.tail else []
  let exponent := if rest.head? = some '.' then places.dropWhile Char.isDigit else rest
  !(whole ++ places.takeWhile Char.isDigit).isEmpty &&
    match exponent with
    | [] => true
    | e :: cs =>
      let digits := if cs.head? ∈ [some '+', some '-'] then cs.tail else cs
      e.toLower = 'e' && !digits.isEmpty && digits.all Char.isDigit

def isNumber (cs : List Char) : Bool :=
  let cs := if cs.head? ∈ [some '+', some '-'] then cs.tail else cs
  isDecimal cs || String.ofList (cs.map Char.toLower) ∈ ["inf", "infinity", "nan"]

/-- A field by its name, or a name and a value: a number or a pattern between the first equals sign
and the second. -/
def isField (cs : List Char) : Bool :=
  match (cs.splitOn '=')[1]? with
  | some value => !cs.isEmpty && (isNumber value || Pattern.isValid value)
  | none => !cs.isEmpty

def byteSize : List Char → Nat
  | [] => 0
  | c :: cs => c.utf8Size + byteSize cs

/-- The text from byte `start` on, unless that lies inside of a character. -/
def dropBytes : (start : Nat) → List Char → Option (List Char)
  | 0, cs => some cs
  | _ + 1, [] => none
  | start + 1, c :: cs =>
    if c.utf8Size ≤ start + 1 then dropBytes (start + 1 - c.utf8Size) cs else none

/-- The first `size` bytes of a text, unless they end inside of a character. -/
def takeBytes : (size : Nat) → List Char → Option (List Char)
  | 0, _ => some []
  | _ + 1, [] => none
  | size + 1, c :: cs =>
    if c.utf8Size ≤ size + 1 then (takeBytes (size + 1 - c.utf8Size) cs).map (c :: ·) else none

/-- A directive as it was written and without the blanks around it. Its parts are told apart in
`body`, and then taken from the same bytes of `written`. -/
structure Directive where
  written : List Char
  body : List Char

namespace Directive

def ofList (written : List Char) : Directive := ⟨written, Text.trim written⟩

/-- What was written where `rest` begins, which is an end of the body. -/
def writtenAt (d : Directive) (rest : List Char) : Option (List Char) :=
  dropBytes (byteSize d.body - byteSize rest) d.written

/-- The rest of a directive from its equals sign on; an empty level stands for all levels. -/
def isEnd (d : Directive) : List Char → Bool
  | [] => true
  | '=' :: level => (d.writtenAt level).any fun level => level.isEmpty || isLevel level
  | _ => false

/-- What follows a span whose opening bracket was read. The span may end in a condition on a field,
in braces. -/
def afterSpan (d : Directive) (cs : List Char) : Option (List Char) :=
  match cs.dropWhile fun c => c ≠ ']' ∧ c ≠ '\x7b' with
  | ']' :: rest => some rest
  | _ :: inside =>
    let size := byteSize (inside.takeWhile (· ≠ '\x7d'))
    match inside.dropWhile (· ≠ '\x7d') with
    | _ :: ']' :: rest =>
      if ((d.writtenAt inside).bind (takeBytes size)).any isField then some rest else none
    | _ => none
  | [] => none

def startsTarget (c : Char) : Bool := Text.isAlphanumeric c || c ∈ ['_', ':', '-']

def isValid (d : Directive) : Bool :=
  match d.body with
  | [] => false
  | '[' :: rest => (d.afterSpan rest).any d.isEnd
  | c :: rest =>
    startsTarget c &&
      match rest.dropWhile fun c => c ≠ '=' ∧ c ≠ '[' with
      | '[' :: rest => (d.afterSpan rest).any d.isEnd
      | rest => d.isEnd rest

end Directive

/-- Empty directives are passed over. -/
def isValid (filter : String) : Bool :=
  (filter.toList.splitOn ',').all fun cs => cs.isEmpty || (Directive.ofList cs).isValid

end LogFilter

end Conclave
