import Conclave.Hex
import Conclave.Text.Alphanumeric
import Conclave.Text.Blank

/-!
Patterns that a field of a span may have to match: regular expressions, of which only the form
matters here. They come without tables of character properties. So named classes, the short classes
`\d`, `\s` and `\w`, word edges and letters in either case are for patterns over bytes alone, and
these have to keep to ASCII. A pattern never holds a closing brace, so an opening brace stands for
itself inside a class and nowhere else.
-/

namespace Conclave.Pattern

/-- The flags in force. -/
structure Mode where
  ignoreCase : Bool := false
  /-- Matches bytes and not characters. -/
  bytes : Bool := false
  /-- Blanks and comments do not count. -/
  spaced : Bool := false

/-- What stands for one place in a text or for a set of characters there. -/
inductive Atom where
  | char (c : Char)
  /-- A character written as two hexadecimal digits. -/
  | byte (c : Char)
  /-- Digits, blanks or word characters, or everything else. -/
  | class (negated : Bool)
  /-- An end of the text or of a line. -/
  | anchor
  | wordEdge

namespace Mode

/-- Letters in either case are known for bytes alone. -/
def knowsCase (m : Mode) : Bool := m.bytes || !m.ignoreCase

/-- Whether a pattern may hold the atom outside of brackets. -/
def allows (m : Mode) : Atom → Bool
  | .char _ => m.knowsCase
  | .byte c => if m.bytes then c.toNat < 128 else m.knowsCase
  | .class negated => m.bytes && !negated
  | .anchor => true
  | .wordEdge => m.bytes

/-- Whether the brackets of a class may hold the atom. -/
def allowsInside (m : Mode) : Atom → Bool
  | .char c | .byte c => if m.bytes then c.toNat < 128 else m.knowsCase
  | .class negated => m.bytes && !negated
  | .anchor | .wordEdge => false

end Mode

/-- Drops blanks and comments; a comment goes on to the end of the line. -/
def dropBlanks : (comment : Bool) → List Char → List Char
  | _, [] => []
  | true, c :: cs => dropBlanks (c ≠ '\n') cs
  | false, c :: cs =>
    if Text.isBlank c then dropBlanks false cs
    else if c = '#' then dropBlanks true cs
    else c :: cs

def Mode.skip (m : Mode) (cs : List Char) : List Char :=
  if m.spaced then dropBlanks false cs else cs

/-! ### Escapes -/

/-- Reads `count` more hexadecimal digits of a code point. -/
def hexDigits (m : Mode) : (count value : Nat) → List Char → Option (Nat × List Char)
  | 0, value, cs => some (value, cs)
  | _ + 1, _, [] => none
  | count + 1, value, c :: cs => do
    hexDigits m count (16 * value + (← Hex.value? c)) (m.skip cs)

/-- The code point of `count` hexadecimal digits. -/
def codePoint (m : Mode) (count : Nat) (cs : List Char) : Option (Char × List Char) := do
  let (value, cs) ← hexDigits m count 0 (m.skip cs)
  if value.isValidChar then some (Char.ofNat value, cs) else none

/-- Reads what follows a backslash. There are no back references. -/
def escape (m : Mode) : List Char → Option (Atom × List Char)
  | [] => none
  | 'x' :: cs => (codePoint m 2 cs).map fun (c, cs) => (.byte c, cs)
  | 'u' :: cs => (codePoint m 4 cs).map fun (c, cs) => (.char c, cs)
  | 'U' :: cs => (codePoint m 8 cs).map fun (c, cs) => (.char c, cs)
  | c :: cs =>
    if c ∈ ['d', 's', 'w'] then some (.class false, cs)
    else if c ∈ ['D', 'S', 'W'] then some (.class true, cs)
    else if c ∈ ['a', 'f', 't', 'n', 'r', 'v'] then some (.char c, cs)
    else if c ∈ ['A', 'z'] then some (.anchor, cs)
    else if c ∈ ['b', 'B', '<', '>'] then some (.wordEdge, cs)
    else if c.toNat < 128 ∧ ¬c.isAlphanum then some (.char c, cs)
    else none

/-! ### Classes -/

/-- A character or an escape. -/
def member (m : Mode) : List Char → Option (Atom × List Char)
  | [] => none
  | '\\' :: cs => escape m cs
  | c :: cs => some (.char c, cs)

def Atom.char? : Atom → Option Char
  | .char c | .byte c => some c
  | _ => none

/-- Reads a member of a class or a range of them. A hyphen makes a range unless it comes last or
twice. -/
def range (m : Mode) (cs : List Char) : Option (List Char) := do
  let (low, cs) ← member m cs
  if ¬m.allowsInside low then none
  else
    match m.skip cs with
    | '-' :: rest =>
      match m.skip rest with
      | [] => none
      | ']' :: _ | '-' :: _ => some ('-' :: rest)
      | c :: rest =>
        let (high, rest) ← member m (c :: rest)
        if m.allowsInside high ∧ (← low.char?) ≤ (← high.char?) then some rest else none
    | rest => some rest

def classNames : List String :=
  ["alnum", "alpha", "ascii", "blank", "cntrl", "digit", "graph", "lower", "print", "punct",
    "space", "upper", "word", "xdigit"]

/-- A named class behind its opening bracket, and whether it stands for everything else. -/
def namedClass? : List Char → Option (Bool × List Char)
  | ':' :: cs =>
    let negated := cs.head? = some '^'
    let cs := if negated then cs.tail else cs
    match cs.dropWhile (· ≠ ':') with
    | ':' :: ']' :: rest =>
      if String.ofList (cs.takeWhile (· ≠ ':')) ∈ classNames then some (negated, rest) else none
    | _ => none
  | _ => none

/-- Hyphens at the start of a class stand for themselves. -/
def dropHyphens (m : Mode) : (limit : Nat) → List Char → List Char
  | limit + 1, '-' :: cs => dropHyphens m limit (m.skip cs)
  | _, cs => cs

/-- Reads the start of a class behind its opening bracket. A closing bracket that comes first stands
for itself. -/
def openClass (m : Mode) (cs : List Char) : Option (List Char) := do
  let inside ← match m.skip cs with
    | '^' :: cs => if m.bytes then none else some (m.skip cs)
    | cs => some cs
  let rest ← match inside with
    | '-' :: _ => if m.knowsCase then some (dropHyphens m inside.length inside) else none
    | ']' :: cs => if m.knowsCase then some (m.skip cs) else none
    | cs => some cs
  if rest.isEmpty then none else some rest

/-- Reads the rest of a class inside `depth` others. Classes can be cut, subtracted and compared. -/
def closeClass (m : Mode) : (limit depth : Nat) → List Char → Option (List Char)
  | 0, _, _ => none
  | limit + 1, depth, cs =>
    match m.skip cs with
    | ']' :: cs => if depth = 0 then some cs else closeClass m limit (depth - 1) cs
    | '[' :: cs =>
      match namedClass? cs with
      | some (negated, cs) =>
        if m.knowsCase ∧ ¬(m.bytes ∧ negated) then closeClass m limit depth cs else none
      | none => (openClass m cs).bind (closeClass m limit (depth + 1))
    | '&' :: '&' :: cs | '-' :: '-' :: cs | '~' :: '~' :: cs => closeClass m limit depth cs
    | cs => (range m cs).bind (closeClass m limit depth)

/-! ### Groups -/

/-- The name of a group, up to its closing bracket. -/
def groupName (cs : List Char) : Option (List Char × List Char) :=
  let ok (c : Char) := Text.isAlphanumeric c || c ∈ ['_', '.', '[', ']']
  match cs.takeWhile (· ≠ '>'), cs.dropWhile (· ≠ '>') with
  | c :: name, '>' :: rest =>
    if (c = '_' ∨ Text.isAlphabetic c) ∧ name.all ok then some (c :: name, rest) else none
  | _, _ => none

/-- Sets the flags before a hyphen and clears those behind it. No flag comes twice. -/
def Mode.update (m : Mode) (flags : List Char) : Option Mode :=
  let flag (c : Char) (old : Bool) : Bool :=
    c ∈ flags.takeWhile (· ≠ '-') || (old && c ∉ flags.dropWhile (· ≠ '-'))
  if flags.Nodup ∧ flags.all (· ∈ ['i', 'm', 's', 'U', 'u', 'R', 'x', '-']) ∧
      flags.getLast? ≠ some '-' then
    some ⟨flag 'i' m.ignoreCase, !flag 'u' !m.bytes, flag 'x' m.spaced⟩
  else none

/-- The state of a reader between two parts of a pattern. -/
structure State where
  mode : Mode := {}
  /-- The flags outside of the open groups, the innermost first. -/
  outer : List Mode := []
  /-- Whether there is something to repeat. -/
  repeatable : Bool := false
  names : List (List Char) := []

namespace State

/-- Enters a group. -/
def push (s : State) (mode : Mode) : State :=
  { s with mode, outer := s.mode :: s.outer, repeatable := false }

/-- Reads what follows an opening parenthesis: a name, flags for the group or for the rest of the
one around it, or nothing. -/
def openGroup (s : State) (cs : List Char) : Option (State × List Char) := do
  let named (cs : List Char) := do
    let (name, cs) ← groupName cs
    if name ∈ s.names then none else some ({ s.push s.mode with names := name :: s.names }, cs)
  match cs with
  | '?' :: 'P' :: '<' :: cs | '?' :: '<' :: cs => named cs
  | '?' :: cs =>
    let flags := cs.takeWhile fun c => c ≠ ':' ∧ c ≠ ')'
    let mode ← s.mode.update flags
    match cs.drop flags.length with
    | ':' :: cs => some (s.push mode, cs)
    | ')' :: cs => if flags.isEmpty then none else some ({ s with mode, repeatable := false }, cs)
    | _ => none
  | cs => some (s.push s.mode, cs)

def closeGroup (s : State) : Option State :=
  match s.outer with
  | [] => none
  | mode :: outer => some { s with mode, outer, repeatable := true }

/-- Reads one part of a pattern. -/
def step (s : State) (c : Char) (cs : List Char) : Option (State × List Char) :=
  let part := { s with repeatable := true }
  let m := s.mode
  match c with
  | '(' => s.openGroup (m.skip cs)
  | ')' => s.closeGroup.map fun s => (s, cs)
  | '|' => some ({ s with repeatable := false }, cs)
  | '[' => do
    let cs ← openClass m cs
    return (part, ← closeClass m (cs.length + 1) 0 cs)
  | '?' | '*' | '+' =>
    if s.repeatable then some (s, if cs.head? = some '?' then cs.tail else cs) else none
  | '\x7b' => none
  | '.' => if m.bytes then none else some (part, cs)
  | '^' | '$' => some (part, cs)
  | c => do
    let (atom, cs) ← member m (c :: cs)
    if m.allows atom then some (part, cs) else none

/-- Reads up to `limit` parts, of which each is at least one character long. -/
def accepts : (limit : Nat) → State → List Char → Bool
  | 0, s, cs => cs.isEmpty && s.outer.isEmpty
  | limit + 1, s, cs =>
    match s.mode.skip cs with
    | [] => s.outer.isEmpty
    | c :: cs => (s.step c cs).any fun (s, cs) => accepts limit s cs

end State

def isValid (cs : List Char) : Bool := State.accepts cs.length {} cs

end Conclave.Pattern
