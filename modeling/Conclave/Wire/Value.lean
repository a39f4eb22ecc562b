import Conclave.Word

/-!
The value trees that messages are written as. A struct is written as an object; it is read from an
object or from the list of all its fields in order.
-/

namespace Conclave.Wire

inductive Value where
  | null
  | bool (b : Bool)
  | integer (n : Int)
  /-- A number written with a fraction or an exponent, which no field accepts. -/
  | decimal (mantissa : Int) (places : Nat)
  | text (s : String)
  | list (items : List Value)
  | object (entries : List (String × Value))
deriving Inhabited

namespace Value

def nat (n : Nat) : Value := integer n

def asBool? : Value → Option Bool
  | bool b => some b
  | _ => none

def asText? : Value → Option String
  | text s => some s
  | _ => none

def asList? : Value → Option (List Value)
  | list items => some items
  | _ => none

/-- A natural number of at most `bound`. -/
def asNat? (bound : Nat) : Value → Option Nat
  | integer (.ofNat n) => if n ≤ bound then some n else none
  | _ => none

def asWord? : Value → Option Nat := asNat? Word.maxUnsigned

def asSigned? : Value → Option Int
  | integer n => if Word.minSigned ≤ n ∧ n ≤ Word.maxSigned then some n else none
  | _ => none

/-- The entries of an object under the names, `none` for a missing one. -/
def entries? (names : List String) : Value → Option (List (Option Value))
  | object entries => some (names.map fun name => entries.lookup name)
  | _ => none

/-- The fields of a struct in the order of their names. -/
def fields? (names : List String) : Value → Option (List (Option Value))
  | list items => if items.length = names.length then some (items.map some) else none
  | v => v.entries? names

/-- The name and content of an enumerated case; a bare text is a case without content. -/
def case? : Value → Option (String × Option Value)
  | text name => some (name, none)
  | object [(name, content)] => some (name, some content)
  | _ => none

def all? {α : Type} (read : Value → Option α) : List Value → Option (List α)
  | [] => some []
  | v :: vs =>
    match read v, all? read vs with
    | some a, some rest => some (a :: rest)
    | _, _ => none

def listOf? {α : Type} (read : Value → Option α) (v : Value) : Option (List α) :=
  v.asList?.bind (all? read)

end Value

end Conclave.Wire
