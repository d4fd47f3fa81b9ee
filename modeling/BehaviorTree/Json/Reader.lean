import BehaviorTree.Json.Value

/-!
What typed data ask of JSON values: plain natural numbers, the characters of strings, and records whose
fields are known by name.
-/
namespace BehaviorTree
namespace Json

/-! ## Numbers -/

def decimal (cs : List Char) : Nat := cs.foldl (fun n c => 10 * n + (c.toNat - 48)) 0

/-- A number below `bound` that is written with digits only. -/
def nat? (bound : Nat) : Json → Option Nat
  | .number cs => if cs.all Char.isDigit && decimal cs < bound then some (decimal cs) else none
  | _ => none

/-! ## Strings -/

def hexValue (c : Char) : Nat :=
  if c.isDigit then c.toNat - 48 else if c.toNat < 97 then c.toNat - 55 else c.toNat - 87

/-- The 16-bit unit of four hexadecimal digits. -/
def unit (a b c d : Char) : Nat :=
  ((hexValue a * 16 + hexValue b) * 16 + hexValue c) * 16 + hexValue d

def isHighSurrogate (u : Nat) : Bool := 0xd800 ≤ u && u < 0xdc00

def isLowSurrogate (u : Nat) : Bool := 0xdc00 ≤ u && u < 0xe000

/-- The character of a one-letter escape. -/
def escaped? : Char → Option Char
  | '"' => some '"'
  | '\\' => some '\\'
  | '/' => some '/'
  | 'b' => some '\x08'
  | 'f' => some '\x0c'
  | 'n' => some '\n'
  | 'r' => some '\r'
  | 't' => some '\t'
  | _ => none

/-- The characters that a raw string stands for. Two surrogates make one character; one alone makes
none. -/
def unescape? : List Char → Option (List Char)
  | [] => some []
  | '\\' :: 'u' :: a :: b :: c :: d :: '\\' :: 'u' :: e :: f :: g :: h :: rest =>
    let u := unit a b c d
    let v := unit e f g h
    if isHighSurrogate u then
      if isLowSurrogate v then
        (unescape? rest).map (Char.ofNat (0x10000 + (u - 0xd800) * 0x400 + (v - 0xdc00)) :: ·)
      else none
    else if isLowSurrogate u then none
    else (unescape? ('\\' :: 'u' :: e :: f :: g :: h :: rest)).map (Char.ofNat u :: ·)
  | '\\' :: 'u' :: a :: b :: c :: d :: rest =>
    let u := unit a b c d
    if isHighSurrogate u || isLowSurrogate u then none
    else (unescape? rest).map (Char.ofNat u :: ·)
  | '\\' :: c :: rest => do return (← escaped? c) :: (← unescape? rest)
  | c :: rest => (unescape? rest).map (c :: ·)

def text? : Json → Option (List Char)
  | .string raw => unescape? raw
  | _ => none

/-! ## Records -/

/-- The fields of an object with their keys read, in order. -/
def fields? : Json → Option (List (List Char × Json))
  | .object fields => fields.mapM fun f => do return (← unescape? f.1, f.2)
  | _ => none

/-- The value under a key that occurs exactly once. -/
def unique? (key : List Char) (fields : List (List Char × Json)) : Option Json :=
  match fields.filter (·.1 = key) with
  | [f] => some f.2
  | _ => none

/-- The values of a record's fields, which is an array of just these or an object that has each of them
once and may have others. -/
def record? (names : List String) : Json → Option (List Json)
  | .array items => if items.length = names.length then some items else none
  | v => do
    let fields ← fields? v
    names.mapM fun name => unique? name.toList fields

def items? : Json → Option (List Json)
  | .array items => some items
  | _ => none

end Json
end BehaviorTree
