/-!
Tokens of JSON text. Strings keep their escapes and numbers their spelling, so that a reader decides
what it needs to understand.
-/
namespace BehaviorTree
namespace Json

/-- A token. The payload is the text between the quotes, or the spelling of a number. -/
inductive Token where
  | openArray
  | closeArray
  | openObject
  | closeObject
  | comma
  | colon
  | null
  | bool (value : Bool)
  | number (literal : List Char)
  | string (raw : List Char)
  deriving DecidableEq, Repr

/-! ## Numbers -/

def digits (cs : List Char) : List Char × List Char := cs.span Char.isDigit

/-- Accepts an exponent or nothing. -/
def isExponent : List Char → Bool
  | [] => true
  | c :: cs =>
    (c == 'e' || c == 'E') &&
      match cs with
      | '+' :: cs => !cs.isEmpty && cs.all Char.isDigit
      | '-' :: cs => !cs.isEmpty && cs.all Char.isDigit
      | cs => !cs.isEmpty && cs.all Char.isDigit

/-- Accepts what may follow the integer part of a number. -/
def isTail : List Char → Bool
  | '.' :: cs => !(digits cs).1.isEmpty && isExponent (digits cs).2
  | cs => isExponent cs

/-- Accepts a number without its sign: no leading zeros, digits on both sides of the point. -/
def isUnsigned (cs : List Char) : Bool :=
  match digits cs with
  | ([], _) => false
  | ('0' :: _ :: _, _) => false
  | (_, rest) => isTail rest

def isNumber : List Char → Bool
  | '-' :: cs => isUnsigned cs
  | cs => isUnsigned cs

def isNumberChar (c : Char) : Bool :=
  c.isDigit || c == '-' || c == '+' || c == '.' || c == 'e' || c == 'E'

/-! ## Scanning -/

/-- What the scanner is in the middle of; the characters so far are newest first. -/
inductive ScanMode where
  | between
  | number (read : List Char)
  | word (read : List Char)
  | string (read : List Char)
  | escape (read : List Char)
  /-- Inside a `\u` escape, with as many digits to come. -/
  | unicode (missing : Nat) (read : List Char)
  deriving DecidableEq, Repr

def isBlank (c : Char) : Bool := c == ' ' || c == '\t' || c == '\n' || c == '\r'

def isHexDigit (c : Char) : Bool :=
  c.isDigit || ('a' ≤ c && c ≤ 'f') || ('A' ≤ c && c ≤ 'F')

/-- The token that is one character. -/
def Token.ofChar? : Char → Option Token
  | '[' => some .openArray
  | ']' => some .closeArray
  | '\x7b' => some .openObject
  | '\x7d' => some .closeObject
  | ',' => some .comma
  | ':' => some .colon
  | _ => none

def Token.ofWord? (cs : List Char) : Option Token :=
  if cs = ['n', 'u', 'l', 'l'] then some .null
  else if cs = ['t', 'r', 'u', 'e'] then some (.bool true)
  else if cs = ['f', 'a', 'l', 's', 'e'] then some (.bool false)
  else none

def Token.ofNumber? (cs : List Char) : Option Token :=
  if isNumber cs then some (.number cs) else none

/-- A character where a token may start: the tokens that it completes and what it begins. -/
def begin? (c : Char) : Option (List Token × ScanMode) :=
  if isBlank c then some ([], .between)
  else if c = '"' then some ([], .string [])
  else if c.isDigit || c == '-' then some ([], .number [c])
  else if c.isLower then some ([], .word [c])
  else (Token.ofChar? c).map fun t => ([t], .between)

/-- One character: the tokens that it completes, and what the scanner is in afterwards. -/
def scanStep : ScanMode → Char → Option (List Token × ScanMode)
  | .between, c => begin? c
  | .number read, c =>
    if isNumberChar c then some ([], .number (c :: read))
    else do
      let t ← Token.ofNumber? read.reverse
      let (ts, mode) ← begin? c
      return (t :: ts, mode)
  | .word read, c =>
    if c.isLower then some ([], .word (c :: read))
    else do
      let t ← Token.ofWord? read.reverse
      let (ts, mode) ← begin? c
      return (t :: ts, mode)
  | .string read, c =>
    if c = '"' then some ([.string read.reverse], .between)
    else if c = '\\' then some ([], .escape (c :: read))
    else if c.toNat < 0x20 then none
    else some ([], .string (c :: read))
  | .escape read, c =>
    if c = 'u' then some ([], .unicode 4 (c :: read))
    else if c ∈ ['"', '\\', '/', 'b', 'f', 'n', 'r', 't'] then some ([], .string (c :: read))
    else none
  | .unicode missing read, c =>
    if isHexDigit c then
      some ([], if missing ≤ 1 then .string (c :: read) else .unicode (missing - 1) (c :: read))
    else none

/-- The token that ends with the text. -/
def scanEnd : ScanMode → Option (List Token)
  | .between => some []
  | .number read => (Token.ofNumber? read.reverse).map ([·])
  | .word read => (Token.ofWord? read.reverse).map ([·])
  | _ => none

/-- The tokens of a text that is read from the middle of `mode`. -/
def scanFrom : ScanMode → List Char → Option (List Token)
  | mode, [] => scanEnd mode
  | mode, c :: cs => do
    let (ts, mode) ← scanStep mode c
    return ts ++ (← scanFrom mode cs)

def scan (cs : List Char) : Option (List Token) := scanFrom .between cs

end Json
end BehaviorTree
