import BehaviorTree.Yaml.Folded

/-!
Tokens of YAML text. Where block collections start and end is read off the columns, and that a key has
started, off the colon after it. Tags, anchors, aliases, directives and block scalars are refused.
-/
namespace BehaviorTree
namespace Yaml

inductive Token where
  | plain (text : List Char)
  | quoted (text : List Char)
  | openSequence
  | closeSequence
  | openMapping
  | closeMapping
  | comma
  | openBlockSequence
  | openBlockMapping
  | closeBlock
  | dash
  | key
  | colon
  | documentStart
  | documentEnd
  deriving DecidableEq, Repr

/-- A place where a key may have started without a mark. -/
structure KeyStart where
  /-- How many tokens come before it. -/
  position : Nat
  /-- How many bytes of UTF-8 come before it. -/
  offset : Nat
  line : Nat
  column : Nat
  /-- Whether only a key can start there. -/
  required : Bool
  deriving DecidableEq, Repr

/-- How many bytes may be between the start of a key and its colon. -/
def maxKeyLength : Nat := 1024

/-- Whether a colon at `line` and `offset` comes too late for a key. -/
def KeyStart.isStale (k : KeyStart) (line offset : Nat) : Bool :=
  k.line < line || k.offset + maxKeyLength < offset

inductive ScanMode where
  | between
  /-- Before the next characters that belong to a mark already seen. -/
  | skip (count : Nat)
  | comment
  | plain (read : Folded)
  | single (read : Folded)
  /-- Before the second of two quotes that stand for one. -/
  | twin (read : Folded)
  | double (read : Folded)
  | escape (read : Folded)
  | code (read : Folded) (missing value : Nat)
  deriving DecidableEq, Repr

/-- What the scanner knows before a character. -/
structure ScanState where
  mode : ScanMode
  /-- How many bytes of UTF-8 are behind. -/
  offset : Nat
  line : Nat
  column : Nat
  /-- The columns of the open block collections, innermost first. -/
  blocks : List Nat
  /-- The key that may have started in the innermost collection. -/
  keyStart : Option KeyStart
  /-- The keys that may have started before each open flow collection, innermost first. -/
  outer : List (Option KeyStart)
  /-- Whether a key may start here without a mark. -/
  keyAllowed : Bool
  tokens : Array Token
  deriving DecidableEq, Repr

namespace ScanState

def start : ScanState := ⟨.between, 0, 0, 0, [], none, [], true, #[]⟩

def inFlow (s : ScanState) : Bool := !s.outer.isEmpty

/-- The column where the lines of a scalar in the innermost block start at the earliest. -/
def margin (s : ScanState) : Nat :=
  match s.blocks with
  | [] => 0
  | column :: _ => column + 1

/-! ## Places -/

/-- The state after a character that belongs to no line break. -/
def forward (s : ScanState) (mode : ScanMode) : ScanState := { s with mode, column := s.column + 1 }

/-- The state after a line break. -/
def newLine (s : ScanState) (mode : ScanMode) : ScanState :=
  { s with mode, line := s.line + 1, column := 0 }

def push (s : ScanState) (t : Token) : ScanState := { s with tokens := s.tokens.push t }

/-- The mark `t` of one character. -/
def mark (s : ScanState) (t : Token) (keyAllowed : Bool) : ScanState :=
  { (s.push t).forward .between with keyAllowed }

/-! ## Keys -/

/-- Forgets a key that cannot come any more; a required one must not be missing. -/
def dropKey? (s : ScanState) : Option ScanState :=
  if s.keyStart.any KeyStart.required then none else some { s with keyStart := none }

/-- Forgets the keys whose colon would come too late. -/
def dropStale? (s : ScanState) : Option ScanState :=
  let stale : Option KeyStart → Bool := fun k => k.any (·.isStale s.line s.offset)
  let keep (k : Option KeyStart) : Option KeyStart := if stale k then none else k
  if (s.keyStart :: s.outer).any fun k => stale k && k.any KeyStart.required then none
  else some { s with keyStart := keep s.keyStart, outer := s.outer.map keep }

/-- Takes note that a key may start here. -/
def saveKey? (s : ScanState) : Option ScanState :=
  if s.keyAllowed then do
    let required := !s.inFlow && s.blocks.head? == some s.column
    let keyStart := some ⟨s.tokens.size, s.offset, s.line, s.column, required⟩
    return { ← s.dropKey? with keyStart }
  else some s

/-! ## Block collections -/

/-- Opens a block collection at `column` by the token `t` at `position`, unless one is open there. -/
def openBlock (s : ScanState) (t : Token) (position column : Nat) : ScanState :=
  if s.inFlow || column < s.margin then s
  else { s with
    blocks := column :: s.blocks
    tokens := s.tokens.insertIdxIfInBounds position t }

/-- Closes the block collections, from the innermost on, up to one whose column stays open. -/
def closeBlocks (s : ScanState) (isOpen : Nat → Bool) : ScanState :=
  { s with
    blocks := s.blocks.dropWhile fun column => !isOpen column
    tokens := s.tokens ++ (s.blocks.takeWhile fun column => !isOpen column).map fun _ => Token.closeBlock }

/-- The state where a token starts: stale keys are gone and the blocks to the right are closed. -/
def settle? (s : ScanState) : Option ScanState := do
  let s ← s.dropStale?
  return if s.inFlow then s else s.closeBlocks (· ≤ s.column)

/-! ## Marks -/

def openFlow? (s : ScanState) (t : Token) : Option ScanState := do
  let s := (← s.saveKey?).mark t true
  return { s with keyStart := none, outer := s.keyStart :: s.outer }

def closeFlow? (s : ScanState) (t : Token) : Option ScanState := do
  let s ← s.dropKey?
  let s := s.mark t false
  return match s.outer with
    | [] => s
    | k :: ks => { s with keyStart := k, outer := ks }

def comma? (s : ScanState) : Option ScanState := do return (← s.dropKey?).mark .comma true

/-- A mark that opens, in a block, a collection of the form `block` where it stands. -/
def blockMark? (s : ScanState) (block t : Token) (keyAllowed : Bool) : Option ScanState :=
  if s.inFlow || s.keyAllowed then do
    return (← (s.openBlock block s.tokens.size s.column).dropKey?).mark t keyAllowed
  else none

def dash? (s : ScanState) : Option ScanState := s.blockMark? .openBlockSequence .dash true

def keyMark? (s : ScanState) : Option ScanState := s.blockMark? .openBlockMapping .key (!s.inFlow)

/-- The colon of an entry. A key that started without a mark gets one now. -/
def colon? (s : ScanState) : Option ScanState :=
  match s.keyStart with
  | some k =>
    let s := { s with tokens := s.tokens.insertIdxIfInBounds k.position .key, keyStart := none }
    some ((s.openBlock .openBlockMapping k.position k.column).mark .colon false)
  | none => s.blockMark? .openBlockMapping .colon (!s.inFlow)

/-- The mark of a document that starts with `c` at the beginning of a line. -/
def documentMark? (s : ScanState) (c : Char) (rest : List Char) : Option Token :=
  if s.column ≠ 0 then none
  else
    match c, rest with
    | '-', '-' :: '-' :: rest => if atBlank rest then some .documentStart else none
    | '.', '.' :: '.' :: rest => if atBlank rest then some .documentEnd else none
    | _, _ => none

/-- The mark `t` of a document, of three characters, before which all blocks end. -/
def betweenDocuments? (s : ScanState) (t : Token) : Option ScanState := do
  let s ← (s.closeBlocks fun _ => false).dropKey?
  return { s.mark t false with mode := .skip 2 }

/-! ## Characters -/

/-- Whether a plain scalar starts with `c` before `rest`. -/
def startsPlain (s : ScanState) (c : Char) (rest : List Char) : Bool :=
  (!isIndicator c && !isBlank c) || (c == '-' && !(rest.head?.any isBlank)) ||
    (!s.inFlow && (c == '?' || c == ':') && !atBlank rest)

/-- Whether `c` before `rest` ends a plain scalar. -/
def endsPlain (s : ScanState) (c : Char) (rest : List Char) : Bool :=
  (c == ':' && atBlank rest) || (s.inFlow && isFlowIndicator c)

/-- A character with which a scalar starts. -/
def scalar? (s : ScanState) (mode : ScanMode) : Option ScanState := do
  return { (← s.saveKey?).forward mode with keyAllowed := false }

def token? (s : ScanState) (c : Char) (rest : List Char) : Option ScanState :=
  match s.documentMark? c rest, c with
  | some t, _ => s.betweenDocuments? t
  | none, '[' => s.openFlow? .openSequence
  | none, '\x7b' => s.openFlow? .openMapping
  | none, ']' => s.closeFlow? .closeSequence
  | none, '\x7d' => s.closeFlow? .closeMapping
  | none, ',' => s.comma?
  | none, '\x27' => s.scalar? (.single .empty)
  | none, '"' => s.scalar? (.double .empty)
  | none, c =>
    if c = '-' ∧ atBlank rest then s.dash?
    else if c = '?' ∧ (s.inFlow ∨ atBlank rest) then s.keyMark?
    else if c = ':' ∧ (s.inFlow ∨ atBlank rest) then s.colon?
    else if s.startsPlain c rest then s.scalar? (.plain (Folded.empty.push c))
    else none

/-- A character where a token may start. A tab must not stand before a key. -/
def begin? (s : ScanState) (c : Char) (rest : List Char) : Option ScanState :=
  if isBreak c then some { s.newLine .between with keyAllowed := s.keyAllowed || !s.inFlow }
  else if c = ' ' ∨ (c = '\t' ∧ (s.inFlow ∨ !s.keyAllowed)) ∨ (c = '\ufeff' ∧ s.column = 0) then
    some (s.forward .between)
  else if c = '#' then some (s.forward .comment)
  else do (← s.settle?).token? c rest

/-- The end of a plain scalar. After a line break a key may start. -/
def endPlain (s : ScanState) (read : Folded) : ScanState :=
  let s := s.push (.plain read.read.reverse)
  { s with mode := .between, keyAllowed := s.keyAllowed || read.gap.isLines }

def plain? (s : ScanState) (read : Folded) (c : Char) (rest : List Char) : Option ScanState :=
  if isBreak c then some (s.newLine (.plain (read.pushBreak c)))
  else if isBlank c then
    if c = '\t' ∧ read.gap.isLines ∧ s.column < s.margin then none
    else some (s.forward (.plain (read.pushBlank c)))
  else
    let isWordStart : Bool := read.gap ≠ .blanks []
    if isWordStart && (c == '#' || (!s.inFlow && s.column < s.margin) || (s.documentMark? c rest).isSome)
    then (s.endPlain read).begin? c rest
    else if s.inFlow && c == ':' && rest.head?.any fun d => d == '?' || isFlowIndicator d then none
    else if s.endsPlain c rest then (s.endPlain read).begin? c rest
    else some (s.forward (.plain (read.push c)))

/-- A character inside a quoted scalar, for which `mode` is the mode. No mark of a document may stand
there. -/
def quoted? (s : ScanState) (mode : Folded → ScanMode) (read : Folded) (quote c : Char)
    (rest : List Char) : Option ScanState :=
  if isBreak c then some (s.newLine (mode (read.pushBreak c)))
  else if isBlank c then some (s.forward (mode (read.pushBlank c)))
  else if (s.documentMark? c rest).isSome then none
  else if c = quote then some ((s.push (.quoted read.text)).forward .between)
  else some (s.forward (mode (read.push c)))

def escape? (s : ScanState) (read : Folded) (c : Char) : Option ScanState :=
  if isBreak c then some (s.newLine (.double read.skipBreak))
  else
    match codeLength? c, escaped? c with
    | some n, _ => some (s.forward (.code read n 0))
    | none, some c => some (s.forward (.double (read.push c)))
    | none, none => none

/-- A character by its mode; its bytes are not counted yet. -/
def step? (s : ScanState) (c : Char) (rest : List Char) : Option ScanState :=
  match s.mode with
  | .between => s.begin? c rest
  | .skip count => some (s.forward (if count ≤ 1 then .between else .skip (count - 1)))
  | .comment =>
    if isBreak c then s.begin? c rest else some (s.forward .comment)
  | .plain read => s.plain? read c rest
  | .single read =>
    if c = '\x27' ∧ rest.head? = some '\x27' then some (s.forward (.twin read))
    else s.quoted? .single read '\x27' c rest
  | .twin read => some (s.forward (.single (read.push c)))
  | .double read =>
    if c = '\\' then some (s.forward (.escape read)) else s.quoted? .double read '"' c rest
  | .escape read => s.escape? read c
  | .code read missing value => do
    let value := 16 * value + (← hexValue? c)
    if 1 < missing then return s.forward (.code read (missing - 1) value)
    else if value.isValidChar then return s.forward (.double (read.push (Char.ofNat value)))
    else none

/-- The tokens at the end of the text. -/
def finish? (s : ScanState) : Option (List Token) := do
  let s ← match s.mode with
    | .between | .comment | .skip _ => some s
    | .plain read => some (s.endPlain read)
    | _ => none
  let s ← ((← s.dropStale?).closeBlocks fun _ => false).dropKey?
  return s.tokens.toList

/-- The tokens of a text that is read from a state on. -/
def run? : ScanState → List Char → Option (List Token)
  | s, [] => s.finish?
  | s, c :: cs => do
    let offset := s.offset + c.utf8Size
    run? { ← s.step? c cs with offset } cs

end ScanState

def scan? (cs : List Char) : Option (List Token) :=
  if cs.all isPrintable then ScanState.start.run? (joinBreaks cs) else none

end Yaml
end BehaviorTree
