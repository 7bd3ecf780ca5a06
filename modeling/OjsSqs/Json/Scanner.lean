import Mathlib.Data.List.Basic

/-! # A scanner for JSON text

The state machine that JSON text goes through byte by byte. It keeps a stack of
the objects and arrays that are open, which holds no more than `limit` of them.
Each byte has an operation: it begins or continues a value, separates two of
them, or is white space. A text is valid when the machine takes all of it and
the value is complete. -/
namespace Json

abbrev Bytes := List UInt8

/-- The byte of an ASCII character. -/
def byte (c : Char) : UInt8 := UInt8.ofNat c.toNat

/-- The bytes of an ASCII text. -/
def bytes (s : String) : Bytes := s.toList.map byte

def isSpace (c : UInt8) : Bool :=
  c = byte ' ' || c = byte '\t' || c = byte '\r' || c = byte '\n'

def isDigitByte (c : UInt8) : Bool := byte '0' ≤ c && c ≤ byte '9'

def isHex (c : UInt8) : Bool :=
  isDigitByte c || byte 'a' ≤ c && c ≤ byte 'f' || byte 'A' ≤ c && c ≤ byte 'F'

/-- Inside a literal: a string, a number or a name. -/
inductive Literal where
  | inString | inStringEsc | inStringEscU | inStringEscU1 | inStringEscU12 | inStringEscU123
  | neg | one | zero | dot | dot0 | e | eSign | e0
  | t | tr | tru | f | fa | fal | fals | n | nu | nul
deriving DecidableEq, Repr

/-- What a byte does to a literal: it goes on, the byte is its last one, it has
ended before the byte, or the byte is not right. -/
inductive Next where
  | more (l : Literal) | last | ended | bad
deriving DecidableEq, Repr

/-- After the leading digits of a number. -/
def nextZero (c : UInt8) : Next :=
  if c = byte '.' then .more .dot
  else if c = byte 'e' || c = byte 'E' then .more .e
  else .ended

def nextESign (c : UInt8) : Next := if isDigitByte c then .more .e0 else .bad

def nextHex (l : Literal) (c : UInt8) : Next := if isHex c then .more l else .bad

/-- A letter of a name. -/
def nextLetter (letter : Char) (next : Next) (c : UInt8) : Next :=
  if c = byte letter then next else .bad

def Literal.next : Literal → UInt8 → Next
  | .inString, c =>
    if c = byte '"' then .last
    else if c = byte '\\' then .more .inStringEsc
    else if c < 0x20 then .bad
    else .more .inString
  | .inStringEsc, c =>
    if c = byte 'b' || c = byte 'f' || c = byte 'n' || c = byte 'r' || c = byte 't' ||
      c = byte '\\' || c = byte '/' || c = byte '"' then .more .inString
    else if c = byte 'u' then .more .inStringEscU
    else .bad
  | .inStringEscU, c => nextHex .inStringEscU1 c
  | .inStringEscU1, c => nextHex .inStringEscU12 c
  | .inStringEscU12, c => nextHex .inStringEscU123 c
  | .inStringEscU123, c => nextHex .inString c
  | .neg, c => if c = byte '0' then .more .zero else if isDigitByte c then .more .one else .bad
  | .one, c => if isDigitByte c then .more .one else nextZero c
  | .zero, c => nextZero c
  | .dot, c => if isDigitByte c then .more .dot0 else .bad
  | .dot0, c =>
    if isDigitByte c then .more .dot0 else if c = byte 'e' || c = byte 'E' then .more .e else .ended
  | .e, c => if c = byte '+' || c = byte '-' then .more .eSign else nextESign c
  | .eSign, c => nextESign c
  | .e0, c => if isDigitByte c then .more .e0 else .ended
  | .t, c => nextLetter 'r' (.more .tr) c
  | .tr, c => nextLetter 'u' (.more .tru) c
  | .tru, c => nextLetter 'e' .last c
  | .f, c => nextLetter 'a' (.more .fa) c
  | .fa, c => nextLetter 'l' (.more .fal) c
  | .fal, c => nextLetter 's' (.more .fals) c
  | .fals, c => nextLetter 'e' .last c
  | .n, c => nextLetter 'u' (.more .nu) c
  | .nu, c => nextLetter 'l' (.more .nul) c
  | .nul, c => nextLetter 'l' .last c

/-- The literal a byte begins. -/
def startLiteral (c : UInt8) : Option Literal :=
  if c = byte '"' then some .inString
  else if c = byte '-' then some .neg
  else if c = byte '0' then some .zero
  else if c = byte 't' then some .t
  else if c = byte 'f' then some .f
  else if c = byte 'n' then some .n
  else if isDigitByte c then some .one
  else none

/-- Where the machine is. -/
inductive Mode where
  | beginValueOrEmpty | beginValue | beginStringOrEmpty | beginString | endValue | endTop
  | lit (l : Literal)
deriving DecidableEq, Repr

/-- What is open. -/
inductive ParseState where
  | objectKey | objectValue | arrayValue
deriving DecidableEq, Repr

inductive Op where
  | continue' | beginLiteral | beginObject | objectKey | objectValue | endObject
  | beginArray | arrayValue | endArray | skipSpace | end'
deriving DecidableEq, Repr

/-- The byte is white space between tokens. -/
def Op.isSpace : Op → Bool
  | .skipSpace | .end' => true
  | _ => false

/-- The machine; what was opened last comes first in the stack. -/
structure Scan where
  mode : Mode
  stack : List ParseState
deriving DecidableEq, Repr

namespace Scan

def start : Scan := ⟨.beginValue, []⟩

/-- `pushParseState` -/
def push (limit : Nat) (p : ParseState) (op : Op) (mode : Mode) (s : Scan) : Option (Op × Scan) :=
  if s.stack.length < limit then some (op, ⟨mode, p :: s.stack⟩) else none

/-- `popParseState`: after the outermost value the text is complete. -/
def pop (rest : List ParseState) : Scan := ⟨if rest.isEmpty then .endTop else .endValue, rest⟩

/-- `stateEndTop` -/
def endTop (c : UInt8) (stack : List ParseState) : Option (Op × Scan) :=
  if isSpace c then some (.end', ⟨.endTop, stack⟩) else none

/-- `stateEndValue`: a value is complete. -/
def endValue (c : UInt8) (stack : List ParseState) : Option (Op × Scan) :=
  match stack with
  | [] => endTop c []
  | p :: rest =>
    if isSpace c then some (.skipSpace, ⟨.endValue, stack⟩)
    else match p with
      | .objectKey =>
        if c = byte ':' then some (.objectKey, ⟨.beginValue, .objectValue :: rest⟩) else none
      | .objectValue =>
        if c = byte ',' then some (.objectValue, ⟨.beginString, .objectKey :: rest⟩)
        else if c = byte '}' then some (.endObject, pop rest)
        else none
      | .arrayValue =>
        if c = byte ',' then some (.arrayValue, ⟨.beginValue, stack⟩)
        else if c = byte ']' then some (.endArray, pop rest)
        else none

/-- `stateBeginValue` -/
def beginValue (limit : Nat) (c : UInt8) (s : Scan) : Option (Op × Scan) :=
  if isSpace c then some (.skipSpace, s)
  else if c = byte '{' then s.push limit .objectKey .beginObject .beginStringOrEmpty
  else if c = byte '[' then s.push limit .arrayValue .beginArray .beginValueOrEmpty
  else match startLiteral c with
    | some l => some (.beginLiteral, ⟨.lit l, s.stack⟩)
    | none => none

/-- `stateBeginString` -/
def beginString (c : UInt8) (s : Scan) : Option (Op × Scan) :=
  if isSpace c then some (.skipSpace, s)
  else if c = byte '"' then some (.beginLiteral, ⟨.lit .inString, s.stack⟩)
  else none

/-- One byte. -/
def step (limit : Nat) (c : UInt8) (s : Scan) : Option (Op × Scan) :=
  match s.mode with
  | .beginValueOrEmpty => if c = byte ']' then endValue c s.stack else s.beginValue limit c
  | .beginValue => s.beginValue limit c
  | .beginStringOrEmpty =>
    if c = byte '}' then match s.stack with
      | _ :: rest => endValue c (.objectValue :: rest)
      | [] => none
    else s.beginString c
  | .beginString => s.beginString c
  | .endValue => endValue c s.stack
  | .endTop => endTop c s.stack
  | .lit l => match l.next c with
    | .more l' => some (.continue', ⟨.lit l', s.stack⟩)
    | .last => some (.continue', ⟨.endValue, s.stack⟩)
    | .ended => endValue c s.stack
    | .bad => none

/-- The text is complete after the step. -/
def completes : Option (Op × Scan) → Bool
  | some (_, s) => s.mode = .endTop
  | none => false

/-- `eof`: the value is complete, or a space completes it. -/
def eof (s : Scan) : Bool := s.mode = .endTop || completes (s.step 0 (byte ' '))

/-- All bytes of a text. -/
def run (limit : Nat) (s : Scan) (text : Bytes) : Option Scan :=
  text.foldlM (fun s c => (s.step limit c).map (·.2)) s

end Scan

/-- `checkValid` -/
def valid (limit : Nat) (text : Bytes) : Bool :=
  match Scan.start.run limit text with
  | some s => s.eof
  | none => false

end Json
