import Mathlib.Data.List.Basic
import Mathlib.Tactic.Common

/-! # The tokens of regular expressions

The syntax of Go's package `regexp`, as `regexp/syntax` reads it with the flags
of `regexp.Compile`: one token after the other, none of which depends on the
flags in force. The tables of the Unicode package are left open. -/
namespace Regexp

/-- A code point. -/
abbrev Rune := Nat

/-- The tables of the package `unicode`. -/
structure Unicode where
  /-- the other code points of an orbit under simple case folding -/
  orbit : Rune → List Rune
  /-- the category or script of a name -/
  table : String → Option (Rune → Bool)
  /-- names are made of letters and underscores -/
  noDollar : table "$" = none

/-! ## Tokens -/

inductive Flag where
  | foldCase | multiLine | dotNL | nonGreedy
deriving DecidableEq, Repr

/-- A part of a character class. -/
inductive ClassItem where
  | range (lo hi : Rune)
  | group (negated : Bool) (member : Rune → Bool)

inductive RepeatOp where
  | star | plus | quest
  | count (min : Nat) (max : Option Nat)
deriving DecidableEq, Repr

/-- A token. A group may change the flags, and so may a flag group, which holds
no expression. A quotation without its end goes to the end of the text. -/
inductive Token where
  | literal (c : Rune)
  | quote (text : List Char) (closed : Bool)
  | cls (negated : Bool) (items : List ClassItem)
  | dot | caret | dollar | beginText | endText | wordBoundary | noWordBoundary
  | bar | close
  | opens (changes : List (Flag × Bool))
  | flags (changes : List (Flag × Bool))
  | repeats (op : RepeatOp)

/-! ## Characters -/

def isDigit (c : Char) : Bool := '0' ≤ c && c ≤ '9'
def isOctal (c : Char) : Bool := '0' ≤ c && c ≤ '7'
def isAlnum (c : Char) : Bool :=
  isDigit c || ('a' ≤ c && c ≤ 'z') || ('A' ≤ c && c ≤ 'Z')

def unhex (c : Char) : Option Nat :=
  if isDigit c then some (c.toNat - '0'.toNat)
  else if 'a' ≤ c && c ≤ 'f' then some (c.toNat - 'a'.toNat + 10)
  else if 'A' ≤ c && c ≤ 'F' then some (c.toNat - 'A'.toNat + 10)
  else none

def maxRune : Rune := 0x10FFFF

/-- What stands before the first `a` that is followed by `b`, and after the two. -/
def cut (a b : Char) : List Char → Option (List Char × List Char)
  | c :: d :: t =>
    if c = a ∧ d = b then some ([], t) else (cut a b (d :: t)).map fun (x, t) => (c :: x, t)
  | _ => none

/-- What stands before the first `a`, and after it. -/
def cutAt (a : Char) : List Char → Option (List Char × List Char)
  | c :: t => if c = a then some ([], t) else (cutAt a t).map fun (x, t) => (c :: x, t)
  | [] => none

/-! ## Escapes -/

/-- At most `n` more octal digits. -/
def octalDigits : Nat → Rune → List Char → Rune × List Char
  | n + 1, r, c :: t =>
    if isOctal c then octalDigits n (r * 8 + (c.toNat - '0'.toNat)) t else (r, c :: t)
  | _, r, t => (r, t)

/-- Hexadecimal digits up to a brace; `some` of a number says there was one. -/
def bracedHex : Option Rune → List Char → Option (Rune × List Char)
  | r, c :: t =>
    if c = '}' then r.map (·, t)
    else match unhex c with
      | some v => if maxRune < r.getD 0 * 16 + v then none else bracedHex (some (r.getD 0 * 16 + v)) t
      | none => none
  | _, [] => none

def hexEscape : List Char → Option (Rune × List Char)
  | c :: t =>
    if c = '{' then bracedHex none t
    else match unhex c, t with
      | some x, d :: t => (unhex d).map (x * 16 + ·, t)
      | _, _ => none
  | [] => none

/-- `parseEscape`, after the backslash. A digit other than zero is an octal escape
if another octal digit follows it. -/
def parseEscape : List Char → Option (Rune × List Char)
  | [] => none
  | c :: t =>
    if c = '0' || isOctal c && t.head?.any isOctal then
      some (octalDigits 2 (c.toNat - '0'.toNat) t)
    else match c with
      | 'x' => hexEscape t
      | 'a' => some (7, t)
      | 'f' => some (12, t)
      | 'n' => some (10, t)
      | 'r' => some (13, t)
      | 't' => some (9, t)
      | 'v' => some (11, t)
      | c => if c.toNat < 128 ∧ isAlnum c = false then some (c.toNat, t) else none

/-! ## Classes -/

/-- The code points between two characters. -/
def between (lo hi : Char) (r : Rune) : Bool := lo.toNat ≤ r && r ≤ hi.toNat

def digitRune : Rune → Bool := between '0' '9'
def lowerRune : Rune → Bool := between 'a' 'z'
def upperRune : Rune → Bool := between 'A' 'Z'
def alphaRune (r : Rune) : Bool := lowerRune r || upperRune r
def alnumRune (r : Rune) : Bool := alphaRune r || digitRune r
def wordRune (r : Rune) : Bool := alnumRune r || r == '_'.toNat
def perlSpaceRune (r : Rune) : Bool := r == 9 || r == 10 || r == 12 || r == 13 || r == 32

/-- `perlGroup`, by the letter after the backslash -/
def perlGroup : Char → Option ClassItem
  | 'd' => some (.group false digitRune)
  | 'D' => some (.group true digitRune)
  | 's' => some (.group false perlSpaceRune)
  | 'S' => some (.group true perlSpaceRune)
  | 'w' => some (.group false wordRune)
  | 'W' => some (.group true wordRune)
  | _ => none

/-- The members of `posixGroup` without a circumflex -/
def posixClass (name : String) : Option (Rune → Bool) :=
  [("alnum", alnumRune), ("alpha", alphaRune), ("ascii", fun r => r ≤ 0x7F),
    ("blank", fun r => r == 9 || r == 32), ("cntrl", fun r => r ≤ 0x1F || r == 0x7F),
    ("digit", digitRune), ("graph", between '!' '~'), ("lower", lowerRune),
    ("print", between ' ' '~'),
    ("punct", fun r => between '!' '~' r && !alnumRune r),
    ("space", fun r => (9 ≤ r && r ≤ 13) || r == 32), ("upper", upperRune), ("word", wordRune),
    ("xdigit", fun r => digitRune r || between 'A' 'F' r || between 'a' 'f' r)].lookup name

/-- `posixGroup`, by the name between the colons -/
def posixGroup : List Char → Option ClassItem
  | '^' :: name => (posixClass (String.ofList name)).map (.group true)
  | name => (posixClass (String.ofList name)).map (.group false)

section
variable (U : Unicode)

/-- `unicodeTable`, with the leading negation of a name -/
def unicodeGroup (negated : Bool) : List Char → Option ClassItem
  | '^' :: name => (U.table (String.ofList name)).map (.group !negated)
  | name => (U.table (String.ofList name)).map (.group negated)

/-- `parseUnicodeClass`, after the letter p -/
def parseUnicodeClass (negated : Bool) : List Char → Option (ClassItem × List Char)
  | c :: t =>
    if c = '{' then match cutAt '}' t with
      | some (name, t) => (unicodeGroup U negated name).map (·, t)
      | none => none
    else (unicodeGroup U negated [c]).map (·, t)
  | [] => none

/-- The classes that a backslash begins, inside brackets and outside of them.
`none` is for other escapes. -/
def escapedClass : List Char → Option (Option (ClassItem × List Char))
  | c :: t =>
    if c = 'p' then some (parseUnicodeClass U false t)
    else if c = 'P' then some (parseUnicodeClass U true t)
    else (perlGroup c).map fun g => some (g, t)
  | [] => none

def parseClassChar : List Char → Option (Rune × List Char)
  | [] => none
  | c :: t => if c = '\\' then parseEscape t else some (c.toNat, t)

/-- A single character or a range. -/
def classRange (t : List Char) : Option (ClassItem × List Char) :=
  match parseClassChar t with
  | none => none
  | some (lo, d :: c :: t) =>
    -- a dash before the bracket stands for itself
    if d = '-' ∧ c ≠ ']' then match parseClassChar (c :: t) with
      | some (hi, t) => if hi < lo then none else some (.range lo hi, t)
      | none => none
    else some (.range lo lo, d :: c :: t)
  | some (lo, t) => some (.range lo lo, t)

/-- One item of a class. A name without its end is taken character by character. -/
def classItem (t : List Char) : Option (ClassItem × List Char) :=
  match t with
  | [] => none
  | c :: u =>
    if c = '[' ∧ u.head? = some ':' then match cut ':' ']' u.tail with
      | some (name, rest) => (posixGroup name).map (·, rest)
      | none => classRange t
    else if c = '\\' then match escapedClass U u with
      | some item => item
      | none => classRange t
    else classRange t

/-- The items up to the bracket, which stands for itself at the beginning. -/
def classItems : Nat → Bool → List Char → Option (List ClassItem × List Char)
  | 0, _, _ => none
  | n + 1, first, t =>
    if !first && t.head? = some ']' then some ([], t.tail)
    else match classItem U t with
      | some (item, t) => (classItems n false t).map fun (items, t) => (item :: items, t)
      | none => none

/-- `parseClass`, after the bracket -/
def parseClass (t : List Char) : Option (Token × List Char) :=
  let negated := t.head? = some '^'
  let t := if negated then t.tail else t
  (classItems U (t.length + 1) true t).map fun (items, t) => (.cls negated items, t)

/-! ## Repetitions and groups -/

/-- A repetition that a question mark follows prefers fewer. -/
def afterLazy (t : List Char) : List Char := if t.head? = some '?' then t.tail else t

def digitsValue (ds : List Char) : Nat := ds.foldl (fun n d => n * 10 + (d.toNat - '0'.toNat)) 0

/-- `parseInt`: leading zeros are not allowed -/
def parseInt (t : List Char) : Option (Nat × List Char) :=
  let ds := t.takeWhile isDigit
  if ds = [] ∨ ds.head? = some '0' ∧ 2 ≤ ds.length then none
  else some (digitsValue ds, t.dropWhile isDigit)

/-- `parseRepeat`, after the brace -/
def parseRepeat (t : List Char) : Option ((Nat × Option Nat) × List Char) :=
  match parseInt t with
  | some (min, c :: t) =>
    if c = '}' then some ((min, some min), t)
    else if c = ',' then
      if t.head? = some '}' then some ((min, none), t.tail)
      else match parseInt t with
        | some (max, d :: t) => if d = '}' then some ((min, some max), t) else none
        | _ => none
    else none
  | _ => none

/-- Counts are at most 1000, and in order. -/
def validCounts (min : Nat) (max : Option Nat) : Bool :=
  min ≤ 1000 && max.all fun max => min ≤ max && max ≤ 1000

/-- `isValidCaptureName` -/
def isValidCaptureName (name : List Char) : Bool :=
  name ≠ [] && name.all fun c => c = '_' || isAlnum c

def namedGroup (t : List Char) : Option (Token × List Char) :=
  match cutAt '>' t with
  | some (name, t) => if isValidCaptureName name then some (.opens [], t) else none
  | none => none

/-- The flags of a group: `negated` after a dash, `saw` once there was a flag. -/
def groupFlags (negated saw : Bool) (changes : List (Flag × Bool)) :
    List Char → Option (Token × List Char)
  | [] => none
  | c :: t => match c with
    | 'i' => groupFlags negated true (changes ++ [(.foldCase, !negated)]) t
    | 'm' => groupFlags negated true (changes ++ [(.multiLine, !negated)]) t
    | 's' => groupFlags negated true (changes ++ [(.dotNL, !negated)]) t
    | 'U' => groupFlags negated true (changes ++ [(.nonGreedy, !negated)]) t
    | '-' => if negated then none else groupFlags true false changes t
    | ':' => if negated && !saw then none else some (.opens changes, t)
    | ')' => if negated && !saw then none else some (.flags changes, t)
    | _ => none

/-- `parsePerlFlags`, after the question mark -/
def parsePerlFlags (t : List Char) : Option (Token × List Char) :=
  if t.head? = some '<' then namedGroup t.tail
  else if t.head? = some 'P' ∧ t.tail.head? = some '<' then namedGroup t.tail.tail
  else groupFlags false false [] t

/-! ## Tokens one by one -/

/-- A backslash outside of brackets. -/
def parseBackslash : List Char → Option (Token × List Char)
  | [] => none
  | c :: t => match c with
    | 'A' => some (.beginText, t)
    | 'b' => some (.wordBoundary, t)
    | 'B' => some (.noWordBoundary, t)
    | 'C' => none
    | 'Q' => match cut '\\' 'E' t with
      | some (text, t) => some (.quote text true, t)
      | none => some (.quote t false, [])
    | 'z' => some (.endText, t)
    | c => match escapedClass U (c :: t) with
      | some item => item.map fun (item, t) => (.cls false [item], t)
      | none => (parseEscape (c :: t)).map fun (c, t) => (.literal c, t)

def parseToken : List Char → Option (Token × List Char)
  | [] => none
  | c :: t => match c with
    | '(' => if t.head? = some '?' then parsePerlFlags t.tail else some (.opens [], t)
    | '|' => some (.bar, t)
    | ')' => some (.close, t)
    | '^' => some (.caret, t)
    | '$' => some (.dollar, t)
    | '.' => some (.dot, t)
    | '[' => parseClass U t
    | '*' => some (.repeats .star, afterLazy t)
    | '+' => some (.repeats .plus, afterLazy t)
    | '?' => some (.repeats .quest, afterLazy t)
    | '{' => match parseRepeat t with
      | some ((min, max), t) =>
        if validCounts min max then some (.repeats (.count min max), afterLazy t) else none
      | none => some (.literal '{'.toNat, t)
    | '\\' => parseBackslash U t
    | c => some (.literal c.toNat, t)

/-- The tokens of a text; every one takes a character at least. -/
def tokens : Nat → List Char → Option (List Token)
  | _, [] => some []
  | 0, _ :: _ => none
  | n + 1, c :: t => match parseToken U (c :: t) with
    | some (token, t) => (tokens n t).map (token :: ·)
    | none => none

end
end Regexp
