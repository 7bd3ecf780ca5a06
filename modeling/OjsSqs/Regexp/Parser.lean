import OjsSqs.Regexp.Expr

/-! # Expressions from tokens

The parser keeps the parts of the alternative it reads, the alternatives before
it, and the same for every group that is open. Capturing makes no difference to
what is matched, and neither does the preference for fewer repetitions. -/
namespace Regexp

/-- The flags that a pattern can change. `regexp.Compile` begins with none of
them. -/
structure Flags where
  foldCase : Bool := false
  multiLine : Bool := false
  dotNL : Bool := false
  nonGreedy : Bool := false
deriving DecidableEq, Repr

def Flags.set (f : Flags) : Flag × Bool → Flags
  | (.foldCase, b) => { f with foldCase := b }
  | (.multiLine, b) => { f with multiLine := b }
  | (.dotNL, b) => { f with dotNL := b }
  | (.nonGreedy, b) => { f with nonGreedy := b }

/-- An alternation that is being read: the alternatives before the last bar, and
the parts after it, the newest first. -/
structure Level where
  alts : List Expr := []
  seq : List Expr := []

/-- `concat` -/
def concat (seq : List Expr) : Expr := seq.foldl (fun e a => .cat a e) .empty

/-- `alternate` -/
def alternate (alts : List Expr) (last : Expr) : Expr := alts.foldr .alt last

namespace Level

def push (e : Expr) (l : Level) : Level := { l with seq := e :: l.seq }
def bar (l : Level) : Level := ⟨l.alts ++ [concat l.seq], []⟩
def expr (l : Level) : Expr := alternate l.alts (concat l.seq)

end Level

/-- The parser between two tokens: the open groups with the flags before them,
and whether the last token was a repetition. -/
structure Parser where
  flags : Flags := {}
  level : Level := {}
  outer : List (Level × Flags) := []
  repeated : Bool := false

def Parser.push (e : Expr) (p : Parser) : Parser := { p with level := p.level.push e, repeated := false }

section
variable (U : Unicode)

/-- The set, or all that is the same up to case. -/
def Flags.folded (f : Flags) (member : Rune → Bool) (r : Rune) : Bool :=
  member r || f.foldCase && (U.orbit r).any member

def ClassItem.member (f : Flags) : ClassItem → Rune → Bool
  | range lo hi, r => f.folded U (fun r => lo ≤ r && r ≤ hi) r
  | group negated member, r => f.folded U member r != negated

def literalExpr (f : Flags) (c : Rune) : Expr := .set (f.folded U (· == c))

def classExpr (f : Flags) (negated : Bool) (items : List ClassItem) : Expr :=
  .set fun r => items.any (·.member U f r) != negated

end

/-- What `$` stands for. -/
def dollarExpr (f : Flags) : Expr := if f.multiLine then .endLine else .endText

/-- `repeatIsValid`: nested counts make at most `n` copies. -/
def Expr.repeatIsValid : Nat → Expr → Bool
  | n, repeats (.count min max) a =>
    let m := max.getD min
    max = some 0 || m ≤ n && a.repeatIsValid (if m = 0 then n else n / m)
  | n, repeats _ a => a.repeatIsValid n
  | n, cat a b => a.repeatIsValid n && b.repeatIsValid n
  | n, alt a b => a.repeatIsValid n && b.repeatIsValid n
  | _, _ => true

/-- The check of `repeat` for counts of two or more. -/
def repeatAllowed (op : RepeatOp) (a : Expr) : Bool :=
  match op with
  | .count min max =>
    if 2 ≤ min ∨ 2 ≤ max.getD 0 then (Expr.repeats op a).repeatIsValid 1000 else true
  | _ => true

section
variable (U : Unicode)

/-- One token of `parse`. -/
def Parser.step (p : Parser) : Token → Option Parser
  | .literal c => some (p.push (literalExpr U p.flags c))
  | .quote text _ =>
    some (text.foldl (fun p c => p.push (literalExpr U p.flags c.toNat)) { p with repeated := false })
  | .cls negated items => some (p.push (classExpr U p.flags negated items))
  | .dot => some (p.push (.set fun r => p.flags.dotNL || r != newline))
  | .caret => some (p.push (if p.flags.multiLine then .beginLine else .beginText))
  | .dollar => some (p.push (dollarExpr p.flags))
  | .beginText => some (p.push .beginText)
  | .endText => some (p.push .endText)
  | .wordBoundary => some (p.push .wordBoundary)
  | .noWordBoundary => some (p.push .noWordBoundary)
  | .bar => some { p with level := p.level.bar, repeated := false }
  | .opens changes => some
    ⟨changes.foldl Flags.set p.flags, {}, (p.level, p.flags) :: p.outer, false⟩
  | .flags changes => some { p with flags := changes.foldl Flags.set p.flags, repeated := false }
  | .close => match p.outer with
    | [] => none
    | (level, flags) :: outer => some ⟨flags, level.push p.level.expr, outer, false⟩
  | .repeats op =>
    if p.repeated then none
    else match p.level.seq with
      | [] => none
      | a :: seq =>
        if repeatAllowed op a then
          some { p with level := { p.level with seq := .repeats op a :: seq }, repeated := true }
        else none

def Parser.run (p : Parser) (ts : List Token) : Option Parser := ts.foldlM (Parser.step U) p

/-- The tokens and the parser at the end of a text. -/
def read (text : List Char) : Option (List Token × Parser) :=
  match tokens U text.length text with
  | some ts => (Parser.run U {} ts).map (ts, ·)
  | none => none

/-- `syntax.Parse`: all groups are closed at the end. -/
def parse (text : List Char) : Option Expr :=
  match read U text with
  | some (_, p) => if p.outer.isEmpty then some p.level.expr else none
  | none => none

end

/-- The code points of a text. -/
def runes (s : String) : List Rune := s.toList.map Char.toNat

/-- The package `regexp`: the tables it uses, and the patterns that are not too
large for it and do not nest too deeply. -/
structure Package where
  unicode : Unicode
  small : String → Bool

/-- `regexp.Compile`, when there is no error -/
def Package.compile (R : Package) (pattern : String) : Option Expr :=
  if R.small pattern then parse R.unicode pattern.toList else none

end Regexp
