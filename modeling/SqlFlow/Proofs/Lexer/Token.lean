import SqlFlow.Fragment.Split

/-!
# Tokens of a script

Which tokens a source text is made of, and which fragments tokens make up. Nothing here says how tokens
are found: a token is told by what it looks like and by what it may not be taken for.

* `Mark` and `Quoted`: what a comment and a literal hold inside.
* `Token.Form`: what a token of each kind looks like, and what may follow it.
* `MayStartDirective`: whether a directive line may stand behind some tokens.
* `TokenAt`: a token is at the head of what is left of the source. Of the tokens that could be there it
  is the one whose kind goes first.
* `IsSegmentation`: a row of tokens is the whole source, each of them where it belongs.
* `fragmentsOf`: the fragments of a row of tokens, run by run.
-/

namespace SqlFlow

open Source

/-! ## What comments and literals hold -/

/-- What a comment is read as: its openers and closers, and its other characters. -/
inductive Mark where
  | opener
  | closer
  | other (c : Char)
deriving DecidableEq, Repr

def Mark.text : Mark → List Char
  | opener => ['/', '*']
  | closer => ['*', '/']
  | other c => [c]

/-- A text as it is read in a comment. Openers and closers are read from the left, without overlap. -/
def marks : List Char → List Mark
  | [] => []
  | '/' :: '*' :: cs => .opener :: marks cs
  | '*' :: '/' :: cs => .closer :: marks cs
  | c :: cs => .other c :: marks cs

/-- Inside a comment, `depth` comments that were open before `ms` are closed behind it. Where comments do
not nest, any closer closes the one that is open. -/
def Closes (nested : Bool) (depth : Nat) (ms : List Mark) : Prop :=
  if nested then ms.count .closer = ms.count .opener + depth else .closer ∈ ms

/-- The row has the property, and it has not come to have it earlier. -/
def First {α : Type} (P : List α → Prop) (as : List α) : Prop :=
  P as ∧ ∀ bs, bs <+: as → P bs → bs = as

/-- What may stand between the quotes of a literal: any characters, but quotes only in pairs. -/
inductive Quoted (quote : Char) : List Char → Prop where
  | nil : Quoted quote []
  | char {c : Char} {cs : List Char} (hc : c ≠ quote) (h : Quoted quote cs) : Quoted quote (c :: cs)
  | doubled {cs : List Char} (h : Quoted quote cs) : Quoted quote (quote :: quote :: cs)

/-- The quotes that open a literal. -/
def IsQuote (d : Dialect) (c : Char) : Prop := c = '\'' ∨ c = '"' ∧ d.doubleQuotedLiterals = true

/-! ## Tokens -/

/-- What a token is. -/
inductive TokenKind where
  /-- A directive line, with what stands on it behind the keyword. -/
  | directive (x : Directive) (argument : List Char)
  | lexeme (kind : LexemeKind)
deriving DecidableEq, Repr

/-- A directive line goes before everything else, white space before comments, comments before literals,
and literals before the terminator; content is what is nothing else. -/
def TokenKind.rank : TokenKind → Nat
  | directive _ _ => 0
  | lexeme .newline => 1
  | lexeme .blank => 2
  | lexeme .comment | lexeme .openComment => 3
  | lexeme .literal | lexeme (.openLiteral _) => 4
  | lexeme .terminator => 5
  | lexeme .content => 6

structure Token where
  kind : TokenKind
  text : List Char
deriving DecidableEq, Repr

namespace Token

def isDirective (t : Token) : Bool :=
  match t.kind with
  | .directive _ _ => true
  | .lexeme _ => false

/-- Whether the token ends a statement. -/
def isBoundary (t : Token) : Bool := t.isDirective || t.kind == .lexeme .terminator

/-- Whether the token is content of a statement. A literal is. -/
def isContent (t : Token) : Bool := t.kind == .lexeme .content || t.kind == .lexeme .literal

/-- Whether the token is a construct that does not end. -/
def isOpen (t : Token) : Bool :=
  match t.kind with
  | .lexeme .openComment | .lexeme (.openLiteral _) => true
  | _ => false

/-- What a token looks like, with `rest` as the source behind it. -/
inductive Form (d : Dialect) : Token → (rest : List Char) → Prop where
  /-- The marker, a longest run of letters that is a keyword in some case, and the rest of the line, which
  begins with a blank or a terminator if there is any. -/
  | directive {x : Directive} {word argument rest : List Char} (hmarker : d.marker.toList ≠ [])
      (hword : ∀ c ∈ word, c.isAlpha = true) (hkeyword : word.map Char.toLower = x.keyword.toList)
      (hends : ∀ c, (argument ++ rest).head? = some c →
        c.isAlpha = false ∧ (Text.isBlank c = true ∨ c = d.terminator))
      (hline : '\n' ∉ argument) (hrest : ∀ c, rest.head? = some c → c = '\n') :
      Form d ⟨.directive x argument, d.marker.toList ++ word ++ argument⟩ rest
  | newline {rest : List Char} : Form d ⟨.lexeme .newline, ['\n']⟩ rest
  | blank {c : Char} {rest : List Char} (hc : Text.isBlank c = true) : Form d ⟨.lexeme .blank, [c]⟩ rest
  | lineComment {body rest : List Char} (hline : '\n' ∉ body)
      (hrest : ∀ c, rest.head? = some c → c = '\n') :
      Form d ⟨.lexeme .comment, ['-', '-'] ++ body⟩ rest
  /-- A block comment goes on until it is closed for the first time. -/
  | blockComment {ms : List Mark} {rest : List Char}
      (hread : ms <+: marks (ms.flatMap Mark.text ++ rest))
      (hfirst : First (Closes d.nestedComments 1) ms) :
      Form d ⟨.lexeme .comment, ['/', '*'] ++ ms.flatMap Mark.text⟩ rest
  | openComment {body : List Char}
      (hopen : ∀ ms, ms <+: marks body → ¬Closes d.nestedComments 1 ms) :
      Form d ⟨.lexeme .openComment, ['/', '*'] ++ body⟩ []
  | literal {quote : Char} {body rest : List Char} (hquote : IsQuote d quote)
      (hbody : Quoted quote body) (hrest : rest.head? ≠ some quote) :
      Form d ⟨.lexeme .literal, quote :: (body ++ [quote])⟩ rest
  | openLiteral {quote : Char} {body : List Char} (hquote : IsQuote d quote)
      (hbody : Quoted quote body) : Form d ⟨.lexeme (.openLiteral quote), quote :: body⟩ []
  | terminator {rest : List Char} : Form d ⟨.lexeme .terminator, [d.terminator]⟩ rest
  | content {c : Char} {rest : List Char} : Form d ⟨.lexeme .content, [c]⟩ rest

end Token

/-- The tokens behind the last one with the property, last first. -/
def sinceLast (p : Token → Bool) (before : List Token) : List Token :=
  before.reverse.takeWhile fun t => !p t

/-- A directive line may stand behind tokens if there are only blanks among them since the last newline,
or no content since the last boundary. -/
def MayStartDirective (before : List Token) : Prop :=
  (∀ t ∈ sinceLast (·.kind == .lexeme .newline) before, t.kind = .lexeme .blank) ∨
    ∀ t ∈ sinceLast Token.isBoundary before, t.isContent = false

/-- A token could stand behind some tokens and before the rest of the source. -/
structure Candidate (d : Dialect) (before : List Token) (t : Token) (rest : List Char) : Prop where
  form : t.Form d rest
  admitted : t.isDirective = true → MayStartDirective before

/-- A token stands behind some tokens and before the rest of the source: nothing that could stand there
goes before it. -/
structure TokenAt (d : Dialect) (before : List Token) (t : Token) (rest : List Char) : Prop where
  candidate : Candidate d before t rest
  least {t' : Token} {rest' : List Char} (hsource : t'.text ++ rest' = t.text ++ rest)
    (h : Candidate d before t' rest') : t.kind.rank ≤ t'.kind.rank

/-- The source that tokens are made of. -/
def textOf (tokens : List Token) : List Char := tokens.flatMap Token.text

/-- The tokens are the source, and each stands where it is. -/
def IsSegmentation (d : Dialect) (source : List Char) (tokens : List Token) : Prop :=
  textOf tokens = source ∧
    ∀ before t behind, tokens = before ++ t :: behind → TokenAt d before t (textOf behind)

/-! ## Fragments of tokens -/

/-- Cuts tokens at the boundaries among them: the run before the first boundary, and each boundary with
the run behind it. -/
def runs : List Token → List Token × List (Token × List Token)
  | [] => ([], [])
  | t :: ts =>
    if t.isBoundary then ([], (t, (runs ts).1) :: (runs ts).2)
    else (t :: (runs ts).1, (runs ts).2)

/-- How many lines tokens end. -/
def newlines (tokens : List Token) : Nat := (textOf tokens).count '\n'

/-- The error of a run that starts on the line, if it ends in a construct that does not. -/
def fault? (line : Nat) : List Token → Option SyntaxError
  | [] => none
  | t :: ts =>
    match t.kind with
    | .lexeme .openComment => some (.unterminatedComment line)
    | .lexeme (.openLiteral quote) => some (.unterminatedLiteral line quote)
    | _ => fault? (line + newlines [t]) ts

/-- What a run of tokens has before its first content, or before the construct in it that does not end. -/
def leadOf (run : List Token) : List Token := run.takeWhile fun t => !(t.isContent || t.isOpen)

/-- The statement in a run of tokens: the run from there on. -/
def statementOf (run : List Token) : List Token := run.dropWhile fun t => !(t.isContent || t.isOpen)

/-- The fragment of a run of tokens between boundaries, the first of which is on the line. Without
content there is none. -/
def ofRun (line : Nat) (run : List Token) : List Fragment :=
  let text := String.ofList (Text.trim (textOf (statementOf run)))
  if statementOf run = [] then []
  else
    match fault? line run with
    | some error => [⟨.fault error, text, text, error.line⟩]
    | none => [⟨.sql, text, text, line + newlines (leadOf run)⟩]

/-- The fragment of a boundary: that of a directive line, if it is one. -/
def ofBoundary (d : Dialect) (line : Nat) (t : Token) : List Fragment :=
  match t.kind with
  | .directive x argument =>
    let text := Text.trimRight (Text.dropRight (· == d.terminator) (Text.trim argument))
    [⟨.directive x, String.ofList text, String.ofList (Text.trim t.text), line⟩]
  | .lexeme _ => []

/-- The fragments of a run, of the boundaries behind it and of the runs behind those. -/
def fragmentsFrom (d : Dialect) (line : Nat) (run : List Token) :
    List (Token × List Token) → List Fragment
  | [] => ofRun line run
  | (boundary, next) :: more =>
    ofRun line run ++ ofBoundary d (line + newlines run) boundary ++
      fragmentsFrom d (line + newlines (run ++ [boundary])) next more

/-- The fragments of the tokens of a source. -/
def fragmentsOf (d : Dialect) (tokens : List Token) : List Fragment :=
  fragmentsFrom d 1 (runs tokens).1 (runs tokens).2

end SqlFlow
