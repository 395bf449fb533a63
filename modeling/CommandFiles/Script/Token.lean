/-!
# Tokens of a script

The words, literals and marks that the text of a command file is made of. A token carries its
value, never its position: positions are kept as the text that follows.
-/

namespace CommandFiles.Script

/-- Punctuation. A closing angle bracket is always a mark of its own; the operators that begin with
one are put together where an operator is expected, so that nested type arguments can end in
several of them. -/
inductive Mark where
  | braceOpen | braceClose | parenOpen | parenClose | bracketOpen | bracketClose
  | dot | ellipsis | semicolon | comma | question | questionDot | colon | arrow | decorator | hash
  | less | lessEqual | greater
  | equal | notEqual | identical | notIdentical
  | plus | minus | times | slash | percent | power
  | increment | decrement | shiftLeft
  | bitAnd | bitOr | bitXor | bang | tilde | and | or | coalesce
  | assign | plusAssign | minusAssign | timesAssign | slashAssign | percentAssign | powerAssign
  | shiftLeftAssign | bitAndAssign | bitOrAssign | bitXorAssign
  | andAssign | orAssign | coalesceAssign
  deriving DecidableEq, Repr, Inhabited

/-- The longest spelling comes first where one mark begins another. -/
def Mark.spellings : List (List Char × Mark) :=
  [(['{'], .braceOpen), (['}'], .braceClose), (['('], .parenOpen), ([')'], .parenClose),
   (['['], .bracketOpen), ([']'], .bracketClose), (['.', '.', '.'], .ellipsis), (['.'], .dot),
   ([';'], .semicolon), ([','], .comma),
   (['?', '?', '='], .coalesceAssign), (['?', '?'], .coalesce), (['?', '.'], .questionDot),
   (['?'], .question), ([':'], .colon), (['@'], .decorator), (['#'], .hash),
   (['<', '<', '='], .shiftLeftAssign), (['<', '<'], .shiftLeft), (['<', '='], .lessEqual),
   (['<'], .less), (['>'], .greater),
   (['=', '=', '='], .identical), (['=', '='], .equal), (['=', '>'], .arrow), (['='], .assign),
   (['!', '=', '='], .notIdentical), (['!', '='], .notEqual), (['!'], .bang),
   (['+', '+'], .increment), (['+', '='], .plusAssign), (['+'], .plus),
   (['-', '-'], .decrement), (['-', '='], .minusAssign), (['-'], .minus),
   (['*', '*', '='], .powerAssign), (['*', '*'], .power), (['*', '='], .timesAssign),
   (['*'], .times), (['/', '='], .slashAssign), (['/'], .slash),
   (['%', '='], .percentAssign), (['%'], .percent),
   (['&', '&', '='], .andAssign), (['&', '&'], .and), (['&', '='], .bitAndAssign),
   (['&'], .bitAnd),
   (['|', '|', '='], .orAssign), (['|', '|'], .or), (['|', '='], .bitOrAssign), (['|'], .bitOr),
   (['^', '='], .bitXorAssign), (['^'], .bitXor), (['~'], .tilde)]

/-- A piece of text between the expressions of a template. It has no cooked value where an escape
in it is malformed. -/
structure Piece where
  cooked : Option String
  raw : String
  deriving DecidableEq, Inhabited

/-- A token. Keywords are words: the grammar decides where a word is reserved. -/
inductive Token where
  | endOfText
  | word (text : String) (escaped : Bool)
  | privateWord (text : String)
  | number (value : Float)
  | bigNumber (digits : String)
  | string (value : String)
  | piece (piece : Piece) (last : Bool)
  | mark (mark : Mark)
  deriving Inhabited

end CommandFiles.Script
