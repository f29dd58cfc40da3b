/-!
# Tokens

The words of a definition file: keywords, marks, names, literals, runs of dots and fenced
bodies. A token carries the text that it was written with, so `Token.lexeme` gives that text
back.
-/

namespace Interpose.Source

/-- The words that introduce the parts of a definition file. -/
inductive Keyword where
  /-- Introduces a plain import, and the names of an import from a module. -/
  | importWord
  /-- Introduces an import from a module. -/
  | fromWord
  /-- Introduces the name under which something is imported. -/
  | asWord
  /-- Introduces a service block. -/
  | implWord
  /-- Introduces a method of a service. -/
  | rpcWord
  deriving DecidableEq, Repr

/-- How a keyword is written. -/
def Keyword.spelling : Keyword → List Char
  | .importWord => ['i', 'm', 'p', 'o', 'r', 't']
  | .fromWord => ['f', 'r', 'o', 'm']
  | .asWord => ['a', 's']
  | .implWord => ['i', 'm', 'p', 'l']
  | .rpcWord => ['r', 'p', 'c']

/-- All keywords. No keyword begins with another one. -/
def Keyword.all : List Keyword := [.importWord, .fromWord, .asWord, .implWord, .rpcWord]

/-- Brackets, separators and other marks. -/
inductive Mark where
  | dot
  | comma
  | colon
  /-- The sign before an annotation. -/
  | at
  /-- The sign before a result type. -/
  | arrow
  | openParen
  | closeParen
  | openBracket
  | closeBracket
  | openBrace
  | closeBrace
  deriving DecidableEq, Repr

/-- How a mark is written. -/
def Mark.spelling : Mark → List Char
  | .dot => ['.']
  | .comma => [',']
  | .colon => [':']
  | .at => ['@']
  | .arrow => ['-', '>']
  | .openParen => ['(']
  | .closeParen => [')']
  | .openBracket => ['[']
  | .closeBracket => [']']
  | .openBrace => ['\x7b']
  | .closeBrace => ['\x7d']

/-- What opens and closes a body. -/
def fence : List Char := ['\x60', '\x60', '\x60']

/-- A token of a definition file. -/
inductive Token where
  /-- A keyword. -/
  | word (keyword : Keyword)
  /-- A mark. -/
  | mark (mark : Mark)
  /-- A name. -/
  | name (text : String)
  /-- A quoted literal with its quotes. -/
  | quoted (text : String)
  /-- A number with its sign. -/
  | number (text : String)
  /-- The dots of a relative import. -/
  | dots (count : Nat)
  /-- The text between two fences. -/
  | body (text : String)
  deriving DecidableEq, Repr

/-- The text that a token was written with. -/
def Token.lexeme : Token → List Char
  | .word k => k.spelling
  | .mark m => m.spelling
  | .name text => text.toList
  | .quoted text => text.toList
  | .number text => text.toList
  | .dots count => List.replicate count '.'
  | .body text => fence ++ text.toList ++ fence

/-- The tokens that can follow in a definition file, as far as the token before tells. -/
inductive Mode where
  /-- Something is complete: a keyword, a mark or a body follows. -/
  | operator
  /-- A name or a literal follows, or a parenthesis closes. -/
  | operand
  /-- The module of an import follows: dots or a name. -/
  | source
  /-- The rest of a module after its dots follows, or the keyword after the module. -/
  | sourceRest
  deriving DecidableEq, Repr

/-- What can follow a token. -/
def Mode.after : Token → Mode
  | .word .fromWord => .source
  | .word _ => .operand
  | .dots _ => .sourceRest
  | .mark .closeParen => .operator
  | .mark .closeBracket => .operator
  | .mark .openBrace => .operator
  | .mark .closeBrace => .operator
  | .mark _ => .operand
  | .name _ => .operator
  | .quoted _ => .operator
  | .number _ => .operator
  | .body _ => .operator

end Interpose.Source
