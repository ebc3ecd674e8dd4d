import AuthScript.Source.Range

/-!
# Tokens

A token is a stretch of the source with its exact text, quotes and number marks
included. Comments and white space are tokens too, so nothing of a source is lost.
-/

namespace AuthScript

namespace Token

/-- What a stretch of the source is. -/
inductive Kind where
  | identifier
  | integer
  | hex
  | utf8
  | pushOpen
  | pushClose
  | evalOpen
  | evalClose
  | lineComment
  | blockComment
  | whitespace
deriving DecidableEq

namespace Kind

/-- All kinds. -/
def all : List Kind :=
  [identifier, integer, hex, utf8, pushOpen, pushClose, evalOpen, evalClose, lineComment,
    blockComment, whitespace]

/-- The name of a kind. -/
def name : Kind → Bytes
  | identifier => text "Identifier"
  | integer => text "Integer"
  | hex => text "Hex"
  | utf8 => text "Utf8"
  | pushOpen => text "PushOpen"
  | pushClose => text "PushClose"
  | evalOpen => text "EvalOpen"
  | evalClose => text "EvalClose"
  | lineComment => text "LineComment"
  | blockComment => text "BlockComment"
  | whitespace => text "Whitespace"

/-- Comments and white space mean nothing to a script. -/
def isTrivia : Kind → Bool
  | lineComment | blockComment | whitespace => true
  | _ => false

end Kind

end Token

/-- A classified stretch of a source. -/
structure Token where
  kind : Token.Kind
  text : Bytes
  range : Range
deriving DecidableEq

/-- The tokens that mean something. -/
def Token.significant (tokens : List Token) : List Token := tokens.filter fun t => !t.kind.isTrivia

end AuthScript
