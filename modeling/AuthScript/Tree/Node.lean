import AuthScript.Number.Decimal
import AuthScript.Source.Range

/-!
# Syntax trees

A script is a sequence of nodes: literals, identifiers, pushes `< ... >`, whose
contents become one data push, and evaluations `$( ... )`, whose contents are run
while compiling. A tree is written as an S-expression.
-/

namespace AuthScript

/-- A node of a script. -/
inductive Node where
  /-- An integer literal. -/
  | integer (value : Int) (range : Range)
  /-- A hexadecimal literal, by the digits after its mark. -/
  | hex (digits : Bytes) (range : Range)
  /-- A string literal, by what stands between its quotes. -/
  | utf8 (contents : Bytes) (range : Range)
  /-- A name, with its dots. -/
  | identifier (name : Bytes) (range : Range)
  | push (children : List Node) (range : Range)
  | evaluation (children : List Node) (range : Range)

namespace Node

/-- The range of a node, brackets and quotes included. -/
def range : Node → Range
  | integer _ r | hex _ r | utf8 _ r | identifier _ r | push _ r | evaluation _ r => r

/-- The nodes directly inside a node. -/
def children : Node → List Node
  | push c _ | evaluation c _ => c
  | _ => []

mutual

/-- A node as an S-expression. -/
def format : Node → Bytes
  | integer value _ => text "(int " ++ Bytes.signedDecimal value ++ text ")"
  | hex digits _ => text "(hex " ++ digits ++ text ")"
  | utf8 contents _ => text "(utf8 \"" ++ contents ++ text "\")"
  | identifier name _ => text "(ident " ++ name ++ text ")"
  | push children _ => text "(push" ++ formatRest children ++ text ")"
  | evaluation children _ => text "(eval" ++ formatRest children ++ text ")"

/-- Nodes as S-expressions, each after a blank. -/
def formatRest : List Node → Bytes
  | [] => []
  | node :: rest => text " " ++ format node ++ formatRest rest

end

/-- A script as S-expressions with blanks between them. -/
def formatAll : List Node → Bytes
  | [] => []
  | node :: rest => format node ++ formatRest rest

end Node

end AuthScript
