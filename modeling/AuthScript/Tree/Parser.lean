import AuthScript.Diagnostic
import AuthScript.Source.Token
import AuthScript.Tree.Node

/-!
# From tokens to trees

The tokens are taken one at a time. What has been read is the list of nodes since
the innermost open bracket, and for every open bracket its token and the nodes
before it; the number of open brackets is the depth. A closing bracket must be of
the kind of the innermost open one, and its node runs from the one to the other.
Comments and white space are passed over.
-/

namespace AuthScript

namespace Tree

/-- How many brackets may be open at a time, and how many digits a number may have, if
there is a limit. -/
structure Bounds where
  brackets : Nat
  digits : Option Nat := none

/-- An open bracket and the nodes before it, last first. -/
structure Frame where
  opening : Token
  before : List Node

/-- What has been read: the open brackets, innermost first, and the nodes since the
innermost one, last first. -/
structure Progress where
  frames : List Frame := []
  nodes : List Node := []

/-- Whether two kinds of tokens are the two brackets of a pair. -/
def isPair : Token.Kind → Token.Kind → Bool
  | .pushOpen, .pushClose => true
  | .evalOpen, .evalClose => true
  | _, _ => false

/-- The node that an opening token makes of the nodes up to its closing bracket. -/
def bracket (opening : Token) (children : List Node) (range : Range) : Node :=
  match opening.kind with
  | .pushOpen => .push children range
  | _ => .evaluation children range

namespace Progress

/-- One node more. -/
def add (p : Progress) (node : Node) : Progress := { p with nodes := node :: p.nodes }

/-- The progress after an opening bracket. -/
def descend (limit : Nat) (p : Progress) (token : Token) : Except CompileError Progress :=
  if limit ≤ p.frames.length then .error ⟨.nestingTooDeep limit, token.range, [], []⟩
  else .ok ⟨⟨token, p.nodes⟩ :: p.frames, []⟩

/-- The progress after a closing bracket. -/
def ascend (p : Progress) (token : Token) : Except CompileError Progress :=
  match p.frames with
  | [] => .error ⟨.unmatchedBracket token.text, token.range, [], []⟩
  | frame :: outer =>
    if isPair frame.opening.kind token.kind then
      .ok ⟨outer, bracket frame.opening p.nodes.reverse
        (Range.merge frame.opening.range token.range) :: frame.before⟩
    else
      .error ⟨.crossedBracket token.text frame.opening.text frame.opening.range, token.range,
        [], []⟩

/-- The progress after a token. -/
def step (bounds : Bounds) (p : Progress) (token : Token) : Except CompileError Progress :=
  match token.kind with
  | .identifier => .ok (p.add (.identifier token.text token.range))
  | .integer =>
    match Decimal.parse bounds.digits token.text with
    | .ok value => .ok (p.add (.integer value token.range))
    | .error fault => .error ⟨.malformedInteger fault.message, token.range, [], []⟩
  | .hex =>
    if (token.text.drop 2).isEmpty then .error ⟨.emptyHex token.text, token.range, [], []⟩
    else .ok (p.add (.hex (token.text.drop 2) token.range))
  | .utf8 => .ok (p.add (.utf8 token.text.tail.dropLast token.range))
  | .pushOpen | .evalOpen => p.descend bounds.brackets token
  | .pushClose | .evalClose => p.ascend token
  | .lineComment | .blockComment | .whitespace => .ok p

/-- The nodes, if every bracket has been closed. -/
def finish (p : Progress) : Except CompileError (List Node) :=
  match p.frames with
  | [] => .ok p.nodes.reverse
  | frame :: _ => .error ⟨.unmatchedBracket frame.opening.text, frame.opening.range, [], []⟩

end Progress

end Tree

/-- The nodes that a list of tokens spells within bounds. -/
def Node.ofTokens (bounds : Tree.Bounds) (tokens : List Token) :
    Except CompileError (List Node) := do
  (← tokens.foldlM (Tree.Progress.step bounds) {}).finish

end AuthScript
