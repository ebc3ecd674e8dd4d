import AuthScript.Proofs.Run
import AuthScript.Proofs.Tree
import AuthScript.Resolution.Resolve

/-!
# Resolving two trees alike

Resolving is made of a few parts: resolving a literal or an identifier, and opening
and closing a bracket or an evaluation. Where a link holds between these parts in two
contexts, at places that correspond, it holds between the resolutions of any nodes
(`resolveAll_linked`). This is the one induction over trees that statements about
whole runs, their events and errors included, need.
-/

namespace AuthScript

namespace Context

/-- The parts of resolving are linked, at the places that `P` relates and for the
identifiers in `N`. -/
structure Linked (L : Run.Link) (P : Place → Place → Prop) (N : Bytes → Prop)
    (ctx ctx' : Context) (compile compile' : Place → Run Compiled) : Prop where
  literal : ∀ p p' node, P p p' → node.IsLiteral →
    L.Rel (resolve ctx compile p node) (resolve ctx' compile' p' node)
  identifier : ∀ p p' name range, P p p' → N name →
    L.Rel (resolveIdentifier ctx compile p name range)
      (resolveIdentifier ctx' compile' p' name range)
  bracket : ∀ {β : Type} (p p' range) (f f' : Place → Run β), P p p' →
    (P p.inBracket p'.inBracket → L.Rel (f p.inBracket) (f' p'.inBracket)) →
    L.Rel (openBracket ctx p range >>= f) (openBracket ctx' p' range >>= f')
  evaluation : ∀ {β : Type} (p p' range) (f f' : Place → Run β), P p p' →
    (P p.inEvaluation p'.inEvaluation → L.Rel (f p.inEvaluation) (f' p'.inEvaluation)) →
    L.Rel (openEvaluation ctx p range >>= f) (openEvaluation ctx' p' range >>= f')
  recordPush : ∀ p p' node range, P p p' →
    L.Rel (recordPush ctx p node range) (recordPush ctx' p' node range)
  finish : ∀ p p' children range, P p p' →
    L.Rel (finishEvaluation ctx p children range) (finishEvaluation ctx' p' children range)

variable {L : Run.Link} {P : Place → Place → Prop} {N : Bytes → Prop} {ctx ctx' : Context}
  {compile compile' : Place → Run Compiled}

theorem resolveAll_cons_linked {p p' : Place} {node : Node} {rest : List Node}
    (first : L.Rel (resolve ctx compile p node) (resolve ctx' compile' p' node))
    (others : L.Rel (resolveAll ctx compile p rest) (resolveAll ctx' compile' p' rest)) :
    L.Rel (resolveAll ctx compile p (node :: rest))
      (resolveAll ctx' compile' p' (node :: rest)) := by
  rw [resolveAll, resolveAll]
  refine L.bind first fun a _ _ => ?_
  exact L.bind others fun as _ _ => L.done (a :: as)

/-- Linked parts make linked resolutions. -/
theorem resolveAll_linked (h : Linked L P N ctx ctx' compile compile') {p p' : Place}
    (hp : P p p') {nodes : List Node} (hn : ∀ name ∈ Node.namesAll nodes, N name) :
    L.Rel (resolveAll ctx compile p nodes) (resolveAll ctx' compile' p' nodes) := by
  induction nodes using Node.nodesInduction generalizing p p' with
  | nil =>
      rw [resolveAll, resolveAll]
      exact L.done []
  | literal node rest hnode ih =>
      have hrest := ih hp fun name hname => hn name (Node.namesAll_rest _ rest hname)
      exact resolveAll_cons_linked (h.literal p p' node hp hnode) hrest
  | identifier name range rest ih =>
      have hrest := ih hp fun name hname => hn name (Node.namesAll_rest _ rest hname)
      refine resolveAll_cons_linked ?_ hrest
      rw [resolve, resolve]
      exact h.identifier p p' name range hp (hn name (Node.namesAll_identifier name range rest))
  | push children range rest inside ih =>
      have hrest := ih hp fun name hname => hn name (Node.namesAll_rest _ rest hname)
      have hin : ∀ name ∈ Node.namesAll children, N name := fun name hname =>
        hn name (Node.namesAll_push children range rest hname)
      refine resolveAll_cons_linked ?_ hrest
      rw [resolve, resolve]
      refine h.bracket p p' range _ _ hp fun hq => ?_
      refine L.bind (inside hq hin) fun resolved _ _ => ?_
      exact L.bind (h.recordPush p p' _ range hp) fun _ _ _ => L.done _
  | evaluation children range rest inside ih =>
      have hrest := ih hp fun name hname => hn name (Node.namesAll_rest _ rest hname)
      have hin : ∀ name ∈ Node.namesAll children, N name := fun name hname =>
        hn name (Node.namesAll_evaluation children range rest hname)
      refine resolveAll_cons_linked ?_ hrest
      rw [resolve, resolve]
      refine h.bracket p p' range _ _ hp fun hq => ?_
      refine h.evaluation _ _ range _ _ hq fun hq' => ?_
      refine L.bind (inside hq' hin) fun resolved _ _ => ?_
      exact h.finish p p' resolved range hp

/-- Opening a bracket, before what is done behind it. -/
theorem openBracket_bind {β : Type} (p : Place) (range : Range) (f : Place → Run β) :
    openBracket ctx p range >>= f =
      if ctx.options.nestingDepth ≤ p.brackets then
        .fail (.bracketsTooDeep ctx.options.nestingDepth) range
      else f p.inBracket := by
  unfold openBracket
  split
  · exact Run.fail_bind _ _ _
  · exact Run.done_bind _ _

theorem openEvaluation_bind {β : Type} (p : Place) (range : Range) (f : Place → Run β) :
    openEvaluation ctx p range >>= f =
      if ctx.options.evaluationDepth ≤ p.evaluations then
        .fail (.evaluationTooDeep ctx.options.evaluationDepth) range
      else f p.inEvaluation := by
  unfold openEvaluation
  split
  · exact Run.fail_bind _ _ _
  · exact Run.done_bind _ _

end Context

end AuthScript
