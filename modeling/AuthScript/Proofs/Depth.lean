import AuthScript.Proofs.Yield

/-!
# How deep brackets are nested

The depth of nodes is the greatest number of brackets around one place in them, or of
evaluations if only these are counted. Nodes that come to bytes are no deeper than there
is room for brackets and for evaluations, and the parser reads any nodes for which it has
room: reading fails only if some prefix of the tokens has more brackets open than the
nodes have in the end.
-/

namespace AuthScript

namespace Node

mutual

/-- How many brackets are around each other in a node. -/
def depth : Node → Nat
  | push children _ | evaluation children _ => depthAll children + 1
  | _ => 0

/-- How many brackets are around each other in nodes. -/
def depthAll : List Node → Nat
  | [] => 0
  | node :: rest => max (depth node) (depthAll rest)

end

mutual

/-- How many evaluations are around each other in a node. -/
def evaluations : Node → Nat
  | push children _ => evaluationsAll children
  | evaluation children _ => evaluationsAll children + 1
  | _ => 0

/-- How many evaluations are around each other in nodes. -/
def evaluationsAll : List Node → Nat
  | [] => 0
  | node :: rest => max (evaluations node) (evaluationsAll rest)

end

theorem evaluationsAll_cons (node : Node) (rest : List Node) :
    evaluationsAll (node :: rest) = max (evaluations node) (evaluationsAll rest) := by
  rw [evaluationsAll]

theorem evaluations_literal {node : Node} (h : IsLiteral node) : evaluations node = 0 := by
  cases h <;> simp [evaluations]

theorem depthAll_cons (node : Node) (rest : List Node) :
    depthAll (node :: rest) = max (depth node) (depthAll rest) := by rw [depthAll]

theorem depth_literal {node : Node} (h : IsLiteral node) : depth node = 0 := by
  cases h <;> simp [depth]

theorem depthAll_append (first others : List Node) :
    depthAll (first ++ others) = max (depthAll first) (depthAll others) := by
  induction first with
  | nil => simp [depthAll]
  | cons node first ih => rw [List.cons_append, depthAll_cons, depthAll_cons, ih, Nat.max_assoc]

@[simp] theorem depthAll_reverse (nodes : List Node) : depthAll nodes.reverse = depthAll nodes := by
  induction nodes with
  | nil => rfl
  | cons node rest ih =>
      rw [List.reverse_cons, depthAll_append, ih, depthAll_cons, depthAll_cons, Nat.max_comm]
      simp [depthAll]

/-- Where nodes stand does not matter for their depth. -/
theorem depthAll_bareAll (nodes : List Node) : depthAll (bareAll nodes) = depthAll nodes := by
  induction nodes using nodesInduction with
  | nil => rfl
  | literal node rest hnode ih => cases hnode <;> simp only [bareAll, bare, depthAll, depth, ih]
  | identifier name range rest ih => simp only [bareAll, bare, depthAll, depth, ih]
  | push children range rest inside ih => simp only [bareAll, bare, depthAll, depth, inside, ih]
  | evaluation children range rest inside ih =>
      simp only [bareAll, bare, depthAll, depth, inside, ih]

end Node

/-! ## The parser -/

namespace Tree

/-- The depth that nodes have when all brackets around them are closed, given the depth
of those inside. -/
def closedDepth : List Frame → Nat → Nat
  | [], inner => inner
  | frame :: outer, inner => closedDepth outer (max (inner + 1) (Node.depthAll frame.before))

theorem closedDepth_mono (frames : List Frame) {inner inner' : Nat} (h : inner ≤ inner') :
    closedDepth frames inner ≤ closedDepth frames inner' := by
  induction frames generalizing inner inner' with
  | nil => exact h
  | cons frame outer ih =>
      refine ih (Nat.max_le.2 ⟨?_, Nat.le_max_right _ _⟩)
      exact Nat.le_trans (Nat.succ_le_succ h) (Nat.le_max_left _ _)

theorem length_le_closedDepth (frames : List Frame) (inner : Nat) :
    frames.length + inner ≤ closedDepth frames inner := by
  induction frames generalizing inner with
  | nil => simp [closedDepth]
  | cons frame outer ih =>
      have h := ih (max (inner + 1) (Node.depthAll frame.before))
      have hmax : inner + 1 ≤ max (inner + 1) (Node.depthAll frame.before) := Nat.le_max_left _ _
      rw [closedDepth, List.length_cons]
      omega

namespace Progress

/-- The depth of what has been read, if all brackets were closed now. -/
def depth (p : Progress) : Nat := closedDepth p.frames (Node.depthAll p.nodes)

theorem length_frames_le (p : Progress) : p.frames.length ≤ p.depth :=
  Nat.le_trans (Nat.le_add_right _ _) (length_le_closedDepth _ _)

theorem depth_le_add (p : Progress) (node : Node) : p.depth ≤ (p.add node).depth := by
  refine closedDepth_mono p.frames ?_
  rw [add, Node.depthAll_cons]
  exact Nat.le_max_right _ _

theorem depth_bracket (opening : Token) (children : List Node) (range : Range) :
    (bracket opening children range).depth = Node.depthAll children + 1 := by
  unfold bracket
  split <;> rw [Node.depth]

variable {bounds : Bounds} {limit : Nat} {p q : Progress} {token : Token}

theorem descend_eq_ok :
    p.descend limit token = .ok q ↔
      p.frames.length < limit ∧ ⟨⟨token, p.nodes⟩ :: p.frames, []⟩ = q := by
  unfold descend
  by_cases full : limit ≤ p.frames.length
  · simp [full, Nat.not_lt.2 full]
  · simp [full, Nat.not_le.1 full]

theorem ascend_depth (h : p.ascend token = .ok q) : q.depth = p.depth := by
  unfold ascend at h
  cases hf : p.frames with
  | nil => simp [hf] at h
  | cons frame outer =>
      simp only [hf] at h
      split at h
      · obtain rfl := Except.ok.inj h
        simp only [depth, hf, closedDepth, Node.depthAll_cons, depth_bracket,
          Node.depthAll_reverse]
      · cases h

/-- A token that opens no bracket is read alike under every limit, and makes what has
been read no less deep. -/
theorem step_cases (h : p.step bounds token = .ok q) :
    (p.descend bounds.brackets token = .ok q ∧
        ∀ limit, p.step { bounds with brackets := limit } token = p.descend limit token) ∨
      (p.depth ≤ q.depth ∧
        ∀ limit, p.step { bounds with brackets := limit } token = .ok q) := by
  unfold step at h ⊢
  cases hk : token.kind with
  | identifier =>
      simp only [hk] at h ⊢
      obtain rfl := Except.ok.inj h
      exact .inr ⟨depth_le_add _ _, fun _ => rfl⟩
  | integer =>
      simp only [hk] at h ⊢
      cases hv : Decimal.parse bounds.digits token.text with
      | error fault => simp [hv] at h
      | ok value =>
          simp only [hv] at h ⊢
          obtain rfl := Except.ok.inj h
          exact .inr ⟨depth_le_add _ _, fun _ => rfl⟩
  | hex =>
      simp only [hk] at h ⊢
      by_cases empty : (token.text.drop 2).isEmpty = true
      · simp [empty] at h
      · simp only [empty] at h ⊢
        obtain rfl := Except.ok.inj h
        exact .inr ⟨depth_le_add _ _, fun _ => rfl⟩
  | utf8 =>
      simp only [hk] at h ⊢
      obtain rfl := Except.ok.inj h
      exact .inr ⟨depth_le_add _ _, fun _ => rfl⟩
  | pushOpen | evalOpen =>
      simp only [hk] at h ⊢
      exact .inl ⟨h, fun _ => trivial⟩
  | pushClose | evalClose =>
      simp only [hk] at h ⊢
      exact .inr ⟨Nat.le_of_eq (ascend_depth h).symm, fun _ => h⟩
  | lineComment | blockComment | whitespace =>
      simp only [hk] at h ⊢
      obtain rfl := Except.ok.inj h
      exact .inr ⟨Nat.le_refl _, fun _ => rfl⟩

theorem depth_le_step (h : p.step bounds token = .ok q) : p.depth ≤ q.depth := by
  rcases step_cases h with ⟨opens, _⟩ | ⟨deeper, _⟩
  · obtain ⟨_, rfl⟩ := descend_eq_ok.1 opens
    exact closedDepth_mono p.frames (Nat.le_max_right _ _)
  · exact deeper

/-- A limit that is no lower reads the same. -/
theorem step_of_le (h : p.step bounds token = .ok q) (more : bounds.brackets ≤ limit) :
    p.step { bounds with brackets := limit } token = .ok q := by
  rcases step_cases h with ⟨opens, same⟩ | ⟨_, same⟩
  · obtain ⟨room, rfl⟩ := descend_eq_ok.1 opens
    rw [same]
    exact descend_eq_ok.2 ⟨Nat.lt_of_lt_of_le room more, rfl⟩
  · exact same limit

theorem foldlM_of_le {tokens : List Token} (h : tokens.foldlM (step bounds) p = .ok q)
    (more : bounds.brackets ≤ limit) :
    tokens.foldlM (step { bounds with brackets := limit }) p = .ok q := by
  induction tokens generalizing p with
  | nil => exact h
  | cons token rest ih =>
      rw [List.foldlM_cons] at h ⊢
      obtain ⟨next, hnext, hrest⟩ := except_bind_eq_ok.1 h
      exact except_bind_eq_ok.2 ⟨next, step_of_le hnext more, ih hrest⟩

/-- A limit that has room for the outcome reads a token alike. -/
theorem step_of_depth_le (h : p.step bounds token = .ok q) (room : q.depth ≤ limit) :
    p.step { bounds with brackets := limit } token = .ok q := by
  rcases step_cases h with ⟨opens, same⟩ | ⟨_, same⟩
  · obtain ⟨_, rfl⟩ := descend_eq_ok.1 opens
    have hlength := length_frames_le ⟨⟨token, p.nodes⟩ :: p.frames, []⟩
    rw [same]
    exact descend_eq_ok.2 ⟨Nat.le_trans hlength room, rfl⟩
  · exact same limit

theorem foldlM_of_depth_le {tokens : List Token} (h : tokens.foldlM (step bounds) p = .ok q)
    (room : q.depth ≤ limit) :
    p.depth ≤ q.depth ∧ tokens.foldlM (step { bounds with brackets := limit }) p = .ok q := by
  induction tokens generalizing p with
  | nil =>
      obtain rfl : p = q := Except.ok.inj h
      exact ⟨Nat.le_refl _, rfl⟩
  | cons token rest ih =>
      rw [List.foldlM_cons] at h ⊢
      obtain ⟨next, hnext, hrest⟩ := except_bind_eq_ok.1 h
      obtain ⟨deeper, same⟩ := ih hrest
      refine ⟨Nat.le_trans (depth_le_step hnext) deeper, ?_⟩
      exact except_bind_eq_ok.2 ⟨next, step_of_depth_le hnext (Nat.le_trans deeper room), same⟩

theorem finish_eq_ok {nodes : List Node} :
    p.finish = .ok nodes ↔ p.frames = [] ∧ p.nodes.reverse = nodes := by
  unfold finish
  cases p.frames <;> simp

end Progress

end Tree

/-- Tokens spell the same nodes under every limit that has room for these. -/
theorem Node.ofTokens_of_depthAll_le {bounds : Tree.Bounds} {limit : Nat} {tokens : List Token}
    {nodes : List Node} (h : Node.ofTokens bounds tokens = .ok nodes)
    (room : Node.depthAll nodes ≤ limit) :
    Node.ofTokens { bounds with brackets := limit } tokens = .ok nodes := by
  unfold Node.ofTokens at h ⊢
  obtain ⟨p, hp, hfinish⟩ := except_bind_eq_ok.1 h
  obtain ⟨closed, rfl⟩ := Tree.Progress.finish_eq_ok.1 hfinish
  have hdepth : p.depth ≤ limit := by
    rw [Tree.Progress.depth, closed]
    simpa [Tree.closedDepth] using room
  exact except_bind_eq_ok.2 ⟨p, (Tree.Progress.foldlM_of_depth_le hp hdepth).2, hfinish⟩

/-- What can be read under a limit can be read under every limit that is no lower. -/
theorem Compiler.treeOf?_of_le {env : Environment} {options options' : Options} {source : Bytes}
    {nodes : List Node} (h : treeOf? (env.bounds options) source = some nodes)
    (more : options.nestingDepth ≤ options'.nestingDepth) :
    treeOf? (env.bounds options') source = some nodes := by
  obtain ⟨tokens, htokens, hnodes⟩ := Context.treeOf?_eq_some.1 h
  unfold Node.ofTokens at hnodes
  obtain ⟨p, hp, hfinish⟩ := except_bind_eq_ok.1 hnodes
  refine Context.treeOf?_eq_some.2 ⟨tokens, htokens, ?_⟩
  exact except_bind_eq_ok.2 ⟨p, Tree.Progress.foldlM_of_le hp more, hfinish⟩

theorem Compiler.treeOf?_of_depthAll_le {env : Environment} {options options' : Options}
    {source : Bytes} {nodes : List Node} (h : treeOf? (env.bounds options) source = some nodes)
    (room : Node.depthAll nodes ≤ options'.nestingDepth) :
    treeOf? (env.bounds options') source = some nodes := by
  obtain ⟨tokens, htokens, hnodes⟩ := Context.treeOf?_eq_some.1 h
  exact Context.treeOf?_eq_some.2 ⟨tokens, htokens, Node.ofTokens_of_depthAll_le hnodes room⟩

/-! ## Resolving -/

/-- Nodes that come to bytes have room for their brackets. -/
theorem Context.Yields.depthAll_le {ctx : Context} {p : Place} {nodes : List Node} {b : Bytes}
    (h : ctx.Yields p nodes b) :
    Node.depthAll nodes ≤ ctx.options.nestingDepth - p.brackets := by
  induction nodes using Node.nodesInduction generalizing p b with
  | nil => exact Nat.zero_le _
  | literal node rest hnode ih =>
      obtain ⟨own, other, _, hother, rfl⟩ := yields_cons.1 h
      rw [Node.depthAll_cons, Node.depth_literal hnode]
      exact Nat.max_le.2 ⟨Nat.zero_le _, ih hother⟩
  | identifier name range rest ih =>
      obtain ⟨own, other, _, hother, rfl⟩ := yields_cons.1 h
      exact Nat.max_le.2 ⟨Nat.zero_le _, ih hother⟩
  | push children range rest inside ih =>
      obtain ⟨own, other, hown, hother, rfl⟩ := yields_cons.1 h
      obtain ⟨room, contents, hcontents, _⟩ := nodeYields_push.1 hown
      have hin := inside hcontents
      have hbrackets : p.inBracket.brackets = p.brackets + 1 := rfl
      rw [Node.depthAll_cons, Node.depth]
      exact Nat.max_le.2 ⟨by omega, ih hother⟩
  | evaluation children range rest inside ih =>
      obtain ⟨own, other, hown, hother, rfl⟩ := yields_cons.1 h
      obtain ⟨room, _, body, hbody, _⟩ := nodeYields_evaluation.1 hown
      have hin := inside hbody
      have hbrackets : p.inBracket.inEvaluation.brackets = p.brackets + 1 := rfl
      rw [Node.depthAll_cons, Node.depth]
      exact Nat.max_le.2 ⟨by omega, ih hother⟩

/-- Nodes that come to bytes have room for their evaluations. -/
theorem Context.Yields.evaluationsAll_le {ctx : Context} {p : Place} {nodes : List Node}
    {b : Bytes} (h : ctx.Yields p nodes b) :
    Node.evaluationsAll nodes ≤ ctx.options.evaluationDepth - p.evaluations := by
  induction nodes using Node.nodesInduction generalizing p b with
  | nil => exact Nat.zero_le _
  | literal node rest hnode ih =>
      obtain ⟨own, other, _, hother, rfl⟩ := yields_cons.1 h
      rw [Node.evaluationsAll_cons, Node.evaluations_literal hnode]
      exact Nat.max_le.2 ⟨Nat.zero_le _, ih hother⟩
  | identifier name range rest ih =>
      obtain ⟨own, other, _, hother, rfl⟩ := yields_cons.1 h
      exact Nat.max_le.2 ⟨Nat.zero_le _, ih hother⟩
  | push children range rest inside ih =>
      obtain ⟨own, other, hown, hother, rfl⟩ := yields_cons.1 h
      obtain ⟨_, contents, hcontents, _⟩ := nodeYields_push.1 hown
      have hin := inside hcontents
      rw [Node.evaluationsAll_cons, Node.evaluations]
      exact Nat.max_le.2 ⟨hin, ih hother⟩
  | evaluation children range rest inside ih =>
      obtain ⟨own, other, hown, hother, rfl⟩ := yields_cons.1 h
      obtain ⟨_, few, body, hbody, _⟩ := nodeYields_evaluation.1 hown
      have hin := inside hbody
      have hevaluations : p.inBracket.inEvaluation.evaluations = p.evaluations + 1 := rfl
      rw [Node.evaluationsAll_cons, Node.evaluations]
      exact Nat.max_le.2 ⟨by omega, ih hother⟩

end AuthScript
