import AuthScript.Tree.Node

/-!
# Trees as lists of nodes

A program is a list of nodes, and so are the contents of every bracket. What holds
of programs is therefore proved on lists alone, by `nodesInduction`: the empty list,
one case for a first node that is a literal, one for each other kind of a first node,
and for a bracket the contents beside the rest.

Two readings of a list are kept here. `namesAll` lists its identifiers, at any
depth; `bareAll` forgets where its nodes stand, so two texts with the same program
agree on it. Trees can be compared, so what a text is read as can be computed.
-/

namespace AuthScript

namespace Node

/-- Nodes that stand for the same bytes everywhere. -/
inductive IsLiteral : Node → Prop where
  | integer (value : Int) (range : Range) : IsLiteral (.integer value range)
  | hex (digits : Bytes) (range : Range) : IsLiteral (.hex digits range)
  | utf8 (contents : Bytes) (range : Range) : IsLiteral (.utf8 contents range)

mutual

/-- The identifiers in a node. -/
def names : Node → List Bytes
  | identifier name _ => [name]
  | push children _ | evaluation children _ => namesAll children
  | _ => []

/-- The identifiers in nodes, at any depth. -/
def namesAll : List Node → List Bytes
  | [] => []
  | node :: rest => names node ++ namesAll rest

end

mutual

/-- A node without its ranges. -/
def bare : Node → Node
  | integer value _ => .integer value {}
  | hex digits _ => .hex digits {}
  | utf8 contents _ => .utf8 contents {}
  | identifier name _ => .identifier name {}
  | push children _ => .push (bareAll children) {}
  | evaluation children _ => .evaluation (bareAll children) {}

/-- Nodes without their ranges. -/
def bareAll : List Node → List Node
  | [] => []
  | node :: rest => bare node :: bareAll rest

end

theorem namesAll_literal {node : Node} (h : IsLiteral node) (rest : List Node) :
    namesAll (node :: rest) = namesAll rest := by
  cases h <;> simp [namesAll, names]

theorem namesAll_rest (node : Node) (rest : List Node) :
    namesAll rest ⊆ namesAll (node :: rest) :=
  fun _ h => List.mem_append_right _ h

theorem namesAll_identifier (name : Bytes) (range : Range) (rest : List Node) :
    name ∈ namesAll (.identifier name range :: rest) :=
  List.mem_append_left _ (by rw [names]; exact List.mem_singleton_self name)

theorem namesAll_push (children : List Node) (range : Range) (rest : List Node) :
    namesAll children ⊆ namesAll (.push children range :: rest) :=
  fun _ h => List.mem_append_left _ (by rw [names]; exact h)

theorem namesAll_evaluation (children : List Node) (range : Range) (rest : List Node) :
    namesAll children ⊆ namesAll (.evaluation children range :: rest) :=
  fun _ h => List.mem_append_left _ (by rw [names]; exact h)

theorem mem_namesAll {node : Node} {nodes : List Node} {name : Bytes} (hname : name ∈ names node)
    (hnode : node ∈ nodes) : name ∈ namesAll nodes := by
  induction hnode with
  | head rest => exact List.mem_append_left _ hname
  | tail first _ ih => exact List.mem_append_right _ ih

theorem nodesInduction {P : List Node → Prop} (nil : P [])
    (literal : ∀ node rest, IsLiteral node → P rest → P (node :: rest))
    (identifier : ∀ name range rest, P rest → P (.identifier name range :: rest))
    (push : ∀ children range rest, P children → P rest → P (.push children range :: rest))
    (evaluation : ∀ children range rest, P children → P rest →
      P (.evaluation children range :: rest))
    (nodes : List Node) : P nodes := by
  refine @Node.rec_1 (fun node => ∀ rest, P rest → P (node :: rest)) P ?_ ?_ ?_ ?_ ?_ ?_ nil ?_
    nodes
  · exact fun value range rest => literal _ rest (.integer value range)
  · exact fun digits range rest => literal _ rest (.hex digits range)
  · exact fun contents range rest => literal _ rest (.utf8 contents range)
  · exact fun name range rest => identifier name range rest
  · exact fun children range inside rest => push children range rest inside
  · exact fun children range inside rest => evaluation children range rest inside
  · exact fun _ rest first others => first rest others

/-- Where nodes stand does not matter for their identifiers. -/
theorem namesAll_bareAll (nodes : List Node) : namesAll (bareAll nodes) = namesAll nodes := by
  induction nodes using nodesInduction with
  | nil => rfl
  | literal node rest hnode ih => cases hnode <;> simp only [bareAll, bare, namesAll, names, ih]
  | identifier name range rest ih => simp only [bareAll, bare, namesAll, names, ih]
  | push children range rest inside ih => simp only [bareAll, bare, namesAll, names, inside, ih]
  | evaluation children range rest inside ih =>
      simp only [bareAll, bare, namesAll, names, inside, ih]

theorem bareAll_eq_hex {nodes : List Node} {digits : Bytes}
    (h : bareAll nodes = [.hex digits {}]) : ∃ range, nodes = [.hex digits range] := by
  cases nodes with
  | nil => cases h
  | cons node rest =>
      obtain ⟨first, others⟩ := List.cons.inj h
      cases node <;> cases first
      cases rest with
      | nil => exact ⟨_, rfl⟩
      | cons _ _ => cases others

theorem bareAll_eq_push {nodes children : List Node}
    (h : bareAll nodes = [.push children {}]) :
    ∃ inner range, nodes = [.push inner range] ∧ bareAll inner = children := by
  cases nodes with
  | nil => cases h
  | cons node rest =>
      obtain ⟨first, others⟩ := List.cons.inj h
      cases node <;> cases first
      cases rest with
      | nil => exact ⟨_, _, rfl, rfl⟩
      | cons _ _ => cases others

/-! ## Comparing trees -/

mutual

/-- Whether two nodes are the same. -/
def same : Node → Node → Bool
  | integer value r, integer value' r' => value = value' && r = r'
  | hex digits r, hex digits' r' => digits = digits' && r = r'
  | utf8 contents r, utf8 contents' r' => contents = contents' && r = r'
  | identifier name r, identifier name' r' => name = name' && r = r'
  | push children r, push children' r' => sameAll children children' && r = r'
  | evaluation children r, evaluation children' r' => sameAll children children' && r = r'
  | _, _ => false

/-- Whether two lists of nodes are the same. -/
def sameAll : List Node → List Node → Bool
  | [], [] => true
  | node :: rest, node' :: rest' => same node node' && sameAll rest rest'
  | _, _ => false

end

theorem same_iff (node : Node) : ∀ node', same node node' = true ↔ node = node' := by
  refine @Node.rec (fun node => ∀ node', same node node' = true ↔ node = node')
    (fun nodes => ∀ nodes', sameAll nodes nodes' = true ↔ nodes = nodes') ?_ ?_ ?_ ?_ ?_ ?_ ?_ ?_
    node
  · intro value r node'
    cases node' <;> simp [same]
  · intro digits r node'
    cases node' <;> simp [same]
  · intro contents r node'
    cases node' <;> simp [same]
  · intro name r node'
    cases node' <;> simp [same]
  · intro children r inside node'
    cases node' <;> simp [same, inside]
  · intro children r inside node'
    cases node' <;> simp [same, inside]
  · intro nodes'
    cases nodes' <;> simp [sameAll]
  · intro node rest first others nodes'
    cases nodes' <;> simp [sameAll, first, others]

instance decidableEqNode : DecidableEq Node := fun node node' =>
  decidable_of_iff (same node node' = true) (same_iff node node')

end Node

end AuthScript
