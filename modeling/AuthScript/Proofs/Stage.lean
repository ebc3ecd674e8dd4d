import AuthScript.Invoker
import AuthScript.Proofs.Run
import AuthScript.Source.Lexer
import AuthScript.Tree.Parser

/-!
# Where a failure comes from

The parts of a compilation that read a source, generate bytecode or run a program fail
with causes of their own stage. So the causes that are left, among them those of
references, can only come from resolving identifiers.
-/

namespace AuthScript

/-- If there is no value, the stage is to blame. -/
def FailsIn {α : Type} (stage : Stage) (x : Except CompileError α) : Prop :=
  ∀ e, x = .error e → e.stage = stage

namespace FailsIn

variable {α β : Type} {stage : Stage}

theorem ok (a : α) : FailsIn stage (.ok a : Except CompileError α) := by
  intro e h
  cases h

theorem error {e : CompileError} (h : e.stage = stage) :
    FailsIn stage (.error e : Except CompileError α) := by
  intro e' h'
  cases h'
  exact h

theorem bind {x : Except CompileError α} {f : α → Except CompileError β}
    (hx : FailsIn stage x) (hf : ∀ a, FailsIn stage (f a)) : FailsIn stage (x >>= f) := by
  cases x with
  | error e => exact error (hx e rfl)
  | ok a => exact hf a

theorem foldlM {f : β → α → Except CompileError β} (h : ∀ b a, FailsIn stage (f b a))
    (l : List α) (b : β) : FailsIn stage (l.foldlM f b) := by
  induction l generalizing b with
  | nil => exact ok b
  | cons a l ih =>
      rw [List.foldlM_cons]
      exact bind (h b a) ih

end FailsIn

namespace Token

/-- What keeps a token from being found is a cause of the lexer. -/
def Scan.Lexical : Scan → Prop
  | token .. => True
  | stray _ cause | unterminated cause => cause.stage = .lex

theorem scanNumber_lexical {kind : Kind} {cause : UInt8 → Cause} (first : UInt8)
    (more after : Bytes) (h : ∀ c, (cause c).stage = .lex) :
    (scanNumber kind cause first more after).Lexical := by
  unfold scanNumber
  split
  · trivial
  · split
    · exact h _
    · trivial

theorem scan_lexical (c : UInt8) (rest : Bytes) : (scan c rest).Lexical := by
  unfold scan
  -- one step for each way a token can start, in the order in which they are tried
  refine iteInduction (fun _ => trivial) fun _ => ?_
  refine iteInduction (fun _ => trivial) fun _ => ?_
  refine iteInduction (fun _ => ?_) fun _ => ?_
  · cases closeComment [] rest.tail with
    | none => rfl
    | some found => trivial
  refine iteInduction (fun _ => trivial) fun _ => ?_
  refine iteInduction (fun _ => trivial) fun _ => ?_
  refine iteInduction (fun _ => trivial) fun _ => ?_
  refine iteInduction (fun _ => trivial) fun _ => ?_
  refine iteInduction (fun _ => ?_) fun _ => ?_
  · cases rest.dropWhile (· ≠ c) with
    | nil => rfl
    | cons quote after => trivial
  refine iteInduction (fun _ => scanNumber_lexical c _ _ fun _ => rfl) fun _ => ?_
  refine iteInduction (fun _ => scanNumber_lexical c _ _ fun _ => rfl) fun _ => ?_
  exact iteInduction (fun _ => trivial) fun _ => rfl

/-- Tokens are missing only for a reason of the lexer. -/
theorem ofText_failsIn (source : Bytes) : FailsIn .lex (ofText source) := by
  unfold ofText
  generalize ({} : Position) = p
  fun_induction ofTextAt p source with
  | case1 => exact .ok []
  | case2 => exact .ok _
  | case3 p c rest kind more after _ _ failed ih => exact .error (ih _ failed)
  | case4 p c rest before cause scanned => 
      have h := scan_lexical c rest
      rw [scanned] at h
      exact .error h
  | case5 p c rest cause scanned => 
      have h := scan_lexical c rest
      rw [scanned] at h
      exact .error h

end Token

namespace Tree.Progress

theorem descend_failsIn (limit : Nat) (p : Progress) (token : Token) :
    FailsIn .parse (p.descend limit token) := by
  unfold descend
  split
  · exact .error rfl
  · exact .ok _

theorem ascend_failsIn (p : Progress) (token : Token) : FailsIn .parse (p.ascend token) := by
  unfold ascend
  split
  · exact .error rfl
  · split
    · exact .ok _
    · exact .error rfl

theorem step_failsIn (bounds : Bounds) (p : Progress) (token : Token) :
    FailsIn .parse (p.step bounds token) := by
  unfold step
  split
  · exact .ok _
  · split
    · exact .ok _
    · exact .error rfl
  · split
    · exact .error rfl
    · exact .ok _
  · exact .ok _
  · exact descend_failsIn bounds.brackets p token
  · exact descend_failsIn bounds.brackets p token
  · exact ascend_failsIn p token
  · exact ascend_failsIn p token
  · exact .ok p
  · exact .ok p
  · exact .ok p

theorem finish_failsIn (p : Progress) : FailsIn .parse p.finish := by
  unfold finish
  split
  · exact .ok _
  · exact .error rfl

end Tree.Progress

/-- Nodes are missing only for a reason of the parser. -/
theorem Node.ofTokens_failsIn (bounds : Tree.Bounds) (tokens : List Token) :
    FailsIn .parse (Node.ofTokens bounds tokens) := by
  unfold Node.ofTokens
  refine .bind (.foldlM (fun p token => ?_) tokens _) fun p => ?_
  · exact Tree.Progress.step_failsIn bounds p token
  · exact Tree.Progress.finish_failsIn p

theorem Literal.ofHex_failsIn (range : Range) (digits : Bytes) :
    FailsIn .encoding (Literal.ofHex range digits) := by
  unfold Literal.ofHex
  split
  · exact .error rfl
  · split
    · exact .ok _
    · exact .error rfl

theorem Push.encodeAt_failsIn (range : Range) (payload : Bytes) :
    FailsIn .encoding (Push.encodeAt range payload) := by
  unfold Push.encodeAt
  split
  · exact .ok _
  · exact .error rfl

/-- Bytecode is missing only for a reason of the encoding. -/
theorem Resolved.generateAll_failsIn (nodes : List Resolved) :
    FailsIn .encoding (Resolved.generateAll nodes) := by
  refine @Resolved.rec_1 (fun node => FailsIn .encoding node.generate)
    (fun nodes => FailsIn .encoding (generateAll nodes)) ?_ ?_ ?_ ?_ ?_ ?_ ?_ nodes
  · intro b range
    rw [generate]
    exact .ok b
  · intro name op range
    rw [generate]
    exact .ok [op]
  · intro children range inside
    rw [generate]
    cases h : generateAll children with
    | ok contents => exact Push.encodeAt_failsIn range contents
    | error e => exact .error (inside e h)
  · intro children result range inside
    rw [generate]
    exact .ok result
  · intro name b range
    rw [generate]
    exact .ok b
  · rw [generateAll]
    exact .ok []
  · intro node rest first others
    rw [generateAll]
    cases h : generate node with
    | error e => exact .error (first e h)
    | ok own =>
        cases h' : generateAll rest with
        | error e => exact .error (others e h')
        | ok other => exact .ok _

/-- An evaluation fails as one, at its range. -/
theorem evaluate_eq_error {invoker : Invoker} {env : Environment} {program : Bytes}
    {range : Range} {e : CompileError}
    (h : (evaluate invoker env program range).value = .error e) :
    ∃ failure, e = ⟨.evaluation range failure, range, [], []⟩ := by
  cases hm : invoker.machine env with
  | none =>
      simp only [evaluate, hm] at h
      exact ⟨_, (Except.error.inj h).symm⟩
  | some machine =>
      rcases hv : (machine program).value with ⟨_ | reason, _ | ⟨top, stack⟩, executed⟩
      all_goals simp only [evaluate, hm, hv, Logged.value_bind, Logged.value_pure] at h
      · exact ⟨_, (Except.error.inj h).symm⟩
      · cases h
      · exact ⟨_, (Except.error.inj h).symm⟩
      · exact ⟨_, (Except.error.inj h).symm⟩

/-- An evaluation has no value only for a reason of its own. -/
theorem evaluate_failsIn (invoker : Invoker) (env : Environment) (program : Bytes)
    (range : Range) : FailsIn .evaluation (evaluate invoker env program range).value := by
  intro e h
  obtain ⟨failure, rfl⟩ := evaluate_eq_error h
  rfl

end AuthScript
