import AuthScript.Proofs.Preimage
import AuthScript.Proofs.Unwinding

/-!
# The path of an error

A compilation that fails ends with the error of its run, unless an operation breaks off
(`unwound_of_generate`). The chain of that error and its script make a path: the scripts
in progress where the run halts, from the root to the script in which the error was
raised. Each of them mentions the next one, for a run enters no others (`Visits`).
-/

namespace AuthScript

/-- No operation that can be called breaks off. -/
def Environment.Returns (env : Environment) : Prop :=
  ∀ cap b call, env.operations.binding? cap = some b → b.sync = some call →
    ∀ req data what, (call req data).value ≠ .error (.thrown what)

namespace Operation

theorem quiet_ne_thrown (f : Request → Data → Except Fault Bytes) (req : Request) (data : Data)
    (what : Bytes) : (quiet f req data).value ≠ .error (.thrown what) := by
  simp only [quiet, Logged.silent]
  cases f req data <;> simp [Except.mapError]

theorem signature_ne_thrown (signer : Curve.Signer) (req : Request) (data : Data)
    (what : Bytes) : (signature signer req data).value ≠ .error (.thrown what) := by
  unfold signature
  split
  · simp [Logged.silent]
  · split <;> simp [Logged.silent]

end Operation

theorem Environment.returns_of_default {env : Environment} {signer : Curve.Signer}
    (h : env.operations = .default signer) : env.Returns := by
  intro cap b call hb hcall req data what
  rw [h] at hb
  cases cap <;> cases hb <;> cases hcall
  · exact Operation.quiet_ne_thrown _ req data what
  · exact Operation.signature_ne_thrown signer req data what
  · exact Operation.quiet_ne_thrown _ req data what
  · exact Operation.quiet_ne_thrown _ req data what
  · exact Operation.quiet_ne_thrown _ req data what

namespace Context

variable {ctx : Context}

theorem not_breaks (calls : ctx.invoker = .sync) (returns : ctx.env.Returns) : ¬ ctx.Breaks := by
  rintro ⟨cap, req, what, h⟩
  rw [calls] at h
  cases hb : ctx.env.operations.binding? cap with
  | none =>
      simp only [Invoker.sync, hb] at h
      cases h
  | some b =>
      obtain ⟨_ | call, _ | wait⟩ := b
      all_goals simp only [Invoker.sync, hb] at h
      · cases h
      · cases h
      · exact returns cap _ call hb rfl req ctx.data what h
      · exact returns cap _ call hb rfl req ctx.data what h

theorem entry_of_mem_unfinished {events : List Event} {p : Place}
    (h : p ∈ ctx.unfinished events) : .entry p ∈ events :=
  Event.mem_entries.1 (List.mem_filter.1 h).1

end Context

namespace Compiler

variable {c : Compiler} {root : Bytes} {data : Data} {e : CompileError}

theorem failed_of_generate (unbroken : ¬ (c.context data).Breaks)
    (unwinds : (c.context data).UnwindsAt { script := root })
    (h : c.generate root data = .error e) :
    ((c.context data).enter { script := root }).result = .error (.failed e) := by
  obtain ⟨own | what, hresult, rfl⟩ := generate_eq_error.1 h
  · exact hresult
  · exact absurd (unwinds.thrown what hresult) unbroken

/-- The error of a compilation has come out of its root, from the last of the scripts in
progress. -/
theorem unwound_of_generate (known : c.env.scripts.contains root = true)
    (named : (c.context data).Named) (returns : c.env.Returns)
    (h : c.generate root data = .error e) :
    ∃ last, .entry last ∈ ((c.context data).compile root).events ∧
      (c.context data).Unwound { script := root }
        ((c.context data).unfinished ((c.context data).compile root).events) e last := by
  have unbroken : ¬ (c.context data).Breaks := Context.not_breaks rfl returns
  have known' : (c.context data).env.scripts.contains ({ script := root } : Place).script = true :=
    known
  have unwinds := Context.enter_unwinds named known'
  obtain ⟨last, unwound⟩ := unwinds.failed e (failed_of_generate unbroken unwinds h)
  exact ⟨last, Context.entry_of_mem_unfinished (List.mem_of_getLast? unwound.last), unwound⟩

/-- The chain of an error and its script are the scripts in progress where it was raised:
they start with the root, no script is among them twice, each is mentioned by the one
before it, and there are no more references than may be. -/
theorem generate_error_names_path (known : c.env.scripts.contains root = true)
    (named : c.env.scripts.contains [] = false) (returns : c.env.Returns)
    (h : c.generate root data = .error e) :
    let ctx := c.context data
    let places := ctx.unfinished (ctx.compile root).events
    let path := e.chain ++ [e.script]
    places.map Place.script = path ∧ places.getLast?.map Place.chain = some path ∧
      path.head? = some root ∧ path.Nodup ∧ path.length ≤ c.options.referenceDepth + 1 ∧
      path.IsChain ctx.Mentions := by
  intro ctx places path
  have named' : ctx.Named := by
    rintro s t _ ht rfl
    exact absurd (ht.symm.trans named) (by decide)
  obtain ⟨last, entered, unwound⟩ := unwound_of_generate known named' returns h
  have chain : last.chain = path := unwound.chain
  obtain ⟨visits, _⟩ := (Context.enter_confined (.root : ctx.Visits root _)).entries last entered
  refine ⟨unwound.names, ?_, ?_, ?_, ?_, ?_⟩
  · exact (congrArg _ unwound.last).trans (congrArg some chain)
  · exact chain ▸ visits.head?_chain
  · exact chain ▸ visits.nodup
  · exact chain ▸ unwound.depth (Nat.succ_le_succ (Nat.zero_le _))
  · exact chain ▸ visits.isChain

/-- Hexadecimal digits are missing in a script that the locking script names, which the
signature of the root covers. -/
theorem generate_error_names_path_of_data :
    let c := ({ env := lockedByOwner } : Compiler).withSource (text "data") (text "0x5")
    let e : CompileError :=
      ⟨.oddHex (text "5"), ⟨⟨1, 1, 0⟩, ⟨1, 4, 3⟩⟩, text "data", [text "unlock", text "lock"]⟩
    let ctx := c.context dataOfOwner
    c.generate (text "unlock") dataOfOwner = .error e ∧
      (ctx.unfinished (ctx.compile (text "unlock")).events).map Place.script =
        [text "unlock", text "lock", text "data"] ∧
      [text "unlock", text "lock", text "data"].IsChain ctx.Mentions := by
  intro c e ctx
  have failed : c.generate (text "unlock") dataOfOwner = .error e := by
    with_unfolding_all rfl
  have returns : c.env.Returns := Environment.returns_of_default rfl
  obtain ⟨names, _, _, _, _, mentions⟩ := generate_error_names_path rfl rfl returns failed
  exact ⟨failed, names, mentions⟩

end Compiler

end AuthScript
