import AuthScript.Proofs.Comparison
import AuthScript.Proofs.Reference

/-!
# Waiting refines calling

A compilation that waits uses more operations than one that calls, and may use other
ones. Where both are bound and agree, the two do the same as long as the one that calls
succeeds: the same bytecode, and in a debug run the same forms. If everything that is
bound can be called, they fail alike as well. Only log lines tell them apart.

Both statements are one comparison of runs (`Run.alike`), which says of failing runs what
a parameter allows.
-/

namespace AuthScript

/-- Where an operation to call and one to wait for are bound, they answer alike. -/
def Binding.Agrees (b : Binding) : Prop :=
  ∀ call wait, b.sync = some call → b.async = some wait →
    ∀ req data, (wait req data).value = (call req data).value

namespace Environment

/-- What can be waited for and what can be called agree, wherever there are both. -/
structure Agrees (env : Environment) : Prop where
  operations : ∀ cap b, env.operations.binding? cap = some b → b.Agrees
  machines : ∀ machine waiting, env.machine = some machine → env.asyncMachine = some waiting →
    ∀ program, (waiting program).value = (machine program).value

/-- Whatever can be used can be called. -/
structure Callable (env : Environment) : Prop where
  operations : ∀ cap b, env.operations.binding? cap = some b → b.isBound = true →
    b.sync.isSome = true
  machine : env.machine.isSome = true ∨ env.asyncMachine = none

end Environment

/-! ## Operations and machines -/

variable {env : Environment}

theorem Invoker.async_operation (agree : env.Agrees) {cap : Capability} {req : Request}
    {data : Data}
    (h : env.Callable ∨ ∃ b, (sync.operation env.operations cap req data).value = .ok b) :
    (async.operation env.operations cap req data).value =
      (sync.operation env.operations cap req data).value := by
  cases hb : env.operations.binding? cap with
  | none => simp only [async, sync, hb]
  | some binding =>
      obtain ⟨_ | call, _ | wait⟩ := binding
      · simp only [async, sync, hb]
      · -- the operation cannot be called
        rcases h with callable | ⟨b, hcalled⟩
        · exact absurd (callable.operations cap _ hb rfl) Bool.false_ne_true
        · simp [sync, hb, refuse, Logged.silent] at hcalled
      · simp only [async, sync, hb]
      · simp only [async, sync, hb, await, Logged.value_bind]
        exact agree.operations cap _ hb call wait rfl rfl req data

theorem evaluate_async (agree : env.Agrees) {program : Bytes} {range : Range}
    (h : env.Callable ∨ ∃ b, (evaluate .sync env program range).value = .ok b) :
    (evaluate .async env program range).value = (evaluate .sync env program range).value := by
  cases hm : env.machine with
  | none =>
      -- then no evaluation succeeds, and there is no machine at all if all can be called
      have alone : env.asyncMachine = none := by
        rcases h with callable | ⟨b, hb⟩
        · rcases callable.machine with given | alone
          · simp [hm] at given
          · exact alone
        · obtain ⟨machine, hmachine, _⟩ := evaluate_eq_ok.1 hb
          cases hmachine.symm.trans hm
      simp only [evaluate, Invoker.sync, Invoker.async, hm, alone]
  | some machine =>
      cases hw : env.asyncMachine with
      | none => simp only [evaluate, Invoker.sync, Invoker.async, hm, hw]
      | some waiting =>
          have same : (waiting program).value = (machine program).value :=
            agree.machines machine waiting hm hw program
          simp only [evaluate, Invoker.sync, Invoker.async, hm, hw, Logged.value_bind, same]

/-! ## Runs -/

/-- Two runs record the same nodes and end alike, if the first one succeeds or if failing
runs count as well. -/
def Run.alike (failing : Prop) : Run.Comparison where
  Rel r r' := (failing ∨ ∃ a, r.result = .ok a) →
    Event.steps r'.events = Event.steps r.events ∧ r'.result = r.result
  done _ := fun _ => ⟨rfl, rfl⟩
  refl _ := fun _ => ⟨rfl, rfl⟩
  bind := by
    intro α β r r' f f' hr hf h
    have first : failing ∨ ∃ a, r.result = .ok a := by
      refine h.imp_right fun ⟨b, hb⟩ => ?_
      obtain ⟨a, ha, _⟩ := Run.bind_eq_ok.1 hb
      exact ⟨a, ha⟩
    obtain ⟨events, result⟩ := r
    obtain ⟨events', result'⟩ := r'
    obtain ⟨steps, rfl⟩ := hr first
    cases result' with
    | error halt => exact ⟨steps, rfl⟩
    | ok a =>
        have rest := hf a rfl rfl (h.imp_right fun ⟨b, hb⟩ => ⟨b, hb⟩)
        have steps : Event.steps events' = Event.steps events := steps
        refine ⟨?_, rest.2⟩
        rw [Run.bind_ok, Run.bind_ok, Event.steps_append, Event.steps_append, steps, rest.1]
  within := by
    intro α r r' hr id h
    have first : failing ∨ ∃ a, r.result = .ok a :=
      h.imp_right fun ⟨a, ha⟩ => ⟨a, Run.within_eq_ok.1 ha⟩
    obtain ⟨events, result⟩ := r
    obtain ⟨events', result'⟩ := r'
    obtain ⟨steps, rfl⟩ := hr first
    rw [Run.events_within, Run.events_within]
    refine ⟨steps, ?_⟩
    cases result' with
    | ok a => rfl
    | error halt => cases halt <;> rfl

variable {failing : Prop}

/-- Log lines do not count. -/
theorem Run.alike_ofLogged {α : Type} {l l' : Logged α} (h : l'.value = l.value) :
    (alike failing).Rel (ofLogged l) (ofLogged l') := by
  have silent : ∀ l : Logged α, Event.steps (ofLogged l).events = [] := by
    intro l
    simp [ofLogged, Event.steps]
  intro _
  rw [silent, silent, result_ofLogged, result_ofLogged, h]
  exact ⟨rfl, rfl⟩

namespace Context

/-- The context of a compilation that waits. -/
def waiting (ctx : Context) : Context := { ctx with invoker := .async }

variable {ctx : Context}

theorem invoke_alike (agree : ctx.env.Agrees) (calls : ctx.invoker = .sync) (cap : Capability)
    (req : Request) (range : Range) :
    (Run.alike ctx.env.Callable).Rel (ctx.invoke cap req range)
      (ctx.waiting.invoke cap req range) := by
  intro h
  have answered : ctx.env.Callable ∨
      ∃ b, (Invoker.sync.operation ctx.env.operations cap req ctx.data).value = .ok b := by
    refine h.imp_right fun ⟨b, hb⟩ => ⟨b, ?_⟩
    rw [← calls]
    exact invoke_eq_ok.1 hb
  have same := Invoker.async_operation agree answered
  rw [← calls] at same
  exact (Run.alike ctx.env.Callable).bind (Run.alike_ofLogged same)
    (fun _ _ _ => (Run.alike _).refl _) h

theorem finishEvaluation_alike (agree : ctx.env.Agrees) (calls : ctx.invoker = .sync) (p : Place)
    (children : List Resolved) (range : Range) :
    (Run.alike ctx.env.Callable).Rel (finishEvaluation ctx p children range)
      (finishEvaluation ctx.waiting p children range) := by
  unfold finishEvaluation
  refine (Run.alike _).bind ((Run.alike _).refl _) fun body _ _ => ?_
  intro h
  have evaluated : ctx.env.Callable ∨
      ∃ b, (evaluate .sync ctx.env body range).value = .ok b := by
    refine h.imp_right fun ⟨r, hr⟩ => ?_
    obtain ⟨value, hvalue, hrest⟩ := Run.bind_eq_ok.1 hr
    obtain ⟨b, hb, _⟩ := Run.bind_eq_ok.1 hrest
    rw [Run.ofExcept_eq_ok] at hb
    rw [Run.result_ofLogged, calls, hb] at hvalue
    exact ⟨b, Except.ok.inj hvalue⟩
  have same := evaluate_async agree evaluated
  rw [← calls] at same
  exact (Run.alike ctx.env.Callable).bind (Run.alike_ofLogged same)
    (fun _ _ _ => (Run.alike _).refl _) h

/-- A context that calls and the one that waits compare in all their parts. -/
theorem compared_waiting (agree : ctx.env.Agrees) (calls : ctx.invoker = .sync) :
    Compared (Run.alike ctx.env.Callable) (fun _ => True) ctx ctx.waiting where
  options := rfl
  digits := rfl
  source h := h
  missing := by
    intro p hp
    have hp' : ctx.waiting.env.scripts.contains p.script = false := hp
    rw [enter_missing hp, enter_missing hp']
    exact (Run.alike _).refl _
  entry h := (Run.alike _).bind ((Run.alike _).refl _) fun _ _ _ => h trivial
  identifier := by
    intro p nodes name range _ _ _ hr
    have same : ctx.AgreeOn ctx.waiting p.script name :=
      ⟨rfl, fun _ => rfl, rfl, fun _ _ _ _ => rfl⟩
    refine resolveIdentifier_linked_of_agree (Run.alike _).keepsRefusals rfl same ?_ ?_
      fun t _ => hr t
    · intro kind b
      exact (Run.alike _).refl _
    · intro access cap covered signed _ _
      exact invoke_alike agree calls cap _ range
  recordPush p node range := (Run.alike _).refl _
  finish := finishEvaluation_alike agree calls

end Context

/-! ## Compilations -/

namespace Compiler

/-- An artifact is what a run records and how it ends. -/
theorem compile_value_eq {c : Compiler} {id : Bytes} {data : Data} {debug : Bool}
    (h : let ctx : Context := ⟨c.env, data, c.options, .sync, debug⟩
      Event.steps (ctx.waiting.compile id).events = Event.steps (ctx.compile id).events ∧
        (ctx.waiting.compile id).result = (ctx.compile id).result) :
    (c.compile .async debug id data).value = (c.compile .sync debug id data).value := by
  obtain ⟨steps, result⟩ := h
  have tree : ∀ invoker,
      Event.tree? ((⟨c.env, data, c.options, invoker, debug⟩ : Context).compile id).events =
        c.env.program? c.options id := fun _ => Context.tree?_enter { script := id }
  simp only [Context.waiting] at steps result
  simp only [compile, steps, tree, result]

/-- A script that compiles also compiles in a debug run. -/
theorem compile_debug_of_generate {c : Compiler} {id b : Bytes} {data : Data}
    (h : c.generate id data = .ok b) (debug : Bool) :
    ∃ compiled, ((⟨c.env, data, c.options, .sync, debug⟩ : Context).compile id).result =
      .ok compiled := by
  have given : ((c.context data).withScripts c.env.scripts debug).Gives { script := id } b :=
    (generate_eq_ok.1 h).transfer (.same _) (fun _ _ => rfl) (.refl _) rfl
  obtain ⟨compiled, hcompiled, _⟩ := given
  exact ⟨compiled, hcompiled⟩

/-- Where operations and machines agree that can be called and waited for, waiting for
them gives the bytecode that calling them gives, and in a debug run the same forms; and
if all of them can be called, it fails in the same way. -/
theorem generateAsync_refines {c : Compiler} (agree : c.env.Agrees) (id : Bytes) (data : Data) :
    (∀ b, c.generate id data = .ok b → c.generateAsync id data = .ok b ∧
      ∀ debug, (c.compile .async debug id data).value = (c.compile .sync debug id data).value) ∧
    (c.env.Callable → c.generateAsync id data = c.generate id data ∧
      ∀ debug, (c.compile .async debug id data).value = (c.compile .sync debug id data).value) := by
  have compares : ∀ debug, let ctx : Context := ⟨c.env, data, c.options, .sync, debug⟩
      (Run.alike c.env.Callable).Rel (ctx.compile id) (ctx.waiting.compile id) := by
    intro debug ctx
    have compared : Context.Compared (Run.alike ctx.env.Callable) (fun _ => True) ctx
        ctx.waiting := Context.compared_waiting agree rfl
    exact compared.enter { script := id }
  constructor
  · intro b hb
    have same : ∀ debug, (c.compile .async debug id data).value =
        (c.compile .sync debug id data).value := by
      intro debug
      exact compile_value_eq (compares debug (.inr (compile_debug_of_generate hb debug)))
    exact ⟨(congrArg Artifact.result (same false)).trans hb, same⟩
  · intro callable
    have same : ∀ debug, (c.compile .async debug id data).value =
        (c.compile .sync debug id data).value := by
      intro debug
      exact compile_value_eq (compares debug (.inl callable))
    exact ⟨congrArg Artifact.result (same false), same⟩

end Compiler

/-- A wallet that can be called and waited for, a key that can only be waited for, and two
machines. -/
def lockedByWallet : Environment where
  definitions := .ofList [
    (text "wallet", { kind := .walletData }), (text "owner", { kind := .key })]
  scripts := .ofList [
    (text "lock", text "$(<wallet>) <'x'>"),
    (text "owned", text "<owner.public_key>")]
  operations :=
    { key := { async := some Operation.publicKey }
      walletData :=
        { sync := some Operation.walletData
          async := some (Invoker.await .walletData Operation.walletData) } }
  machine := some (interpreter {})
  asyncMachine := some fun program => (interpreter {} program).after [⟨.trace, .machine, program⟩]

theorem lockedByWallet_agrees : lockedByWallet.Agrees := by
  constructor
  · intro cap b hb call wait hcall hwait req data
    cases cap <;> cases hb <;> cases hcall
    cases hwait
    rfl
  · intro machine waiting hmachine hwaiting program
    obtain rfl := Option.some.inj hmachine
    obtain rfl := Option.some.inj hwaiting
    rfl

theorem lockedByOwner_agrees : lockedByOwner.Agrees := by
  constructor
  · intro cap b hb call wait _ hwait
    cases cap <;> cases hb <;> cases hwait
  · intro machine waiting _ hwaiting
    cases hwaiting

theorem lockedByOwner_callable : lockedByOwner.Callable := by
  refine ⟨?_, .inl rfl⟩
  intro cap b hb _
  cases cap <;> cases hb <;> rfl

/-- The first compiler succeeds although a key can only be waited for; the second one lacks
a key, and fails. -/
theorem Compiler.generateAsync_refines_of_wallet :
    let c : Compiler := { env := lockedByWallet }
    let data : Data := { walletData := .ofList [(text "wallet", [0x2a])] }
    let c' : Compiler := { env := lockedByOwner }
    (c.env.Agrees ∧ ¬ c.env.Callable ∧
      c.generate (text "lock") data = .ok [0x2a, 0x01, 0x78] ∧
      c.generateAsync (text "lock") data = .ok [0x2a, 0x01, 0x78] ∧
      (c.compile .async true (text "lock") data).value =
        (c.compile .sync true (text "lock") data).value) ∧
    (c'.env.Agrees ∧ c'.env.Callable ∧ (c'.generate (text "unlock") {}).toOption = none ∧
      c'.generateAsync (text "unlock") {} = c'.generate (text "unlock") {}) := by
  intro c data c'
  constructor
  · have given : c.generate (text "lock") data = .ok [0x2a, 0x01, 0x78] := by decide +kernel
    obtain ⟨waits, same⟩ :=
      (generateAsync_refines lockedByWallet_agrees (text "lock") data).1 _ given
    refine ⟨lockedByWallet_agrees, fun callable => ?_, given, waits, same true⟩
    exact absurd (callable.operations .key _ rfl rfl) Bool.false_ne_true
  · have fails : (c'.generate (text "unlock") {}).toOption = none := by decide +kernel
    have agrees : c'.env.Agrees := lockedByOwner_agrees
    obtain ⟨same, _⟩ := (generateAsync_refines agrees (text "unlock") {}).2 lockedByOwner_callable
    exact ⟨agrees, lockedByOwner_callable, fails, same⟩

end AuthScript
