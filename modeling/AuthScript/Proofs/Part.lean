import AuthScript.Proofs.Yield
import Mathlib.Logic.Relation

/-!
# The parts of a run that succeeds

A run that gives a value has done all that its program says. So the resolution of nodes
contains the resolution of each of their identifiers, with all that happened in it, and
the compilation of a script contains the compilation of every script that it mentions:
one that it names, that it unlocks and signs for, or that it signs as data (`Mentions`).
-/

namespace AuthScript

/-- A run that gave a value happened during another one. -/
structure Run.Part {α β : Type} (r : Run α) (whole : Run β) : Prop where
  given : ∃ a, r.result = .ok a
  events : r.events ⊆ whole.events

namespace Run.Part

variable {α β γ : Type}

theorem refl {r : Run α} (h : ∃ a, r.result = .ok a) : r.Part r := ⟨h, fun _ he => he⟩

theorem trans {r : Run α} {r' : Run β} {whole : Run γ} (h : r.Part r') (h' : r'.Part whole) :
    r.Part whole :=
  ⟨h.given, fun _ he => h'.events (h.events he)⟩

theorem of_bind {r : Run α} {f : α → Run β} (h : ∃ b, (r >>= f).result = .ok b) :
    r.Part (r >>= f) := by
  obtain ⟨b, hb⟩ := h
  obtain ⟨a, ha, _⟩ := bind_eq_ok.1 hb
  exact ⟨⟨a, ha⟩, fun e he => mem_events_bind.2 (.inl he)⟩

theorem of_bind_right {r : Run α} {f : α → Run β} (h : ∃ b, (r >>= f).result = .ok b) :
    ∃ a, r.result = .ok a ∧ (f a).Part (r >>= f) := by
  obtain ⟨b, hb⟩ := h
  obtain ⟨a, ha, hf⟩ := bind_eq_ok.1 hb
  exact ⟨a, ha, ⟨b, hf⟩, fun e he => mem_events_bind.2 (.inr ⟨a, ha, he⟩)⟩

theorem of_within {r : Run α} {id : Bytes} (h : ∃ a, (r.within id).result = .ok a) :
    r.Part (r.within id) := by
  obtain ⟨a, ha⟩ := h
  refine ⟨⟨a, within_eq_ok.1 ha⟩, ?_⟩
  rw [events_within]
  exact fun _ he => he

end Run.Part

namespace Context

variable {ctx : Context} {compile : Place → Run Compiled} {p : Place}

/-- An identifier in a script leads to a script. -/
def LeadsTo (ctx : Context) (s name t : Bytes) : Prop :=
  match Meaning.ofName ctx.env name with
  | .ok .script => name = t
  | .ok (.variable_ access) => access.signedScript? = some t ∨
      access.needsCovered ctx.data name = true ∧ ctx.env.unlocks.find? s = some t
  | _ => False

/-- A script mentions another one, or itself. -/
def Mentions (ctx : Context) (s t : Bytes) : Prop :=
  ∃ nodes, ctx.env.program? ctx.options s = some nodes ∧
    ∃ name ∈ Node.namesAll nodes, ctx.LeadsTo s name t

theorem part_push {children : List Node} {range : Range}
    (h : ∃ r, (resolve ctx compile p (.push children range)).result = .ok r) :
    (resolveAll ctx compile p.inBracket children).Part
      (resolve ctx compile p (.push children range)) := by
  rw [resolve, openBracket_bind] at h ⊢
  split at h
  · simp at h
  · rename_i room
    rw [if_neg room]
    exact .of_bind h

theorem part_evaluation {children : List Node} {range : Range}
    (h : ∃ r, (resolve ctx compile p (.evaluation children range)).result = .ok r) :
    (resolveAll ctx compile p.inBracket.inEvaluation children).Part
      (resolve ctx compile p (.evaluation children range)) := by
  rw [resolve, openBracket_bind, openEvaluation_bind] at h ⊢
  split at h
  · simp at h
  · rename_i room
    rw [if_neg room]
    split at h
    · simp at h
    · rename_i few
      rw [if_neg few]
      exact .of_bind h

theorem part_cons {node : Node} {rest : List Node}
    (h : ∃ resolved, (resolveAll ctx compile p (node :: rest)).result = .ok resolved) :
    (resolve ctx compile p node).Part (resolveAll ctx compile p (node :: rest)) ∧
      (resolveAll ctx compile p rest).Part (resolveAll ctx compile p (node :: rest)) := by
  rw [resolveAll] at h ⊢
  obtain ⟨first, _, hrest⟩ := Run.Part.of_bind_right h
  exact ⟨.of_bind h, (Run.Part.of_bind hrest.given).trans hrest⟩

/-- The identifiers in nodes are resolved where these are. -/
theorem part_resolveAll {nodes : List Node} {name : Bytes}
    (h : ∃ resolved, (resolveAll ctx compile p nodes).result = .ok resolved)
    (hname : name ∈ Node.namesAll nodes) :
    ∃ (q : Place) (range : Range), q.chain = p.chain ∧
      (resolveIdentifier ctx compile q name range).Part (resolveAll ctx compile p nodes) := by
  induction nodes using Node.nodesInduction generalizing p with
  | nil => cases hname
  | literal node rest hnode ih =>
      rw [Node.namesAll_literal hnode] at hname
      obtain ⟨_, others⟩ := part_cons h
      obtain ⟨q, range, hq, part⟩ := ih others.given hname
      exact ⟨q, range, hq, part.trans others⟩
  | identifier id range rest ih =>
      obtain ⟨first, others⟩ := part_cons h
      rcases List.mem_cons.1 hname with rfl | hrest
      · rw [resolve] at first
        exact ⟨p, range, rfl, first⟩
      · obtain ⟨q, range, hq, part⟩ := ih others.given hrest
        exact ⟨q, range, hq, part.trans others⟩
  | push children range rest inside ih =>
      obtain ⟨first, others⟩ := part_cons h
      rcases List.mem_append.1 hname with hin | hrest
      · have opened := (part_push first.given).trans first
        obtain ⟨q, range, hq, part⟩ := inside opened.given hin
        exact ⟨q, range, hq, part.trans opened⟩
      · obtain ⟨q, range, hq, part⟩ := ih others.given hrest
        exact ⟨q, range, hq, part.trans others⟩
  | evaluation children range rest inside ih =>
      obtain ⟨first, others⟩ := part_cons h
      rcases List.mem_append.1 hname with hin | hrest
      · have opened := (part_evaluation first.given).trans first
        obtain ⟨q, range, hq, part⟩ := inside opened.given hin
        exact ⟨q, range, hq, part.trans opened⟩
      · obtain ⟨q, range, hq, part⟩ := ih others.given hrest
        exact ⟨q, range, hq, part.trans others⟩

/-- A reference enters a script that was not in progress. -/
theorem part_refer {t : Bytes} {range : Range}
    (h : ∃ b, (refer ctx compile p t range).result = .ok b) :
    t ∉ p.chain ∧ (compile (p.enter t)).Part (refer ctx compile p t range) := by
  unfold refer at h ⊢
  by_cases again : t ∈ p.chain
  · simp [again] at h
  · refine ⟨again, ?_⟩
    rw [if_neg (by simpa using again)] at h ⊢
    split at h
    · simp at h
    · rename_i deep
      rw [if_neg deep]
      obtain ⟨_, _, entered⟩ := Run.Part.of_bind_right h
      exact (Run.Part.of_bind entered.given).trans entered

theorem part_accessBytes {name : Bytes} {range : Range} {access : Access} {t : Bytes}
    (h : ∃ b, (accessBytes ctx compile p name range access).result = .ok b)
    (leads : access.signedScript? = some t ∨
      access.needsCovered ctx.data name = true ∧ ctx.env.unlocks.find? p.script = some t) :
    (refer ctx compile p t range).Part (accessBytes ctx compile p name range access) := by
  unfold accessBytes at h ⊢
  cases hcap : access.capability? with
  | none => simp [hcap] at h
  | some cap =>
      simp only [hcap] at h ⊢
      have covers := Run.Part.of_bind h
      obtain ⟨covered, _, later⟩ := Run.Part.of_bind_right h
      have signs := (Run.Part.of_bind later.given).trans later
      rcases leads with htarget | ⟨needs, hlocking⟩
      · refine Run.Part.trans ?_ signs
        have given := signs.given
        unfold signedBytecode at given ⊢
        simp only [htarget] at given ⊢
        split at given
        · rename_i known
          rw [if_pos known]
          exact .of_bind given
        · simp at given
      · refine Run.Part.trans ?_ covers
        have given := covers.given
        unfold coveredBytecode at given ⊢
        simp only [needs, hlocking, if_true] at given ⊢
        exact .of_bind given

/-- An identifier refers to the script that it leads to. -/
theorem part_resolveIdentifier {name : Bytes} {range : Range} {t : Bytes}
    (h : ∃ r, (resolveIdentifier ctx compile p name range).result = .ok r)
    (leads : ctx.LeadsTo p.script name t) :
    (refer ctx compile p t range).Part (resolveIdentifier ctx compile p name range) := by
  unfold LeadsTo at leads
  unfold resolveIdentifier at h ⊢
  cases hm : Meaning.ofName ctx.env name with
  | error cause => simp [hm] at leads
  | ok meaning =>
      simp only [hm] at h leads ⊢
      cases meaning with
      | opcode op => cases leads
      | script =>
          obtain rfl := leads
          exact .of_bind h
      | variable_ access =>
          have accessed := Run.Part.of_bind h
          exact (part_accessBytes accessed.given leads).trans accessed

/-- A script that compiles is entered, and its nodes are resolved. -/
theorem part_compile (h : ∃ compiled, (ctx.enter p).result = .ok compiled) :
    .entry p ∈ (ctx.enter p).events ∧
      ∃ nodes, ctx.env.program? ctx.options p.script = some nodes ∧
        (resolveAll ctx ctx.enter p nodes).Part (ctx.enter p) := by
  rw [enter_eq, compileWith] at h ⊢
  cases hsource : ctx.env.scripts.find? p.script with
  | none => simp [hsource] at h
  | some source =>
      simp only [hsource] at h ⊢
      have body := Run.Part.of_within h
      refine ⟨body.events (Run.mem_events_bind.2 (.inl (List.mem_singleton_self _))), ?_⟩
      obtain ⟨_, _, entered⟩ := Run.Part.of_bind_right body.given
      obtain ⟨nodes, hnodes, rest⟩ := Run.Part.of_bind_right entered.given
      have resolved := (Run.Part.of_bind rest.given).trans (rest.trans (entered.trans body))
      exact ⟨nodes, Environment.program?_eq_some.2 ⟨source, hsource, read_eq_ok.1 hnodes⟩, resolved⟩

/-- A script that compiles compiles all that it mentions, with itself in progress. -/
theorem part_enter {t : Bytes} (h : ∃ compiled, (ctx.enter p).result = .ok compiled)
    (mentions : ctx.Mentions p.script t) :
    t ∉ p.chain ∧ ∃ q : Place, q.chain = p.chain ∧
      (ctx.enter (q.enter t)).Part (ctx.enter p) := by
  obtain ⟨nodes, hnodes, name, hname, leads⟩ := mentions
  obtain ⟨_, read, hread, resolved⟩ := part_compile h
  obtain rfl : nodes = read := Option.some.inj (hnodes.symm.trans hread)
  obtain ⟨q, range, hq, identifier⟩ := part_resolveAll resolved.given hname
  have hscript : q.script = p.script := Place.script_eq_of_chain_eq hq
  have reference := part_resolveIdentifier identifier.given (hscript ▸ leads)
  obtain ⟨fresh, entered⟩ := part_refer reference.given
  exact ⟨hq ▸ fresh, q, hq, entered.trans (reference.trans (identifier.trans resolved))⟩

/-- So it compiles all that it can reach. -/
theorem part_of_reflTransGen {s : Bytes} (h : ∃ compiled, (ctx.enter p).result = .ok compiled)
    (hs : Relation.ReflTransGen ctx.Mentions p.script s) :
    ∃ q : Place, q.script = s ∧ p.chain ⊆ q.chain ∧ (ctx.enter q).Part (ctx.enter p) := by
  generalize hstart : p.script = start at hs
  induction hs using Relation.ReflTransGen.head_induction_on generalizing p with
  | refl => exact ⟨p, hstart, fun _ hid => hid, .refl h⟩
  | head mentions _ ih =>
      obtain ⟨_, q, hq, part⟩ := part_enter h (hstart ▸ mentions)
      obtain ⟨r, hr, hsub, hpart⟩ := ih part.given rfl
      refine ⟨r, hr, fun id hid => hsub ?_, hpart.trans part⟩
      rw [Place.chain_enter, hq]
      exact List.mem_append_left _ hid

end Context

end AuthScript
