import AuthScript.Proofs.Confined
import AuthScript.Proofs.Depth
import AuthScript.Proofs.Reference

/-!
# Limits are thresholds

A compilation has three numbers: the most references on a path to a script that it enters,
and the most evaluations and brackets that are open at one place, those around the
references included. They are read off the run: at every script that is entered, what is
open there and what the nodes of the script open inside.

Each limit is compared with one of these numbers and does nothing else. Where the numbers
are within the limits, the run is the same run (`enter_sameIf`); and a run that succeeds
has numbers within its own limits (`enter_enters`). Two runs that succeed are both the
run under the greater limits of the two, so they are the same run as well
(`compile_withOptions_iff`).
-/

namespace AuthScript

/-- The greater limits of two. -/
def Options.most (options options' : Options) : Options where
  referenceDepth := max options.referenceDepth options'.referenceDepth
  evaluationDepth := max options.evaluationDepth options'.evaluationDepth
  nestingDepth := max options.nestingDepth options'.nestingDepth

/-- A run that succeeds enters only places with a property. -/
def Run.Enters {α : Type} (S : Place → Prop) (r : Run α) : Prop :=
  (∃ a, r.result = .ok a) → ∀ q, .entry q ∈ r.events → S q

namespace Run.Enters

variable {α β : Type} {S : Place → Prop}

theorem of_silent {r : Run α} (h : r.Silent) : r.Enters S :=
  fun _ q hq => (h.entries q hq).elim

theorem done (a : α) : (Run.done a).Enters S := of_silent (.done a)

theorem entry {q : Place} (h : S q) : (Run.entry q).Enters S := by
  intro _ q' hq
  obtain rfl : q' = q := by simpa [Run.entry] using hq
  exact h

theorem bind {r : Run α} {f : α → Run β} (hr : r.Enters S)
    (hf : ∀ a, r.result = .ok a → (f a).Enters S) : (r >>= f).Enters S := by
  rintro ⟨b, hb⟩ q hq
  obtain ⟨a, ha, hfa⟩ := bind_eq_ok.1 hb
  rcases mem_events_bind.1 hq with hq | ⟨a', ha', hq⟩
  · exact hr ⟨a, ha⟩ q hq
  · obtain rfl : a = a' := Except.ok.inj (ha.symm.trans ha')
    exact hf a ha ⟨b, hfa⟩ q hq

theorem within {r : Run α} (hr : r.Enters S) (id : Bytes) : (r.within id).Enters S := by
  rintro ⟨a, ha⟩ q hq
  rw [events_within] at hq
  exact hr ⟨a, within_eq_ok.1 ha⟩ q hq

/-- The link of a run that enters only such places to itself. -/
def link (S : Place → Prop) : Run.Link := .having (Run.Enters S) done bind

theorem link_keepsSilent : (link S).KeepsSilent := fun _ hr => ⟨rfl, of_silent hr⟩

end Run.Enters

namespace Context

/-! ## What a compilation needs -/

/-- The nodes of the script at a place; none if it cannot be read. -/
def nodesAt (ctx : Context) (p : Place) : List Node :=
  (ctx.env.program? ctx.options p.script).getD []

/-- The references on the path to the script at a place. -/
def referencesAt (p : Place) : Nat := p.above.length

/-- The most evaluations that are open at one place in the script at a place. -/
def evaluationsAt (ctx : Context) (p : Place) : Nat :=
  p.evaluations + Node.evaluationsAll (ctx.nodesAt p)

/-- The most brackets that are open at one place in the script at a place. -/
def bracketsAt (ctx : Context) (p : Place) : Nat :=
  p.brackets + Node.depthAll (ctx.nodesAt p)

/-- The greatest of the numbers that belong to the scripts which a compilation enters. -/
def greatest (ctx : Context) (root : Bytes) (number : Place → Nat) : Nat :=
  ((Event.entries (ctx.compile root).events).map number).foldr max 0

/-- The most references on a path of a compilation. -/
def referencesNeeded (ctx : Context) (root : Bytes) : Nat := ctx.greatest root referencesAt

/-- The most evaluations that are open at a time in a compilation. -/
def evaluationsNeeded (ctx : Context) (root : Bytes) : Nat := ctx.greatest root ctx.evaluationsAt

/-- The most brackets that are open at a time in a compilation. -/
def bracketsNeeded (ctx : Context) (root : Bytes) : Nat := ctx.greatest root ctx.bracketsAt

variable {ctx : Context} {options : Options} {root : Bytes} {p : Place}

theorem greatest_le {number : Place → Nat} {n : Nat} :
    ctx.greatest root number ≤ n ↔
      ∀ q, .entry q ∈ (ctx.compile root).events → number q ≤ n := by
  have all : ∀ places : List Place,
      (places.map number).foldr max 0 ≤ n ↔ ∀ q ∈ places, number q ≤ n := by
    intro places
    induction places with
    | nil => simp
    | cons q rest ih =>
        rw [List.map_cons, List.foldr_cons, Nat.max_le, ih, List.forall_mem_cons]
  rw [greatest, all]
  simp only [Event.mem_entries]

/-- The limits have room for the script at a place. -/
structure Room (ctx : Context) (options : Options) (p : Place) : Prop where
  references : referencesAt p ≤ options.referenceDepth
  evaluations : ctx.evaluationsAt p ≤ options.evaluationDepth
  brackets : ctx.bracketsAt p ≤ options.nestingDepth

theorem nodesAt_eq {nodes : List Node}
    (h : ctx.env.program? ctx.options p.script = some nodes) : ctx.nodesAt p = nodes := by
  rw [nodesAt, h, Option.getD_some]

theorem room_iff {nodes : List Node}
    (h : ctx.env.program? ctx.options p.script = some nodes) :
    ctx.Room options p ↔ referencesAt p ≤ options.referenceDepth ∧
      p.evaluations + Node.evaluationsAll nodes ≤ options.evaluationDepth ∧
      p.brackets + Node.depthAll nodes ≤ options.nestingDepth := by
  rw [← nodesAt_eq h]
  constructor
  · rintro ⟨references, evaluations, brackets⟩
    exact ⟨references, evaluations, brackets⟩
  · rintro ⟨references, evaluations, brackets⟩
    exact ⟨references, evaluations, brackets⟩

/-- The limits have room for all that a compilation needs. -/
theorem needed_le_iff :
    (ctx.referencesNeeded root ≤ options.referenceDepth ∧
      ctx.evaluationsNeeded root ≤ options.evaluationDepth ∧
      ctx.bracketsNeeded root ≤ options.nestingDepth) ↔
    ∀ q, .entry q ∈ (ctx.compile root).events → ctx.Room options q := by
  unfold referencesNeeded evaluationsNeeded bracketsNeeded
  rw [greatest_le, greatest_le, greatest_le]
  constructor
  · rintro ⟨references, evaluations, brackets⟩ q hq
    exact ⟨references q hq, evaluations q hq, brackets q hq⟩
  · intro h
    exact ⟨fun q hq => (h q hq).references, fun q hq => (h q hq).evaluations,
      fun q hq => (h q hq).brackets⟩

/-! ## A run with room is the same run under other limits -/

/-- If the first run succeeds and all the places it enters have a property, the second run
is the same. -/
def sameIf (S : Place → Prop) : Run.Link where
  Rel r r' := (∃ a, r.result = .ok a) → (∀ q, .entry q ∈ r.events → S q) → r = r'
  done _ := fun _ _ => rfl
  bind := by
    rintro α β r r' f f' hr hf ⟨b, hb⟩ entries
    obtain ⟨a, ha, hfa⟩ := Run.bind_eq_ok.1 hb
    obtain rfl := hr ⟨a, ha⟩ fun q hq => entries q (Run.mem_events_bind.2 (.inl hq))
    have hrest : f a = f' a := hf a ha ha ⟨b, hfa⟩ fun q hq =>
      entries q (Run.mem_events_bind.2 (.inr ⟨a, ha, hq⟩))
    obtain ⟨events, result⟩ := r
    obtain rfl : result = .ok a := ha
    rw [Run.bind_ok, Run.bind_ok, hrest]

/-- A limit that is met makes the first run fail, so the second may do anything. -/
theorem sameIf_ite {S : Place → Prop} {α : Type} {full : Prop} [Decidable full] {cause : Cause}
    {range : Range} {r r' : Run α} (h : ¬ full → (sameIf S).Rel r r') :
    (sameIf S).Rel (if full then .fail cause range else r) r' := by
  split
  · rintro ⟨a, ha⟩
    cases ha
  · rename_i room
    exact h room

theorem sameIf_within {S : Place → Prop} {α : Type} {r r' : Run α} (h : (sameIf S).Rel r r')
    (id : Bytes) : (sameIf S).Rel (r.within id) (r'.within id) := by
  rintro ⟨a, ha⟩ entries
  rw [Run.events_within] at entries
  rw [h ⟨a, Run.within_eq_ok.1 ha⟩ entries]

theorem sameIf_self (S : Place → Prop) {α : Type} (r : Run α) : (sameIf S).Rel r r :=
  fun _ _ => rfl

theorem refer_of_fresh {compile : Place → Run Compiled} {t : Bytes} {range : Range}
    (fresh : t ∉ p.chain) (depth : p.chain.length ≤ ctx.options.referenceDepth) :
    refer ctx compile p t range = (do
      .tell .trace .resolver (quoted p.script ++ text " references " ++ quoted t)
      return (← compile (p.enter t)).bytecode) := by
  unfold refer
  rw [if_neg (by simpa using fresh), if_neg (Nat.not_lt.2 depth)]

/-- A reference is followed alike, if the script it leads to is compiled alike. -/
theorem refer_sameIf {S : Place → Prop} (hS : ∀ q, S q → referencesAt q ≤ options.referenceDepth)
    {t : Bytes} {range : Range}
    (h : t ∉ p.chain → (sameIf S).Rel (ctx.enter (p.enter t))
      ((ctx.withOptions options).enter (p.enter t))) :
    (sameIf S).Rel (refer ctx ctx.enter p t range)
      (refer (ctx.withOptions options) (ctx.withOptions options).enter p t range) := by
  rintro ⟨b, hb⟩ entries
  obtain ⟨fresh, entered⟩ := part_refer ⟨b, hb⟩
  obtain ⟨_, depth, _⟩ := refer_eq_ok.1 hb
  have inner : ∀ q, .entry q ∈ (ctx.enter (p.enter t)).events → S q := fun q hq =>
    entries q (entered.events hq)
  have room : p.chain.length ≤ (ctx.withOptions options).options.referenceDepth :=
    hS (p.enter t) (inner _ (part_compile entered.given).1)
  rw [refer_of_fresh fresh depth, refer_of_fresh fresh room, h fresh entered.given inner]

/-- Nodes for whose brackets and evaluations there is room are resolved alike, if
references are followed alike. -/
theorem resolveAll_sameIf {S : Place → Prop} {nodes : List Node}
    (hr : ∀ q : Place, q.chain = p.chain → ∀ t range,
      (sameIf S).Rel (refer ctx ctx.enter q t range)
        (refer (ctx.withOptions options) (ctx.withOptions options).enter q t range))
    (evaluations : p.evaluations + Node.evaluationsAll nodes ≤ options.evaluationDepth)
    (brackets : p.brackets + Node.depthAll nodes ≤ options.nestingDepth) :
    (sameIf S).Rel (resolveAll ctx ctx.enter p nodes)
      (resolveAll (ctx.withOptions options) (ctx.withOptions options).enter p nodes) := by
  induction nodes using Node.nodesInduction generalizing p with
  | nil =>
      rw [resolveAll, resolveAll]
      exact (sameIf S).done []
  | literal node rest hnode ih =>
      rw [Node.evaluationsAll_cons] at evaluations
      rw [Node.depthAll_cons] at brackets
      refine resolveAll_cons_linked ?_ (ih hr (by omega) (by omega))
      have same : resolve (ctx.withOptions options) (ctx.withOptions options).enter p node =
          resolve ctx ctx.enter p node := by
        cases hnode <;> rw [resolve, resolve]
      rw [same]
      exact sameIf_self S _
  | identifier name range rest ih =>
      rw [Node.evaluationsAll_cons] at evaluations
      rw [Node.depthAll_cons] at brackets
      refine resolveAll_cons_linked ?_ (ih hr (by omega) (by omega))
      rw [resolve, resolve]
      exact resolveIdentifier_linked (fun r _ => sameIf_self S r) fun t _ => hr p rfl t range
  | push children range rest inside ih =>
      rw [Node.evaluationsAll_cons, Node.evaluations] at evaluations
      rw [Node.depthAll_cons, Node.depth] at brackets
      have hin := inside (p := p.inBracket) hr (by simp only [Place.inBracket]; omega)
        (by simp only [Place.inBracket]; omega)
      refine resolveAll_cons_linked ?_ (ih hr (by omega) (by omega))
      rw [resolve, resolve, openBracket_bind, openBracket_bind]
      have room : ¬ options.nestingDepth ≤ p.brackets := by omega
      refine sameIf_ite fun _ => ?_
      rw [options_withOptions, if_neg room]
      exact (sameIf S).bind hin fun resolved _ _ => sameIf_self S _
  | evaluation children range rest inside ih =>
      rw [Node.evaluationsAll_cons, Node.evaluations] at evaluations
      rw [Node.depthAll_cons, Node.depth] at brackets
      have hin := inside (p := p.inBracket.inEvaluation) hr
        (by simp only [Place.inBracket, Place.inEvaluation]; omega)
        (by simp only [Place.inBracket, Place.inEvaluation]; omega)
      refine resolveAll_cons_linked ?_ (ih hr (by omega) (by omega))
      rw [resolve, resolve, openBracket_bind, openBracket_bind, openEvaluation_bind,
        openEvaluation_bind]
      have room : ¬ options.nestingDepth ≤ p.brackets := by omega
      have few : ¬ options.evaluationDepth ≤ p.inBracket.evaluations := by
        simp only [Place.inBracket]
        omega
      refine sameIf_ite fun _ => sameIf_ite fun _ => ?_
      rw [options_withOptions, if_neg room, if_neg few]
      exact (sameIf S).bind hin fun resolved _ _ => sameIf_self S _

/-- A source is read alike, if there is room for the brackets in it. -/
theorem read_withOptions {source : Bytes} {nodes : List Node}
    (h : (read ctx source).result = .ok nodes)
    (room : Node.depthAll nodes ≤ options.nestingDepth) :
    read (ctx.withOptions options) source = read ctx source := by
  obtain ⟨tokens, htokens, hnodes⟩ := treeOf?_eq_some.1 (read_eq_ok.1 h)
  have hroom : Node.ofTokens (ctx.env.bounds options) tokens = .ok nodes :=
    Node.ofTokens_of_depthAll_le hnodes room
  unfold read
  simp only [htokens, Run.ofExcept, Run.done_bind, env_withOptions, options_withOptions, hnodes,
    hroom]

/-- The source of a script is compiled alike, if there is room for it and references are
followed alike. -/
theorem compileSource_sameIf {S : Place → Prop} {source : Bytes}
    (hsource : ctx.env.scripts.find? p.script = some source) (room : ctx.Room options p)
    (hr : ∀ q : Place, q.chain = p.chain → ∀ t range,
      (sameIf S).Rel (refer ctx ctx.enter q t range)
        (refer (ctx.withOptions options) (ctx.withOptions options).enter q t range)) :
    (sameIf S).Rel (compileSource ctx ctx.enter p source)
      (compileSource (ctx.withOptions options) (ctx.withOptions options).enter p source) := by
  have fits : ∀ nodes, (read ctx source).result = .ok nodes →
      p.evaluations + Node.evaluationsAll nodes ≤ options.evaluationDepth ∧
        p.brackets + Node.depthAll nodes ≤ options.nestingDepth := by
    intro nodes hnodes
    have program : ctx.env.program? ctx.options p.script = some nodes :=
      Environment.program?_eq_some.2 ⟨source, hsource, read_eq_ok.1 hnodes⟩
    exact ((room_iff program).1 room).2
  unfold compileSource
  refine (sameIf S).bind (sameIf_self S _) fun _ _ _ => ?_
  refine (sameIf S).bind ?_ fun nodes hnodes _ => ?_
  · rintro ⟨nodes, hnodes⟩ _
    obtain ⟨_, brackets⟩ := fits nodes hnodes
    exact (read_withOptions hnodes (by omega)).symm
  · obtain ⟨evaluations, brackets⟩ := fits nodes hnodes
    have resolved := resolveAll_sameIf hr evaluations brackets
    exact (sameIf S).bind resolved fun _ _ _ => sameIf_self S _

/-- A script is compiled alike, if there is room for all scripts that are entered. -/
theorem enter_sameIf (p : Place) :
    (sameIf (ctx.Room options)).Rel (ctx.enter p) ((ctx.withOptions options).enter p) := by
  induction p using placeInduction ctx with
  | missing p hp =>
      have hp' : (ctx.withOptions options).env.scripts.contains p.script = false := hp
      rw [enter_missing hp, enter_missing hp']
      exact sameIf_self _ _
  | known p hp ih =>
      obtain ⟨source, hsource⟩ := (Table.contains_iff_find? _ _).1 hp
      have hsource' : (ctx.withOptions options).env.scripts.find? p.script = some source := hsource
      have references : ∀ q : Place, q.chain = p.chain → ∀ t range,
          (sameIf (ctx.Room options)).Rel (refer ctx ctx.enter q t range)
            (refer (ctx.withOptions options) (ctx.withOptions options).enter q t range) :=
        fun q hq t range =>
          refer_sameIf (fun _ room => room.references) fun fresh => ih q hq t (hq ▸ fresh)
      -- the script is among the entries only because its compilation succeeds
      intro given entries
      have room : ctx.Room options p := entries p (part_compile given).1
      rw [enter_source hsource] at given entries ⊢
      rw [enter_source hsource']
      exact sameIf_within (compileSource_sameIf hsource room references) p.script given entries

/-! ## A run that succeeds stays within its limits -/

/-- A script compiles at a place that is within the limits. -/
structure Entered (ctx : Context) (p : Place) : Prop where
  references : referencesAt p ≤ ctx.options.referenceDepth
  fits : p.Fits ctx.options
  given : ∃ compiled, (ctx.enter p).result = .ok compiled

/-- What a script opens at such a place is within the limits, too. -/
theorem Entered.nodes (h : ctx.Entered p) :
    ∃ nodes, ctx.env.program? ctx.options p.script = some nodes ∧
      p.evaluations + Node.evaluationsAll nodes ≤ ctx.options.evaluationDepth ∧
      p.brackets + Node.depthAll nodes ≤ ctx.options.nestingDepth := by
  obtain ⟨compiled, hcompiled⟩ := h.given
  obtain ⟨nodes, hnodes, yields⟩ := gives_iff.1 ⟨compiled, hcompiled, rfl⟩
  have hevaluations := yields.evaluationsAll_le
  have hbrackets := yields.depthAll_le
  obtain ⟨evaluations, brackets⟩ := h.fits
  exact ⟨nodes, hnodes, by omega, by omega⟩

theorem Entered.room (h : ctx.Entered p) : ctx.Room ctx.options p := by
  obtain ⟨nodes, hnodes, within⟩ := h.nodes
  exact (room_iff hnodes).2 ⟨h.references, within⟩

/-- The script at such a place is read alike under other limits that have room for it. -/
theorem Entered.nodesAt_withOptions (h : ctx.Entered p) (room : ctx.Room options p) :
    (ctx.withOptions options).nodesAt p = ctx.nodesAt p := by
  obtain ⟨nodes, hnodes, _⟩ := h.nodes
  obtain ⟨_, _, brackets⟩ := (room_iff hnodes).1 room
  obtain ⟨source, hsource, htree⟩ := Environment.program?_eq_some.1 hnodes
  have htree' : Compiler.treeOf? (ctx.env.bounds options) source = some nodes :=
    Compiler.treeOf?_of_depthAll_le htree (by omega)
  have hnodes' : (ctx.withOptions options).env.program? (ctx.withOptions options).options
      p.script = some nodes :=
    Environment.program?_eq_some.2 ⟨source, hsource, htree'⟩
  rw [nodesAt_eq hnodes, nodesAt_eq hnodes']

theorem refer_enters {S : Place → Prop} {t : Bytes} {range : Range}
    (h : t ∉ p.chain → referencesAt (p.enter t) ≤ ctx.options.referenceDepth →
      (ctx.enter (p.enter t)).Enters S) :
    (refer ctx ctx.enter p t range).Enters S := by
  rintro ⟨b, hb⟩
  obtain ⟨fresh, depth, _⟩ := refer_eq_ok.1 hb
  rw [refer_of_fresh fresh depth] at hb ⊢
  refine Run.Enters.bind (.of_silent (.tell _ _ _)) (fun _ _ => ?_) ⟨b, hb⟩
  exact .bind (h fresh depth) fun _ _ => .done _

/-- A script that compiles enters only scripts that compile within the limits. -/
theorem enter_enters (references : referencesAt p ≤ ctx.options.referenceDepth)
    (fits : p.Fits ctx.options) : (ctx.enter p).Enters ctx.Entered := by
  induction p using placeInduction ctx with
  | missing p hp =>
      rw [enter_missing hp]
      exact .of_silent (.fail (by simp))
  | known p hp ih =>
      obtain ⟨source, hsource⟩ := (Table.contains_iff_find? _ _).1 hp
      intro given
      have here : ctx.Entered p := ⟨references, fits, given⟩
      rw [enter_source hsource] at given ⊢
      refine Run.Enters.within ?_ p.script given
      unfold compileSource
      refine .bind (.entry here) fun _ _ => ?_
      refine .bind (.of_silent (read_confined source)) fun nodes _ => ?_
      refine .bind ?_ fun resolved _ => ?_
      · refine (resolveAll_self Run.Enters.link_keepsSilent ?_).2
        intro q hq stays name _ t range _
        refine ⟨rfl, refer_enters fun fresh depth => ?_⟩
        have hstays := stays fits
        exact ih q hq t (hq ▸ fresh) depth ⟨hstays.evaluations, hstays.brackets⟩
      · exact .bind (.of_silent (generate_confined resolved)) fun b _ => .done _

theorem compile_enters (root : Bytes) : (ctx.compile root).Enters ctx.Entered :=
  enter_enters (Nat.zero_le _) ⟨Nat.zero_le _, Nat.zero_le _⟩

/-! ## The limits decide whether a compilation succeeds -/

theorem Room.most_left {options' : Options} (h : ctx.Room options p) :
    ctx.Room (options.most options') p :=
  ⟨Nat.le_trans h.references (Nat.le_max_left _ _),
    Nat.le_trans h.evaluations (Nat.le_max_left _ _),
    Nat.le_trans h.brackets (Nat.le_max_left _ _)⟩

theorem Room.most_right {options' : Options} (h : ctx.Room options' p) :
    ctx.Room (options.most options') p :=
  ⟨Nat.le_trans h.references (Nat.le_max_right _ _),
    Nat.le_trans h.evaluations (Nat.le_max_right _ _),
    Nat.le_trans h.brackets (Nat.le_max_right _ _)⟩

/-- Under limits that have room for it, a compilation is the same run. -/
theorem compile_withOptions_of_room (given : ∃ compiled, (ctx.compile root).result = .ok compiled)
    (room : ∀ q, .entry q ∈ (ctx.compile root).events → ctx.Room options q) :
    (ctx.withOptions options).compile root = ctx.compile root :=
  (enter_sameIf _ given room).symm

/-- A compilation that succeeds under two limits is the same run under both. -/
theorem compile_withOptions_of_given
    (given : ∃ compiled, (ctx.compile root).result = .ok compiled)
    (given' : ∃ compiled, ((ctx.withOptions options).compile root).result = .ok compiled) :
    (ctx.withOptions options).compile root = ctx.compile root := by
  have left : (ctx.withOptions (ctx.options.most options)).compile root = ctx.compile root :=
    compile_withOptions_of_room given fun q hq => (compile_enters root given q hq).room.most_left
  have right : (ctx.withOptions (ctx.options.most options)).compile root =
      (ctx.withOptions options).compile root :=
    compile_withOptions_of_room given' fun q hq =>
      (compile_enters root given' q hq).room.most_right
  exact right.symm.trans left

/-- A compilation that succeeds under some limits succeeds under exactly those that have
room for all it needs. -/
theorem compile_withOptions_iff
    (given : ∃ compiled, (ctx.compile root).result = .ok compiled) :
    (∃ compiled, ((ctx.withOptions options).compile root).result = .ok compiled) ↔
      ctx.referencesNeeded root ≤ options.referenceDepth ∧
        ctx.evaluationsNeeded root ≤ options.evaluationDepth ∧
        ctx.bracketsNeeded root ≤ options.nestingDepth := by
  rw [needed_le_iff]
  constructor
  · intro given' q hq
    have here : ctx.Entered q := compile_enters root given q hq
    rw [← compile_withOptions_of_given given given'] at hq
    have there : (ctx.withOptions options).Entered q := compile_enters root given' q hq
    -- both read the script as it is read under the greater limits
    have left : (ctx.withOptions (ctx.options.most options)).nodesAt q = ctx.nodesAt q :=
      here.nodesAt_withOptions here.room.most_left
    have right : (ctx.withOptions (ctx.options.most options)).nodesAt q =
        (ctx.withOptions options).nodesAt q :=
      there.nodesAt_withOptions there.room.most_right
    have same : (ctx.withOptions options).nodesAt q = ctx.nodesAt q := right.symm.trans left
    obtain ⟨references, evaluations, brackets⟩ := there.room
    rw [evaluationsAt, same] at evaluations
    rw [bracketsAt, same] at brackets
    exact ⟨references, evaluations, brackets⟩
  · intro room
    rw [compile_withOptions_of_room given room]
    exact given

end Context

/-- The three limits are thresholds and nothing else: bytecode that is generated under
some limits is generated under exactly those that have room for the references, the
evaluations and the brackets it needs, and it is the same bytecode under all of them. -/
theorem Compiler.generate_iff_needed_le {c : Compiler} {id : Bytes} {data : Data} {b : Bytes}
    (given : c.generate id data = .ok b) (options : Options) :
    ((∃ b', (⟨c.env, options⟩ : Compiler).generate id data = .ok b') ↔
      (c.context data).referencesNeeded id ≤ options.referenceDepth ∧
        (c.context data).evaluationsNeeded id ≤ options.evaluationDepth ∧
        (c.context data).bracketsNeeded id ≤ options.nestingDepth) ∧
    ∀ b', (⟨c.env, options⟩ : Compiler).generate id data = .ok b' → b' = b := by
  have context_eq : (⟨c.env, options⟩ : Compiler).context data =
      (c.context data).withOptions options := rfl
  obtain ⟨compiled, hcompiled, rfl⟩ := generate_eq_ok.1 given
  have given : ∃ compiled, ((c.context data).compile id).result = .ok compiled :=
    ⟨compiled, hcompiled⟩
  simp only [generate_eq_ok, context_eq]
  constructor
  · rw [← Context.compile_withOptions_iff given]
    constructor
    · rintro ⟨_, other, hother, _⟩
      exact ⟨other, hother⟩
    · rintro ⟨other, hother⟩
      exact ⟨_, other, hother, rfl⟩
  · rintro _ ⟨other, hother, rfl⟩
    have same := Context.compile_withOptions_of_given given ⟨other, hother⟩
    have hother : ((c.context data).compile id).result = .ok other := same ▸ hother
    rw [Except.ok.inj (hother.symm.trans hcompiled)]

/-- A push around a script that evaluates a push. -/
theorem Compiler.generate_iff_needed_le_of_lock :
    let c : Compiler := { env := lockedByOwner }
    let root := text "lock"
    let lock : Bytes := [0x51, 0x02, 0x51, 0x78]
    c.generate root dataOfOwner = .ok lock ∧
      (⟨c.env, ⟨1, 1, 3⟩⟩ : Compiler).generate root dataOfOwner = .ok lock ∧
      ¬ (∃ b, (⟨c.env, ⟨0, 1, 3⟩⟩ : Compiler).generate root dataOfOwner = .ok b) ∧
      ¬ (∃ b, (⟨c.env, ⟨1, 0, 3⟩⟩ : Compiler).generate root dataOfOwner = .ok b) ∧
      ¬ (∃ b, (⟨c.env, ⟨1, 1, 2⟩⟩ : Compiler).generate root dataOfOwner = .ok b) := by
  intro c root lock
  have given : c.generate root dataOfOwner = .ok lock := by decide +kernel
  have references : (c.context dataOfOwner).referencesNeeded root = 1 := by decide +kernel
  have evaluations : (c.context dataOfOwner).evaluationsNeeded root = 1 := by decide +kernel
  have brackets : (c.context dataOfOwner).bracketsNeeded root = 3 := by decide +kernel
  have needed : ∀ options : Options,
      (∃ b, (⟨c.env, options⟩ : Compiler).generate root dataOfOwner = .ok b) ↔
        1 ≤ options.referenceDepth ∧ 1 ≤ options.evaluationDepth ∧ 3 ≤ options.nestingDepth := by
    intro options
    have h := (generate_iff_needed_le given options).1
    rwa [references, evaluations, brackets] at h
  obtain ⟨b, hb⟩ := (needed ⟨1, 1, 3⟩).2 (by decide)
  obtain rfl : b = lock := (generate_iff_needed_le given ⟨1, 1, 3⟩).2 b hb
  refine ⟨given, hb, ?_, ?_, ?_⟩
  · exact fun h => absurd ((needed _).1 h) (by decide)
  · exact fun h => absurd ((needed _).1 h) (by decide)
  · exact fun h => absurd ((needed _).1 h) (by decide)

end AuthScript
