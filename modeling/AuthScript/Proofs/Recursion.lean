import AuthScript.Proofs.Link

/-!
# Compiling as a recursion

Compiling is written with a number that bounds how many scripts are entered. That
number is no limit: a script is entered only where it is not in progress, so the
scripts that are left decrease from a place to the places it refers to, and any
number above theirs gives the same run (`compileAt_congr`). So compiling solves the
equation one would write down without the number (`enter_eq`). Nothing but the scripts
of the environment bounds the recursion (`below_wellFounded`), so it is the only
solution (`eq_enter_of_solves`).
-/

namespace AuthScript

namespace Context

variable {ctx : Context} {compile compile' : Place → Run Compiled} {p : Place}

theorem refer_congr (h : ∀ id ∉ p.chain, compile (p.enter id) = compile' (p.enter id)) :
    refer ctx compile p = refer ctx compile' p := by
  funext id range
  unfold refer
  split
  · rfl
  · rename_i fresh
    rw [h id (by simpa using fresh)]

theorem resolveIdentifier_congr
    (h : ∀ id ∉ p.chain, compile (p.enter id) = compile' (p.enter id)) (name : Bytes)
    (range : Range) :
    resolveIdentifier ctx compile p name range = resolveIdentifier ctx compile' p name range := by
  have hr : refer ctx compile p = refer ctx compile' p := refer_congr h
  simp only [resolveIdentifier, accessBytes, coveredBytecode, signedBytecode, hr]

/-- Ways of compiling that agree on the scripts that can be entered resolve nodes
alike. -/
theorem resolveAll_congr
    (h : ∀ q : Place, q.chain = p.chain → ∀ id ∉ p.chain,
      compile (q.enter id) = compile' (q.enter id)) (nodes : List Node) :
    resolveAll ctx compile p nodes = resolveAll ctx compile' p nodes := by
  have parts : Linked .equal (fun q q' => q = q' ∧ q.chain = p.chain) (fun _ => True) ctx ctx
      compile compile' := by
    refine ⟨?_, ?_, ?_, ?_, ?_, ?_⟩
    · rintro q _ node ⟨rfl, _⟩ hnode
      cases hnode <;> simp only [Run.Link.equal, resolve]
    · rintro q _ name range ⟨rfl, hq⟩ _
      exact resolveIdentifier_congr (fun id hid => h q hq id (hq ▸ hid)) name range
    · rintro β q _ range f f' ⟨rfl, hq⟩ hf
      have hf : f q.inBracket = f' q.inBracket := hf ⟨rfl, hq⟩
      simp only [Run.Link.equal, openBracket_bind, hf]
    · rintro β q _ range f f' ⟨rfl, hq⟩ hf
      have hf : f q.inEvaluation = f' q.inEvaluation := hf ⟨rfl, hq⟩
      simp only [Run.Link.equal, openEvaluation_bind, hf]
    · rintro q _ node range ⟨rfl, _⟩
      rfl
    · rintro q _ children range ⟨rfl, _⟩
      rfl
  exact resolveAll_linked parts ⟨rfl, rfl⟩ fun _ _ => trivial

theorem compileWith_congr
    (h : ∀ q : Place, q.chain = p.chain → ∀ id ∉ p.chain,
      compile (q.enter id) = compile' (q.enter id)) :
    compileWith ctx compile p = compileWith ctx compile' p := by
  simp only [compileWith, compileSource, resolveAll_congr h]

/-- A script that does not exist is not compiled, whatever it could refer to. -/
theorem compileWith_missing (missing : ctx.env.scripts.contains p.script = false) :
    compileWith ctx compile p = .fail (.unknownScript p.script) {} := by
  have hfind : ctx.env.scripts.find? p.script = none := by simpa [Table.contains] using missing
  rw [compileWith, hfind]

theorem length_spare_enter {id : Bytes} (known : ctx.env.scripts.contains id = true)
    (fresh : id ∉ p.chain) : (ctx.spare (p.enter id)).length < (ctx.spare p).length := by
  have hsplit : ctx.spare (p.enter id) = (ctx.spare p).filter fun key => decide (key ≠ id) := by
    simp only [spare, List.filter_filter]
    refine List.filter_congr fun key _ => ?_
    simp [Bool.and_comm]
  have hmem : id ∈ ctx.spare p :=
    List.mem_filter.2 ⟨(Table.contains_iff_mem_keys _ _).1 known, by simpa using fresh⟩
  rw [hsplit]
  exact List.length_filter_lt_length_iff_exists.2 ⟨id, hmem, by simp⟩

theorem spare_congr {q : Place} (h : q.chain = p.chain) : ctx.spare q = ctx.spare p := by
  simp only [spare, h]

/-- A script that does not exist is compiled at once; one that does may enter all that
are not in progress, and name one that does not exist. -/
def Suffices (ctx : Context) (n : Nat) (p : Place) : Prop :=
  0 < n ∧ (ctx.env.scripts.contains p.script = true → (ctx.spare p).length + 2 ≤ n)

theorem suffices_enter {n : Nat} {q : Place} {id : Bytes}
    (h : (ctx.spare q).length + 2 ≤ n + 1) (fresh : id ∉ q.chain) :
    ctx.Suffices n (q.enter id) := by
  refine ⟨by omega, fun known => ?_⟩
  have hlt : (ctx.spare (q.enter id)).length < (ctx.spare q).length :=
    length_spare_enter known fresh
  omega

/-- Any number that suffices gives the same run. -/
theorem compileAt_congr {n m : Nat} (hn : ctx.Suffices n p) (hm : ctx.Suffices m p) :
    compileAt ctx n p = compileAt ctx m p := by
  induction n generalizing m p with
  | zero => exact absurd hn.1 (Nat.lt_irrefl 0)
  | succ n ih =>
      obtain ⟨m, rfl⟩ := Nat.exists_eq_add_one.2 hm.1
      rw [compileAt, compileAt]
      by_cases known : ctx.env.scripts.contains p.script = true
      · refine compileWith_congr fun q hq id fresh => ?_
        have hn := hn.2 known
        have hm := hm.2 known
        rw [← spare_congr hq] at hn hm
        exact ih (suffices_enter hn (hq ▸ fresh)) (suffices_enter hm (hq ▸ fresh))
      · have missing : ctx.env.scripts.contains p.script = false := by simpa using known
        rw [compileWith_missing missing, compileWith_missing missing]

theorem suffices_spare (p : Place) : ctx.Suffices ((ctx.spare p).length + 2) p :=
  ⟨Nat.succ_pos _, fun _ => Nat.le_refl _⟩

/-- Compiling the script at a place, by compiling the scripts it refers to. -/
theorem enter_eq (p : Place) : ctx.enter p = compileWith ctx ctx.enter p := by
  rw [enter, compileAt]
  refine compileWith_congr fun q hq id fresh => ?_
  have enough : (ctx.spare q).length + 2 ≤ (ctx.spare p).length + 1 + 1 :=
    Nat.le_of_eq (congrArg (List.length · + 2) (spare_congr hq))
  exact compileAt_congr (suffices_enter enough (hq ▸ fresh)) (suffices_spare _)

theorem enter_missing (missing : ctx.env.scripts.contains p.script = false) :
    ctx.enter p = .fail (.unknownScript p.script) {} := by
  rw [enter_eq, compileWith_missing missing]

theorem enter_source {source : Bytes} (hsource : ctx.env.scripts.find? p.script = some source) :
    ctx.enter p = (compileSource ctx ctx.enter p source).within p.script := by
  rw [enter_eq, compileWith, hsource]

/-- To prove something of every place, prove it of a place whose script exists from
what holds of the places it can enter. -/
theorem placeInduction (ctx : Context) {P : Place → Prop}
    (missing : ∀ p : Place, ctx.env.scripts.contains p.script = false → P p)
    (known : ∀ p : Place, ctx.env.scripts.contains p.script = true →
      (∀ q : Place, q.chain = p.chain → ∀ id ∉ p.chain, P (q.enter id)) → P p)
    (p : Place) : P p := by
  induction hn : (ctx.spare p).length using Nat.strongRecOn generalizing p with
  | _ n ih =>
      cases hp : ctx.env.scripts.contains p.script with
      | false => exact missing p hp
      | true =>
          refine known p hp fun q hq id fresh => ?_
          cases hid : ctx.env.scripts.contains id with
          | false => exact missing _ hid
          | true =>
              have hlt := length_spare_enter hid (hq ▸ fresh : id ∉ q.chain)
              rw [spare_congr hq, hn] at hlt
              exact ih _ hlt _ rfl

/-- A place is below another if the script there exists and may enter it. -/
def Below (ctx : Context) (q p : Place) : Prop :=
  ctx.env.scripts.contains p.script = true ∧
    ∃ (p' : Place) (id : Bytes), p'.chain = p.chain ∧ id ∉ p.chain ∧ q = p'.enter id

/-- There is no infinite descent, whatever the limits are. -/
theorem below_wellFounded (ctx : Context) : WellFounded ctx.Below := by
  refine ⟨fun p => ?_⟩
  induction p using placeInduction ctx with
  | missing p hp =>
      refine ⟨p, fun q hq => ?_⟩
      rw [hq.1] at hp
      exact absurd hp (by decide)
  | known p hp ih =>
      refine ⟨p, fun q hq => ?_⟩
      obtain ⟨_, p', id, hchain, fresh, rfl⟩ := hq
      exact ih p' hchain id fresh

/-- Compiling at a place compiles at no places but those below. -/
theorem compileWith_congr_below (h : ∀ q, ctx.Below q p → compile q = compile' q) :
    compileWith ctx compile p = compileWith ctx compile' p := by
  cases hp : ctx.env.scripts.contains p.script with
  | false => rw [compileWith_missing hp, compileWith_missing hp]
  | true => exact compileWith_congr fun q hq id fresh => h _ ⟨hp, q, id, hq, fresh, rfl⟩

/-- Compiling is the only solution of its equation. -/
theorem eq_enter_of_solves {f : Place → Run Compiled} (h : ∀ p, f p = compileWith ctx f p) :
    f = ctx.enter := by
  funext p
  induction p using ctx.below_wellFounded.induction with
  | _ p ih =>
      rw [h p, enter_eq p]
      exact compileWith_congr_below ih

end Context

end AuthScript
