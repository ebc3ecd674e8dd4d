import AuthScript.Proofs.Confined
import AuthScript.Proofs.Reference
import Mathlib.Data.List.Chain
import Mathlib.Logic.Relation

/-!
# Cycles of references

Two graphs of scripts belong to a compilation. One is read off the sources: a script
mentions the scripts that its identifiers lead to, by name, as the locking script that
it unlocks, or as a script to sign. The other is what a run did: it followed a
reference where it entered one script from another (`Follows`).

A run follows only what is mentioned, and a run that succeeds has followed all of it,
each time to a script that was not in progress. So a compilation that succeeds has no
cycle before it, and without a cycle none is reported.
-/

namespace AuthScript

namespace Context

variable {ctx : Context}

/-! ## The graph of the sources -/

/-- There is a cycle of scripts that can be reached from one. -/
def Cyclic (ctx : Context) (root : Bytes) : Prop :=
  ∃ s, Relation.ReflTransGen ctx.Mentions root s ∧ Relation.TransGen ctx.Mentions s s

/-- The places to which what is mentioned can lead from a root. -/
inductive Visits (ctx : Context) (root : Bytes) : Place → Prop where
  | root : Visits ctx root { script := root }
  | enter {p q : Place} {t : Bytes} : Visits ctx root p →
      ctx.env.scripts.contains p.script = true → ctx.Mentions p.script t → q.chain = p.chain →
      t ∉ p.chain → Visits ctx root (q.enter t)

namespace Visits

variable {root : Bytes} {p : Place}

theorem nodup (h : ctx.Visits root p) : p.chain.Nodup := by
  induction h with
  | root => simp [Place.chain]
  | @enter p q t _ _ _ hq fresh ih =>
      rw [Place.chain_enter, hq]
      refine List.nodup_append.2 ⟨ih, by simp, fun a ha b hb => ?_⟩
      rintro rfl
      rw [List.mem_singleton.1 hb] at ha
      exact fresh ha

/-- The scripts above a place exist. -/
theorem above_known (h : ctx.Visits root p) :
    ∀ id ∈ p.above, ctx.env.scripts.contains id = true := by
  induction h with
  | root => nofun
  | @enter p q t _ known _ hq _ ih =>
      intro id hid
      have hid : id ∈ q.chain := hid
      rw [hq] at hid
      rcases List.mem_append.1 hid with hid | hid
      · exact ih id hid
      · rw [List.mem_singleton.1 hid]
        exact known

/-- Each script in progress can be reached from the root, and leads to the current one. -/
theorem reaches (h : ctx.Visits root p) : ∀ id ∈ p.chain,
    Relation.ReflTransGen ctx.Mentions root id ∧
      Relation.ReflTransGen ctx.Mentions id p.script := by
  induction h with
  | root =>
      intro id hid
      rw [List.mem_singleton.1 hid]
      exact ⟨.refl, .refl⟩
  | @enter p q t _ _ mentions hq _ ih =>
      intro id hid
      rw [Place.chain_enter, hq] at hid
      rcases List.mem_append.1 hid with hid | hid
      · exact ⟨(ih id hid).1, (ih id hid).2.tail mentions⟩
      · have hroot := (ih p.script (List.mem_append_right _ (List.mem_singleton_self _))).1
        rw [List.mem_singleton.1 hid]
        exact ⟨hroot.tail mentions, .refl⟩

theorem head?_chain (h : ctx.Visits root p) : p.chain.head? = some root := by
  induction h with
  | root => rfl
  | @enter p q t _ _ _ hq _ ih => rw [Place.chain_enter, hq, List.head?_append, ih, Option.some_or]

/-- Each script in progress mentions the next one. -/
theorem isChain (h : ctx.Visits root p) : p.chain.IsChain ctx.Mentions := by
  induction h with
  | root => exact .singleton root
  | @enter p q t _ _ mentions hq _ ih =>
      rw [Place.chain_enter, hq]
      refine ih.append (.singleton t) fun s hs u hu => ?_
      rw [Place.chain, List.getLast?_concat] at hs
      obtain rfl := Option.some.inj hs
      obtain rfl := Option.some.inj hu
      exact mentions

/-- A script in progress that is mentioned again closes a cycle. -/
theorem cyclic (h : ctx.Visits root p) {t : Bytes} (mentions : ctx.Mentions p.script t)
    (again : t ∈ p.chain) : ctx.Cyclic root :=
  ⟨t, (h.reaches t again).1, .tail' (h.reaches t again).2 mentions⟩

end Visits

/-! ## Runs follow what is mentioned -/

variable {root : Bytes} {p : Place}

/-- A compilation enters existing scripts at places to which what is mentioned leads,
and it reports a cycle only if there is one. -/
theorem enter_confined (h : ctx.Visits root p) :
    (ctx.enter p).Confined
      (fun q => ctx.Visits root q ∧ ctx.env.scripts.contains q.script = true)
      (ctx.Cyclic root) := by
  induction p using placeInduction ctx with
  | missing p hp =>
      rw [enter_missing hp]
      exact .fail (by simp)
  | known p hp ih =>
      obtain ⟨source, hsource⟩ := (Table.contains_iff_find? _ _).1 hp
      rw [enter_source hsource]
      refine .within ?_ p.script
      unfold compileSource
      refine .bind (.entry ⟨h, hp⟩) fun _ _ => ?_
      refine .bind (read_confined source) fun nodes hnodes => ?_
      refine .bind (resolveAll_confined ?_) fun resolved _ => ?_
      · intro q hq name hname t range leads
        have hscript : q.script = p.script := Place.script_eq_of_chain_eq hq
        have mentions : ctx.Mentions p.script t :=
          ⟨nodes, Environment.program?_eq_some.2 ⟨source, hsource, read_eq_ok.1 hnodes⟩,
            name, hname, hscript ▸ leads⟩
        refine refer_confined (fun again => ?_) (fun fresh => ?_)
        · exact h.cyclic mentions (hq ▸ again)
        · exact ih q hq t (hq ▸ fresh) (.enter h hp mentions hq (hq ▸ fresh))
      · exact .bind (generate_confined resolved) fun b _ => .done _

/-- A run of a script follows a reference from one script to another. -/
def Follows (ctx : Context) (root s t : Bytes) : Prop :=
  ∃ q, .entry q ∈ (ctx.compile root).events ∧ q.above.getLast? = some s ∧ q.script = t

/-- What a run follows is mentioned, by a script that can be reached. -/
theorem Follows.mentions {s t : Bytes} (h : ctx.Follows root s t) :
    ctx.Mentions s t ∧ Relation.ReflTransGen ctx.Mentions root s := by
  obtain ⟨q, hq, hs, rfl⟩ := h
  obtain ⟨visits, _⟩ := (enter_confined .root).entries q hq
  cases visits with
  | root => cases hs
  | @enter p q t visits _ mentions hchain _ =>
      have hs : q.chain.getLast? = some s := hs
      rw [hchain, Place.chain, List.getLast?_concat] at hs
      obtain rfl := Option.some.inj hs
      exact ⟨mentions, (visits.reaches p.script (by simp [Place.chain])).1⟩

/-! ## Runs that succeed follow all that is mentioned -/

/-- No cycle can be reached from a script that compiles. -/
theorem not_cyclic (h : ∃ compiled, (ctx.enter p).result = .ok compiled) :
    ¬ ctx.Cyclic p.script := by
  rintro ⟨s, hreach, hcycle⟩
  obtain ⟨q, rfl, _, hq⟩ := part_of_reflTransGen h hreach
  -- the last script of the cycle is compiled with the first one in progress
  obtain ⟨last, hlast, mentions⟩ := Relation.TransGen.tail'_iff.1 hcycle
  obtain ⟨r, rfl, hsub, hr⟩ := part_of_reflTransGen hq.given hlast
  obtain ⟨fresh, _⟩ := part_enter hr.given mentions
  exact fresh (hsub (by simp [Place.chain]))

/-- A run that succeeds follows exactly what is mentioned by the scripts it can reach. -/
theorem follows_iff (h : ∃ compiled, (ctx.compile root).result = .ok compiled) {s t : Bytes} :
    ctx.Follows root s t ↔ Relation.ReflTransGen ctx.Mentions root s ∧ ctx.Mentions s t := by
  constructor
  · intro hfollows
    exact ⟨hfollows.mentions.2, hfollows.mentions.1⟩
  · rintro ⟨hreach, mentions⟩
    have hroot : ∃ compiled, (ctx.enter { script := root }).result = .ok compiled := h
    obtain ⟨q, rfl, _, hq⟩ := part_of_reflTransGen hroot hreach
    obtain ⟨_, r, hr, part⟩ := part_enter hq.given mentions
    refine ⟨r.enter t, hq.events (part.events (part_compile part.given).1), ?_, rfl⟩
    have habove : (r.enter t).above = q.above ++ [q.script] := hr
    rw [habove, List.getLast?_concat]

theorem Follows.transGen_mentions {s t : Bytes} (h : Relation.TransGen (ctx.Follows root) s t) :
    Relation.TransGen ctx.Mentions s t ∧ Relation.ReflTransGen ctx.Mentions root s := by
  have sub : ctx.Follows root ≤ ctx.Mentions := fun _ _ hstep => hstep.mentions.1
  refine ⟨Relation.TransGen.mono sub _ _ h, ?_⟩
  obtain ⟨_, first, _⟩ := Relation.TransGen.head'_iff.1 h
  exact first.mentions.2

/-- Compiling is a recursion that descends whatever the limits are, with each script in
progress once. A compilation that succeeds has followed all that is mentioned, and no
cycle in it; one that can meet no cycle reports none. -/
theorem compile_detects_cycles (ctx : Context) (root : Bytes) :
    (WellFounded ctx.Below ∧
      (∀ f g p, (∀ q, ctx.Below q p → f q = g q) → compileWith ctx f p = compileWith ctx g p) ∧
      (∀ p, ctx.enter p = compileWith ctx ctx.enter p) ∧
      ∀ p, .entry p ∈ (ctx.compile root).events →
        p.chain.Nodup ∧ ∀ id ∈ p.chain, ctx.env.scripts.contains id = true) ∧
    (∀ compiled, (ctx.compile root).result = .ok compiled →
      (∀ s t, ctx.Follows root s t ↔
        Relation.ReflTransGen ctx.Mentions root s ∧ ctx.Mentions s t) ∧
      ∀ s, ¬ Relation.TransGen (ctx.Follows root) s s) ∧
    (¬ ctx.Cyclic root → ∀ e chain id, (ctx.compile root).result = .error (.failed e) →
      e.cause ≠ .referenceCycle chain id) := by
  have confined := enter_confined (.root : ctx.Visits root { script := root })
  refine ⟨⟨ctx.below_wellFounded, ?_, enter_eq, ?_⟩, ?_, ?_⟩
  · intro f g p h
    exact compileWith_congr_below h
  · intro p hp
    obtain ⟨visits, known⟩ := confined.entries p hp
    refine ⟨visits.nodup, fun id hid => ?_⟩
    rcases List.mem_append.1 hid with hid | hid
    · exact visits.above_known id hid
    · rw [List.mem_singleton.1 hid]
      exact known
  · intro compiled h
    refine ⟨fun s t => follows_iff ⟨compiled, h⟩, fun s hcycle => ?_⟩
    obtain ⟨mentions, reach⟩ := Follows.transGen_mentions hcycle
    have acyclic : ¬ ctx.Cyclic root := not_cyclic (p := { script := root }) ⟨compiled, h⟩
    exact acyclic ⟨s, reach, mentions⟩
  · intro acyclic e chain id h hcause
    exact acyclic (confined.cycles e chain id h hcause)

theorem compile_detects_cycles_of_lock :
    let ctx : Context := ⟨lockedByOwner, dataOfOwner, {}, .sync, false⟩
    let root := text "lock"
    ctx.Follows root root (text "data") ∧ ¬ ctx.Cyclic root ∧
      (∃ compiled, (ctx.compile root).result = .ok compiled ∧
        ∀ s, ¬ Relation.TransGen (ctx.Follows root) s s) ∧
      ∀ e chain id, (ctx.compile root).result = .error (.failed e) →
        e.cause ≠ .referenceCycle chain id := by
  intro ctx root
  have entry : Event.entry ⟨[root], text "data", 0, 1⟩ ∈ (ctx.compile root).events :=
    Event.mem_entries.1 (by decide +kernel)
  have given : (ctx.compile root).result.toOption.isSome = true := by decide +kernel
  obtain ⟨compiled, h⟩ := except_isSome_iff.1 given
  obtain ⟨_, success, failure⟩ := compile_detects_cycles ctx root
  have acyclic : ¬ ctx.Cyclic root := not_cyclic (p := { script := root }) ⟨compiled, h⟩
  exact ⟨⟨_, entry, rfl, rfl⟩, acyclic, ⟨compiled, h, (success compiled h).2⟩, failure acyclic⟩

end Context

end AuthScript
