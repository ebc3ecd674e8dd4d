import AuthScript.Proofs.Path

/-!
# What an error points at

The error of a compilation points into the source of its script, at the token or node to
blame or at what could not be read there. It does so but for two cases. If an identifier
covers a locking script that does not exist, the range says nothing
(`generate_error_points`). And a script with an empty id is not told from a script that has
not been entered: an error that is raised in it gets the id of the script above. Only the
table of locking scripts can lead there, since an identifier of a source is never empty and
does not end in a dot (`named_of_unlocks`).
-/

namespace AuthScript

namespace Token

/-- The bytes of an identifier do not end in a dot. -/
theorem Dotted.getLast?_ne {more : Bytes} (h : Dotted more) : more.getLast? ≠ some 0x2e := by
  induction more with
  | nil => simp
  | cons c more ih =>
      obtain ⟨continues, rest⟩ := h
      cases more with
      | nil =>
          rintro hdot
          obtain rfl : c = 0x2e := by simpa using hdot
          rcases continues with inside | ⟨_, next⟩
          · exact absurd inside (by decide)
          · exact absurd next (by decide)
      | cons d more =>
          rw [List.getLast?_cons_cons]
          exact ih rest

theorem Lexeme.identifier_last {c : UInt8} {more : Bytes} (h : Lexeme .identifier c more) :
    (c :: more).getLast? ≠ some 0x2e := by
  cases h with
  | identifier start rest =>
      rw [List.getLast?_cons]
      cases hlast : more.getLast? with
      | none =>
          rintro hdot
          obtain rfl : c = 0x2e := by simpa using hdot
          exact absurd start (by decide)
      | some d => exact fun hdot => rest.getLast?_ne (hlast.trans hdot)

end Token

/-- An identifier in a script is not empty and does not end in a dot. -/
theorem Environment.identifier_of_program {env : Environment} {options : Options} {s name : Bytes}
    {nodes : List Node} (program : env.program? options s = some nodes)
    (hname : name ∈ Node.namesAll nodes) : name ≠ [] ∧ name.getLast? ≠ some 0x2e := by
  obtain ⟨source, _, read⟩ := program?_eq_some.1 program
  obtain ⟨tokens, tokenized, hnodes⟩ := Context.treeOf?_eq_some.1 read
  obtain ⟨range, part⟩ := Node.mem_namesAll_iff.1 hname
  obtain ⟨t, ht, kind, rfl, _⟩ := Node.madeFrom_of_ofTokens hnodes _ part
  obtain ⟨c, more, text, lexeme⟩ := (Token.legible_of_ofTextAt tokenized).lexeme ht
  rw [kind] at lexeme
  rw [text]
  exact ⟨List.cons_ne_nil c more, lexeme.identifier_last⟩

namespace Context

variable {ctx : Context}

/-- The script with an empty id is entered from another one only as its locking script. -/
theorem named_of_unlocks (h : ∀ u, ctx.env.unlocks.find? u = some [] →
    ctx.env.scripts.contains [] = false) : ctx.Named := by
  rintro s t ⟨nodes, program, name, hname, leads⟩ known rfl
  obtain ⟨some, last⟩ := Environment.identifier_of_program program hname
  unfold LeadsTo at leads
  cases hm : Meaning.ofName ctx.env name with
  | error cause => simp [hm] at leads
  | ok meaning =>
      simp only [hm] at leads
      cases meaning with
      | opcode op => exact leads
      | script => exact some leads
      | variable_ access =>
          rcases leads with signs | ⟨_, unlocks⟩
          · obtain ⟨kind, path⟩ := Access.signedScript?_eq_some signs
            rcases Access.ofName?_variableId (Meaning.ofName_variable hm) with
              ⟨_, hpath⟩ | ⟨_, hpath⟩
            · cases path.symm.trans hpath
            · refine last (Access.getLast?_segments ?_)
              rw [← hpath, path]
              rfl
          · exact absurd (known.symm.trans (h s unlocks)) (by decide)

theorem Unwound.script_eq {p last : Place} {places : List Place} {e : CompileError}
    (h : ctx.Unwound p places e last) : last.script = e.script :=
  (List.cons.inj (List.append_inj_right' h.chain rfl)).1

end Context

namespace Compiler

variable {c : Compiler} {root : Bytes} {data : Data} {e : CompileError}

/-- The range of an error is that of the token or node to blame, or of what cannot be read,
in the source of the script that the error names; unless the cause is that this script unlocks
one that does not exist. -/
theorem generate_error_points (known : c.env.scripts.contains root = true)
    (unlocks : ∀ u, c.env.unlocks.find? u = some [] → c.env.scripts.contains [] = false)
    (returns : c.env.Returns) (h : c.generate root data = .error e) :
    let ctx := c.context data
    ∃ p source, .entry p ∈ (ctx.compile root).events ∧ p.script = e.script ∧
      c.env.scripts.find? e.script = some source ∧ ctx.FaultyAt p source e.cause e.range ∧
      (e.range.Within source ∨ ∃ t, e.cause = .unknownScript t ∧ e.range = {} ∧
        c.env.unlocks.find? e.script = some t ∧ c.env.scripts.contains t = false) := by
  intro ctx
  have named : ctx.Named := Context.named_of_unlocks unlocks
  obtain ⟨last, entered, unwound⟩ := unwound_of_generate known named returns h
  have script : last.script = e.script := unwound.script_eq
  obtain ⟨source, hsource, faulty⟩ := unwound.faulty
  have within := faulty.within
  rw [script] at hsource within
  exact ⟨last, source, entered, script, hsource, faulty, within⟩

/-- An identifier that has no meaning, in a script that the root names in a push. -/
theorem generate_error_points_of_lock :
    let c := ({ env := lockedByOwner } : Compiler).withSource (text "data") (text "1 OP_3")
    let e : CompileError := ⟨.unknownIdentifier (text "OP_3"), ⟨⟨1, 3, 2⟩, ⟨1, 7, 6⟩⟩, text "data",
      [text "lock"]⟩
    c.generate (text "lock") {} = .error e ∧ e.range.Within (text "1 OP_3") := by
  intro c e
  have failed : c.generate (text "lock") {} = .error e := by
    with_unfolding_all rfl
  have unlocks : ∀ u, c.env.unlocks.find? u = some [] → c.env.scripts.contains [] = false :=
    fun _ _ => rfl
  have returns : c.env.Returns := Environment.returns_of_default rfl
  obtain ⟨_, source, _, _, hsource, _, within | ⟨t, hcause, _⟩⟩ :=
    generate_error_points rfl unlocks returns failed
  · obtain rfl : text "1 OP_3" = source := Option.some.inj hsource
    exact ⟨failed, within⟩
  · cases hcause

/-- A signature covers a locking script that does not exist, and the error points nowhere. It
covers a locking script with an empty id, and the error in that script names the other one, in
which the range is that of no token. -/
theorem generate_error_points_elsewhere :
    let c (scripts : List (Bytes × Bytes)) (locking : Bytes) : Compiler :=
      { env := { lockedByOwner with
          scripts := .ofList ((text "unlock", text "1 <owner.signature.no_outputs_single_input>") ::
            scripts)
          unlocks := .ofList [(text "unlock", locking)] } }
    (c [] (text "lock")).generate (text "unlock") dataOfOwner =
        .error ⟨.unknownScript (text "lock"), {}, text "unlock", []⟩ ∧
      (∀ source, ¬ ({} : Range).Within source) ∧
      (c [([], text "  0x5")] []).generate (text "unlock") dataOfOwner =
        .error ⟨.oddHex (text "5"), ⟨⟨1, 3, 2⟩, ⟨1, 6, 5⟩⟩, text "unlock", []⟩ ∧
      ∀ tokens, Token.ofText (text "1 <owner.signature.no_outputs_single_input>") = .ok tokens →
        ∀ t ∈ tokens, t.range ≠ ⟨⟨1, 3, 2⟩, ⟨1, 6, 5⟩⟩ := by
  intro c
  refine ⟨?_, Range.not_within, ?_, ?_⟩
  · with_unfolding_all rfl
  · with_unfolding_all rfl
  · intro tokens htokens
    let spelled : List Token := [
      ⟨.integer, text "1", ⟨⟨1, 1, 0⟩, ⟨1, 2, 1⟩⟩⟩,
      ⟨.whitespace, text " ", ⟨⟨1, 2, 1⟩, ⟨1, 3, 2⟩⟩⟩,
      ⟨.pushOpen, text "<", ⟨⟨1, 3, 2⟩, ⟨1, 4, 3⟩⟩⟩,
      ⟨.identifier, text "owner.signature.no_outputs_single_input", ⟨⟨1, 4, 3⟩, ⟨1, 43, 42⟩⟩⟩,
      ⟨.pushClose, text ">", ⟨⟨1, 43, 42⟩, ⟨1, 44, 43⟩⟩⟩]
    have hspelled : Token.ofText (text "1 <owner.signature.no_outputs_single_input>") =
        .ok spelled := by
      with_unfolding_all rfl
    obtain rfl : spelled = tokens := Except.ok.inj (hspelled.symm.trans htokens)
    decide

end Compiler

end AuthScript
