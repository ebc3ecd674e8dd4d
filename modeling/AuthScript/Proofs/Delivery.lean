import AuthScript.Proofs.FileSink

/-!
# Lines that pass and go nowhere

Whether a line passes is asked of the two sinks alone, where it goes depends on the open file too.
The two agree unless the console is off and the file sink was turned on while no file was open
(`willLog_delivers`): then a line passes and neither sink has it (`willLog_undelivered`). Setting a
path never leads there, since it turns the sink on or off with the file.
-/

namespace AuthScript

namespace Log

namespace Call

/-- Whether a call turns the console on or off. -/
def console? : Call → Option Bool
  | setToConsole on => some on
  | _ => none

/-- Whether lines appear on the console after some calls. -/
def consoleAfter (calls : List Call) : Bool := lastOf console? true calls

/-- The file sink was turned on while no file was open, and since then it was not turned off, nor
was a path set. -/
def Stranded (calls : List Call) : Prop :=
  ∃ before after, calls = before ++ setToFile true :: after ∧ openAfter before = none ∧
    ∀ call ∈ after, call.sink? = none

/-! ## The last call that decides -/

theorem lastOf_of_silent {α : Type} {decides? : Call → Option α} {calls : List Call}
    (silent : ∀ call ∈ calls, decides? call = none) (first : α) :
    lastOf decides? first calls = first := by
  have none : calls.reverse.findSome? decides? = none :=
    List.findSome?_eq_none_iff.2 fun call mem => silent call (List.mem_reverse.1 mem)
  rw [lastOf, none, Option.getD_none]

/-- What is not so at first has been decided by some call, and by none after it. -/
theorem exists_of_lastOf {α : Type} {decides? : Call → Option α} {first a : α} {calls : List Call}
    (h : lastOf decides? first calls = a) (changed : a ≠ first) :
    ∃ before call after, calls = before ++ call :: after ∧ decides? call = some a ∧
      ∀ call ∈ after, decides? call = none := by
  rw [lastOf] at h
  cases found : calls.reverse.findSome? decides? with
  | none =>
      rw [found] at h
      exact absurd h.symm changed
  | some b =>
      rw [found, Option.getD_some] at h
      obtain ⟨after, call, before, split, decided, silent⟩ := List.findSome?_eq_some_iff.1 found
      refine ⟨before.reverse, call, after.reverse, ?_, h ▸ decided,
        fun other mem => silent other (List.mem_reverse.1 mem)⟩
      rw [← List.reverse_reverse calls, split, List.reverse_append, List.reverse_cons,
        List.append_assoc, List.singleton_append]

/-- What leaves the file sink alone leaves the file alone. -/
theorem opens?_eq_none {call : Call} (h : call.sink? = none) : call.opens? = none := by
  cases call with
  | setFile path found => cases h
  | _ => rfl

theorem openAfter_append_cons (before : List Call) (call : Call) {after : List Call}
    (silent : ∀ call ∈ after, call.sink? = none) :
    openAfter (before ++ call :: after) = call.opens?.getD (openAfter before) := by
  rw [openAfter, lastOf_append, lastOf_cons,
    lastOf_of_silent fun other mem => opens?_eq_none (silent other mem)]
  rfl

/-- The file sink is on without a file exactly if it was turned on without one. -/
theorem stranded_iff {calls : List Call} :
    Stranded calls ↔ openAfter calls = none ∧ sinkAfter calls = true := by
  constructor
  · rintro ⟨before, after, rfl, closed, silent⟩
    refine ⟨(openAfter_append_cons before _ silent).trans closed, ?_⟩
    rw [sinkAfter, lastOf_append, lastOf_cons, lastOf_of_silent silent]
    rfl
  · rintro ⟨closed, on⟩
    obtain ⟨before, call, after, rfl, turned, silent⟩ :=
      exists_of_lastOf on (by decide)
    rw [openAfter_append_cons before call silent] at closed
    cases call with
    | setToFile on =>
        cases Option.some.inj turned
        exact ⟨before, after, rfl, closed, silent⟩
    | setFile path found =>
        have opened : (reached path found).isSome = true := Option.some.inj turned
        have shut : reached path found = none := closed
        rw [shut] at opened
        cases opened
    | _ => cases turned

end Call

namespace Session

/-- A line gets to a sink when it is written: it appears on the console, or in what the file that
is open holds or is about to hold. -/
def Delivers (s : Session) (time : Bytes) (line : Line) : Prop :=
  s.console (.write time line) = line.format time ∨
    ∃ name, s.logger.opened = some name ∧
      (s.apply (.write time line)).held name = s.held name ++ line.format time

theorem format_ne_nil (time : Bytes) (line : Line) : line.format time ≠ [] :=
  List.append_ne_nil_of_right_ne_nil _ (by decide)

theorem delivers_iff {s : Session} {time : Bytes} {line : Line} :
    s.Delivers time line ↔ s.logger.toConsole = true ∨
      s.logger.toFile = true ∧ ∃ name, s.logger.opened = some name := by
  refine or_congr ?_ ⟨?_, ?_⟩
  · rw [console]
    cases s.logger.toConsole with
    | true => exact iff_of_true rfl rfl
    | false => exact iff_of_false (format_ne_nil time line).symm Bool.false_ne_true
  · rintro ⟨name, opened, kept⟩
    rw [held_apply, List.append_right_inj] at kept
    split at kept
    · rename_i taken
      exact ⟨taken.1, name, opened⟩
    · exact absurd kept.symm (format_ne_nil time line)
  · rintro ⟨on, name, opened⟩
    refine ⟨name, opened, ?_⟩
    rw [held_apply, if_pos ⟨on, opened⟩]
    rfl

theorem toConsole_apply (s : Session) (call : Call) :
    (s.apply call).logger.toConsole = call.console?.getD s.logger.toConsole := by
  cases call with
  | setFile path found => rw [logger_setFile]; rfl
  | write time line =>
      obtain ⟨buffer, same⟩ := s.logger_write time line
      rw [same]
      rfl
  | _ => rfl

theorem toConsole_run (files : Files) (calls : List Call) :
    ((start files).run calls).logger.toConsole = Call.consoleAfter calls :=
  run_eq_lastOf (·.logger.toConsole) Call.console? toConsole_apply (start files) calls

/-- On a logger that nobody but these calls has touched, a line that passes is delivered, unless
the console is off and the file sink was turned on while no file was open. -/
theorem willLog_delivers (files : Files) (calls : List Call) (time : Bytes) (line : Line)
    (passes : ((start files).run calls).logger.willLog line.level line.category = true) :
    ((start files).run calls).Delivers time line ↔
      ¬ (Call.consoleAfter calls = false ∧ Call.Stranded calls) := by
  have console := toConsole_run files calls
  have opened : ((start files).run calls).logger.opened = Call.openAfter calls :=
    opened_run (start files) calls
  have toFile : ((start files).run calls).logger.toFile = Call.sinkAfter calls :=
    toFile_run (start files) calls
  have sinks : Call.consoleAfter calls = true ∨ Call.sinkAfter calls = true := by
    rw [← console, ← toFile, ← Bool.or_eq_true]
    exact (Bool.and_eq_true_iff.1 passes).2
  rw [delivers_iff, Call.stranded_iff, console, toFile, opened]
  cases on : Call.consoleAfter calls with
  | true => simp
  | false =>
      have sink : Call.sinkAfter calls = true := sinks.resolve_left (by simp [on])
      cases file : Call.openAfter calls with
      | none => simp [sink]
      | some name => simp [sink]

/-- With the console off, a file in a directory that was opened and a sink that was turned off and
on again. -/
theorem willLog_delivers_of_opened :
    let path : Bytes := text "/tmp/x.log"
    let calls : List Call := [.setToConsole false, .setFile path (some path), .setToFile false,
      .setToFile true]
    let s := (start {}).run calls
    let line : Line := ⟨.info, .lexer, [0x78]⟩
    s.logger.willLog line.level line.category = true ∧ s.Delivers [] line := by
  intro path calls s line
  have passes : s.logger.willLog line.level line.category = true := by decide
  have opened : ¬ Call.Stranded calls := fun stranded =>
    absurd (Call.stranded_iff.1 stranded).1 (by decide)
  exact ⟨passes, (willLog_delivers {} calls [] line passes).2 fun h => opened h.2⟩

/-- The console is turned off and the file sink on without a file: a line passes and is nowhere. -/
theorem willLog_undelivered :
    let s := (start {}).run [.setToConsole false, .setToFile true]
    let line : Line := ⟨.info, .lexer, [0x78]⟩
    s.logger.willLog line.level line.category = true ∧ ¬ s.Delivers [] line := by
  intro s line
  refine ⟨by decide, fun delivers => ?_⟩
  rcases delivers_iff.1 delivers with console | ⟨-, name, opened⟩
  · exact absurd console (by decide)
  · cases opened

end Session

end Log

end AuthScript
