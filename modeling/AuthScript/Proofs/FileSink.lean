import AuthScript.Log.Logger

/-!
# What reaches the log file

Which file is open and whether the file sink is on are said by the calls up to there
(`Call.openAfter`, `Call.sinkAfter`), and so are the lines that belong into a file: those written
while this was the open file and the sink was on (`Call.written`). A file and, if it is open, the
buffer hold at any time what the file held at first and then exactly these lines (`run_written`),
whatever was opened, closed, switched and flushed in between.

A file is what a path leads to: two paths may lead to one file, and a path that could not be
opened may be one that can later. So the lines are counted for files, by name.
-/

namespace AuthScript

namespace Log

namespace Call

/-! ## What a history of calls comes to -/

/-- What the last call that decides a matter makes of it; before any does, what it is at first. -/
def lastOf {α : Type} (decides? : Call → Option α) (first : α) (calls : List Call) : α :=
  (calls.reverse.findSome? decides?).getD first

theorem lastOf_append {α : Type} (decides? : Call → Option α) (first : α) (calls more : List Call) :
    lastOf decides? first (calls ++ more) = lastOf decides? (lastOf decides? first calls) more := by
  rw [lastOf, lastOf, lastOf, List.reverse_append, List.findSome?_append]
  cases more.reverse.findSome? decides? <;> rfl

theorem lastOf_cons {α : Type} (decides? : Call → Option α) (first : α) (call : Call)
    (calls : List Call) :
    lastOf decides? first (call :: calls) = lastOf decides? ((decides? call).getD first) calls := by
  have one : lastOf decides? first [call] = (decides? call).getD first := by
    rw [lastOf, List.reverse_singleton, List.findSome?_singleton]
  rw [← List.singleton_append, lastOf_append, one]

/-- The file that a path is set to: none for the empty path, or if it could not be opened. -/
def reached (path : Bytes) (found : Option Bytes) : Option Bytes :=
  if path = [] then none else found

/-- The file that a call leaves open, where it opens one or tries to. -/
def opens? : Call → Option (Option Bytes)
  | setFile path found => some (reached path found)
  | _ => none

/-- Whether a call turns the file sink on or off. -/
def sink? : Call → Option Bool
  | setToFile on => some on
  | setFile path found => some (reached path found).isSome
  | _ => none

/-- The file that is open after some calls: that of the path which was set last, if it could be
opened. -/
def openAfter (calls : List Call) : Option Bytes := lastOf opens? none calls

/-- Whether the file sink is on after some calls. -/
def sinkAfter (calls : List Call) : Bool := lastOf sink? false calls

/-- The line of a call that writes one, as it is written. -/
def formatted : Call → Bytes
  | write time line => line.format time
  | _ => []

/-- What a call that comes after others has to bring into a file. -/
def writtenBy (name : Bytes) (before : List Call) (call : Call) : Bytes :=
  if sinkAfter before = true ∧ openAfter before = some name then call.formatted else []

/-- What calls that come after others have to bring into a file. -/
def writtenAfter (name : Bytes) (before : List Call) : List Call → Bytes
  | [] => []
  | call :: calls => writtenBy name before call ++ writtenAfter name (before ++ [call]) calls

/-- What calls have to bring into a file: the lines written while it is open and the file sink
is on. -/
def written (name : Bytes) (calls : List Call) : Bytes := writtenAfter name [] calls

/-- Whether nothing stays in the buffer after a call: a flush, another file, or a line of level
`warn` or above. -/
def empties : Call → Bool
  | flush => true
  | setFile _ _ => true
  | write _ line => Level.warn.rank ≤ line.level.rank
  | _ => false

end Call

namespace Session

/-- What waits in the buffer for a file. -/
def pending (s : Session) (name : Bytes) : Bytes :=
  if s.logger.opened = some name then s.logger.buffer else []

/-- What a file holds or is about to hold. -/
def held (s : Session) (name : Bytes) : Bytes := s.files.read name ++ s.pending name

/-! ## Emptying, filling and closing -/

theorem read_drain (s : Session) (name : Bytes) : s.drain.files.read name = s.held name := by
  rw [drain, held, pending]
  cases s.logger.opened with
  | none => exact (List.append_nil _).symm
  | some other => by_cases same : name = other <;> simp [same, eq_comm]

/-- Emptying the buffer moves its bytes into the file. -/
theorem held_drain (s : Session) (name : Bytes) : s.drain.held name = s.held name := by
  rw [held, read_drain, pending]
  split <;> exact List.append_nil _

/-- The session with more in the buffer. -/
def extend (s : Session) (more : Bytes) : Session :=
  { s with logger := { s.logger with buffer := s.logger.buffer ++ more } }

/-- More in the buffer is more for the file that is open. -/
theorem held_extend (s : Session) (more name : Bytes) :
    (s.extend more).held name =
      s.held name ++ if s.logger.opened = some name then more else [] := by
  rw [held, held, pending, pending, List.append_assoc, extend]
  by_cases own : s.logger.opened = some name
  · simp [own]
  · simp [own]

/-- A line that meets an open file and a sink that is on goes to the buffer, which may be full
then; any other line goes nowhere. -/
theorem buffer_cases (s : Session) (line : Bytes) :
    ((s.logger.toFile && s.logger.opened.isSome) = true ∧
      (s.buffer line = (s.extend line).drain ∨ s.buffer line = s.extend line ∧
        (s.extend line).logger.buffer.length < Logger.capacity)) ∨
    (s.logger.toFile && s.logger.opened.isSome) = false ∧ s.buffer line = s := by
  cases taken : s.logger.toFile && s.logger.opened.isSome with
  | false => exact .inr ⟨rfl, if_neg (by simp [taken])⟩
  | true =>
      refine .inl ⟨rfl, ?_⟩
      have filled : s.buffer line = if Logger.capacity ≤ (s.extend line).logger.buffer.length then
          (s.extend line).drain else s.extend line := if_pos taken
      by_cases full : Logger.capacity ≤ (s.extend line).logger.buffer.length
      · exact .inl (filled.trans (if_pos full))
      · exact .inr ⟨filled.trans (if_neg full), Nat.lt_of_not_le full⟩

theorem held_buffer (s : Session) (line name : Bytes) :
    (s.buffer line).held name =
      s.held name ++
        if s.logger.toFile = true ∧ s.logger.opened = some name then line else [] := by
  rcases s.buffer_cases line with ⟨taken, filled⟩ | ⟨refused, same⟩
  · have on : s.logger.toFile = true := (Bool.and_eq_true_iff.1 taken).1
    simp only [on, true_and]
    rw [← held_extend]
    rcases filled with same | ⟨same, -⟩
    · rw [same, held_drain]
    · rw [same]
  · have off : ¬ (s.logger.toFile = true ∧ s.logger.opened = some name) := by
      rintro ⟨on, opened⟩
      rw [on, opened] at refused
      cases refused
    rw [same, if_neg off, List.append_nil]

theorem read_close (s : Session) (name : Bytes) : s.close.files.read name = s.held name := by
  rw [close]
  cases opened : s.logger.opened with
  | none => simp [held, pending, opened]
  | some other => exact read_drain s name

/-! ## Opening -/

open Call (reached)

theorem openFile_eq (s : Session) (path : Bytes) (found : Option Bytes) :
    s.openFile path found = match reached path found with
      | some name => ⟨{ s.logger with opened := some name, toFile := true },
          s.files.append name []⟩
      | none => { s with logger := { s.logger with toFile := false } } := by
  cases path with
  | nil => cases found <;> rfl
  | cons c path => cases found <;> rfl

theorem logger_close (s : Session) :
    s.close.logger = { s.logger with opened := none, buffer := [] } := by
  rw [close]
  split <;> rfl

/-- A path that is set decides which file is open and whether the file sink is on, and leaves
nothing in the buffer. -/
theorem logger_setFile (s : Session) (path : Bytes) (found : Option Bytes) :
    (s.apply (.setFile path found)).logger =
      { s.logger with
        opened := reached path found, toFile := (reached path found).isSome, buffer := [] } := by
  rw [apply, openFile_eq]
  cases reached path found with
  | none => rw [logger_close]; rfl
  | some name => rw [logger_close]; rfl

/-- What waited in the buffer is in the file that was open, and opening one writes nothing. -/
theorem read_setFile (s : Session) (path : Bytes) (found : Option Bytes) (name : Bytes) :
    (s.apply (.setFile path found)).files.read name = s.held name := by
  rw [apply, openFile_eq, ← read_close]
  cases reached path found with
  | none => rfl
  | some other => by_cases same : name = other <;> simp [same]

theorem held_setFile (s : Session) (path : Bytes) (found : Option Bytes) (name : Bytes) :
    (s.apply (.setFile path found)).held name = s.held name := by
  rw [held, read_setFile, pending, logger_setFile, ite_self, List.append_nil]

/-! ## One call -/

theorem apply_write (s : Session) (time : Bytes) (line : Line) :
    s.apply (.write time line) = if Level.warn.rank ≤ line.level.rank then
      (s.buffer (line.format time)).drain else s.buffer (line.format time) := rfl

/-- Writing a line changes nothing in the logger but the buffer. -/
theorem logger_write (s : Session) (time : Bytes) (line : Line) :
    ∃ buffer, (s.apply (.write time line)).logger = { s.logger with buffer } := by
  have filled : ∃ buffer, (s.buffer (line.format time)).logger = { s.logger with buffer } := by
    rcases s.buffer_cases (line.format time) with ⟨-, same | ⟨same, -⟩⟩ | ⟨-, same⟩
    · exact ⟨[], congrArg Session.logger same⟩
    · exact ⟨s.logger.buffer ++ line.format time, congrArg Session.logger same⟩
    · exact ⟨s.logger.buffer, congrArg Session.logger same⟩
  obtain ⟨buffer, same⟩ := filled
  rw [apply_write]
  split
  · exact ⟨[], by rw [drain, same]⟩
  · exact ⟨buffer, same⟩

theorem opened_apply (s : Session) (call : Call) :
    (s.apply call).logger.opened = call.opens?.getD s.logger.opened := by
  cases call with
  | setFile path found => rw [logger_setFile]; rfl
  | write time line =>
      obtain ⟨buffer, same⟩ := s.logger_write time line
      rw [same]
      rfl
  | _ => rfl

theorem toFile_apply (s : Session) (call : Call) :
    (s.apply call).logger.toFile = call.sink?.getD s.logger.toFile := by
  cases call with
  | setFile path found => rw [logger_setFile]; rfl
  | write time line =>
      obtain ⟨buffer, same⟩ := s.logger_write time line
      rw [same]
      rfl
  | _ => rfl

/-- A call brings the line that it writes into the file that is open, if the sink is on. -/
theorem held_apply (s : Session) (call : Call) (name : Bytes) :
    (s.apply call).held name =
      s.held name ++ if s.logger.toFile = true ∧ s.logger.opened = some name then call.formatted
        else [] := by
  have silent (h : call.formatted = []) :
      (if s.logger.toFile = true ∧ s.logger.opened = some name then call.formatted else []) =
        [] := by
    rw [h, ite_self]
  cases call with
  | write time line =>
      rw [apply_write, Call.formatted, ← held_buffer]
      split
      · exact held_drain _ name
      · rfl
  | setFile path found => rw [silent rfl, List.append_nil, held_setFile]
  | flush => rw [silent rfl, List.append_nil]; exact held_drain s name
  | _ => rw [silent rfl, List.append_nil]; rfl

/-! ## The buffer -/

/-- A buffer that has not reached its capacity, and is empty where no file is open. -/
structure Buffered (s : Session) : Prop where
  short : s.logger.buffer.length < Logger.capacity
  unopened : s.logger.opened = none → s.logger.buffer = []

theorem buffered_of_empty {s : Session} (h : s.logger.buffer = []) : s.Buffered :=
  ⟨by rw [h]; decide, fun _ => h⟩

theorem buffered_buffer {s : Session} (h : s.Buffered) (line : Bytes) :
    (s.buffer line).Buffered := by
  rcases s.buffer_cases line with ⟨taken, same | ⟨same, short⟩⟩ | ⟨-, same⟩
  · rw [same]
    exact buffered_of_empty rfl
  · have opened : s.logger.opened.isSome = true := (Bool.and_eq_true_iff.1 taken).2
    rw [same]
    exact ⟨short, fun none => absurd none (Option.isSome_iff_ne_none.1 opened)⟩
  · rwa [same]

theorem buffer_apply_of_empties {s : Session} {call : Call} (h : call.empties = true) :
    (s.apply call).logger.buffer = [] := by
  cases call with
  | flush => rfl
  | setFile path found => rw [logger_setFile]
  | write time line =>
      rw [apply_write, if_pos (of_decide_eq_true h)]
      rfl
  | _ => cases h

theorem buffered_apply {s : Session} (h : s.Buffered) (call : Call) : (s.apply call).Buffered := by
  cases empties : call.empties with
  | true => exact buffered_of_empty (buffer_apply_of_empties empties)
  | false =>
      cases call with
      | flush | setFile => cases empties
      | write time line =>
          rw [apply_write, if_neg (of_decide_eq_false empties)]
          exact buffered_buffer h _
      | _ => exact ⟨h.short, h.unopened⟩

/-! ## Any number of calls -/

theorem buffered_run {s : Session} (h : s.Buffered) (calls : List Call) :
    (s.run calls).Buffered := by
  induction calls generalizing s with
  | nil => exact h
  | cons call calls ih => exact ih (buffered_apply h call)

/-- What each call decides of a field is decided by the last of the calls that say something. -/
theorem run_eq_lastOf {α : Type} (field : Session → α) (decides? : Call → Option α)
    (step : ∀ s call, field (s.apply call) = (decides? call).getD (field s)) (s : Session)
    (calls : List Call) : field (s.run calls) = Call.lastOf decides? (field s) calls := by
  induction calls generalizing s with
  | nil => rfl
  | cons call calls ih => rw [run_cons, ih, step, Call.lastOf_cons]

theorem opened_run (s : Session) (calls : List Call) :
    (s.run calls).logger.opened = Call.lastOf Call.opens? s.logger.opened calls :=
  run_eq_lastOf (·.logger.opened) Call.opens? opened_apply s calls

theorem toFile_run (s : Session) (calls : List Call) :
    (s.run calls).logger.toFile = Call.lastOf Call.sink? s.logger.toFile calls :=
  run_eq_lastOf (·.logger.toFile) Call.sink? toFile_apply s calls

/-- The session that a program starts with: a logger that nobody has called, and some files. -/
def start (files : Files) : Session := { files }

/-- The last of some calls writes what it has to by those before it. -/
theorem held_run_concat (files : Files) (before : List Call) (call : Call) (name : Bytes) :
    ((start files).run (before ++ [call])).held name =
      ((start files).run before).held name ++ Call.writtenBy name before call := by
  rw [run_append, run_cons, run_nil, held_apply, opened_run, toFile_run]
  rfl

/-- What a file holds after more calls is what it held after some and what these write to it. -/
theorem held_run (files : Files) (before calls : List Call) (name : Bytes) :
    ((start files).run (before ++ calls)).held name =
      ((start files).run before).held name ++ Call.writtenAfter name before calls := by
  -- what a call writes depends on all calls before it, so these are carried along
  induction calls generalizing before with
  | nil => rw [List.append_nil, Call.writtenAfter, List.append_nil]
  | cons call calls ih =>
      rw [List.append_cons, ih (before ++ [call]), held_run_concat, Call.writtenAfter,
        List.append_assoc]

/-- After any calls on a new logger, what a file held at first and the lines that were written
while it was open and the sink was on are what it holds now and, if it is open, the buffer. A line
shows the time, the level, the category and the message. The buffer has less than 8192 bytes, none
where no file is open, and none after a flush, after a path was set, and after a line of level
`warn` or above. -/
theorem run_written (files : Files) (calls : List Call) :
    let s := (start files).run calls
    (∀ name, files.read name ++ Call.written name calls =
      s.files.read name ++ if Call.openAfter calls = some name then s.logger.buffer else []) ∧
    (∀ time line, (Call.write time line).formatted =
      text "[" ++ time ++ text "] [" ++ line.level.name ++ text "] [" ++ line.category.name ++
        text "] " ++ line.message ++ text "\n") ∧
    s.logger.buffer.length < 8192 ∧
    (Call.openAfter calls = none → s.logger.buffer = []) ∧
    (∀ call, call.empties = true → (s.apply call).logger.buffer = []) := by
  intro s
  have opened : s.logger.opened = Call.openAfter calls := opened_run (start files) calls
  have buffered : s.Buffered := buffered_run (buffered_of_empty rfl) calls
  refine ⟨fun name => ?_, fun _ _ => rfl, buffered.short,
    fun none => buffered.unopened (opened.trans none),
    fun call empties => buffer_apply_of_empties empties⟩
  have kept := held_run files [] calls name
  rw [List.nil_append, run_nil, held, held, pending, pending, opened] at kept
  exact (List.append_nil _ ▸ kept).symm

/-- Of four lines the first is written to a file; the second meets a sink that is off, the third
another file that cannot be opened, and the fourth a file in a directory. -/
example :
    let line (message : Bytes) : Call := .write [] ⟨.info, .lexer, message⟩
    let s := (start {}).run [.setFile [0x61] (some [0x61]), line [0x31], .setToFile false,
      line [0x32], .setFile [0x62] none, line [0x33],
      .setFile [0x2f, 0x63] (some [0x2f, 0x63]), line [0x34]]
    s.files.read [0x61] = Line.format [] ⟨.info, .lexer, [0x31]⟩ ∧ s.files.read [0x62] = [] ∧
      s.held [0x2f, 0x63] = Line.format [] ⟨.info, .lexer, [0x34]⟩ := by
  decide

end Session

end Log

end AuthScript
