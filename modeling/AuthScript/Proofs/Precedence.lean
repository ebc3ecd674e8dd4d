import AuthScript.Proofs.SettingLine
import AuthScript.Settings.Call
import Mathlib.Data.List.DropRight
import Mathlib.Data.List.Induction

/-!
# Which values a key has

The values of a key are said by the calls alone, whatever their order: those that arguments give
for it, then the one that it was last set to, then those that files have given since
(`values_run`). A text or a file with a line whose key is empty gives what stands above that
line. Where one value is asked for it is the first of these, so nothing that is read from files
or set changes the value of a key that arguments give.
-/

namespace AuthScript

namespace Setting

/-- The values that some settings have for a key. -/
def valuesOf (key : Bytes) (settings : List Setting) : List Bytes :=
  (settings.filter (·.key = key)).map (·.value)

@[simp] theorem valuesOf_nil (key : Bytes) : valuesOf key [] = [] := rfl

@[simp] theorem valuesOf_append (key : Bytes) (settings more : List Setting) :
    valuesOf key (settings ++ more) = valuesOf key settings ++ valuesOf key more := by
  rw [valuesOf, List.filter_append, List.map_append]
  rfl

end Setting

namespace Settings

open Setting

namespace Call

/-- What a call gives as arguments. -/
def given : Call → List Setting
  | readArguments args => args.filterMap ofArgument?
  | _ => []

/-- The text that a call reads. -/
def text? : Call → Option Bytes
  | readText t _ => some t
  | load _ found => found
  | _ => none

/-- What a call gives from files or the program. -/
def added : Call → List Setting
  | readArguments _ => []
  | readText t _ => allOfText t
  | load _ found => found.elim [] allOfText
  | set key value => [⟨key, value⟩]

theorem added_of_text? {call : Call} {t : Bytes} (reads : call.text? = some t) :
    call.added = allOfText t := by
  cases call with
  | readArguments | set => cases reads
  | readText t' origin => rw [added, Option.some.inj reads]
  | load path found =>
      obtain rfl : found = some t := reads
      rfl

/-- The value that a call puts in place of those that files have given for a key. -/
def setValue? (key : Bytes) : Call → Option Bytes
  | readArguments _ | readText _ _ | load _ _ => none
  | set other value => if other = key then some value else none

/-- Whether a call gives no arguments. -/
def isFileLevel : Call → Bool
  | readArguments _ => false
  | _ => true

theorem given_of_isFileLevel {call : Call} (h : call.isFileLevel = true) : call.given = [] := by
  cases call with
  | readArguments args => exact absurd h Bool.false_ne_true
  | readText | load | set => rfl

/-- The value that a key was last set to. -/
def lastSet? (key : Bytes) (calls : List Call) : Option Bytes :=
  calls.reverse.findSome? (setValue? key)

/-- The calls after the last one that sets a key. -/
def sinceSet (key : Bytes) (calls : List Call) : List Call :=
  calls.rtakeWhile fun call => (call.setValue? key).isNone

theorem lastSet?_concat (key : Bytes) (calls : List Call) (call : Call) :
    lastSet? key (calls ++ [call]) = (call.setValue? key).or (lastSet? key calls) := by
  rw [lastSet?, List.reverse_concat, List.findSome?_cons]
  cases call.setValue? key <;> rfl

end Call

open Call

/-! ## One call -/

theorem fileValues_readText (s : Settings) (t key : Bytes) :
    (s.readText t).fileValues key = s.fileValues key ++ valuesOf key (allOfText t) := by
  rw [readText, ofLines_eq]
  exact valuesOf_append key _ _

/-- A text is faulty if a line of it has an empty key. -/
theorem textFault?_eq_none_iff {t origin : Bytes} :
    textFault? t origin = none ↔ ∀ line ∈ Bytes.pieces 0x0a t, keyless line = false := by
  rw [textFault?, ofLines_eq, Option.map_eq_none_iff, Option.map_eq_none_iff,
    List.findIdx?_eq_none_iff]

theorem arguments_readArgument (s : Settings) (arg : Bytes) :
    (s.readArgument arg).value =
      { s with arguments := s.arguments ++ (ofArgument? arg).toList } := by
  rw [readArgument, ofArgument?]
  cases arg.takeWhile (· ≠ 0) with
  | nil => simp [Logged.silent]
  | cons c rest => by_cases dash : c = 0x2d <;> simp [Logged.silent, dash]

theorem value_readArguments (s : Settings) (args : List Bytes) :
    (s.readArguments args).value =
      { s with arguments := s.arguments ++ args.filterMap ofArgument? } := by
  rw [readArguments, Logged.value_foldlM]
  induction args generalizing s with
  | nil => simp
  | cons arg args ih =>
      rw [List.foldl_cons, ih, arguments_readArgument, List.filterMap_cons]
      cases ofArgument? arg <;> simp

theorem argumentValues_apply (s : Settings) (call : Call) (key : Bytes) :
    (s.apply call).argumentValues key = s.argumentValues key ++ valuesOf key call.given := by
  cases call with
  | readArguments args =>
      rw [apply, value_readArguments]
      exact valuesOf_append key _ _
  | readText t origin => exact (List.append_nil _).symm
  | load path found => cases found <;> exact (List.append_nil _).symm
  | set other value => exact (List.append_nil _).symm

theorem fileValues_apply (s : Settings) (call : Call) (key : Bytes) :
    (s.apply call).fileValues key =
      match call.setValue? key with
      | some value => [value]
      | none => s.fileValues key ++ valuesOf key call.added := by
  cases call with
  | readArguments args =>
      rw [apply, value_readArguments]
      exact (List.append_nil _).symm
  | readText t origin => exact fileValues_readText s t key
  | load path found =>
      cases found with
      | none => exact (List.append_nil _).symm
      | some t => exact fileValues_readText s t key
  | set other value =>
      rw [apply, fileValues_set, setValue?, added]
      by_cases same : key = other
      · rw [if_pos same, if_pos same.symm]
      · simp [valuesOf, same, Ne.symm same]

/-! ## Any number of calls -/

theorem argumentValues_run (s : Settings) (calls : List Call) (key : Bytes) :
    (s.run calls).argumentValues key =
      s.argumentValues key ++ valuesOf key (calls.flatMap given) := by
  induction calls generalizing s with
  | nil => exact (List.append_nil _).symm
  | cons call calls ih =>
      rw [run_cons, ih, argumentValues_apply, List.flatMap_cons, valuesOf_append,
        List.append_assoc]

/-- The last call decides: one that sets the key begins anew, any other adds to what is there. -/
theorem fileValues_run (calls : List Call) (key : Bytes) :
    (run {} calls).fileValues key =
      (lastSet? key calls).toList ++ valuesOf key ((sinceSet key calls).flatMap added) := by
  -- from the end: the last call to set the key hides what files gave before it
  induction calls using List.reverseRecOn with
  | nil => rfl
  | append_singleton calls call ih =>
      rw [run_append, run_cons, run_nil, fileValues_apply, lastSet?_concat, sinceSet]
      cases sets : call.setValue? key with
      | some value => simp [sets]
      | none => simp [sets, ih, sinceSet]

/-- Calls that give no arguments leave the value of a key that has one from arguments. -/
theorem find?_run_of_isFileLevel {s : Settings} {key : Bytes} (h : s.argumentValues key ≠ [])
    {calls : List Call} (fileLevel : ∀ call ∈ calls, call.isFileLevel = true) :
    (s.run calls).find? key = s.find? key := by
  have given : calls.flatMap given = [] :=
    List.flatMap_eq_nil_iff.2 fun call mem => given_of_isFileLevel (fileLevel call mem)
  obtain ⟨value, more, same⟩ := List.exists_cons_of_ne_nil h
  have same' : (s.run calls).argumentValues key = value :: more := by
    rw [argumentValues_run, given, valuesOf_nil, List.append_nil, same]
  rw [find?_of_argumentValues same, find?_of_argumentValues same']

/-- A call that reads a text fails exactly if a line of the text has an empty key. -/
theorem fault?_ne_none_iff {s : Settings} {call : Call} {t : Bytes} (reads : call.text? = some t)
    {lines : List Bytes} (divided : Bytes.Lines t lines) :
    s.fault? call ≠ none ↔ ∃ line ∈ lines, keyless line = true := by
  obtain rfl := Bytes.lines_iff.1 divided
  have faulty (origin : Bytes) :
      textFault? t origin ≠ none ↔ ∃ line ∈ Bytes.pieces 0x0a t, keyless line = true := by
    rw [Ne, textFault?_eq_none_iff]
    simp
  cases call with
  | readArguments | set => cases reads
  | readText t' origin =>
      obtain rfl : t' = t := Option.some.inj reads
      exact faulty origin
  | load path found =>
      obtain rfl : found = some t := reads
      exact faulty path

/-- After any calls, a key has the values that arguments gave for it in the order in which they
came, then the one that it was last set to, then those that texts and files have given since. An
argument gives what it passes, and a text what its lines spell; where one of them has nothing but
blanks before its first equals sign the call fails, and only the lines above the first such line
count. A file that cannot be opened gives nothing, and the call fails. The value of the key is
the first of these values, the key is known if there is one, and further calls that give no
arguments leave its value as it is if arguments have given one. -/
theorem values_run (calls : List Call) (key : Bytes) :
    let s := run {} calls
    let given := valuesOf key (calls.flatMap Call.given)
    s.values key = given ++ (lastSet? key calls).toList ++
      valuesOf key ((sinceSet key calls).flatMap Call.added) ∧
    (∀ arg setting, ofArgument? arg = some setting ↔ Passes arg setting) ∧
    (∀ call t lines, call.text? = some t → Bytes.Lines t lines →
      call.added = (lines.takeWhile (!keyless ·)).filterMap ofLine? ∧
      (s.fault? call ≠ none ↔ ∃ line ∈ lines, keyless line = true)) ∧
    (∀ path, s.apply (.load path none) = s ∧ s.fault? (.load path none) ≠ none) ∧
    (∀ line setting, ofLine? line = some setting ↔ Spells line setting) ∧
    (∀ line, keyless line = true ↔
      ∃ before after, Bytes.Blank before ∧ line = before ++ 0x3d :: after) ∧
    s.find? key = (s.values key).head? ∧
    (s.contains key = true ↔ s.values key ≠ []) ∧
    (∀ more : List Call, given ≠ [] → (∀ call ∈ more, call.isFileLevel = true) →
      (s.run more).find? key = s.find? key) := by
  intro s given
  have arguments : s.argumentValues key = given := argumentValues_run {} calls key
  refine ⟨?_, fun arg setting => ofArgument?_eq_some_iff,
    fun call t lines reads divided => ⟨?_, ?_⟩, fun path => ⟨rfl, Option.some_ne_none _⟩,
    fun line setting => ofLine?_eq_some_iff, fun line => keyless_iff, s.find?_eq_head? key,
    s.contains_iff key, fun more nonempty fileLevel => ?_⟩
  · rw [values, arguments, fileValues_run, List.append_assoc]
  · rw [added_of_text? reads, allOfText, Bytes.lines_iff.1 divided]
  · exact fault?_ne_none_iff reads divided
  · exact find?_run_of_isFileLevel (arguments ▸ nonempty) fileLevel

/-- The value from the command comes first and the one that was set next; what the text gave
before is gone, and the second text ends at its line without a key. -/
example :
    let key : Bytes := [0x6b]
    let calls : List Call := [
      .readText [0x6b, 0x3d, 0x31] [],
      .readArguments [[0x2d, 0x6b, 0x3d, 0x32]],
      .set key [0x33],
      .readText [0x6b, 0x3d, 0x34, 0x0a, 0x3d, 0x0a, 0x6b, 0x3d, 0x35] []]
    (run {} calls).values key = [[0x32], [0x33], [0x34]] := rfl

end Settings

end AuthScript
