import AuthScript.Bytes

/-!
# Log lines

What happens during a computation is told in lines: a level, a category and a
message. Computations only collect their lines (`Logged`); which of them appear
anywhere is decided afterwards by a logger.
-/

namespace AuthScript

namespace Log

/-- How important a line is, in increasing order. `off` is above every line. -/
inductive Level where
  | trace
  | debug
  | info
  | warn
  | error
  | fatal
  | off
deriving DecidableEq

namespace Level

/-- The levels in increasing order. -/
def all : List Level := [trace, debug, info, warn, error, fatal, off]

/-- The position of a level in the order. -/
def rank : Level → Nat
  | trace => 0
  | debug => 1
  | info => 2
  | warn => 3
  | error => 4
  | fatal => 5
  | off => 6

/-- The name that lines show. -/
def name : Level → Bytes
  | trace => text "TRACE"
  | debug => text "DEBUG"
  | info => text "INFO"
  | warn => text "WARN"
  | error => text "ERROR"
  | fatal => text "FATAL"
  | off => text "OFF"

end Level

/-- A set of subsystems, one bit for each. -/
structure Category where
  mask : UInt32
deriving DecidableEq

namespace Category

def none : Category := ⟨0⟩
def lexer : Category := ⟨0x1⟩
def parser : Category := ⟨0x2⟩
def resolver : Category := ⟨0x4⟩
def evaluation : Category := ⟨0x8⟩
def generation : Category := ⟨0x10⟩
def compiler : Category := ⟨0x20⟩
def curve : Category := ⟨0x40⟩
def template : Category := ⟨0x80⟩
def settings : Category := ⟨0x100⟩
def machine : Category := ⟨0x200⟩
def all : Category := ⟨0xffffffff⟩

/-- The subsystems that have a name, lowest bit first. -/
def named : List (Category × String) := [
  (lexer, "LEXER"),
  (parser, "PARSER"),
  (resolver, "RESOLVER"),
  (evaluation, "EVAL"),
  (generation, "CODEGEN"),
  (compiler, "COMPILER"),
  (curve, "CRYPTO"),
  (template, "TEMPLATE"),
  (settings, "CONFIG"),
  (machine, "VM")]

/-- The subsystems of either set. -/
def union (c d : Category) : Category := ⟨c.mask ||| d.mask⟩

/-- The subsystems of the first set that are not in the second. -/
def without (c d : Category) : Category := ⟨c.mask &&& ~~~d.mask⟩

/-- Whether two sets have a subsystem in common. -/
def meets (c d : Category) : Bool := c.mask &&& d.mask != 0

/-- The subsystem with the lowest bit of a set. -/
def lowest (c : Category) : Category := ⟨c.mask &&& (~~~c.mask + 1)⟩

/-- The name that lines show: that of the lowest subsystem, or of the empty or the
full set. -/
def name (c : Category) : Bytes :=
  if c = none then text "NONE"
  else if c = all then text "ALL"
  else text ((named.lookup c.lowest).getD "UNKNOWN")

end Category

/-- One line of a log. -/
structure Line where
  level : Level
  category : Category
  message : Bytes
deriving DecidableEq

end Log

/-- A value together with the lines told while computing it, in order. -/
structure Logged (α : Type) where
  lines : List Log.Line := []
  value : α

namespace Logged

variable {α β : Type}

/-- A value computed without a line. -/
def silent (a : α) : Logged α := ⟨[], a⟩

/-- One line and nothing else. -/
def tell (level : Log.Level) (category : Log.Category) (message : Bytes) : Logged Unit :=
  ⟨[⟨level, category, message⟩], ()⟩

/-- A value computed after other lines. -/
def after (m : Logged α) (lines : List Log.Line) : Logged α := ⟨lines ++ m.lines, m.value⟩

/-- The lines of the first computation come before those of the second. -/
def andThen (m : Logged α) (f : α → Logged β) : Logged β := (f m.value).after m.lines

instance : Monad Logged where
  pure := silent
  bind := andThen

@[simp] theorem value_pure (a : α) : (pure a : Logged α).value = a := rfl

@[simp] theorem value_bind (m : Logged α) (f : α → Logged β) :
    (m >>= f).value = (f m.value).value := rfl

@[simp] theorem lines_bind (m : Logged α) (f : α → Logged β) :
    (m >>= f).lines = m.lines ++ (f m.value).lines := rfl

/-- Steps that tell lines come to what they come to in silence. -/
theorem value_foldlM (f : β → α → Logged β) (l : List α) (b : β) :
    (l.foldlM f b).value = l.foldl (fun b a => (f b a).value) b := by
  induction l generalizing b with
  | nil => rfl
  | cons a l ih => rw [List.foldlM_cons, value_bind, ih, List.foldl_cons]

end Logged

end AuthScript
