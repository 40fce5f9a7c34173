/-
The journal of evaluations.

A journal has a level, below which records are dropped, and handlers, to which
the others go.  Configuring it sets the level and sees to it that the stream
handler made last is attached, so a journal never writes a record twice.

`write` gives the lines that a record adds to the output.  The time with which
each line begins is left out.
-/
import Reckon.Text.Quoted

namespace Reckon

/-! ## Levels and records -/

inductive Severity where
  | debug | info | error
  deriving DecidableEq, Repr

namespace Severity

def level : Severity → Int
  | debug => 10
  | info => 20
  | error => 40

def name : Severity → String
  | debug => "DEBUG"
  | info => "INFO"
  | error => "ERROR"

end Severity

structure Record where
  severity : Severity
  message : String
  deriving DecidableEq, Repr

inductive LevelChoice where
  | number (level : Int)
  | name (name : Text)
  deriving DecidableEq, Repr

namespace LevelChoice

/-- The named levels.  Two of them have two names. -/
def named : List (String × Int) :=
  [("CRITICAL", 50), ("FATAL", 50), ("ERROR", 40), ("WARNING", 30), ("WARN", 30), ("INFO", 20),
    ("DEBUG", 10), ("NOTSET", 0)]

def default : LevelChoice := number 20

def level? : LevelChoice → Option Int
  | number level => some level
  | name t => named.lookup (String.ofList t)

def unknownMessage : LevelChoice → String
  | number level => s!"Unknown level: {level}"
  | name t => s!"Unknown level: {Text.quoted t}"

end LevelChoice

/-! ## Journals -/

inductive Handler where
  /-- Takes every record and writes none. -/
  | silent
  /-- Writes to the output.  Stream handlers are numbered as they are made. -/
  | stream (serial : Nat)
  deriving DecidableEq, Repr

structure Journal where
  level : Int
  handlers : List Handler
  made : Nat
  deriving DecidableEq, Repr

namespace Journal

/-- Nothing is written until a journal is configured. -/
def initial : Journal := { level := 0, handlers := [.silent], made := 0 }

def remembered? (j : Journal) : Option Handler :=
  match j.made with
  | 0 => none
  | n + 1 => some (.stream n)

def attached (j : Journal) : Bool :=
  match j.remembered? with
  | none => false
  | some h => j.handlers.contains h

/-- Set the level and attach a stream handler unless the remembered one is
attached.  An unknown name changes nothing. -/
def configure? (choice : LevelChoice) (j : Journal) : Option Journal :=
  choice.level?.map fun level =>
    if j.attached then { j with level }
    else { level, handlers := j.handlers ++ [.stream j.made], made := j.made + 1 }

def clearHandlers (j : Journal) : Journal :=
  { j with handlers := [] }

/-- The level of the surroundings, which counts where a journal has none. -/
def warningLevel : Int := 30

def effectiveLevel (j : Journal) : Int :=
  if j.level = 0 then warningLevel else j.level

def loggerName : String := "equation"

def severityWidth : Nat := 8

def line (r : Record) : String :=
  let severity := r.severity.name
  let padding := String.ofList (List.replicate (severityWidth - severity.length) ' ')
  s!"{severity}{padding} | {loggerName} | {r.message}"

def linesOf (r : Record) : Handler → List String
  | .silent => []
  | .stream _ => [line r]

/-- The lines that a record adds.  With no handler at all the bare message of a
grave record is written. -/
def write (j : Journal) (r : Record) : List String :=
  if r.severity.level < j.effectiveLevel then []
  else
    match j.handlers with
    | [] => if r.severity.level < warningLevel then [] else [r.message]
    | handlers => handlers.flatMap (linesOf r)

def writeAll (j : Journal) (rs : List Record) : List String :=
  rs.flatMap j.write

end Journal

end Reckon
