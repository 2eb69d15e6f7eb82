/-!
# Journals

Work on a font may be worth a note: a warning, a decision, a step.  Notes are
values of a type of their own; a journal keeps those of a wanted level.
-/

namespace OutlineFont

/-- How important a note is. -/
inductive Level where
  | warn
  | debug
  | trace
  deriving DecidableEq, Repr, Inhabited

namespace Level

def name : Level → String
  | .warn => "warn"
  | .debug => "debug"
  | .trace => "trace"

/-- Levels by growing detail. -/
def detail : Level → Nat
  | .warn => 0
  | .debug => 1
  | .trace => 2

def ofName? (name : String) : Option Level :=
  [Level.warn, .debug, .trace].find? fun level => level.name = name

end Level

/-- Notes with a level and a wording. -/
class Notable (Note : Type) where
  level : Note → Level
  message : Note → String

/-- The notes that were kept, oldest first; without a threshold none are. -/
structure Journal (Note : Type) where
  threshold : Option Level
  notes : Array Note

namespace Journal

variable {Note : Type}

/-- A journal that has kept nothing yet. -/
def opened (threshold : Option Level) : Journal Note :=
  ⟨threshold, #[]⟩

/-- A journal that keeps nothing. -/
def silent : Journal Note :=
  opened none

instance : Inhabited (Journal Note) := ⟨silent⟩

def wants (journal : Journal Note) (level : Level) : Bool :=
  match journal.threshold with
  | none => false
  | some threshold => level.detail ≤ threshold.detail

variable [Notable Note]

/-- Keep a note if its level is wanted. -/
def record (journal : Journal Note) (note : Note) : Journal Note :=
  if journal.wants (Notable.level note) then
    { journal with notes := journal.notes.push note }
  else
    journal

/-- Keep those of some notes whose level is wanted. -/
def recordAll (journal : Journal Note) (notes : List Note) : Journal Note :=
  notes.foldl record journal

end Journal

end OutlineFont
