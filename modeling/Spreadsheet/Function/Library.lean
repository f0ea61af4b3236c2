import Spreadsheet.Function
import Spreadsheet.Text.Letters

/-!
Libraries of functions. Functions are found by their names in either case; a name that is taken stays
with its function, and an alias stands for a function that is there already.
-/

namespace Spreadsheet

/-- Functions and aliases by their names in upper case. -/
structure Library where
  /-- The functions. -/
  functions : Std.TreeMap String Function := ∅
  /-- The names that the aliases stand for. -/
  aliases : Std.TreeMap String String := ∅

namespace Library

/-- A library without functions. -/
def empty : Library := {}

/-- Whether a name in upper case is taken. -/
def takes (l : Library) (key : String) : Bool :=
  l.functions.contains key || l.aliases.contains key

/-- Whether a name is taken. -/
def contains (l : Library) (name : String) : Bool :=
  l.takes (Text.upper name)

/-- The function of a name. -/
def find? (l : Library) (name : String) : Option Function :=
  let key := Text.upper name
  match l.aliases[key]? with
  | some target => l.functions[target]?
  | none => l.functions[key]?

/-- Adds a function if its name is free. -/
def register? (l : Library) (f : Function) : Option Library :=
  let key := Text.upper f.name
  if l.takes key then none else some { l with functions := l.functions.insert key f }

/-- Adds a function if its name is free. -/
def register (l : Library) (f : Function) : Library :=
  (l.register? f).getD l

/-- Lets a free name stand for the function of another name. -/
def addAlias? (l : Library) (name target : String) : Option Library :=
  let key := Text.upper name
  let goal := Text.upper target
  if l.takes key || !l.functions.contains goal then none
  else some { l with aliases := l.aliases.insert key goal }

/-- Lets a free name stand for the function of another name. -/
def addAlias (l : Library) (name target : String) : Library :=
  (l.addAlias? name target).getD l

/-- The number of functions. -/
def size (l : Library) : Nat := l.functions.size

/-- All names, aliases too, in order. -/
def names (l : Library) : List String :=
  (l.functions.keys ++ l.aliases.keys).mergeSort fun a b => (compare a b).isLE

/-- Adds functions in the given order. -/
def registerAll (l : Library) (fs : List Function) : Library :=
  fs.foldl register l

end Library

end Spreadsheet
