import RailRoute.Text.Basic

/-!
# Spellings of commands

Many commands have older spellings, with suffixes such as `.load` or other names. Each is
brought to the one spelling that the tables of a route know; of several rules the first that applies
is taken. All spellings are in lower case here.
-/

namespace RailRoute.Alias

open Text

/-- What precedes the word at the end of a spelling, without blanks at its own end. -/
def beforeSuffix? (suffix : String) (c : List Char) : Option (List Char) :=
  (beforeTail? suffix.toList c).map trimEnd

/-- Whether a spelling begins with a word. -/
def startsWith (c : List Char) (w : String) : Bool := w.toList.isPrefixOf c

/-- Drops a suffix from spellings that begin with one of some words. -/
def dropSuffix? (heads : List String) (suffix : String) (c : List Char) : Option (List Char) :=
  if heads.any (startsWith c) then beforeSuffix? suffix c else none

/-- Puts a new beginning in the place of an old one. -/
def replaceHead? (old new : String) (c : List Char) : Option (List Char) :=
  (afterHead? old.toList c).map (new.toList ++ ·)

/-- Spellings of structures may end in `.load`; those of backgrounds have rules of their own. -/
def structureRule (c : List Char) : Option (List Char) :=
  if startsWith c "structure.back" then none else dropSuffix? ["structure"] ".load" c

/-- In spellings of backgrounds the index stands before the property. -/
def backgroundRule (c : List Char) : Option (List Char) :=
  let heads := ["texture.background", "structure.background", "structure.back"]
  match heads.findSome? fun h => afterHead? h.toList c with
  | none => none
  | some rest =>
    [(".load", "texture.background"), (".x", "texture.background.x"),
      (".aspect", "texture.background.aspect")].findSome? fun r =>
        (beforeSuffix? r.1 rest).map (r.2.toList ++ ·)

/-- In spellings of timetables the index stands before the time of day. -/
def timetableRule (c : List Char) : Option (List Char) :=
  match afterHead? "train.timetable".toList c with
  | none => none
  | some rest =>
    [(".day.load", "train.timetable.day"), (".night.load", "train.timetable.night"),
      (".day", "train.timetable.day"), (".night", "train.timetable.night")].findSome? fun r =>
        (beforeSuffix? r.1 rest).map (r.2.toList ++ trim ·)

/-- The rules in the order in which they are tried. -/
def rules : List (List Char → Option (List Char)) :=
  [structureRule, backgroundRule, dropSuffix? ["cycle"] ".params",
    dropSuffix? ["signal"] ".load",
    dropSuffix? ["train.run", "train.flange", "route.signal"] ".set", timetableRule,
    replaceHead? "route.runinterval" "train.interval",
    replaceHead? "train.gauge" "route.gauge"]

/-- The spelling that the tables know. Textures are structures. -/
def canonical (c : List Char) : List Char :=
  let spelling := (rules.findSome? (· c)).getD c
  (replaceHead? "texture." "structure." spelling).getD spelling

end RailRoute.Alias
