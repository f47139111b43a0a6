import ExpressionTyping.Settings.Reader
import ExpressionTyping.Text.Path

/-!
# Settings

Settings say what to check and against which declarations. They are read from a JSON document: an
object in which every key occurs at most once, or a list of all values in the order of the keys. A
key is judged as soon as it is read, before its value.
-/

set_option autoImplicit false

namespace ExpressionTyping

/-- What a settings document says; each part may be absent. -/
structure Settings where
  /-- The file of declarations that expressions see. -/
  context? : Option String := none
  /-- The file of built-in declarations. -/
  builtIns? : Option String := none
  /-- The expressions to check. -/
  expressions? : Option (List String) := none
  /-- Whether reports may be drawn for a terminal. -/
  pretty? : Option Bool := none
deriving DecidableEq, Inhabited

/-- The keys of a settings document. -/
inductive SettingKey where
  | context
  | builtIns
  | expressions
  | pretty
deriving DecidableEq, Inhabited

namespace SettingKey

/-- The keys in the order in which a list gives their values. -/
def all : List SettingKey := [context, builtIns, expressions, pretty]

/-- How a key is written. -/
def label : SettingKey → String
  | context => "context"
  | builtIns => "builtins"
  | expressions => "expressions"
  | pretty => "pretty"

/-- The key written as a text. -/
def ofLabel? (text : String) : Option SettingKey :=
  all.find? fun key => key.label == text

/-- Reads the value of a key into the settings; `null` leaves it absent. -/
def read (key : SettingKey) (settings : Settings) : Reader Settings := do
  match key with
  | context => return { settings with context? := ← Reader.optional Reader.text }
  | builtIns => return { settings with builtIns? := ← Reader.optional Reader.text }
  | expressions => return { settings with expressions? := ← Reader.optional Reader.texts }
  | pretty => return { settings with pretty? := ← Reader.optional Reader.flag }

end SettingKey

namespace Settings

/-- Reads the values of the keys given, in that order, from a list. -/
def readItems : List SettingKey → (first : Bool) → Settings → Reader Settings
  | [], _, settings => return settings
  | key :: rest, first, settings => do
    if ← Reader.hasItem first then
      readItems rest false (← key.read settings)
    else throw .mismatched

/-- Reads keys and their values from an object; only the keys given may still occur. -/
def readFields (keys : List SettingKey) (first : Bool) (settings : Settings) :
    Reader Settings := do
  if ← Reader.hasKey first then
    match SettingKey.ofLabel? (← Reader.string) with
    | none => throw .mismatched
    | some key =>
      if h : key ∈ keys then
        Reader.colon
        have : (keys.erase key).length < keys.length := by
          have := List.length_pos_of_mem h
          rw [List.length_erase_of_mem h]
          omega
        readFields (keys.erase key) false (← key.read settings)
      else throw .mismatched
  else return settings
termination_by keys.length

/-- Reads a settings document. -/
def document : Reader Settings := do
  match ← Reader.peekValue with
  | '[' =>
    Reader.skip
    let settings ← readItems SettingKey.all true {}
    Reader.endList
    return settings
  | '\x7b' =>
    Reader.skip
    let settings ← readFields SettingKey.all true {}
    Reader.endObject
    return settings
  | _ => Reader.mismatch

/-- Reads a text that is one settings document. -/
def parse (text : String) : Except ReadFault Settings :=
  StateT.run' (do
    let settings ← document
    Reader.endText
    return settings) text.toList

/-- Settings whose files are seen from a directory. -/
def resolve (base : String) (settings : Settings) : Settings :=
  { settings with
    context? := settings.context?.map (Path.join base)
    builtIns? := settings.builtIns?.map (Path.join base) }

end Settings

end ExpressionTyping
