import Marginalia.Json.Parser
import Marginalia.Settings.Basic
import Marginalia.Text.Utf8
import Marginalia.Toml.Parser

/-! # Reading settings

Settings come from a file in one of two formats, told by its extension.  Parts and fields may be
left out, and unknown ones are passed over.  A part may also be an array of its fields in order.
-/
namespace Marginalia

open Text

/-- The formats of settings files. -/
inductive Settings.Format where
  | json
  | toml
  deriving DecidableEq, Repr

namespace Settings

/-- The name of a file without the directories before it. -/
def fileName (path : Text) : Text :=
  ((splitOn '/' path).filter fun part => !part.isEmpty).getLast?.getD []

/-- The extension of a file: what follows the last dot of its name, unless the name begins with
it. -/
def extension? (path : Text) : Option Text :=
  match splitOn '.' (fileName path) with
  | [] => none
  | [_] => none
  | first :: second :: rest =>
    if first.isEmpty && rest.isEmpty then none else ((second :: rest).getLast?)

/-- The format of a file by its name. -/
def Format.ofName? (name : String) : Option Format :=
  match (extension? name.toList).map String.ofList with
  | some "json" => some .json
  | some "toml" => some .toml
  | _ => none

/-- The value of a field, or its default where it is left out. -/
def orElse {α : Type} (standard : α) (read? : Json → Option α) : Option Json → Option α
  | none => some standard
  | some json => read? json

/-- Reads a record of settings: an array may have more items than there are fields only in
TOML. -/
def record? (format : Format) (names : List String) (json : Json) : Option (List (Option Json)) :=
  json.record? (format = .toml) names

/-- Reads the part about the converter. -/
def converterOfJson? (format : Format) (json : Json) : Option ConverterSettings := do
  let standard := ConverterSettings.standard
  match ← record? format ["program", "args", "timeout_secs"] json with
  | [program, arguments, timeout] =>
    return {
      program := ← orElse standard.program Json.text? program
      arguments := ← orElse standard.arguments Json.texts? arguments
      timeoutSeconds := ← orElse standard.timeoutSeconds (Json.natural? wordBound) timeout }
  | _ => none

/-- The way of counting white space of the given name. -/
def whitespaceOfName? : String → Option Markup.Whitespace
  | "preserve" => some .preserve
  | "collapse" => some .collapse
  | _ => none

/-- Whether a value stands for no content. -/
def isUnit (format : Format) : Json → Bool
  | .null => format = .json
  | .array items => format = .toml && items.isEmpty
  | .object members => format = .toml && members.isEmpty
  | _ => false

/-- Reads a way of counting white space: its name, or an object with its name and no content. -/
def whitespaceOfJson? (format : Format) : Json → Option Markup.Whitespace
  | .string name => whitespaceOfName? name
  | .object [(name, content)] => if isUnit format content then whitespaceOfName? name else none
  | _ => none

/-- Reads the part about text. -/
def textOfJson? (format : Format) (json : Json) : Option Markup.Whitespace := do
  match ← record? format ["whitespace"] json with
  | [whitespace] => orElse .collapse (whitespaceOfJson? format) whitespace
  | _ => none

/-- Reads a colour. -/
def colorOfJson? (json : Json) : Option Color := do
  Color.ofText? (← json.text?).toList

/-- Reads the part about style. -/
def styleOfJson? (format : Format) (json : Json) : Option StyleSettings := do
  let standard := StyleSettings.standard
  match ← record? format ["default_color", "many_color", "light_tint"] json with
  | [defaultColor, manyColor, lightTint] =>
    return {
      defaultColor := ← orElse standard.defaultColor colorOfJson? defaultColor
      manyColor := ← orElse standard.manyColor colorOfJson? manyColor
      lightTint := ← orElse standard.lightTint
        (fun json => (json.natural? 256).map UInt8.ofNat) lightTint }
  | _ => none

/-- Reads the part about restricted contexts. -/
def restrictedOfJson? (format : Format) (json : Json) : Option RestrictedSettings := do
  match ← record? format ["extra_commands", "extra_environments"] json with
  | [commands, environments] =>
    return {
      commands := ← orElse [] Json.texts? commands
      environments := ← orElse [] Json.texts? environments }
  | _ => none

/-- Reads settings. -/
def ofJson? (format : Format) (json : Json) : Option Settings := do
  match ← record? format ["converter", "text", "style", "restricted"] json with
  | [converter, text, style, restricted] =>
    return {
      converter := ← orElse .standard (converterOfJson? format) converter
      whitespace := ← orElse .collapse (textOfJson? format) text
      style := ← orElse .standard (styleOfJson? format) style
      restricted := ← orElse ⟨[], []⟩ (restrictedOfJson? format) restricted }
  | _ => none

/-- Settings as an object with every field. -/
def toJson (settings : Settings) : Json :=
  let strings := fun names : List String => Json.array (names.map .string)
  let color := fun color : Color => Json.string (String.ofList color.display)
  .object [
    ("converter", .object [
      ("program", .string settings.converter.program),
      ("args", strings settings.converter.arguments),
      ("timeout_secs", .whole settings.converter.timeoutSeconds)]),
    ("text", .object [("whitespace", .string (match settings.whitespace with
      | .preserve => "preserve"
      | .collapse => "collapse"))]),
    ("style", .object [
      ("default_color", color settings.style.defaultColor),
      ("many_color", color settings.style.manyColor),
      ("light_tint", .whole settings.style.lightTint.toNat)]),
    ("restricted", .object [
      ("extra_commands", strings settings.restricted.commands),
      ("extra_environments", strings settings.restricted.environments)])]

/-- Reads the settings in a file of the given name; the contents are missing if there is no such
file. -/
def ofFile (name : String) (contents : Option (List UInt8)) : Except SettingsError Settings :=
  match contents.bind Utf8.decode? with
  | none => .error .unreadable
  | some text =>
    match Format.ofName? name with
    | none => .error .unsupportedFormat
    | some .json =>
      match (Json.ofText? text).bind (ofJson? .json) with
      | some settings => .ok settings
      | none => .error .badJson
    | some .toml =>
      match (Toml.ofText? text).bind fun toml => ofJson? .toml toml.toJson with
      | some settings => .ok settings
      | none => .error .badToml

end Settings

end Marginalia
