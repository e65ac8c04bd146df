import TypeIgnore.Config.Toml
import TypeIgnore.Edit.Policy
import TypeIgnore.Glob.Syntax

/-!
# Settings

* `Settings` — what a settings file says;
* `Settings.ofText?` — a settings file read;
* `Overrides` — what is said for one run, and wins over the file;
* `Configuration` — both together, with defaults for what neither says;
* `resolve` — a configuration, or the first thing that is wrong with it.
-/

namespace TypeIgnore

/-- The name of the format of settings files. -/
def settingsSchema : Text := "typeshush.config.v1"

structure Settings where
  schema : Option Text := none
  descriptionStyle : Option Text := none
  followUp : Option Text := none
  silenceCodes : Option (List Text) := none
  allowNoCodes : Option Bool := none
  /-- Further directories to look modules and packages up in. -/
  searchPaths : List Text := []
  /-- Globs of files that are left alone. -/
  exclude : List Text := []
  deriving DecidableEq, Repr

namespace Settings

/-- The settings with the value of one more key. There is no other key, and each has values of one kind. -/
def set? (s : Settings) (key : Text) (v : Toml.Value) : Option Settings :=
  if key = "schema" then v.text?.map fun t => { s with schema := some t }
  else if key = "description_style" then v.text?.map fun t => { s with descriptionStyle := some t }
  else if key = "follow_up" then v.text?.map fun t => { s with followUp := some t }
  else if key = "silence_codes" then v.texts?.map fun ts => { s with silenceCodes := some ts }
  else if key = "allow_no_error_codes" then v.bool?.map fun b => { s with allowNoCodes := some b }
  else if key = "search_paths" then v.texts?.map fun ts => { s with searchPaths := ts }
  else if key = "exclude" then v.texts?.map fun ts => { s with exclude := ts }
  else none

/-- The settings that a file says. -/
def ofText? (t : Text) : Option Settings := do
  (← Toml.entries? t).foldlM (fun s (key, v) => s.set? key v) {}

end Settings

structure Overrides where
  descriptionStyle : Option Text := none
  followUp : Option Text := none
  silenceCodes : Option (List Text) := none
  allowNoCodes : Option Bool := none
  deriving DecidableEq, Repr

structure Configuration where
  policy : Policy := {}
  searchPaths : List Text := []
  exclude : List Text := []
  deriving DecidableEq, Repr

inductive ConfigError
  | schema (name : Text)
  | descriptionStyle (name : Text)
  | code (code : Text)
  | exclude (glob : Text) (error : GlobError)
  deriving DecidableEq, Repr

def ConfigError.message : ConfigError → Text
  | .schema name => "unsupported config schema: " ++ name ++ " (expected " ++ settingsSchema ++ ")"
  | .descriptionStyle name => "unknown description_style: " ++ name ++ " (expected 'none' or 'full')"
  | .code c => "invalid error code: " ++ c
  | .exclude glob e => "invalid exclude glob: " ++ glob ++ ": " ++ e.message

namespace DescriptionStyle

def text : DescriptionStyle → Text
  | .plain => "none"
  | .full => "full"

def ofText? (t : Text) : Option DescriptionStyle := [plain, full].find? fun style => style.text == t

end DescriptionStyle

/-- The name of the format, if there is one, is the known one. -/
def checkSchema : Option Text → Except ConfigError Unit
  | some name => if name = settingsSchema then .ok () else .error (.schema name)
  | none => .ok ()

/-- The codes of lists written with commas. -/
def readCodes (lists : List Text) : Except ConfigError CodeSet :=
  let codes := lists.flatMap Text.commaList
  match codes.find? fun code => !code.all isCodeChar with
  | some code => .error (.code code)
  | none => .ok (CodeSet.ofList codes)

def readStyle (t : Text) : Except ConfigError DescriptionStyle :=
  match DescriptionStyle.ofText? t with
  | some style => .ok style
  | none => .error (.descriptionStyle t)

/-- The first exclusion that is no glob is an error. -/
def checkExclude (globs : List Text) : Except ConfigError Unit :=
  globs.forM fun glob =>
    match Glob.ofText glob with
    | .ok _ => .ok ()
    | .error e => .error (.exclude glob e)

/-- The configuration of a run. -/
def resolve (s : Settings) (o : Overrides) : Except ConfigError Configuration := do
  checkSchema s.schema
  let standard : Policy := {}
  let descriptions ← ((o.descriptionStyle <|> s.descriptionStyle).map readStyle).getD (.ok standard.descriptions)
  let codes ← ((o.silenceCodes <|> s.silenceCodes).map fun lists => some <$> readCodes lists).getD
    (.ok standard.codes)
  checkExclude s.exclude
  return {
    policy := {
      descriptions
      followUp := ((o.followUp <|> s.followUp).map Text.trim).getD standard.followUp
      codes
      allowNoCodes := (o.allowNoCodes <|> s.allowNoCodes).getD standard.allowNoCodes }
    searchPaths := s.searchPaths
    exclude := s.exclude }

end TypeIgnore
