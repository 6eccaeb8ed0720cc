import Interop.Settings
import Interop.Toml.Reader

/-!
# Settings files

A settings file is a TOML document. Its settings are checked when it is read.
-/

namespace Interop

inductive SettingsError where
  /-- The text is no document, or a setting has a value of another kind. -/
  | format
  | fault (f : SettingsFault)
  deriving DecidableEq

def Settings.parse (s : String) : Except SettingsError Settings :=
  match (Toml.parse s).bind fun v => Settings.read v.json with
  | none => .error .format
  | some settings =>
    match settings.fault? with
    | some fault => .error (.fault fault)
    | none => .ok settings

end Interop
