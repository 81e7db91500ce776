import Lowering.Traced

/-!
# Lowering — the mode setting

The mode may come from a setting outside the program. A setting that names no mode is not an
error: it is passed over with a warning.
-/

namespace Lowering.Mode

/-- The name of the setting that asks for a mode. -/
def settingName : String := "TPDE_REGBANKSELECT_MODE"

/-- The mode that a setting asks for: the default where there is no setting, and also, with a
warning, where the setting names no mode. -/
def ofSetting (setting : Option String) : Traced Mode :=
  match setting.map ofText with
  | none => pure default
  | some (.ok mode) => pure mode
  | some (.error e) => do
    Traced.emit (.unknownMode e)
    pure fast

end Lowering.Mode
