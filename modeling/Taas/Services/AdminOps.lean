import Taas.Services.Config

/-!
# The admin operations

`set_config` of `app/services/admin_ops.py`. Its values are a dict: their keys are distinct.
-/

namespace Taas

namespace ConfigTable

variable (py : Pydantic)

/-- The values as they are stored, or the text of the first that is refused. -/
def parseValues (values : List (String × Json)) : Except InvalidConfigEntry (List (String × Json)) :=
  values.mapM fun entry =>
    (RuntimeConfig.parseEntry py entry.1 entry.2).map fun parsed => (entry.1, parsed)

/-- `error` is the text of a `BadRequest`. -/
def setConfig (values : List (String × Json)) (table : ConfigTable) : Except String ConfigTable :=
  if values = [] then .error "Nothing to set"
  else (parseValues py values).map fun parsed => table.setValues parsed

/-- One call after another; a refused one leaves the table. -/
def setConfigs (calls : List (List (String × Json))) (table : ConfigTable) : ConfigTable :=
  calls.foldl (fun table values => (setConfig py values table).toOption.getD table) table

end ConfigTable

end Taas
