import Taas.Infra.SortedSet
import Taas.Schemas.Codec
import Taas.Vocabulary

/-!
# What an engine adapter refuses at submit

`validate_request` of `app/engines/tuzkam/adapter.py` and `app/engines/tuzkaocr/adapter.py`: the
checks across fields that a JSON schema can't express.
-/

namespace Taas

open Infra

/-- Engine options: a JSON object. -/
abbrev Options := List (String × Json)

/-- `_GEOREF_OUTPUTS`: outputs that only exist for a georeferenced job. -/
def georefOutputs : Finset String := {"geojson", "gcp"}

/-- `options.get("georef") is False` -/
def georefOff (options : Options) : Bool :=
  match options.lookup "georef" with
  | some (.bool false) => true
  | _ => false

/-- GeoJSON and GCPs need georeferencing. -/
def validateTuzkaM (outputs : Finset String) (options : Options) : Option String :=
  let wanted := sorted (· ≤ ·) (outputs ∩ georefOutputs).val
  if wanted ≠ [] ∧ georefOff options then
    let verb := if wanted.length = 1 then "needs" else "need"
    some (" and ".intercalate wanted ++ " " ++ verb ++ " georef=true")
  else none

/-- A reason to reject the request, `none` if it's fine. TuzkaOCR has no such checks. -/
def validateRequest : AdapterId → Finset String → Options → Option String
  | .tuzkam, outputs, options => validateTuzkaM outputs options
  | .tuzkaocr, _, _ => none

end Taas
