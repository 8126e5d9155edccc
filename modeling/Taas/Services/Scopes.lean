import Taas.Infra.SortedSet
import Taas.Vocabulary

/-!
# What an API key may ask for

`app/services/scopes.py`. A user has one key, so the scope lives on the user; `none` means
everything.
-/

namespace Taas

open Infra

/-- The authenticated caller. -/
structure Principal where
  username : String
  allowedDomains : Option (Finset String) := none
  allowedOutputs : Option (Finset String) := none
deriving DecidableEq

namespace Principal

variable (principal : Principal)

/-- Why the key may not submit this job, or `none` if it may. -/
def checkScope (domain : String) (outputs : Finset String) : Option String :=
  if principal.allowedDomains.any fun allowed => domain ∉ allowed then
    some ("Your API key isn't allowed to use domain '" ++ domain ++ "'")
  else
    match principal.allowedOutputs with
    | none => none
    | some allowed =>
      let denied := sorted (· ≤ ·) (outputs \ allowed).val
      if denied.isEmpty then none
      else some ("Your API key isn't allowed to request outputs: " ++ ", ".intercalate denied)

/-- The part of `outputs` the key may request. -/
def inScopeOutputs (outputs : Finset String) : Finset String :=
  match principal.allowedOutputs with
  | none => outputs
  | some allowed => outputs ∩ allowed

/-- What `/domains` shows this key of a domain: the outputs it may request there. Empty means the
domain isn't listed. -/
def visibleOutputs (domain : String) (outputs : Finset String) : Finset String :=
  if principal.allowedDomains.any fun allowed => domain ∉ allowed then ∅
  else principal.inScopeOutputs outputs

end Principal

end Taas
