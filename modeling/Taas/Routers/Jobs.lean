import Taas.Services.JobSpec

/-!
# Submitting a job

`submit_job` of `app/routers/jobs.py` up to its first write, and the reading of the upload
(`app/services/uploads.py`). The key's scope and the domain's size limit come from caches of their
own; here they are given.

* `readLimited` — an upload, chunk by chunk.
* `checkUpload`, `resolveSubmit` — the checks in their order.
* `SubmitHand`, `submitPool` — submits, and everybody who changes what is served.
-/

namespace Taas

open Infra Infra.Prog

variable {S δ : Type}

/-- `read_limited`: what the reads give until an empty one, unless that passes `limit`; `error` has
what was held then. -/
def readLimited (limit : Nat) (data : List UInt8) :
    List (List UInt8) → Except (List UInt8) (List UInt8)
  | [] => .ok data
  | chunk :: chunks =>
    if chunk = [] then .ok data
    else if limit < (data ++ chunk).length then .error (data ++ chunk)
    else readLimited limit (data ++ chunk) chunks

/-- The answers of a refused submit, with their texts. -/
inductive SubmitRefusal where
  | badRequest (text : String)
  | forbidden (text : String)
  | unprocessable (text : String)
deriving DecidableEq

/-- A submit's form. The chunks are what reading its image gives. -/
structure SubmitForm where
  ext : String := ".jpg"
  chunks : List (List UInt8)
  externalId : Option String := none
  fmt : Fmt := .multi
  domain : Option String := none
  outputs : Option String := none
  options : Option String := none

structure UploadRules where
  allowedExtensions : List String
  /-- The text of the list, as Python prints it. -/
  allowedText : String
  maxBytes : Nat

/-- What is checked before the job spec: the label and the image. -/
def checkUpload (reader : SpecReader S) (rules : UploadRules) (form : SubmitForm) :
    Except SubmitRefusal (Option String × List UInt8) :=
  match reader.parseExternalId form.externalId with
  | .error text => .error (.unprocessable text)
  | .ok label =>
    if form.ext ∉ rules.allowedExtensions then
      .error (.badRequest ("Extension " ++ form.ext ++ " not allowed. Allowed: " ++
        rules.allowedText))
    else
      match readLimited rules.maxBytes [] form.chunks with
      | .error _ =>
        .error (.badRequest ("File too large. Max: " ++ toString rules.maxBytes ++ " bytes"))
      | .ok [] => .error (.unprocessable "empty image")
      | .ok image => .ok (label, image)

/-- What the job's row, its image and its queue entry are made of. -/
structure Admitted where
  externalId : Option String
  image : List UInt8
  spec : JobSpec

/-- The checks of a submit, in order: nothing is written before the last one. -/
def resolveSubmit (reader : SpecReader S) (table : CaseTable) (rules : UploadRules)
    (principal : Principal) (form : SubmitForm) : SpecProg S δ (Except SubmitRefusal Admitted) :=
  match checkUpload reader rules form with
  | .error refusal => pure (.error refusal)
  | .ok (externalId, image) =>
    match parseOutputs table form.outputs form.fmt with
    | .error text => pure (.error (.unprocessable text))
    | .ok requested =>
      -- The key's scope first, so an out-of-scope domain isn't probed for existence.
      match principal.checkScope ((nonEmpty form.domain).getD defaultDomain) requested with
      | some denied => pure (.error (.forbidden denied))
      | none => do
        match ← resolveJobSpec reader form.domain requested form.options with
        | .error text => pure (.error (.unprocessable text))
        | .ok spec => pure (.ok { externalId, image, spec })

/-! ## Who has to do with what is served -/

/-- What a submit was answered, and when it began. -/
structure Verdict where
  rules : UploadRules
  principal : Principal
  form : SubmitForm
  began : ℚ
  answer : Except SubmitRefusal Admitted

def submit (reader : SpecReader S) (table : CaseTable) (rules : UploadRules) (principal : Principal)
    (form : SubmitForm) : SpecProg S Verdict Unit := do
  let began ← CachePolicy.time
  let answer ← resolveSubmit reader table rules principal form
  CachePolicy.tell { rules, principal, form, began, answer }

inductive SubmitHand (S : Type) where
  | submit (rules : UploadRules) (principal : Principal) (form : SubmitForm)
  /-- Domain sync, a registration or an admin writes to the tables. -/
  | change (write : ServiceDb S → ServiceDb S)
  | clearCache
  | clock (durations : List ℚ)

def SubmitHand.prog (reader : SpecReader S) (table : CaseTable) :
    SubmitHand S → SpecProg S Verdict Unit
  | submit rules principal form => Taas.submit reader table rules principal form
  | change write => CachePolicy.change write
  | clearCache => CachePolicy.drop fun _ => true
  | clock durations => CachePolicy.clock durations

/-- Time does not go back. -/
def SubmitHand.Forward : SubmitHand S → Prop
  | clock durations => ∀ d ∈ durations, 0 ≤ d
  | _ => True

/-- A process that just started, and everybody around it. -/
def submitPool {ι : Type} (reader : SpecReader S) (table : CaseTable)
    (hands : ι → Option (SubmitHand S)) (db : ServiceDb S) (now : ℚ) :
    Pool (Cached (ServiceDb S) String (List (BackendCapability S)))
      (CacheNote String (List (BackendCapability S)) Verdict) ι where
  shared := { source := db, now := now }
  procs i := (hands i).map (SubmitHand.prog reader table)
  history := []

end Taas
