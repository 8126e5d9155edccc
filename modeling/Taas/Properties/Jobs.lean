import Taas.Routers.Jobs
import Taas.Workers.Submit

/-!
# What is let in can be run

* `specOf_eq_ok_iff` — the checks of a submit, as a statement about the tables.
* `verdict_within` — in every interleaving a submit is let in or refused as the tables of a moment
  say that is less than the time to live before it began; what is let in is served by an enabled
  backend in the sense of dispatch.
* `listed_iff_offered` — `/domains` lists for a key what it may submit, and nothing else.
-/

namespace Taas

open Infra Infra.Prog

variable {S : Type} {reader : SpecReader S} {table : CaseTable}

/-! ## What the tables offer -/

/-- The test that dispatch makes of a backend and a job. -/
def ServiceDb.Serves (db : ServiceDb S) (backend : BackendRow) (name : String)
    (outputs : Finset String) : Prop :=
  backend ∈ db.backends ∧ backend.enabled = true ∧
    serves (db.allServedCapabilities backend.id) name outputs = true

/-- Some enabled backend takes the job, and its options are right. -/
def Acceptable (reader : SpecReader S) (db : ServiceDb S) (spec : JobSpec) : Prop :=
  reader.optionsErrors (db.schemaOf spec.domain) spec.options = [] ∧
    ∃ backend, db.Serves backend spec.domain spec.outputs ∧
      validateRequest backend.adapter spec.outputs spec.options = none

section

variable {db : ServiceDb S} {name : String} {outputs : Finset String} {options : Options}

theorem mem_capabilities {capability : BackendCapability S} :
    capability ∈ db.capabilities name ↔
      ∃ backend ∈ db.backends, backend.enabled = true ∧ ∃ link, db.link backend.id name = some link ∧
        capability = { outputs := link.outputs.toFinset, optionsSchema := db.schemaOf name,
                       adapter := backend.adapter } := by
  simp only [ServiceDb.capabilities, ServiceDb.enabledBackends, List.mem_filterMap,
    List.mem_filter, Option.map_eq_some_iff]
  constructor
  · rintro ⟨backend, ⟨hmem, henabled⟩, link, hlink, rfl⟩
    exact ⟨backend, hmem, henabled, link, hlink, rfl⟩
  · rintro ⟨backend, hmem, henabled, link, hlink, rfl⟩
    exact ⟨backend, ⟨hmem, henabled⟩, link, hlink, rfl⟩

/-- A capability that is enough is a backend that serves the job. -/
theorem exists_capability_iff {P : AdapterId → Prop} :
    (∃ capability ∈ db.capabilities name, outputs ⊆ capability.outputs ∧ P capability.adapter) ↔
      ∃ backend, db.Serves backend name outputs ∧ P backend.adapter := by
  constructor
  · rintro ⟨capability, hmem, hsub, hP⟩
    obtain ⟨backend, hbackend, henabled, link, hlink, rfl⟩ := mem_capabilities.mp hmem
    refine ⟨backend, ⟨hbackend, henabled, ?_⟩, hP⟩
    rw [serves, ServiceDb.allServedCapabilities, hlink]
    exact decide_eq_true hsub
  · rintro ⟨backend, ⟨hbackend, henabled, hserves⟩, hP⟩
    rw [serves, ServiceDb.allServedCapabilities] at hserves
    rcases hlink : db.link backend.id name with _ | link
    · rw [hlink] at hserves
      cases hserves
    · rw [hlink] at hserves
      exact ⟨_, mem_capabilities.mpr ⟨backend, hbackend, henabled, link, hlink, rfl⟩,
        of_decide_eq_true hserves, hP⟩

theorem schema_of_mem_capabilities {capability : BackendCapability S}
    (h : capability ∈ db.capabilities name) : capability.optionsSchema = db.schemaOf name := by
  obtain ⟨-, -, -, -, -, rfl⟩ := mem_capabilities.mp h
  rfl

/-- The adapters refuse when none of them accepts. -/
theorem adapterRejection_eq_none_iff {adapters : List AdapterId} (hne : adapters ≠ []) :
    adapterRejection adapters outputs options = none ↔
      ∃ adapter ∈ adapters, validateRequest adapter outputs options = none := by
  have hall : ∀ adapter : AdapterId, adapter ∈ [AdapterId.tuzkam, .tuzkaocr] := by
    intro adapter
    cases adapter <;> simp
  unfold adapterRejection
  dsimp only
  split
  · next h =>
    obtain ⟨adapter, hmem, hnone⟩ := List.any_eq_true.mp h
    rw [List.mem_filter, decide_eq_true_eq] at hmem
    exact ⟨fun _ => ⟨adapter, hmem.2, Option.isNone_iff_eq_none.mp hnone⟩, fun _ => rfl⟩
  · next h =>
    have hsome : ∀ adapter ∈ adapters, validateRequest adapter outputs options ≠ none := by
      intro adapter hmem hnone
      refine h (List.any_eq_true.mpr ⟨adapter, ?_, Option.isNone_iff_eq_none.mpr hnone⟩)
      rw [List.mem_filter, decide_eq_true_eq]
      exact ⟨hall adapter, hmem⟩
    constructor
    · intro hhead
      obtain ⟨adapter, hmem⟩ := List.exists_mem_of_ne_nil _ hne
      rw [List.head?_eq_none_iff, List.filterMap_eq_nil_iff] at hhead
      refine ⟨adapter, hmem, hhead adapter ?_⟩
      rw [List.mem_filter, decide_eq_true_eq]
      exact ⟨hall adapter, hmem⟩
    · rintro ⟨adapter, hmem, hnone⟩
      exact absurd hnone (hsome adapter hmem)

/-- The checks against backends of which the first one brings the options' schema. -/
theorem specOf_cons_eq_ok_iff {first : BackendCapability S} {rest : List (BackendCapability S)}
    {spec : JobSpec} :
    specOf reader name outputs options (first :: rest) = .ok spec ↔
      spec = { domain := name, outputs, options } ∧
        reader.optionsErrors first.optionsSchema options = [] ∧
          ∃ capability ∈ first :: rest, outputs ⊆ capability.outputs ∧
            validateRequest capability.adapter outputs options = none := by
  have hable : ∀ capability, capability ∈ ((first :: rest).filter fun backend =>
      outputs ⊆ backend.outputs) ↔ capability ∈ first :: rest ∧ outputs ⊆ capability.outputs :=
    fun capability => by rw [List.mem_filter, decide_eq_true_eq]
  unfold specOf
  dsimp only
  generalize ((first :: rest).filter fun backend => decide (outputs ⊆ backend.outputs)) = able
    at hable
  split
  · next hempty =>
    -- No backend produces all of the outputs.
    obtain rfl := List.isEmpty_iff.mp hempty
    refine ⟨fun h => absurd h (by simp), ?_⟩
    rintro ⟨-, -, capability, hmem, hsub, -⟩
    exact absurd ((hable capability).mpr ⟨hmem, hsub⟩) List.not_mem_nil
  · next hne =>
    have hne : able.map (·.adapter) ≠ [] := fun h => hne (by simpa using h)
    have hadapter : adapterRejection (able.map (·.adapter)) outputs options = none ↔
        ∃ capability ∈ first :: rest, outputs ⊆ capability.outputs ∧
          validateRequest capability.adapter outputs options = none := by
      rw [adapterRejection_eq_none_iff hne]
      constructor
      · rintro ⟨adapter, hadapter, hnone⟩
        obtain ⟨capability, hcap, rfl⟩ := List.mem_map.mp hadapter
        obtain ⟨hmem, hsub⟩ := (hable capability).mp hcap
        exact ⟨capability, hmem, hsub, hnone⟩
      · rintro ⟨capability, hmem, hsub, hnone⟩
        exact ⟨capability.adapter, List.mem_map_of_mem ((hable capability).mpr ⟨hmem, hsub⟩), hnone⟩
    rw [← hadapter]
    rcases reader.optionsErrors first.optionsSchema options with _ | ⟨error, errors⟩
    · dsimp only
      rcases hreason : adapterRejection (able.map (·.adapter)) outputs options with _ | reason
      · rw [hreason]
        exact ⟨fun h => ⟨(Except.ok.inj h).symm, rfl, rfl⟩, fun h => congrArg Except.ok h.1.symm⟩
      · rw [hreason]
        exact ⟨fun h => absurd h (by simp), fun h => absurd h.2.2 (by simp)⟩
    · exact ⟨fun h => absurd h (by simp), fun h => absurd h.2.1 (by simp)⟩

/-- **The checks of a submit.** A request passes exactly when its options are right and some
enabled backend serves it whose adapter accepts it. -/
theorem specOf_eq_ok_iff {spec : JobSpec} :
    specOf reader name outputs options (db.capabilities name) = .ok spec ↔
      spec = { domain := name, outputs, options } ∧
        Acceptable reader db { domain := name, outputs, options } := by
  have hserved : (∃ capability ∈ db.capabilities name, outputs ⊆ capability.outputs ∧
      validateRequest capability.adapter outputs options = none) ↔
        ∃ backend, db.Serves backend name outputs ∧
          validateRequest backend.adapter outputs options = none :=
    exists_capability_iff (P := fun adapter => validateRequest adapter outputs options = none)
  unfold Acceptable
  dsimp only
  rw [← hserved]
  rcases hcaps : db.capabilities name with _ | ⟨first, rest⟩
  · simp [specOf]
  · -- All capabilities of a domain carry the domain's own schema.
    have hschema : first.optionsSchema = db.schemaOf name :=
      schema_of_mem_capabilities (hcaps ▸ List.mem_cons_self)
    rw [specOf_cons_eq_ok_iff, hschema]

end

/-- What the checks let through is the request itself. -/
theorem spec_of_specOf {backends : List (BackendCapability S)} {name : String}
    {outputs : Finset String} {options : Options} {spec : JobSpec}
    (h : specOf reader name outputs options backends = .ok spec) :
    spec = { domain := name, outputs, options } := by
  unfold specOf at h
  split at h
  · cases h
  · dsimp only at h
    split at h
    · cases h
    · split at h
      · split at h
        · cases h
        · exact (Except.ok.inj h).symm
      · cases h

/-! ## The listing -/

section

variable {db : ServiceDb S} {principal : Principal} {name output : String}

theorem mem_unnested : output ∈ db.unnested name ↔ ∃ backend, db.Serves backend name {output} := by
  have hserves : ∀ backend : BackendRow, output ∈ ((db.link backend.id name).map (·.outputs)).getD [] ↔
      serves (db.allServedCapabilities backend.id) name {output} = true := by
    intro backend
    rw [serves, ServiceDb.allServedCapabilities]
    rcases db.link backend.id name with _ | link <;> simp
  rw [ServiceDb.unnested, List.mem_flatMap]
  constructor
  · rintro ⟨backend, hmem, houtput⟩
    obtain ⟨hmem, henabled⟩ := List.mem_filter.mp hmem
    exact ⟨backend, hmem, henabled, (hserves backend).mp houtput⟩
  · rintro ⟨backend, hmem, henabled, houtput⟩
    exact ⟨backend, List.mem_filter.mpr ⟨hmem, henabled⟩, (hserves backend).mpr houtput⟩

/-- A domain that is served has a row. -/
theorem mem_keys_of_serves {backend : BackendRow} {outputs : Finset String}
    (h : db.Serves backend name outputs) : name ∈ db.domains.keys := by
  have hserves := h.2.2
  rw [serves, ServiceDb.allServedCapabilities, ServiceDb.link] at hserves
  rw [Finmap.mem_keys, ← Finmap.lookup_isSome]
  rcases hlookup : db.domains.lookup name with _ | schema
  · rw [hlookup] at hserves
    cases hserves
  · rfl

theorem servedDomain_eq_some_iff {domain : ServedDomain S} :
    db.servedDomain name = some domain ↔ domain.outputs ≠ [] ∧ domain =
      { name, outputs := sorted (· ≤ ·) (db.unnested name).toFinset.val, labels := db.labels name,
        optionsSchema := db.schemaOf name } := by
  unfold ServiceDb.servedDomain
  dsimp only
  split
  · next hempty =>
    refine ⟨fun h => absurd h (by simp), ?_⟩
    rintro ⟨hne, rfl⟩
    exact absurd hempty hne
  · next hne =>
    refine ⟨fun h => ?_, fun h => congrArg some h.2.symm⟩
    obtain rfl := Option.some.inj h
    exact ⟨hne, rfl⟩

theorem domainEntry_eq_some_iff {domain entry : ServedDomain S} :
    principal.domainEntry domain = some entry ↔
      principal.visibleOutputs domain.name domain.outputs.toFinset ≠ ∅ ∧ entry =
        { domain with outputs := domain.outputs.filter fun o =>
            o ∈ principal.visibleOutputs domain.name domain.outputs.toFinset } := by
  unfold Principal.domainEntry
  dsimp only
  split
  · next hempty => exact ⟨fun h => absurd h (by simp), fun h => absurd hempty h.1⟩
  · next hne => exact ⟨fun h => ⟨hne, (Option.some.inj h).symm⟩, fun h => congrArg some h.2.symm⟩

theorem mem_servedDomains {domain : ServedDomain S} (h : domain ∈ db.servedDomains) :
    output ∈ domain.outputs ↔ output ∈ db.unnested domain.name := by
  obtain ⟨name, -, hname⟩ := List.mem_filterMap.mp h
  obtain ⟨-, rfl⟩ := servedDomain_eq_some_iff.mp hname
  rw [mem_sorted, Finset.mem_val, List.mem_toFinset]

theorem exists_servedDomain (h : output ∈ db.unnested name) :
    ∃ domain ∈ db.servedDomains, domain.name = name := by
  obtain ⟨backend, hbackend⟩ := mem_unnested.mp h
  have hne : sorted (· ≤ ·) (db.unnested name).toFinset.val ≠ [] := by
    refine List.ne_nil_of_mem (a := output) ?_
    rw [mem_sorted, Finset.mem_val, List.mem_toFinset]
    exact h
  refine ⟨_, List.mem_filterMap.mpr ⟨name, ?_, servedDomain_eq_some_iff.mpr ⟨hne, rfl⟩⟩, rfl⟩
  rw [mem_sorted]
  exact mem_keys_of_serves hbackend

/-- An output is visible to a key that may ask for it. -/
theorem mem_visibleOutputs {outputs : Finset String} :
    output ∈ principal.visibleOutputs name outputs ↔
      output ∈ outputs ∧ principal.checkScope name {output} = none := by
  unfold Principal.visibleOutputs Principal.checkScope
  split
  · simp
  · unfold Principal.inScopeOutputs
    rcases principal.allowedOutputs with _ | allowed
    · simp
    · have hdenied : (sorted (· ≤ ·) ({output} \ allowed : Finset String).val).isEmpty = true ↔
          output ∈ allowed := by
        rw [List.isEmpty_iff, List.eq_nil_iff_forall_not_mem]
        simp only [mem_sorted, Finset.mem_val, Finset.mem_sdiff, Finset.mem_singleton]
        exact ⟨fun h => not_not.mp fun hnot => h output ⟨rfl, hnot⟩, fun h o ho => ho.2 (ho.1 ▸ h)⟩
      dsimp only
      rw [Finset.mem_inter, ← hdenied]
      split
      · next hempty => exact and_congr_right fun _ => ⟨fun _ => rfl, fun _ => hempty⟩
      · next hne =>
        exact and_congr_right fun _ => ⟨fun h => absurd h hne, fun h => absurd h (by simp)⟩

/-- **The listing shows a key what it may submit, and nothing else.** Each domain is listed at most
once. An output is listed for a domain exactly when the key's scope lets a job for it pass and some
enabled backend would be given it by dispatch. -/
theorem listed_iff_offered : ((listDomains principal db).map (·.name)).Nodup ∧
    ∀ name output, (∃ entry ∈ listDomains principal db, entry.name = name ∧ output ∈ entry.outputs) ↔
      principal.checkScope name {output} = none ∧ ∃ backend, db.Serves backend name {output} := by
  have hkeys : ((sorted (· ≤ ·) db.domains.keys.val).map id).Nodup := by
    rw [List.map_id, nodup_sorted]
    exact db.domains.keys.nodup
  have hnames : (db.servedDomains.map (·.name)).Nodup := by
    refine nodup_map_filterMap (fun name domain h => ?_) hkeys
    obtain ⟨-, rfl⟩ := servedDomain_eq_some_iff.mp h
    rfl
  refine ⟨nodup_map_filterMap (fun domain entry h => ?_) hnames, fun name output => ⟨?_, ?_⟩⟩
  · obtain ⟨-, rfl⟩ := domainEntry_eq_some_iff.mp h
    rfl
  · rintro ⟨entry, hentry, rfl, houtput⟩
    obtain ⟨domain, hdomain, h⟩ := List.mem_filterMap.mp hentry
    obtain ⟨-, rfl⟩ := domainEntry_eq_some_iff.mp h
    obtain ⟨hmem, hvisible⟩ := List.mem_filter.mp houtput
    exact ⟨(mem_visibleOutputs.mp (of_decide_eq_true hvisible)).2,
      mem_unnested.mp ((mem_servedDomains hdomain).mp hmem)⟩
  · rintro ⟨hscope, hserves⟩
    have hmem := mem_unnested.mpr hserves
    obtain ⟨domain, hdomain, rfl⟩ := exists_servedDomain hmem
    have houtput : output ∈ domain.outputs := (mem_servedDomains hdomain).mpr hmem
    have hvisible : output ∈ principal.visibleOutputs domain.name domain.outputs.toFinset :=
      mem_visibleOutputs.mpr ⟨List.mem_toFinset.mpr houtput, hscope⟩
    exact ⟨_, List.mem_filterMap.mpr ⟨domain, hdomain,
      domainEntry_eq_some_iff.mpr ⟨Finset.ne_empty_of_mem hvisible, rfl⟩⟩, rfl,
      List.mem_filter.mpr ⟨houtput, decide_eq_true hvisible⟩⟩

end

/-! ## The upload -/

/-- What the reads give until an empty one. -/
def imageOf (chunks : List (List UInt8)) : List UInt8 := (chunks.takeWhile (· ≠ [])).flatten

theorem imageOf_cons {chunk : List UInt8} (h : chunk ≠ []) (chunks : List (List UInt8)) :
    imageOf (chunk :: chunks) = chunk ++ imageOf chunks := by
  simp [imageOf, h]

theorem readLimited_eq_ok_iff {limit : Nat} {data image : List UInt8} {chunks : List (List UInt8)}
    (hdata : data.length ≤ limit) : readLimited limit data chunks = .ok image ↔
      image = data ++ imageOf chunks ∧ image.length ≤ limit := by
  induction chunks generalizing data with
  | nil =>
    simp only [readLimited, imageOf, List.takeWhile_nil, List.flatten_nil, List.append_nil]
    exact ⟨fun h => Except.ok.inj h ▸ ⟨rfl, hdata⟩, fun h => congrArg Except.ok h.1.symm⟩
  | cons chunk chunks ih =>
    unfold readLimited
    split
    · next h =>
      subst h
      simp only [imageOf, List.takeWhile, ne_eq, not_true_eq_false, decide_false, List.flatten_nil,
        List.append_nil]
      exact ⟨fun h => Except.ok.inj h ▸ ⟨rfl, hdata⟩, fun h => congrArg Except.ok h.1.symm⟩
    · next h =>
      rw [imageOf_cons h, ← List.append_assoc]
      split
      · next hlong =>
        refine ⟨fun h => absurd h (by simp), ?_⟩
        rintro ⟨rfl, hle⟩
        rw [List.length_append] at hle
        omega
      · next hfits => exact ih (Nat.le_of_not_lt hfits)

/-- No more than one chunk past the limit is held. -/
theorem length_le_of_readLimited {limit size : Nat} {data held : List UInt8}
    {chunks : List (List UInt8)} (hdata : data.length ≤ limit)
    (hsize : ∀ chunk ∈ chunks, chunk.length ≤ size)
    (h : readLimited limit data chunks = .error held) : held.length ≤ limit + size := by
  induction chunks generalizing data with
  | nil => cases h
  | cons chunk chunks ih =>
    unfold readLimited at h
    split at h
    · cases h
    · split at h
      · obtain rfl := Except.error.inj h
        have hchunk := hsize chunk (List.mem_cons_self ..)
        rw [List.length_append]
        omega
      · next hfits =>
        exact ih (Nat.le_of_not_lt hfits) (fun c hc => hsize c (List.mem_cons_of_mem _ hc)) h

/-- The label and the image that a form comes with, as the rules want them. -/
structure SubmitForm.Uploads (reader : SpecReader S) (rules : UploadRules) (form : SubmitForm)
    (label : Option String) (image : List UInt8) : Prop where
  labelled : reader.parseExternalId form.externalId = .ok label
  ext : form.ext ∈ rules.allowedExtensions
  whole : image = imageOf form.chunks
  nonempty : image ≠ []
  fits : image.length ≤ rules.maxBytes

theorem checkUpload_eq_ok_iff {rules : UploadRules} {form : SubmitForm} {label : Option String}
    {image : List UInt8} : checkUpload reader rules form = .ok (label, image) ↔
      form.Uploads reader rules label image := by
  have hread : ∀ image, readLimited rules.maxBytes [] form.chunks = .ok image ↔
      image = imageOf form.chunks ∧ image.length ≤ rules.maxBytes := fun _ =>
    readLimited_eq_ok_iff (Nat.zero_le _ : ([] : List UInt8).length ≤ _)
  unfold checkUpload
  constructor
  · intro h
    split at h
    · cases h
    · next found hlabel =>
      split at h
      · cases h
      · next hext =>
        split at h
        · cases h
        · cases h
        · next held hne hheld =>
          obtain ⟨rfl, rfl⟩ := Prod.mk.inj (Except.ok.inj h)
          obtain ⟨himage, hle⟩ := (hread _).mp hheld
          exact ⟨hlabel, not_not.mp hext, himage, hne, hle⟩
  · rintro ⟨hlabel, hext, himage, hne, hle⟩
    rw [hlabel]
    dsimp only
    rw [if_neg (not_not.mpr hext), (hread image).mpr ⟨himage, hle⟩]
    rcases image with _ | ⟨byte, bytes⟩
    · exact absurd rfl hne
    · rfl

/-! ## What a verdict comes from -/

/-- The job that a form asks for, within the key's scope. -/
structure SubmitForm.Asks (reader : SpecReader S) (table : CaseTable) (principal : Principal)
    (form : SubmitForm) (spec : JobSpec) : Prop where
  outputs : parseOutputs table form.outputs form.fmt = .ok spec.outputs
  domain : spec.domain = (nonEmpty form.domain).getD defaultDomain
  scope : principal.checkScope spec.domain spec.outputs = none
  printable : reader.isPrintable spec.domain = true
  options : reader.parseOptions form.options = .ok spec.options

/-- A verdict that comes from the form, the key and what was seen of the tables. -/
def Verdict.From (reader : SpecReader S) (table : CaseTable)
    (seen : String → List (BackendCapability S) → Prop) (v : Verdict) : Prop :=
  match v.answer with
  | .ok admitted =>
    checkUpload reader v.rules v.form = .ok (admitted.externalId, admitted.image) ∧
      v.form.Asks reader table v.principal admitted.spec ∧
        ∃ backends, seen admitted.spec.domain backends ∧ specOf reader admitted.spec.domain
          admitted.spec.outputs admitted.spec.options backends = .ok admitted.spec
  | .error refusal =>
    checkUpload reader v.rules v.form = .error refusal ∨
      (∀ spec, ¬v.form.Asks reader table v.principal spec) ∨
        ∃ spec backends text, v.form.Asks reader table v.principal spec ∧
          seen spec.domain backends ∧ refusal = .unprocessable text ∧
            specOf reader spec.domain spec.outputs spec.options backends = .error text

theorem Verdict.From.imp {seen seen' : String → List (BackendCapability S) → Prop} {v : Verdict}
    (h : v.From reader table seen) (himp : ∀ k b, seen k b → seen' k b) :
    v.From reader table seen' := by
  obtain ⟨rules, principal, form, began, refusal | admitted⟩ := v
  · rcases h with h | h | ⟨spec, backends, text, hasks, hseen, hrest⟩
    · exact .inl h
    · exact .inr (.inl h)
    · exact .inr (.inr ⟨spec, backends, text, hasks, himp _ _ hseen, hrest⟩)
  · obtain ⟨hupload, hasks, backends, hseen, hspec⟩ := h
    exact ⟨hupload, hasks, backends, himp _ _ hseen, hspec⟩

/-- A verdict comes from what was served since the submit began. -/
def verdicts (reader : SpecReader S) (table : CaseTable) :
    Reports String (List (BackendCapability S)) Verdict where
  right v es := v.From reader table fun k b => CachePolicy.ServedSince k b v.began es
  mono _ _ _ hsub h := h.imp fun _ _ hs => hs.mono hsub

/-- What the tables say of a domain. -/
def Offers (db : ServiceDb S) (name : String) (backends : List (BackendCapability S)) : Prop :=
  backends = db.capabilities name

/-! ## The programs -/

section

variable {A : ℚ → List (CacheNote String (List (BackendCapability S)) Verdict) → Prop} {began : ℚ}
  {rules : UploadRules} {principal : Principal} {form : SubmitForm}

/-- The answer of a submit that began then is right. -/
def Answers (reader : SpecReader S) (table : CaseTable) (rules : UploadRules)
    (principal : Principal) (form : SubmitForm) (began : ℚ) (answer : Except SubmitRefusal Admitted)
    (es : List (CacheNote String (List (BackendCapability S)) Verdict)) : Prop :=
  (verdicts reader table).right { rules, principal, form, began, answer } es

theorem behaves_refuse {refusal : SubmitRefusal}
    (h : checkUpload reader rules form = .error refusal ∨
      ∀ spec, ¬form.Asks reader table principal spec) :
    capabilityCache.Behaves (verdicts reader table) Offers A (pure (.error refusal))
      fun answer now es => A now es ∧ Answers reader table rules principal form began answer es :=
  CachePolicy.behaves_pure fun _ _ hA => ⟨hA, h.imp_right .inl⟩

variable (hA : CachePolicy.Lasting A) (hbegan : ∀ now es, A now es → began ≤ now)

include hA hbegan

/-- What the cached capabilities make of a request whose texts are right. -/
theorem behaves_specOf (name : String) (outputs : Finset String) (options : Options) :
    capabilityCache.Behaves (verdicts reader table) Offers A
      (do
        let backends ← domainCapabilities name
        pure (specOf reader name outputs options backends))
      fun result now es => A now es ∧ ∃ backends,
        CachePolicy.ServedSince name backends began es ∧
          result = specOf reader name outputs options backends := by
  have hfetch : capabilityCache.Behaves (verdicts reader table) Offers A (domainCapabilities name)
      fun backends now es => A now es ∧ CachePolicy.ServedSince name backends began es :=
    CachePolicy.behaves_fetch hA hbegan fun _ => rfl
  exact hfetch.bind fun backends =>
    CachePolicy.behaves_pure fun now es h => ⟨h.1, backends, h.2, rfl⟩

/-- What `resolve_job_spec` makes of a form whose outputs are in scope: no job is asked for, or the
answer comes from what was seen since. -/
theorem behaves_resolveJobSpec {requested : Finset String}
    (houtputs : parseOutputs table form.outputs form.fmt = .ok requested)
    (hscope : principal.checkScope ((nonEmpty form.domain).getD defaultDomain) requested = none) :
    capabilityCache.Behaves (verdicts reader table) Offers A
      (resolveJobSpec reader form.domain requested form.options)
      fun result now es => A now es ∧
        ((∀ spec, ¬form.Asks reader table principal spec) ∧ (∃ text, result = .error text) ∨
          ∃ spec : JobSpec, form.Asks reader table principal spec ∧ ∃ backends,
            CachePolicy.ServedSince spec.domain backends began es ∧
              result = specOf reader spec.domain spec.outputs spec.options backends) := by
  unfold resolveJobSpec
  dsimp only
  split
  · next hprintable =>
    rcases hoptions : reader.parseOptions form.options with text | options
    · refine CachePolicy.behaves_pure fun now es h => ⟨h, .inl ⟨fun spec hasks => ?_, text, rfl⟩⟩
      have h := hasks.options
      rw [hoptions] at h
      cases h
    · refine (behaves_specOf hA hbegan _ requested options).imp fun result now es h => ?_
      exact ⟨h.1, .inr ⟨⟨_, requested, options⟩, ⟨houtputs, rfl, hscope, hprintable, hoptions⟩, h.2⟩⟩
  · next hprintable =>
    refine CachePolicy.behaves_pure fun now es h => ⟨h, .inl ⟨fun spec hasks => ?_, _, rfl⟩⟩
    exact hprintable (hasks.domain ▸ hasks.printable)

theorem behaves_resolveSubmit :
    capabilityCache.Behaves (verdicts reader table) Offers A
      (resolveSubmit reader table rules principal form)
      fun answer now es => A now es ∧ Answers reader table rules principal form began answer es := by
  unfold resolveSubmit
  -- What the checks before the cache refuse asks for no job.
  rcases hupload : checkUpload reader rules form with refusal | ⟨label, image⟩
  · exact behaves_refuse (.inl hupload)
  dsimp only
  rcases houtputs : parseOutputs table form.outputs form.fmt with text | requested
  · refine behaves_refuse (.inr fun spec hasks => ?_)
    have h := hasks.outputs
    rw [houtputs] at h
    cases h
  dsimp only
  rcases hscope : principal.checkScope ((nonEmpty form.domain).getD defaultDomain) requested with
    _ | denied
  · dsimp only
    refine (behaves_resolveJobSpec hA hbegan houtputs hscope).bind fun result => ?_
    rcases result with text | spec
    · refine CachePolicy.behaves_pure fun now es h => ⟨h.1, .inr ?_⟩
      rcases h.2 with ⟨hnone, -⟩ | ⟨spec, hasks, backends, hseen, hspec⟩
      · exact .inl hnone
      · exact .inr ⟨spec, backends, text, hasks, hseen, rfl, hspec.symm⟩
    · refine CachePolicy.behaves_pure fun now es h => ⟨h.1, hupload, ?_⟩
      rcases h.2 with ⟨-, text, htext⟩ | ⟨asked, hasks, backends, hseen, hspec⟩
      · cases htext
      · obtain rfl := spec_of_specOf hspec.symm
        exact ⟨hasks, backends, hseen, hspec.symm⟩
  · refine behaves_refuse (.inr fun spec hasks => ?_)
    have h := hasks.scope
    rw [hasks.domain, Except.ok.inj (hasks.outputs.symm.trans houtputs), hscope] at h
    cases h

omit hA hbegan

theorem behaves_submit :
    capabilityCache.Behaves (verdicts reader table) Offers (fun _ _ => True)
      (submit reader table rules principal form) fun _ _ _ => True := by
  refine (CachePolicy.behaves_time CachePolicy.lasting_true).bind fun began => ?_
  have hA : CachePolicy.Lasting
      fun now (_ : List (CacheNote String (List (BackendCapability S)) Verdict)) =>
        True ∧ began ≤ now := fun _ _ _ _ hle _ h => ⟨trivial, h.2.trans hle⟩
  refine (behaves_resolveSubmit hA fun _ _ h => h.2).bind fun answer => ?_
  refine (CachePolicy.behaves_tell (fun now now' es es' hle hsub h => ?_)
    fun now es h => h.2).imp fun _ _ _ _ => trivial
  exact ⟨hA now now' es es' hle hsub h.1, (verdicts reader table).mono _ _ _ hsub h.2⟩

theorem behaves_submitHand (hand : SubmitHand S) (hforward : hand.Forward) :
    capabilityCache.Behaves (verdicts reader table) Offers (fun _ _ => True)
      (hand.prog reader table) fun _ _ _ => True := by
  rcases hand with ⟨rules, principal, form⟩ | write | _ | durations
  · exact behaves_submit
  · exact CachePolicy.behaves_change write
  · exact CachePolicy.behaves_drop fun _ => true
  · exact CachePolicy.behaves_clock hforward

end

/-! ## Every interleaving -/

section

variable {ι : Type} [DecidableEq ι] {hands : ι → Option (SubmitHand S)} {db : ServiceDb S} {now : ℚ}
  {q : Pool (Cached (ServiceDb S) String (List (BackendCapability S)))
    (CacheNote String (List (BackendCapability S)) Verdict) ι}

theorem opens_submitPool (hforward : ∀ i hand, hands i = some hand → hand.Forward) :
    capabilityCache.Opens (verdicts reader table) Offers (submitPool reader table hands db now) where
  behaves i c hc := by
    obtain ⟨hand, hhand, rfl⟩ := Option.map_eq_some_iff.mp hc
    exact behaves_submitHand hand (hforward i hand hhand)
  entries := rfl
  history := rfl

/-- The tables of some moment of the run that is less than the time to live before `began`, or
later. -/
def Recently (p q : Pool (Cached (ServiceDb S) String (List (BackendCapability S)))
    (CacheNote String (List (BackendCapability S)) Verdict) ι) (began : ℚ)
    (holds : ServiceDb S → Prop) : Prop :=
  ∃ r, Pool.Run .free p r ∧ Pool.Run .free r q ∧
    began < r.shared.now + capabilitiesTtlSeconds ∧ holds r.shared.source

/-- **What is let in can be run, and what is refused cannot.** Whatever submits, syncs, admins and
losses of the cache come in between. A submit that is let in got the job its form asks for within
its key's scope, with all of the image; and at some moment of the run that is less than the time to
live before it began, or later, an enabled backend would be given this job by dispatch, with
options that the domain and the backend's engine take. A submit that is refused comes with a wrong
label or image, or asks for no job in scope, or no backend would take its job at such a moment. -/
theorem verdict_within (hforward : ∀ i hand, hands i = some hand → hand.Forward)
    (hr : Pool.Run .free (submitPool reader table hands db now) q) {v : Verdict}
    (hv : .told v ∈ q.history) :
    (∀ admitted, v.answer = .ok admitted →
      v.form.Uploads reader v.rules admitted.externalId admitted.image ∧
        v.form.Asks reader table v.principal admitted.spec ∧
          Recently (submitPool reader table hands db now) q v.began fun db =>
            Acceptable reader db admitted.spec) ∧
    (∀ refusal, v.answer = .error refusal →
      (∀ label image, ¬v.form.Uploads reader v.rules label image) ∨
        (∀ spec, ¬v.form.Asks reader table v.principal spec) ∨
          ∃ spec, v.form.Asks reader table v.principal spec ∧
            Recently (submitPool reader table hands db now) q v.began fun db =>
              ¬Acceptable reader db spec) := by
  have hopens : capabilityCache.Opens (verdicts reader table) Offers
      (submitPool reader table hands db now) := opens_submitPool hforward
  have hfrom : v.From reader table fun k b => CachePolicy.ServedSince k b v.began q.history :=
    hopens.told hr hv
  have httl : 0 < capabilitiesTtlSeconds := by decide +kernel
  have hrecently : ∀ name backends, CachePolicy.ServedSince name backends v.began q.history →
      Recently (submitPool reader table hands db now) q v.began fun db =>
        backends = db.capabilities name := by
    rintro name backends ⟨t, hbegan, hserved⟩
    obtain ⟨r, hpr, hrq, hoffers, -, hlt⟩ := hopens.served_early hr rfl httl hserved
    exact ⟨r, hpr, hrq, hbegan.trans_lt hlt, hoffers⟩
  obtain ⟨rules, principal, form, began, answer⟩ := v
  constructor
  · rintro admitted rfl
    obtain ⟨hupload, hasks, backends, hseen, hspec⟩ := hfrom
    obtain ⟨r, hpr, hrq, hlt, rfl⟩ := hrecently _ _ hseen
    exact ⟨checkUpload_eq_ok_iff.mp hupload, hasks, r, hpr, hrq, hlt,
      (specOf_eq_ok_iff.mp hspec).2⟩
  · rintro refusal rfl
    rcases hfrom with hupload | hnone | ⟨spec, backends, text, hasks, hseen, -, hspec⟩
    · refine .inl fun label image huploads => ?_
      rw [checkUpload_eq_ok_iff.mpr huploads] at hupload
      cases hupload
    · exact .inr (.inl hnone)
    · obtain ⟨r, hpr, hrq, hlt, rfl⟩ := hrecently _ _ hseen
      refine .inr (.inr ⟨spec, hasks, r, hpr, hrq, hlt, fun haccept => ?_⟩)
      rw [specOf_eq_ok_iff.mpr ⟨rfl, haccept⟩] at hspec
      cases hspec

/-- ASCII texts, and options that are left out or empty. -/
def plainReader : SpecReader Unit where
  isPrintable text := text.toList.all fun c => decide (' ' ≤ c ∧ c ≤ '~')
  loads text := if text = "{}" then .ok (.obj []) else .error "Expecting value"
  schemaErrors _ options := options.map fun option => option.1 ++ ": unexpected"

def scans : BackendRow where
  id := 1

def scansDb : ServiceDb Unit where
  domains := (∅ : Finmap fun _ : String => Option Unit).insert "default" none
  backendDomains _ := (∅ : Finmap fun _ : String => BackendDomain).insert "default"
    { outputs := ["alto", "txt"] }
  backends := [scans]

def pageForm : SubmitForm where
  chunks := [[1], [2], []]
  fmt := .txt

def pageRules : UploadRules where
  allowedExtensions := [".jpg"]
  allowedText := "['.jpg']"
  maxBytes := 2

/-- Two submits; in between the backend is disabled and four seconds pass. -/
def pageHands : List (SubmitHand Unit) :=
  [.submit pageRules { username := "l" } pageForm,
    .change fun db => { db with backends := [{ scans with enabled := false }] },
    .clock [4], .submit pageRules { username := "l" } pageForm]

/-- Whether a submit that began then got a text of the image. -/
def letIn (began : ℚ) (es : List (CacheNote String (List (BackendCapability Unit)) Verdict)) : Bool :=
  es.any fun
    | .told v => v.began = began && v.answer.toOption.any fun admitted =>
        admitted.image = [1, 2] && (admitted.spec.domain = "default" &&
          admitted.spec.outputs = {"txt"})
    | _ => false

/-- The second submit still gets in: the backend was enabled when the first one came. -/
theorem verdict_within_sample :
    ∃ (q : Pool (Cached (ServiceDb Unit) String (List (BackendCapability Unit)))
        (CacheNote String (List (BackendCapability Unit)) Verdict) Nat) (v : Verdict)
      (admitted : Admitted), q.shared.source.backends = [{ scans with enabled := false }] ∧
        .told v ∈ q.history ∧ v.began = 4 ∧ v.answer = .ok admitted ∧ admitted.image = [1, 2] ∧
          admitted.spec.outputs = {"txt"} ∧
            Recently (submitPool plainReader .asciiOnly (fun i => pageHands[i]?) scansDb 0) q 4
              fun db => Acceptable plainReader db admitted.spec := by
  obtain ⟨q, hq, hP⟩ := Pool.exists_run_of_schedule (R := Regime.free) (fun _ _ => trivial)
    (p := submitPool plainReader .asciiOnly (fun i => pageHands[i]?) scansDb 0)
    (l := List.replicate 5 0 ++ [1, 2] ++ List.replicate 3 3)
    (P := fun q => decide (q.shared.source.backends = [{ scans with enabled := false }]) &&
      letIn 4 q.history) (by decide +kernel)
  rw [Bool.and_eq_true, decide_eq_true_eq] at hP
  have hforward : ∀ (i : Nat) hand, pageHands[i]? = some hand → hand.Forward := by
    have hclock : (0 : ℚ) ≤ 4 := by decide +kernel
    have hall : ∀ hand ∈ pageHands, hand.Forward := by
      simp [pageHands, SubmitHand.Forward, hclock]
    exact fun _ hand h => hall hand (List.mem_of_getElem? h)
  obtain ⟨e, he, htold⟩ := List.any_eq_true.mp hP.2
  rcases e with _ | _ | _ | v
  case told =>
    obtain ⟨hbegan, hanswer⟩ := Bool.and_eq_true_iff.mp htold
    obtain hbegan : v.began = 4 := of_decide_eq_true hbegan
    rcases hadmitted : v.answer with refusal | admitted
    · rw [hadmitted] at hanswer
      cases hanswer
    · rw [hadmitted] at hanswer
      simp only [Except.toOption, Option.any_some, Bool.and_eq_true, decide_eq_true_eq] at hanswer
      obtain ⟨himage, -, houtputs⟩ := hanswer
      have hlet := (verdict_within hforward hq he).1 admitted hadmitted
      exact ⟨q, v, admitted, hP.1, he, hbegan, hadmitted, himage, houtputs, hbegan ▸ hlet.2.2⟩
  all_goals cases htold

end

end Taas
