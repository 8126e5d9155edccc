import Mathlib.Data.List.Induction
import Taas.Infra.Lists
import Taas.Infra.Runs
import Taas.Services.DomainSync

/-!
# The stored capabilities

What any history of syncs and declarations leaves in `domains` and `backend_domains`.

* `link_call_of_engine`, `link_call_of_declared`, `schemaOf_call` — what one call does to a row.
* `Follows` — what the tables should hold after a history.
* `follows_iff` — when they do.
-/

namespace Taas

open Infra

variable {S : Type}

/-! ## What the statements leave -/

theorem sorted_keys_eq_nil {V : Type} {m : Finmap fun _ : String => V} :
    sorted (· ≤ ·) m.keys.val = [] ↔ m = ∅ := by
  constructor
  · intro h
    refine Finmap.ext_lookup fun k => ?_
    rw [Finmap.lookup_empty, Finmap.lookup_eq_none, ← Finmap.mem_keys, ← Finset.mem_val,
      ← mem_sorted (· ≤ ·), h]
    exact List.not_mem_nil
  · rintro rfl
    rfl

namespace DomainDb

variable (db : DomainDb S)

/-- The row of a backend and a domain. -/
def link (b : BackendId) (name : String) : Option BackendDomain :=
  (db.backendDomains b).lookup name

theorem lookup_domainRows {names : List String} (hnames : names.Nodup) (name : String) :
    (db.domainRows names).domains.lookup name =
      (db.domains.lookup name).or (if name ∈ names then some none else none) := by
  have hkeys : (names.map id).Nodup := by rwa [List.map_id]
  by_cases hname : name ∈ names
  · have hrow := lookup_upsertAll_of_mem (f := id)
      (w := fun (_ : String) (row : Option (Option S)) =>
        if row.isSome then none else some none) hkeys hname db.domains
    rw [if_pos hname]
    rw [id_eq] at hrow
    refine hrow.trans ?_
    cases db.domains.lookup name <;> rfl
  · have hother : name ∉ names.map id := by rwa [List.map_id]
    rw [if_neg hname, Option.or_none]
    exact lookup_upsertAll_of_notMem hother db.domains

@[simp] theorem schemaOf_domainRows {names : List String} (hnames : names.Nodup) (name : String) :
    (db.domainRows names).schemaOf name = db.schemaOf name := by
  rw [schemaOf, schemaOf, lookup_domainRows db hnames]
  cases db.domains.lookup name with
  | none => rw [Option.none_or]; split <;> rfl
  | some row => rfl

end DomainDb

/-! ## The plan -/

section Plan

variable [BEq S] {info : EngineInfo S} {known : String → Option S}

/-- What a describe says of a domain's schema. -/
def EngineInfo.schema (info : EngineInfo S) (name : String) : Option S :=
  (info.domains.lookup name).bind DomainInfo.optionsSchema

theorem schemaToStore_eq_some {entry : String × DomainInfo S} {name : String} {schema : S} :
    schemaToStore known entry = some (name, schema) ↔ entry.1 = name ∧
      entry.2.optionsSchema = some schema ∧ (known name).any (fun k => k == schema) = false := by
  obtain ⟨name', outputs, described⟩ := entry
  unfold schemaToStore
  cases described with
  | none => simp
  | some schema' =>
    dsimp only
    split
    · next hknown =>
      constructor
      · intro h
        cases h
      · rintro ⟨rfl, hschema, hnone⟩
        obtain rfl := Option.some.inj hschema
        rw [hknown] at hnone
        cases hnone
    · next hknown =>
      constructor
      · intro h
        cases h
        exact ⟨rfl, rfl, Bool.eq_false_of_not_eq_true hknown⟩
      · rintro ⟨rfl, hschema, -⟩
        obtain rfl := Option.some.inj hschema
        rfl

theorem mem_schemasToStore {name : String} {schema : S} :
    (name, schema) ∈ (planDomainLinks info known).schemasToStore ↔
      info.schema name = some schema ∧ (known name).any (fun k => k == schema) = false := by
  rw [planDomainLinks, List.mem_filterMap, EngineInfo.schema]
  constructor
  · rintro ⟨⟨name', domain⟩, hdomain, h⟩
    obtain ⟨rfl, hschema, hknown⟩ := schemaToStore_eq_some.mp h
    rw [mem_items.mp hdomain]
    exact ⟨hschema, hknown⟩
  · rintro ⟨hschema, hknown⟩
    obtain ⟨domain, hdomain, hschema⟩ := Option.bind_eq_some_iff.mp hschema
    exact ⟨(name, domain), mem_items.mpr hdomain, schemaToStore_eq_some.mpr ⟨rfl, hschema, hknown⟩⟩

theorem nodup_schemasToStore :
    ((planDomainLinks info known).schemasToStore.map Prod.fst).Nodup := by
  refine nodup_map_filterMap (fun entry kv h => ?_) nodup_items
  exact (schemaToStore_eq_some.mp h).1.symm

theorem nodup_links : ((planDomainLinks info known).links.map Prod.fst).Nodup := by
  rw [planDomainLinks, List.map_map]
  exact nodup_items

theorem mem_links {name : String} {outputs : Finset String} :
    (name, outputs) ∈ (planDomainLinks info known).links ↔
      (info.domains.lookup name).map DomainInfo.outputs = some outputs := by
  rw [planDomainLinks, List.mem_map, Option.map_eq_some_iff]
  constructor
  · rintro ⟨⟨name', domain⟩, hdomain, h⟩
    cases h
    exact ⟨domain, mem_items.mp hdomain, rfl⟩
  · rintro ⟨domain, hdomain, rfl⟩
    exact ⟨(name, domain), mem_items.mpr hdomain, rfl⟩

end Plan

/-! ## What a call leaves -/

/-- The row of a described domain. -/
def DomainInfo.link (domain : DomainInfo S) : BackendDomain :=
  { outputs := sorted (· ≤ ·) domain.outputs.val }

/-- The row of a declared domain. -/
def declaredLink (outputs : List String) : BackendDomain :=
  { outputs := sorted (· ≤ ·) outputs.toFinset.val, source := .declared }

/-- The row of a described domain, before the schemas are stored. -/
theorem lookup_described (db : DomainDb S) (info : EngineInfo S) {name : String} (h : name ∈ info.domains) :
    ((db.domainRows (sorted (· ≤ ·) info.domains.keys.val)).domains.lookup name).isSome := by
  have hnames : (sorted (· ≤ ·) info.domains.keys.val).Nodup :=
    (nodup_sorted _).mpr info.domains.keys.nodup
  have hname : name ∈ sorted (· ≤ ·) info.domains.keys.val :=
    (mem_sorted _).mpr (Finmap.mem_keys.mpr h)
  rw [DomainDb.lookup_domainRows db hnames, if_pos hname]
  cases db.domains.lookup name <;> rfl

section Calls

variable [BEq S] (db : DomainDb S) (b : BackendId) (info : EngineInfo S)

theorem applyDomainSync_of_empty (h : info.domains = ∅) : applyDomainSync db b info = db := by
  unfold applyDomainSync
  exact if_pos (sorted_keys_eq_nil.mpr h)

/-- What the describe says, against the schemas stored. -/
def syncPlan : DomainPlan S :=
  planDomainLinks info (db.domainRows (sorted (· ≤ ·) info.domains.keys.val)).schemaOf

theorem applyDomainSync_of_ne (h : info.domains ≠ ∅) :
    applyDomainSync db b info =
      ((db.domainRows (sorted (· ≤ ·) info.domains.keys.val)).storeSchemas
        (syncPlan db info).schemasToStore).replaceLinks b (syncPlan db info).links := by
  unfold applyDomainSync
  exact if_neg fun hnil => h (sorted_keys_eq_nil.mp hnil)

/-- A describe replaces the rows of its backend. -/
theorem link_applyDomainSync (h : info.domains ≠ ∅) (name : String) :
    (applyDomainSync db b info).link b name = (info.domains.lookup name).map DomainInfo.link := by
  rw [applyDomainSync_of_ne db b info h, DomainDb.link, DomainDb.replaceLinks]
  dsimp only
  rw [Function.update_self]
  cases hdomain : info.domains.lookup name with
  | none =>
    have hother : name ∉ (syncPlan db info).links.map Prod.fst := by
      intro hmem
      obtain ⟨⟨name', outputs⟩, hlink, rfl⟩ := List.mem_map.mp hmem
      have hlink := mem_links.mp hlink
      rw [hdomain] at hlink
      cases hlink
    exact (lookup_upsertAll_of_notMem hother ∅).trans (Finmap.lookup_empty name)
  | some domain =>
    have hlink : (name, domain.outputs) ∈ (syncPlan db info).links :=
      mem_links.mpr (by rw [hdomain]; rfl)
    exact lookup_upsertAll_of_mem nodup_links hlink ∅

theorem backendDomains_applyDomainSync {b' : BackendId} (h : b' ≠ b) :
    (applyDomainSync db b info).backendDomains b' = db.backendDomains b' := by
  by_cases hempty : info.domains = ∅
  · rw [applyDomainSync_of_empty db b info hempty]
  · rw [applyDomainSync_of_ne db b info hempty]
    exact Function.update_of_ne h _ _

theorem schemaOf_syncPlan : syncPlan db info = planDomainLinks info db.schemaOf := by
  have hnames : (sorted (· ≤ ·) info.domains.keys.val).Nodup :=
    (nodup_sorted _).mpr info.domains.keys.nodup
  rw [syncPlan, funext (db.schemaOf_domainRows hnames)]

/-- The newest schema wins, unless `==` finds it the same. -/
theorem schemaOf_applyDomainSync (name : String) :
    (applyDomainSync db b info).schemaOf name =
      ((info.schema name).filter fun schema =>
        !(db.schemaOf name).any fun known => known == schema).or (db.schemaOf name) := by
  have hnames : (sorted (· ≤ ·) info.domains.keys.val).Nodup :=
    (nodup_sorted _).mpr info.domains.keys.nodup
  by_cases hempty : info.domains = ∅
  · rw [applyDomainSync_of_empty db b info hempty, EngineInfo.schema, hempty,
      Finmap.lookup_empty]
    rfl
  rw [applyDomainSync_of_ne db b info hempty, schemaOf_syncPlan]
  by_cases hstore : ∃ schema, (name, schema) ∈ (planDomainLinks info db.schemaOf).schemasToStore
  · obtain ⟨schema, hstore⟩ := hstore
    obtain ⟨hschema, hknown⟩ := mem_schemasToStore.mp hstore
    have hname : name ∈ info.domains := by
      obtain ⟨domain, hdomain, -⟩ := Option.bind_eq_some_iff.mp hschema
      exact Finmap.mem_of_lookup_eq_some hdomain
    obtain ⟨row, hrow⟩ := Option.isSome_iff_exists.mp (lookup_described db info hname)
    have hwritten := lookup_upsertAll_of_mem (w := fun kv row => row.map fun _ => some kv.2)
      nodup_schemasToStore hstore (db.domainRows (sorted (· ≤ ·) info.domains.keys.val)).domains
    rw [hrow] at hwritten
    rw [hschema, Option.filter_some, if_pos (by rw [hknown]; rfl)]
    exact congrArg Option.join hwritten
  · have hother : name ∉ (planDomainLinks info db.schemaOf).schemasToStore.map Prod.fst := by
      intro hmem
      obtain ⟨⟨name', schema⟩, hstored, rfl⟩ := List.mem_map.mp hmem
      exact hstore ⟨schema, hstored⟩
    have hkept := lookup_upsertAll_of_notMem (w := fun kv row => row.map fun _ => some kv.2)
      hother (db.domainRows (sorted (· ≤ ·) info.domains.keys.val)).domains
    have hnone : ((info.schema name).filter fun schema =>
        !(db.schemaOf name).any fun known => known == schema) = none := by
      rw [Option.filter_eq_none_iff]
      intro schema hschema hdiffers
      exact hstore ⟨schema, mem_schemasToStore.mpr ⟨hschema, by simpa using hdiffers⟩⟩
    rw [hnone, Option.none_or]
    exact (congrArg Option.join hkept).trans (db.schemaOf_domainRows hnames name)

/-! ### Declarations -/

section Declared

variable (declared : Finmap fun _ : String => List String) {name : String}

omit [BEq S] in
theorem link_applyDeclaredCapabilities_of_none (h : declared.lookup name = none) :
    (applyDeclaredCapabilities db b declared).link b name = db.link b name := by
  have hother : name ∉ (items declared).map Prod.fst := by
    intro hmem
    obtain ⟨⟨name', outputs⟩, hitem, rfl⟩ := List.mem_map.mp hmem
    rw [mem_items, h] at hitem
    cases hitem
  rw [DomainDb.link, applyDeclaredCapabilities, DomainDb.declareLinks]
  dsimp only
  rw [Function.update_self]
  exact lookup_upsertAll_of_notMem hother _

omit [BEq S] in
theorem link_applyDeclaredCapabilities_of_some {outputs : List String}
    (h : declared.lookup name = some outputs) :
    (applyDeclaredCapabilities db b declared).link b name =
      (DomainDb.declare outputs (db.link b name)).or (db.link b name) := by
  rw [DomainDb.link, applyDeclaredCapabilities, DomainDb.declareLinks]
  dsimp only
  rw [Function.update_self]
  exact lookup_upsertAll_of_mem nodup_items (mem_items.mpr h) _

omit [BEq S] in
theorem backendDomains_applyDeclaredCapabilities {b' : BackendId} (h : b' ≠ b) :
    (applyDeclaredCapabilities db b declared).backendDomains b' = db.backendDomains b' :=
  Function.update_of_ne h _ _

omit [BEq S] in
theorem schemaOf_applyDeclaredCapabilities (name : String) :
    (applyDeclaredCapabilities db b declared).schemaOf name = db.schemaOf name :=
  db.schemaOf_domainRows ((nodup_sorted _).mpr declared.keys.nodup) name

end Declared

end Calls

/-! ## Histories -/

namespace DomainCall

/-- A describe of this backend that is not empty. -/
def Describes (b : BackendId) : DomainCall S → Prop
  | sync b' info => b' = b ∧ info.domains ≠ ∅
  | declare _ _ => False

def backendId : DomainCall S → BackendId
  | sync b _ => b
  | declare b _ => b

/-- The outputs declared for this backend and domain. -/
def declares (b : BackendId) (name : String) : DomainCall S → Option (List String)
  | sync _ _ => none
  | declare b' declared => if b' = b then declared.lookup name else none

/-- The schema described for this domain. -/
def schema (name : String) : DomainCall S → Option S
  | sync _ info => info.schema name
  | declare _ _ => none

end DomainCall

/-- The last value that a call of the history gives. -/
def latest {α β : Type} (f : α → Option β) (calls : List α) : Option β := calls.reverse.findSome? f

theorem latest_cons {α β : Type} (f : α → Option β) (c : α) (calls : List α) :
    latest f (c :: calls) = (latest f calls).or (f c) := by
  rw [latest, latest, List.reverse_cons, List.findSome?_append, List.findSome?_singleton]

section Steps

variable [BEq S] {db : DomainDb S} {b : BackendId} {c : DomainCall S} {name : String}

/-- The engine's rows stay until the next describe. -/
theorem link_call_of_engine (hc : ¬c.Describes b) {row : BackendDomain}
    (hrow : db.link b name = some row) (hengine : row.source = .engine) :
    (db.call c).link b name = some row := by
  cases c with
  | sync b' info =>
    by_cases hb : b = b'
    · subst hb
      have hempty : info.domains = ∅ := by
        by_contra hne
        exact hc ⟨rfl, hne⟩
      rw [DomainDb.call, applyDomainSync_of_empty db b info hempty, hrow]
    · rw [DomainDb.call, DomainDb.link, backendDomains_applyDomainSync db b' info hb]
      exact hrow
  | declare b' declared =>
    by_cases hb : b = b'
    · subst hb
      cases hdeclared : declared.lookup name with
      | none =>
        exact (link_applyDeclaredCapabilities_of_none db b declared hdeclared).trans hrow
      | some outputs =>
        refine (link_applyDeclaredCapabilities_of_some db b declared hdeclared).trans ?_
        rw [hrow, DomainDb.declare, hengine, if_neg (by decide)]
        rfl
    · rw [DomainDb.call, DomainDb.link, backendDomains_applyDeclaredCapabilities db b' declared hb]
      exact hrow

/-- Where the engine has no row, the newest declaration is. -/
theorem link_call_of_declared (hc : ¬c.Describes b)
    (hrow : ∀ row, db.link b name = some row → row.source = .declared) :
    (db.call c).link b name = ((c.declares b name).map declaredLink).or (db.link b name) := by
  cases c with
  | sync b' info =>
    by_cases hb : b = b'
    · subst hb
      have hempty : info.domains = ∅ := by
        by_contra hne
        exact hc ⟨rfl, hne⟩
      rw [DomainDb.call, applyDomainSync_of_empty db b info hempty]
      rfl
    · rw [DomainDb.call, DomainDb.link, backendDomains_applyDomainSync db b' info hb]
      rfl
  | declare b' declared =>
    by_cases hb : b = b'
    · subst hb
      rw [DomainCall.declares, if_pos rfl]
      cases hdeclared : declared.lookup name with
      | none => exact link_applyDeclaredCapabilities_of_none db b declared hdeclared
      | some outputs =>
        refine (link_applyDeclaredCapabilities_of_some db b declared hdeclared).trans ?_
        cases hlink : db.link b name with
        | none => rfl
        | some row =>
          obtain ⟨held, source⟩ := row
          obtain rfl : source = .declared := hrow _ hlink
          rfl
    · rw [DomainCall.declares, if_neg (Ne.symm hb), DomainDb.call, DomainDb.link,
        backendDomains_applyDeclaredCapabilities db b' declared hb]
      rfl

/-- A call's schema is stored, unless `==` finds the stored one the same. -/
theorem schemaOf_call (db : DomainDb S) (c : DomainCall S) (name : String) :
    (db.call c).schemaOf name = ((c.schema name).filter fun schema =>
      !(db.schemaOf name).any fun known => known == schema).or (db.schemaOf name) := by
  cases c with
  | sync b' info => exact schemaOf_applyDomainSync db b' info name
  | declare b' declared => exact schemaOf_applyDeclaredCapabilities db b' declared name

/-! ### The same describe again -/

theorem schemasToStore_again (db : DomainDb S) (b : BackendId) {info : EngineInfo S}
    (hself : ∀ name schema, info.schema name = some schema → (schema == schema) = true) :
    (syncPlan (applyDomainSync db b info) info).schemasToStore = [] := by
  rw [List.eq_nil_iff_forall_not_mem]
  rintro ⟨name, schema⟩ hstore
  rw [schemaOf_syncPlan, mem_schemasToStore, schemaOf_applyDomainSync] at hstore
  obtain ⟨hschema, hdiffers⟩ := hstore
  rw [hschema, Option.filter_some] at hdiffers
  by_cases hknown : (db.schemaOf name).any (fun known => known == schema) = true
  · rw [if_neg (by simp [hknown]), Option.none_or, hknown] at hdiffers
    cases hdiffers
  · rw [if_pos (by simpa using hknown), Option.some_or, Option.any_some,
      hself name schema hschema] at hdiffers
    cases hdiffers

omit [BEq S] in
theorem replaceLinks_replaceLinks (db : DomainDb S) (b : BackendId)
    (links : List (String × Finset String)) :
    (db.replaceLinks b links).replaceLinks b links = db.replaceLinks b links := by
  rw [DomainDb.replaceLinks, DomainDb.replaceLinks]
  dsimp only
  rw [Function.update_idem]

theorem applyDomainSync_again (db : DomainDb S) (b : BackendId) {info : EngineInfo S}
    (hself : ∀ name schema, info.schema name = some schema → (schema == schema) = true) :
    applyDomainSync (applyDomainSync db b info) b info = applyDomainSync db b info := by
  by_cases hempty : info.domains = ∅
  · rw [applyDomainSync_of_empty _ b info hempty]
  have hrows : (applyDomainSync db b info).domainRows (sorted (· ≤ ·) info.domains.keys.val) =
      applyDomainSync db b info := by
    have hwritten : ∀ name ∈ sorted (· ≤ ·) info.domains.keys.val,
        (if ((applyDomainSync db b info).domains.lookup (id name)).isSome = true then none
          else some (none : Option S)) = none := by
      intro name hname
      have hmem : name ∈ info.domains := Finmap.mem_keys.mp ((mem_sorted _).mp hname)
      rw [if_pos]
      rw [applyDomainSync_of_ne db b info hempty]
      exact isSome_lookup_upsertAll (lookup_described db info hmem)
    rw [DomainDb.domainRows, upsertAll_eq_self hwritten]
  have hplan : (syncPlan (applyDomainSync db b info) info).links = (syncPlan db info).links := rfl
  rw [applyDomainSync_of_ne (applyDomainSync db b info) b info hempty, hrows,
    schemasToStore_again db b hself, hplan]
  have hstore : ∀ db : DomainDb S, db.storeSchemas [] = db := fun _ => rfl
  rw [hstore, applyDomainSync_of_ne db b info hempty, replaceLinks_replaceLinks]

end Steps

/-! ## Runs -/

section Runs

variable [BEq S] {b : BackendId} {name : String} {calls : List (DomainCall S)}

theorem link_foldl_of_engine (hcalls : ∀ c ∈ calls, ¬c.Describes b) {db : DomainDb S}
    {row : BackendDomain} (hrow : db.link b name = some row) (hengine : row.source = .engine) :
    (calls.foldl DomainDb.call db).link b name = some row := by
  induction calls generalizing db with
  | nil => exact hrow
  | cons c calls ih =>
    exact ih (fun c' hc' => hcalls c' (List.mem_cons_of_mem _ hc'))
      (link_call_of_engine (hcalls c List.mem_cons_self) hrow hengine)

theorem link_foldl_of_declared (hcalls : ∀ c ∈ calls, ¬c.Describes b) {db : DomainDb S}
    (hrow : ∀ row, db.link b name = some row → row.source = .declared) :
    (calls.foldl DomainDb.call db).link b name =
      ((latest (DomainCall.declares b name) calls).map declaredLink).or (db.link b name) := by
  induction calls generalizing db with
  | nil => rfl
  | cons c calls ih =>
    have hlink := link_call_of_declared (hcalls c List.mem_cons_self) hrow
    have hnext : ∀ row, (db.call c).link b name = some row → row.source = .declared := by
      intro row hrow'
      rw [hlink] at hrow'
      cases hdeclared : c.declares b name with
      | none =>
        rw [hdeclared] at hrow'
        exact hrow row hrow'
      | some outputs =>
        rw [hdeclared] at hrow'
        cases hrow'
        rfl
    rw [List.foldl_cons, ih (fun c' hc' => hcalls c' (List.mem_cons_of_mem _ hc')) hnext, hlink,
      latest_cons, ← Option.or_assoc, Option.map_or]

/-- `==` tells the schemas that the call brings from the ones that are stored. -/
def Tells (db : DomainDb S) (c : DomainCall S) : Prop :=
  ∀ name schema known, c.schema name = some schema → db.schemaOf name = some known →
    (known == schema) = true → known = schema

theorem schemaOf_call_of_tells {db : DomainDb S} {c : DomainCall S} (h : Tells db c) :
    (db.call c).schemaOf name = (c.schema name).or (db.schemaOf name) := by
  rw [schemaOf_call]
  cases hschema : c.schema name with
  | none => rfl
  | some schema =>
    rw [Option.filter_some, Option.some_or]
    split
    · rfl
    · next hsame =>
      rw [Bool.not_eq_true, Bool.not_eq_false', Option.any_eq_true] at hsame
      obtain ⟨known, hknown, hsame⟩ := hsame
      rw [Option.none_or, hknown, h name schema known hschema hknown hsame]

theorem schemaOf_foldl {db : DomainDb S} (h : Obeys DomainDb.call Tells db calls) :
    (calls.foldl DomainDb.call db).schemaOf name =
      (latest (DomainCall.schema name) calls).or (db.schemaOf name) := by
  induction calls generalizing db with
  | nil => rfl
  | cons c calls ih =>
    rw [List.foldl_cons, ih h.2, schemaOf_call_of_tells h.1, latest_cons, Option.or_assoc]

theorem isSome_schemaOf_foldl {db : DomainDb S} (h : (db.schemaOf name).isSome) :
    ((calls.foldl DomainDb.call db).schemaOf name).isSome := by
  induction calls generalizing db with
  | nil => exact h
  | cons c calls ih =>
    refine ih ?_
    rw [schemaOf_call, Option.isSome_or, h, Bool.or_true]

/-- What a history leaves, from empty tables on. -/
def stored (calls : List (DomainCall S)) : DomainDb S := calls.foldl DomainDb.call {}

theorem stored_append (past rest : List (DomainCall S)) :
    stored (past ++ rest) = rest.foldl DomainDb.call (stored past) := List.foldl_append

/-- The tables follow the engines. -/
structure Follows (calls : List (DomainCall S)) : Prop where
  /-- The domains of a backend's last describe are as it says. -/
  described : ∀ past b info rest, calls = past ++ .sync b info :: rest → info.domains ≠ ∅ →
    (∀ c ∈ rest, ¬c.Describes b) → ∀ name domain, info.domains.lookup name = some domain →
      (stored calls).link b name =
        some { outputs := sorted (· ≤ ·) domain.outputs.val, source := .engine }
  /-- The other domains are as declared since. -/
  declared : ∀ past b info rest, calls = past ++ .sync b info :: rest → info.domains ≠ ∅ →
    (∀ c ∈ rest, ¬c.Describes b) → ∀ name, info.domains.lookup name = none →
      (stored calls).link b name = (latest (DomainCall.declares b name) rest).map declaredLink
  /-- A backend that never described anything is as declared. -/
  undescribed : ∀ b, (∀ c ∈ calls, ¬c.Describes b) → ∀ name,
    (stored calls).link b name = (latest (DomainCall.declares b name) calls).map declaredLink
  /-- A call leaves the rows of the other backends. -/
  others : ∀ past c, calls = past ++ [c] → ∀ b, b ≠ c.backendId →
    (stored calls).backendDomains b = (stored past).backendDomains b
  /-- The schema is the last one that was described. -/
  schema : ∀ name, (stored calls).schemaOf name = latest (DomainCall.schema name) calls
  /-- It is never cleared. -/
  kept : ∀ past rest, calls = past ++ rest → ∀ name,
    ((stored past).schemaOf name).isSome → ((stored calls).schemaOf name).isSome
  /-- The same describe again changes no row and stores no schema. -/
  again : ∀ past b info, calls = past ++ [.sync b info] →
    stored (calls ++ [.sync b info]) = stored calls ∧
      (syncPlan (stored calls) info).schemasToStore = []

theorem link_empty (b : BackendId) (name : String) :
    (stored ([] : List (DomainCall S))).link b name = none := Finmap.lookup_empty name

theorem schemaOf_empty (name : String) :
    (stored ([] : List (DomainCall S))).schemaOf name = none := by
  have hrow : (stored ([] : List (DomainCall S))).domains.lookup name = none :=
    Finmap.lookup_empty name
  rw [DomainDb.schemaOf, hrow]
  rfl

theorem backendDomains_call (db : DomainDb S) (c : DomainCall S) {b : BackendId}
    (h : b ≠ c.backendId) : (db.call c).backendDomains b = db.backendDomains b := by
  cases c with
  | sync b' info => exact backendDomains_applyDomainSync db b' info h
  | declare b' declared => exact backendDomains_applyDeclaredCapabilities db b' declared h

theorem follows_of_obeys (hself : ∀ c ∈ calls, ∀ name schema, c.schema name = some schema →
    (schema == schema) = true) (h : Obeys DomainDb.call Tells {} calls) : Follows calls where
  described := by
    rintro past b info rest rfl hinfo hrest name domain hdomain
    rw [stored_append, List.foldl_cons]
    refine link_foldl_of_engine hrest ?_ rfl
    exact (link_applyDomainSync _ b info hinfo name).trans (by rw [hdomain]; rfl)
  declared := by
    rintro past b info rest rfl hinfo hrest name hdomain
    have hlink : ((stored past).call (.sync b info)).link b name = none :=
      (link_applyDomainSync _ b info hinfo name).trans (by rw [hdomain]; rfl)
    rw [stored_append, List.foldl_cons, link_foldl_of_declared hrest, hlink, Option.or_none]
    intro row hrow
    rw [hlink] at hrow
    cases hrow
  undescribed := by
    intro b hcalls name
    have hlink := link_empty (S := S) b name
    refine (link_foldl_of_declared hcalls fun row hrow => ?_).trans ?_
    · exact absurd (hrow.symm.trans hlink) (by simp)
    · exact (congrArg _ hlink).trans (Option.or_none ..)
  others := by
    rintro past c rfl b hb
    rw [stored_append]
    exact backendDomains_call (stored past) c hb
  schema name := by
    refine (schemaOf_foldl h).trans ?_
    exact (congrArg _ (schemaOf_empty name)).trans (Option.or_none ..)
  kept := by
    rintro past rest rfl name hsome
    rw [stored_append]
    exact isSome_schemaOf_foldl hsome
  again := by
    rintro past b info rfl
    have hinfo := hself _ (List.mem_append_right past List.mem_cons_self)
    rw [stored_append (past ++ _), stored_append past]
    exact ⟨applyDomainSync_again (stored past) b hinfo, schemasToStore_again (stored past) b hinfo⟩

end Runs

/-- **The tables follow the engines, all the way, exactly when `==` tells every schema that is
described from the one that is stored.** -/
theorem follows_iff [BEq S] {calls : List (DomainCall S)}
    (hself : ∀ c ∈ calls, ∀ name schema, c.schema name = some schema →
      (schema == schema) = true) :
    (∀ past, past <+: calls → Follows past) ↔ Obeys DomainDb.call Tells {} calls := by
  constructor
  · intro h
    induction calls using List.reverseRecOn with
    | nil => trivial
    | append_singleton calls c ih =>
      have hpast := h calls (List.prefix_append calls [c])
      have hall := h (calls ++ [c]) (List.prefix_refl _)
      refine obeys_append.mpr ⟨ih (fun c' hc' => hself c' (List.mem_append_left _ hc'))
        fun past hpast => h past (List.IsPrefix.trans hpast (List.prefix_append calls [c])), ?_, trivial⟩
      intro name schema known hschema hknown hsame
      -- the call is told nothing new, but the history has a newer schema
      have hkeeps : (stored (calls ++ [c])).schemaOf name = some known := by
        have hknown' : (stored calls).schemaOf name = some known := hknown
        rw [stored_append, List.foldl_cons, List.foldl_nil, schemaOf_call, hknown', hschema,
          Option.filter_some, Option.any_some, hsame]
        rfl
      have hlatest : latest (DomainCall.schema name) (calls ++ [c]) = some schema := by
        rw [latest, List.reverse_append]
        simp [hschema]
      have heq := hall.schema name
      rw [hkeeps, hlatest] at heq
      exact Option.some.inj heq
  · rintro h past ⟨rest, rfl⟩
    exact follows_of_obeys (fun c hc => hself c (List.mem_append_left _ hc))
      (obeys_append.mp h).1

/-- One domain, with a schema of one member. -/
def sampleInfo (value : Json) : EngineInfo Json :=
  ⟨(∅ : Finmap fun _ : String => DomainInfo Json).insert "default"
    { outputs := {"txt", "alto"}, optionsSchema := some (.obj [("const", value)]) }⟩

theorem sampleInfo_schema (value : Json) (name : String) : (sampleInfo value).schema name =
    if name = "default" then some (.obj [("const", value)]) else none := by
  rw [EngineInfo.schema, sampleInfo]
  by_cases hname : name = "default"
  · subst hname
    rw [Finmap.lookup_insert, if_pos rfl]
    rfl
  · rw [Finmap.lookup_insert_of_ne _ hname, Finmap.lookup_empty, if_neg hname]
    rfl

/-- The schema says `true` first, then `1`. -/
def domainCalls : List (DomainCall Json) :=
  [.sync 1 (sampleInfo (.bool true)), .sync 1 (sampleInfo (.int 1))]

theorem schemaOf_sampleCalls :
    (stored domainCalls).schemaOf "default" = some (.obj [("const", .bool true)]) := by
  have hfirst : (stored [.sync 1 (sampleInfo (.bool true))]).schemaOf "default" =
      some (.obj [("const", .bool true)]) := by
    refine (schemaOf_call ({} : DomainDb Json) (.sync 1 (sampleInfo (.bool true)))
      "default").trans ?_
    have hnone : ({} : DomainDb Json).schemaOf "default" = none := schemaOf_empty "default"
    rw [DomainCall.schema, sampleInfo_schema, if_pos rfl, hnone]
    rfl
  refine (schemaOf_call (stored [.sync 1 (sampleInfo (.bool true))])
    (.sync 1 (sampleInfo (.int 1))) "default").trans ?_
  rw [hfirst, DomainCall.schema, sampleInfo_schema, if_pos rfl]
  rfl

/-- What `==` finds the same is not replaced. -/
theorem schema_kept : (stored domainCalls).schemaOf "default" =
      some (.obj [("const", .bool true)]) ∧ ¬Follows domainCalls := by
  refine ⟨schemaOf_sampleCalls, fun h => ?_⟩
  have hlatest := h.schema "default"
  have hnewest : latest (DomainCall.schema "default") domainCalls =
      some (.obj [("const", .int 1)]) := by
    rw [domainCalls, latest_cons, latest_cons, DomainCall.schema, sampleInfo_schema, if_pos rfl]
    rfl
  rw [schemaOf_sampleCalls, hnewest] at hlatest
  cases hlatest

/-- A declaration between two descriptions; the schema says `true` first, then `2`. -/
def sampleHistory : List (DomainCall Json) :=
  [.sync 1 (sampleInfo (.bool true)),
    .declare 1 ((∅ : Finmap fun _ : String => List String).insert "maps" ["geojson"]),
    .sync 1 (sampleInfo (.int 2))]

theorem schemaOf_describedOnce (name : String) :
    (stored (sampleHistory.take 2)).schemaOf name =
      if name = "default" then some (.obj [("const", .bool true)]) else none := by
  have hfirst : (stored (sampleHistory.take 1)).schemaOf name =
      (sampleInfo (.bool true)).schema name := by
    refine (schemaOf_call ({} : DomainDb Json) (.sync 1 (sampleInfo (.bool true))) name).trans ?_
    have hnone : ({} : DomainDb Json).schemaOf name = none := schemaOf_empty name
    rw [hnone, DomainCall.schema, sampleInfo_schema]
    split <;> rfl
  refine (schemaOf_call (stored (sampleHistory.take 1)) (.declare 1 _) name).trans ?_
  rw [hfirst, sampleInfo_schema]
  rfl

theorem follows_iff_sample : Follows sampleHistory := by
  have hself : ∀ c ∈ sampleHistory, ∀ name schema, c.schema name = some schema →
      (schema == schema) = true := by
    intro c hc name schema hschema
    have hcall : c = sampleHistory[0] ∨ c = sampleHistory[1] ∨ c = sampleHistory[2] := by
      simpa [sampleHistory] using hc
    obtain rfl | rfl | rfl := hcall
    · replace hschema : (sampleInfo (.bool true)).schema name = some schema := hschema
      rw [sampleInfo_schema] at hschema
      split at hschema
      · cases hschema
        rfl
      · cases hschema
    · cases hschema
    · replace hschema : (sampleInfo (.int 2)).schema name = some schema := hschema
      rw [sampleInfo_schema] at hschema
      split at hschema
      · cases hschema
        rfl
      · cases hschema
  have hobeys : Obeys DomainDb.call Tells {} sampleHistory := by
    refine ⟨fun name schema known _ hknown => ?_, fun name schema known hschema => ?_,
      fun name schema known hschema hknown hsame => ?_, trivial⟩
    · have hnone : ({} : DomainDb Json).schemaOf name = none := schemaOf_empty name
      rw [hnone] at hknown
      cases hknown
    · cases hschema
    · -- `2` is no boolean
      replace hschema : (sampleInfo (.int 2)).schema name = some schema := hschema
      replace hknown : (stored (sampleHistory.take 2)).schemaOf name = some known := hknown
      rw [sampleInfo_schema] at hschema
      rw [schemaOf_describedOnce] at hknown
      split at hschema
      · next hname =>
        rw [if_pos hname] at hknown
        cases hschema
        cases hknown
        cases hsame
      · cases hschema
  exact (follows_iff hself).mpr hobeys sampleHistory (List.prefix_refl _)

end Taas
