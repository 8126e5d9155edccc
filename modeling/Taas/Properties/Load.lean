import Mathlib.Algebra.BigOperators.Group.Finset.Basic
import Mathlib.Algebra.Order.BigOperators.Group.Finset
import Taas.Services.JobSpec
import Taas.Services.Load

/-!
# Load fields and load in groups

* `loadField_inverse` — when a field gives back what it was made of.
* `computeLoad_eq_sum` — a total is a sum over the fields, in whatever order they come.
* `groupLoad_adds_up` — the groups by domain share the total out; a group by adapter is at most
  the total.
-/

namespace Taas

open Infra Infra.Prog

/-! ## Load fields -/

/-- What an output may be called. -/
def IsOutput (output : String) : Prop := output ≠ "" ∧ ',' ∉ output.toList

theorem isOutput_fmt (fmt : Fmt) : ∀ output ∈ fmt.outputs, IsOutput output := by
  cases fmt <;> simp [Fmt.outputs, IsOutput]

/-- What `parse_outputs` lets through. -/
theorem isOutput_of_parseOutputs {table : CaseTable} {raw : Option String} {fmt : Fmt}
    {outputs : Finset String} (h : parseOutputs table raw fmt = .ok outputs) :
    ∀ output ∈ outputs, IsOutput output := by
  cases raw with
  | none =>
    obtain rfl := Except.ok.inj h
    exact isOutput_fmt fmt
  | some raw =>
    unfold parseOutputs at h
    dsimp only at h
    split at h
    · cases h
    · next hempty =>
      obtain rfl := Except.ok.inj h
      intro output houtput
      rw [List.mem_toFinset] at houtput
      refine ⟨fun hnone => hempty (List.any_eq_true.mpr ⟨output, houtput, ?_⟩), fun hcomma => ?_⟩
      · exact decide_eq_true hnone
      · obtain ⟨item, hitem, rfl⟩ := List.mem_map.mp houtput
        exact not_mem_of_mem_split hitem (mem_strip (table.comma_lower hcomma))

theorem parseOutputs_ne_empty {table : CaseTable} {raw : Option String} {fmt : Fmt}
    {outputs : Finset String} (h : parseOutputs table raw fmt = .ok outputs) :
    outputs.Nonempty := by
  cases raw with
  | none =>
    obtain rfl := Except.ok.inj h
    cases fmt <;> simp [Fmt.outputs]
  | some raw =>
    unfold parseOutputs at h
    dsimp only at h
    split at h
    · cases h
    · obtain rfl := Except.ok.inj h
      rw [List.toFinset_nonempty_iff, ne_eq, List.map_eq_nil_iff, split, List.map_eq_nil_iff]
      exact List.splitOn_ne_nil _ _

/-- The outputs of a field are read back, whatever bars they have. -/
theorem parse_outputs_part {outputs : Finset String} (hne : outputs.Nonempty)
    (h : ∀ output ∈ outputs, IsOutput output) :
    ((split ',' (",".intercalate (sorted (· ≤ ·) outputs.val))).filter (· ≠ "")).toFinset =
      outputs := by
  have hlist : sorted (· ≤ ·) outputs.val ≠ [] := by
    intro hnil
    obtain ⟨output, houtput⟩ := hne
    have hmem := (mem_sorted (· ≤ ·)).mpr (Finset.mem_val.mpr houtput)
    rw [hnil] at hmem
    cases hmem
  have hsplit : split ',' (",".intercalate (sorted (· ≤ ·) outputs.val)) =
      sorted (· ≤ ·) outputs.val :=
    split_join hlist fun output houtput =>
      (h output (Finset.mem_val.mp ((mem_sorted _).mp houtput))).2
  rw [hsplit]
  ext output
  rw [List.mem_toFinset, List.mem_filter, mem_sorted, Finset.mem_val]
  exact ⟨fun hmem => hmem.1, fun hmem => ⟨hmem, decide_eq_true (h output hmem).1⟩⟩

theorem parseLoadField_loadField {domain : String} {outputs : Finset String}
    (hdomain : '|' ∉ domain.toList) (hne : outputs.Nonempty)
    (h : ∀ output ∈ outputs, IsOutput output) :
    parseLoadField (loadField domain outputs) = (domain, outputs) := by
  have hcut : partition '|' (loadField domain outputs) =
      (domain, ",".intercalate (sorted (· ≤ ·) outputs.val)) :=
    partition_append hdomain _
  unfold parseLoadField
  rw [hcut]
  exact congrArg (Prod.mk domain) (parse_outputs_part hne h)

/-- A field's domain has no bar. -/
theorem not_mem_parseLoadField (field : String) : '|' ∉ (parseLoadField field).1.toList := by
  intro h
  have hmem : '|' ∈ field.toList.takeWhile (· ≠ '|') := by
    simpa [parseLoadField, partition] using h
  simpa using List.mem_takeWhile_imp hmem

/-- **A field gives back what it was made of, and no other pair has it, exactly when the domain
has no bar.** -/
theorem loadField_inverse {table : CaseTable} {domain : String} {raw : Option String} {fmt : Fmt}
    {outputs : Finset String} (h : parseOutputs table raw fmt = .ok outputs) :
    (parseLoadField (loadField domain outputs) = (domain, outputs) ∧
      ∀ domain' raw' fmt' outputs', '|' ∉ domain'.toList →
        parseOutputs table raw' fmt' = .ok outputs' →
        loadField domain outputs = loadField domain' outputs' →
          domain = domain' ∧ outputs = outputs') ↔ '|' ∉ domain.toList := by
  constructor
  · rintro ⟨hback, -⟩
    have hbar := not_mem_parseLoadField (loadField domain outputs)
    rwa [hback] at hbar
  · intro hdomain
    have hback := parseLoadField_loadField hdomain (parseOutputs_ne_empty h)
      (isOutput_of_parseOutputs h)
    refine ⟨hback, fun domain' raw' fmt' outputs' hdomain' h' heq => ?_⟩
    have hback' := parseLoadField_loadField hdomain' (parseOutputs_ne_empty h')
      (isOutput_of_parseOutputs h')
    rw [heq, hback'] at hback
    exact ⟨(congrArg Prod.fst hback).symm, (congrArg Prod.snd hback).symm⟩

/-- A reader of ASCII texts. -/
def barReader : SpecReader Unit where
  isPrintable text := text.toList.all fun c => decide (' ' ≤ c ∧ c ≤ '~')
  loads _ := .error "Expecting value"
  schemaErrors _ _ := []

/-- One backend, which serves a domain with a bar. -/
def barDb : ServiceDb Unit where
  domains := (∅ : Finmap fun _ : String => Option Unit).insert "a|b" none
  backendDomains _ := (∅ : Finmap fun _ : String => BackendDomain).insert "a|b"
    { outputs := ["c"] }
  backends := [{ id := 1 }]

/-- A domain with a bar, which a submit may ask for. -/
theorem loadField_collides :
    (run (resolveJobSpec barReader (some "a|b") {"c"} none : SpecProg Unit Unit _)
      { source := barDb }).1.toOption.map (fun spec => (spec.domain, spec.outputs)) =
        some ("a|b", {"c"}) ∧
      parseOutputs .asciiOnly (some "c") .alto = .ok {"c"} ∧
      parseOutputs .asciiOnly (some "b|c") .alto = .ok {"b|c"} ∧
      parseLoadField (loadField "a|b" {"c"}) ≠ ("a|b", {"c"}) ∧
      loadField "a|b" {"c"} = loadField "a" {"b|c"} := by
  refine ⟨?_, ?_, ?_, ?_, ?_⟩
  · decide +kernel
  · rfl
  · rfl
  · decide +kernel
  · decide +kernel

theorem loadField_inverse_sample :
    parseLoadField (loadField "default" {"alto", "b|c"}) = ("default", {"alto", "b|c"}) := by
  have h : parseOutputs .asciiOnly (some " ALTO,b|c") .txt = .ok {"alto", "b|c"} := rfl
  exact ((loadField_inverse h).mpr (by decide)).1

/-! ## Totals as numbers -/

namespace LoadTotals

instance : Zero LoadTotals := ⟨{}⟩

instance : Add LoadTotals :=
  ⟨fun a b => ⟨a.queued + b.queued, a.inflight + b.inflight, a.backlogS + b.backlogS⟩⟩

@[simp] theorem queued_zero : (0 : LoadTotals).queued = 0 := rfl

@[simp] theorem inflight_zero : (0 : LoadTotals).inflight = 0 := rfl

@[simp] theorem backlogS_zero : (0 : LoadTotals).backlogS = 0 := rfl

variable (a b : LoadTotals)

@[simp] theorem queued_add : (a + b).queued = a.queued + b.queued := rfl

@[simp] theorem inflight_add : (a + b).inflight = a.inflight + b.inflight := rfl

@[simp] theorem backlogS_add : (a + b).backlogS = a.backlogS + b.backlogS := rfl

instance addCommMonoid : AddCommMonoid LoadTotals where
  add_assoc a b c := by ext <;> simp [add_assoc]
  zero_add a := by ext <;> simp
  add_zero a := by ext <;> simp
  add_comm a b := by ext <;> simp [add_comm]
  nsmul := nsmulRec

/-- Component by component. -/
instance partialOrder : PartialOrder LoadTotals where
  le a b := a.queued ≤ b.queued ∧ a.inflight ≤ b.inflight ∧ a.backlogS ≤ b.backlogS
  le_refl a := ⟨le_refl _, le_refl _, le_refl _⟩
  le_trans a b c hab hbc :=
    ⟨hab.1.trans hbc.1, hab.2.1.trans hbc.2.1, hab.2.2.trans hbc.2.2⟩
  le_antisymm a b hab hba :=
    LoadTotals.ext (le_antisymm hab.1 hba.1) (le_antisymm hab.2.1 hba.2.1)
      (le_antisymm hab.2.2 hba.2.2)

instance isOrderedAddMonoid : IsOrderedAddMonoid LoadTotals where
  add_le_add_left _ _ h c :=
    ⟨add_le_add_left h.1 c.queued, add_le_add_left h.2.1 c.inflight,
      add_le_add_left h.2.2 c.backlogS⟩

end LoadTotals

/-! ## A total is a sum over the fields -/

section Totals

variable (queued inflight : Counter String) (spp : Finmap fun _ : String => ℚ) (defaultSpp : ℚ)

/-- What the pages of one field amount to. -/
def pagesLoad (domain : String) (q i : Int) : LoadTotals :=
  ⟨max q 0, max i 0, (max q 0 + max i 0 : Int) * (spp.lookup domain).getD defaultSpp⟩

/-- What a field adds to a total, when it passes the filters. -/
def fieldLoad (field : String) : LoadTotals :=
  pagesLoad spp defaultSpp (parseLoadField field).1 (queued.value field) (inflight.value field)

/-- Whether a field passes the filters. -/
def FieldMatches (domains : Option (Finset String)) (caps : Option Capabilities)
    (field : String) : Prop :=
  loadMatches (parseLoadField field).1 (parseLoadField field).2 domains caps = true

instance (domains : Option (Finset String)) (caps : Option Capabilities) :
    DecidablePred (FieldMatches domains caps) := fun _ =>
  inferInstanceAs (Decidable (loadMatches _ _ domains caps = true))

theorem LoadTotals.count_eq (domains : Option (Finset String)) (caps : Option Capabilities)
    (totals : LoadTotals) (c : LoadCount) :
    totals.count spp defaultSpp domains caps c = totals +
      if loadMatches c.domain c.outputs domains caps then
        pagesLoad spp defaultSpp c.domain c.queued c.inflight else 0 := by
  unfold LoadTotals.count
  split
  · ext <;> simp [pagesLoad]
  · rw [add_zero]

theorem foldl_count (domains : Option (Finset String)) (caps : Option Capabilities)
    (cs : List LoadCount) (totals : LoadTotals) :
    cs.foldl (LoadTotals.count spp defaultSpp domains caps) totals = totals +
      (cs.map fun c => if loadMatches c.domain c.outputs domains caps then
        pagesLoad spp defaultSpp c.domain c.queued c.inflight else 0).sum := by
  induction cs generalizing totals with
  | nil => simp
  | cons c cs ih =>
    rw [List.foldl_cons, ih, LoadTotals.count_eq, List.map_cons, List.sum_cons, add_assoc]

/-- The order of the fields has no effect. -/
theorem foldl_count_perm (domains : Option (Finset String)) (caps : Option Capabilities)
    {cs : List LoadCount} (h : cs.Perm (loadCounts queued inflight)) :
    cs.foldl (LoadTotals.count spp defaultSpp domains caps) {} =
      computeLoad queued inflight spp defaultSpp domains caps := by
  rw [computeLoad, foldl_count, foldl_count, (h.map _).sum_eq]

theorem computeLoad_eq_sum (domains : Option (Finset String)) (caps : Option Capabilities) :
    computeLoad queued inflight spp defaultSpp domains caps =
      ∑ field ∈ queued.keys ∪ inflight.keys with FieldMatches domains caps field,
        fieldLoad queued inflight spp defaultSpp field := by
  have hzero : ({} : LoadTotals) = 0 := rfl
  rw [computeLoad, foldl_count, hzero, zero_add, loadCounts, List.map_map, Finset.sum_filter,
    ← sum_sorted (· ≤ ·)]
  rfl

/-! ## Groups by domain -/

/-- Whether a domain is asked for. -/
def askedFor (domains : Option (Finset String)) (name : String) : Bool :=
  domains.all fun ds => name ∈ ds

theorem fieldMatches_iff {domains : Option (Finset String)} {field : String} :
    FieldMatches domains none field ↔ askedFor domains (parseLoadField field).1 = true := by
  cases domains <;> simp [FieldMatches, askedFor, loadMatches]

theorem fieldMatches_singleton {name field : String} :
    FieldMatches (some {name}) none field ↔ (parseLoadField field).1 = name := by
  simp [fieldMatches_iff, askedFor]

/-- The domains that have a group: those of the fields that pass the filter. -/
def groupNames (domains : Option (Finset String)) : Finset String :=
  ((loadCounts queued inflight).map LoadCount.domain).toFinset.filter
    fun name => askedFor domains name = true

theorem mem_groupNames {domains : Option (Finset String)} {name : String} :
    name ∈ groupNames queued inflight domains ↔ ∃ field ∈ queued.keys ∪ inflight.keys,
      (parseLoadField field).1 = name ∧ FieldMatches domains none field := by
  have hcount : name ∈ ((loadCounts queued inflight).map LoadCount.domain).toFinset ↔
      ∃ field ∈ queued.keys ∪ inflight.keys, (parseLoadField field).1 = name := by
    simp [loadCounts]
  rw [groupNames, Finset.mem_filter, hcount]
  constructor
  · rintro ⟨⟨field, hfield, rfl⟩, hname⟩
    exact ⟨field, hfield, rfl, fieldMatches_iff.mpr hname⟩
  · rintro ⟨field, hfield, rfl, hmatch⟩
    exact ⟨⟨field, hfield, rfl⟩, fieldMatches_iff.mp hmatch⟩

theorem groupLoad_domain (adapterCaps : Finmap fun _ : String => Capabilities)
    (domains : Option (Finset String)) :
    groupLoad queued inflight spp defaultSpp .domain adapterCaps domains =
      (sorted (· ≤ ·) (groupNames queued inflight domains).val).map fun name =>
        (name, computeLoad queued inflight spp defaultSpp (some {name}) none) := by
  rw [groupNames, Finset.filter_val, ← filter_sorted]
  simp only [Bool.decide_coe]
  rfl

theorem map_fst_groupLoad (adapterCaps : Finmap fun _ : String => Capabilities)
    (domains : Option (Finset String)) :
    (groupLoad queued inflight spp defaultSpp .domain adapterCaps domains).map Prod.fst =
      sorted (· ≤ ·) (groupNames queued inflight domains).val := by
  rw [groupLoad_domain, List.map_map]
  exact List.map_id _

/-- A field is counted in the group of its domain and in no other. -/
theorem sum_groupLoad (adapterCaps : Finmap fun _ : String => Capabilities)
    (domains : Option (Finset String)) :
    ((groupLoad queued inflight spp defaultSpp .domain adapterCaps domains).map Prod.snd).sum =
      computeLoad queued inflight spp defaultSpp domains none := by
  have hgroup : ∀ field ∈ (queued.keys ∪ inflight.keys).filter (FieldMatches domains none),
      (parseLoadField field).1 ∈ groupNames queued inflight domains := by
    intro field hfield
    obtain ⟨hfield, hmatch⟩ := Finset.mem_filter.mp hfield
    exact (mem_groupNames queued inflight).mpr ⟨field, hfield, rfl, hmatch⟩
  have hfiber : ∀ name ∈ groupNames queued inflight domains,
      ((queued.keys ∪ inflight.keys).filter (FieldMatches domains none)).filter
          (fun field => (parseLoadField field).1 = name) =
        (queued.keys ∪ inflight.keys).filter (FieldMatches (some {name}) none) := by
    intro name hname
    have hasked : askedFor domains name = true := (Finset.mem_filter.mp hname).2
    rw [Finset.filter_filter]
    refine Finset.filter_congr fun field _ => ?_
    rw [fieldMatches_singleton, fieldMatches_iff]
    constructor
    · exact fun h => h.2
    · rintro rfl
      exact ⟨hasked, rfl⟩
  rw [groupLoad_domain, List.map_map, computeLoad_eq_sum,
    ← Finset.sum_fiberwise_of_maps_to hgroup, ← sum_sorted (· ≤ ·)]
  refine congrArg List.sum (List.map_congr_left fun name hname => ?_)
  rw [hfiber name ((mem_sorted _).mp hname), Function.comp_apply, computeLoad_eq_sum]

/-! ## Groups by adapter -/

theorem FieldMatches.of_caps {domains : Option (Finset String)} {caps : Option Capabilities}
    {field : String} (h : FieldMatches domains caps field) : FieldMatches domains none field := by
  unfold FieldMatches loadMatches at h ⊢
  split at h
  · cases h
  · next hdomains => rw [if_neg hdomains]

variable {spp defaultSpp}

theorem fieldLoad_nonneg (hspp : ∀ name seconds, spp.lookup name = some seconds → 0 ≤ seconds)
    (hdefault : 0 ≤ defaultSpp) (field : String) :
    0 ≤ fieldLoad queued inflight spp defaultSpp field := by
  have hseconds : ∀ name, 0 ≤ (spp.lookup name).getD defaultSpp := by
    intro name
    cases h : spp.lookup name with
    | none => exact hdefault
    | some seconds => exact hspp name seconds h
  refine ⟨le_max_right _ _, le_max_right _ _, mul_nonneg ?_ (hseconds _)⟩
  exact Int.cast_nonneg (add_nonneg (le_max_right _ _) (le_max_right _ _))

theorem computeLoad_le (hspp : ∀ name seconds, spp.lookup name = some seconds → 0 ≤ seconds)
    (hdefault : 0 ≤ defaultSpp) (domains : Option (Finset String))
    (caps : Option Capabilities) :
    computeLoad queued inflight spp defaultSpp domains caps ≤
      computeLoad queued inflight spp defaultSpp domains none := by
  rw [computeLoad_eq_sum, computeLoad_eq_sum]
  refine Finset.sum_le_sum_of_subset_of_nonneg ?_ fun field _ _ =>
    fieldLoad_nonneg queued inflight hspp hdefault field
  exact Finset.monotone_filter_right _ fun field _ h => h.of_caps

end Totals

/-- **Grouped load adds up.** -/
theorem groupLoad_adds_up (queued inflight : Counter String)
    (spp : Finmap fun _ : String => ℚ) (defaultSpp : ℚ)
    (adapterCaps : Finmap fun _ : String => Capabilities) (domains : Option (Finset String)) :
    let total := computeLoad queued inflight spp defaultSpp domains none
    let groups := groupLoad queued inflight spp defaultSpp .domain adapterCaps domains
    (groups.map Prod.fst).Nodup ∧
      (∀ name, name ∈ groups.map Prod.fst ↔ ∃ field ∈ queued.keys ∪ inflight.keys,
        (parseLoadField field).1 = name ∧
          loadMatches name (parseLoadField field).2 domains none = true) ∧
      (groups.map Prod.snd).sum = total ∧
      ((∀ name seconds, spp.lookup name = some seconds → 0 ≤ seconds) → 0 ≤ defaultSpp →
        ∀ group ∈ groupLoad queued inflight spp defaultSpp .adapter adapterCaps domains,
          group.2 ≤ total) := by
  refine ⟨?_, fun name => ?_, sum_groupLoad queued inflight spp defaultSpp adapterCaps domains,
    fun hspp hdefault group hgroup => ?_⟩
  · rw [map_fst_groupLoad]
    exact (nodup_sorted _).mpr (groupNames queued inflight domains).nodup
  · rw [map_fst_groupLoad, mem_sorted, Finset.mem_val, mem_groupNames]
    refine exists_congr fun field => and_congr_right fun _ => and_congr_right ?_
    rintro rfl
    rfl
  · obtain ⟨⟨adapter, caps⟩, -, rfl⟩ := List.mem_map.mp hgroup
    exact computeLoad_le queued inflight hspp hdefault domains (some caps)

/-- Two domains, one of them with a count below zero. -/
def queuedBoards : Counter String :=
  ((∅ : Counter String).insert "default|alto" 3).insert "maps|json" (-2)

def inflightBoards : Counter String :=
  ((∅ : Counter String).insert "maps|json" 4).insert "default|alto,txt" 1

/-- A page of maps takes longer than others, and one of music no time. -/
def secondsBoards : Finmap fun _ : String => ℚ :=
  ((∅ : Finmap fun _ : String => ℚ).insert "maps" (9 / 2)).insert "music" 0

theorem secondsBoards_nonneg (name : String) (seconds : ℚ)
    (h : secondsBoards.lookup name = some seconds) : 0 ≤ seconds := by
  unfold secondsBoards at h
  by_cases hmusic : name = "music"
  · rw [hmusic, Finmap.lookup_insert] at h
    exact (Option.some.inj h).le
  · rw [Finmap.lookup_insert_of_ne _ hmusic] at h
    by_cases hmaps : name = "maps"
    · rw [hmaps, Finmap.lookup_insert] at h
      rw [← Option.some.inj h]
      norm_num
    · simp [Finmap.lookup_insert_of_ne _ hmaps] at h

theorem groupLoad_adds_up_sample :
    ∀ group ∈ groupLoad queuedBoards inflightBoards secondsBoards 2 .adapter
      ((∅ : Finmap fun _ : String => Capabilities).insert "tuzka"
        ((∅ : Capabilities).insert "default" {"alto"})) none,
      group.2 ≤ computeLoad queuedBoards inflightBoards secondsBoards 2 none none :=
  (groupLoad_adds_up queuedBoards inflightBoards secondsBoards 2 _ none).2.2.2
    secondsBoards_nonneg (by norm_num)

end Taas
