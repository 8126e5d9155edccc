import Taas.Infra.Lists
import Taas.Services.AdminOps

/-!
# Config values are read as they were written

* `fromRows_eq_some_iff` — each setting is decided by its own rows; a malformed one costs its own
  setting only.
* `ParsedAs` — what `parse_entry` lets through, by the kind of key.
* `lookup_setConfigs` — the table after any calls of `set_config`.
* `last_write_read` — every value reads as the last accepted call set it.
-/

namespace Taas

open Infra

/-! ## Keys -/

theorem afterPrefix?_eq_some {start text rest : String} :
    afterPrefix? start text = some rest ↔ text = start ++ rest := by
  rw [afterPrefix?, Option.map_eq_some_iff]
  constructor
  · rintro ⟨l, hl, rfl⟩
    rw [List.isPrefixOf?_eq_some_iff_append_eq] at hl
    rw [← String.toList_inj, String.toList_append, String.toList_ofList, hl]
  · rintro rfl
    exact ⟨rest.toList, by simp, String.ofList_toList⟩

theorem beforeSuffix?_eq_some {stop text rest : String} :
    beforeSuffix? stop text = some rest ↔ text = rest ++ stop := by
  rw [beforeSuffix?, Option.map_eq_some_iff]
  constructor
  · rintro ⟨l, hl, rfl⟩
    rw [List.isSuffixOf?_eq_some_iff_append_eq] at hl
    rw [← String.toList_inj, String.toList_append, String.toList_ofList, hl]
  · rintro rfl
    exact ⟨rest.toList, by simp, String.ofList_toList⟩

/-- What the pattern of a bucket's key takes. -/
def BucketName (bucket : String) : Prop := bucket ≠ "" ∧ '\n' ∉ bucket.toList

theorem storageTtlBucket_eq_some {key bucket : String} :
    storageTtlBucket key = some bucket ↔ key = storageTtlKey bucket ∧ BucketName bucket := by
  rw [storageTtlBucket, Option.filter_eq_some_iff, Option.bind_eq_some_iff]
  constructor
  · rintro ⟨⟨rest, hrest, hbucket⟩, hname⟩
    rw [afterPrefix?_eq_some] at hrest
    rw [beforeSuffix?_eq_some] at hbucket
    refine ⟨by rw [hrest, hbucket, storageTtlKey, String.append_assoc], ?_⟩
    simpa [BucketName] using hname
  · rintro ⟨rfl, hname⟩
    refine ⟨⟨bucket ++ "_ttl_minutes", ?_, beforeSuffix?_eq_some.mpr rfl⟩, ?_⟩
    · rw [afterPrefix?_eq_some, storageTtlKey, String.append_assoc]
    · simpa [BucketName] using hname

namespace Setting

theorem key_injective {s s' : Setting} (h : s.key = s'.key) : s = s' := by
  have hall : ∀ s ∈ all, ∀ s' ∈ all, s.key = s'.key → s = s' := by decide
  exact hall s (mem_all s) s' (mem_all s') h

theorem name_injective {s s' : Setting} (h : s.name = s'.name) : s = s' := by
  have hall : ∀ s ∈ all, ∀ s' ∈ all, s.name = s'.name → s = s' := by decide
  exact hall s (mem_all s) s' (mem_all s') h

theorem key_ne_name (s s' : Setting) : s.key ≠ s'.name := by
  have hall : ∀ s ∈ all, ∀ s' ∈ all, s.key ≠ s'.name := by decide
  exact hall s (mem_all s) s' (mem_all s')

end Setting

/-! ## Values -/

/-- Numbers are taken for themselves. -/
structure Coercions.Exact (coercions : Coercions) : Prop where
  int : ∀ n, coercions.int (.int n) = some n
  float : ∀ x, coercions.float (.float x) = some x

theorem Coercions.exact_strict : Coercions.strict.Exact := ⟨fun _ => rfl, fun _ => rfl⟩

/-- What was accepted and dumped is accepted again, as the same value. -/
theorem Kind.validate_dump {kind : Kind} {coercions exact : Coercions} (h : exact.Exact)
    {value : Json} {v : kind.Value} (hv : kind.validate coercions value = some v) :
    kind.validate exact (kind.dump v) = some v := by
  cases kind with
  | int ge le =>
    obtain ⟨-, hbounds⟩ := Option.filter_eq_some_iff.mp hv
    exact Option.filter_eq_some_iff.mpr ⟨h.int v, hbounds⟩
  | intOrNone ge =>
    cases v with
    | none => rfl
    | some n =>
      cases value with
      | null => cases hv
      | _ =>
        obtain ⟨m, hm, heq⟩ := Option.map_eq_some_iff.mp hv
        obtain rfl := Option.some.inj heq
        obtain ⟨-, hbound⟩ := Option.filter_eq_some_iff.mp hm
        exact Option.map_eq_some_iff.mpr
          ⟨m, Option.filter_eq_some_iff.mpr ⟨h.int m, hbound⟩, rfl⟩
  | floatGe ge =>
    obtain ⟨-, hbound⟩ := Option.filter_eq_some_iff.mp hv
    exact Option.filter_eq_some_iff.mpr ⟨h.float v, hbound⟩
  | floatGt gt =>
    obtain ⟨-, hbound⟩ := Option.filter_eq_some_iff.mp hv
    exact Option.filter_eq_some_iff.mpr ⟨h.float v, hbound⟩

theorem Kind.validate_floatGe {ge x : ℚ} (h : ge ≤ x) :
    (floatGe ge).validate .strict (.float x) = some x := by
  show (some x).filter (fun x => decide (ge ≤ x)) = some x
  simp [h]

theorem Kind.validate_floatGt {gt x : ℚ} (h : gt < x) :
    (floatGt gt).validate .strict (.float x) = some x := by
  show (some x).filter (fun x => decide (gt < x)) = some x
  simp [h]

/-- Every default passes its own check. -/
theorem Setting.default_valid (s : Setting) :
    s.kind.validate .strict (s.kind.dump s.default) = some s.default := by
  cases s with
  | affinityTolerance =>
    exact Kind.validate_floatGe (by decide +kernel : (0 : ℚ) ≤ 15 / 100)
  | defaultSecondsPerPage =>
    exact Kind.validate_floatGt (by decide +kernel : (0 : ℚ) < 10)
  | _ => rfl

/-- A value that is stored as `null` is the default. -/
theorem Setting.eq_default_of_null {s : Setting} {v : s.kind.Value}
    (h : EngineRun.isNull (s.kind.dump v) = true) : v = s.default := by
  cases s with
  | resultsMaxBytes =>
    cases v with
    | none => rfl
    | some n => cases h
  | _ => cases h

/-! ## Reading -/

/-- The row of a key, unless it is `null`. -/
def valueOf (rows : List (String × Json)) (key : String) : Option Json :=
  (rows.lookup key).filter fun value => !EngineRun.isNull value

namespace Setting

variable {coercions : Coercions} {rows fields : List (String × Json)} {s : Setting}

section

variable (coercions rows s)

/-- What the row of a key says a setting is. -/
def valueAt (key : String) : Option s.kind.Value :=
  (valueOf rows key).bind (s.kind.validate coercions)

/-- The row of a key has a value, but not one for the setting. -/
def Malformed (key : String) : Prop :=
  ∃ value, valueOf rows key = some value ∧ s.kind.validate coercions value = none

/-- The setting as its two rows decide it. -/
def decided : s.kind.Value :=
  ((s.valueAt coercions rows s.key).or (s.valueAt coercions rows s.name)).getD s.default

end

/-- No value, one for the setting, or another one. -/
theorem row_cases (coercions : Coercions) (rows : List (String × Json)) (s : Setting)
    (key : String) :
    (valueOf rows key = none ∧ ¬s.Malformed coercions rows key) ∨
      (∃ value v, valueOf rows key = some value ∧ s.kind.validate coercions value = some v ∧
        ¬s.Malformed coercions rows key) ∨
      s.Malformed coercions rows key := by
  unfold Malformed
  rcases hvalue : valueOf rows key with _ | value
  · exact .inl ⟨rfl, by simp⟩
  · rcases hv : s.kind.validate coercions value with _ | v
    · exact .inr (.inr ⟨value, rfl, hv⟩)
    · exact .inr (.inl ⟨value, v, rfl, hv, by simp [hv]⟩)

theorem valueAt_of_none {key : String} (h : valueOf rows key = none) :
    s.valueAt coercions rows key = none := by
  rw [valueAt, h]
  rfl

theorem valueAt_of_some {key : String} {value : Json} (h : valueOf rows key = some value) :
    s.valueAt coercions rows key = s.kind.validate coercions value := by
  rw [valueAt, h]
  rfl

theorem valueAt_of_malformed {key : String} (h : s.Malformed coercions rows key) :
    s.valueAt coercions rows key = none := by
  obtain ⟨value, hvalue, hv⟩ := h
  rw [valueAt_of_some hvalue, hv]

theorem read_of_key {value : Json} (h : fields.lookup s.key = some value) :
    s.read coercions fields =
      (s.kind.validate coercions value).elim (.error s.key) .ok := by
  rw [read, row, h, Option.map_some, Option.some_or]
  dsimp only
  cases s.kind.validate coercions value <;> rfl

theorem read_of_name {value : Json} (hkey : fields.lookup s.key = none)
    (h : fields.lookup s.name = some value) :
    s.read coercions fields =
      (s.kind.validate coercions value).elim (.error s.name) .ok := by
  rw [read, row, hkey, h, Option.map_none, Option.map_some, Option.none_or]
  dsimp only
  cases s.kind.validate coercions value <;> rfl

theorem read_of_none (hkey : fields.lookup s.key = none) (h : fields.lookup s.name = none) :
    s.read coercions fields = .ok s.default := by
  rw [read, row, hkey, h]
  rfl

/-- A setting without a value of its key is read from the row of its name. -/
theorem read_name (hnone : s.valueAt coercions rows s.key = none)
    (hkey : fields.lookup s.key = none) (hname : fields.lookup s.name = valueOf rows s.name) :
    (s.Malformed coercions rows s.name ∧ s.read coercions fields = .error s.name) ∨
      (¬s.Malformed coercions rows s.name ∧
        s.read coercions fields = .ok (s.decided coercions rows)) := by
  rcases row_cases coercions rows s s.name with
    ⟨hvalue, hgood⟩ | ⟨value, v, hvalue, hv, hgood⟩ | hbad
  · refine .inr ⟨hgood, ?_⟩
    rw [read_of_none hkey (by rw [hname, hvalue]), decided, hnone, valueAt_of_none hvalue]
    rfl
  · refine .inr ⟨hgood, ?_⟩
    rw [read_of_name hkey (by rw [hname, hvalue]), decided, hnone, valueAt_of_some hvalue, hv]
    rfl
  · refine .inl ⟨hbad, ?_⟩
    obtain ⟨value, hvalue, hv⟩ := hbad
    rw [read_of_name hkey (by rw [hname, hvalue]), hv]
    rfl

/-- What the first pass reads of a setting: what its rows decide, or where it is malformed. -/
theorem read_cases (hfields : ∀ key, fields.lookup key = valueOf rows key) :
    (s.Malformed coercions rows s.key ∧ s.read coercions fields = .error s.key) ∨
      ¬s.Malformed coercions rows s.key ∧
        ((valueOf rows s.key = none ∧ s.Malformed coercions rows s.name ∧
            s.read coercions fields = .error s.name) ∨
          s.read coercions fields = .ok (s.decided coercions rows)) := by
  rcases row_cases coercions rows s s.key with
    ⟨hvalue, hgood⟩ | ⟨value, v, hvalue, hv, hgood⟩ | hbad
  · refine .inr ⟨hgood, ?_⟩
    rcases s.read_name (valueAt_of_none hvalue) (by rw [hfields, hvalue]) (hfields s.name) with
      ⟨hbad, hread⟩ | ⟨-, hread⟩
    · exact .inl ⟨hvalue, hbad, hread⟩
    · exact .inr hread
  · refine .inr ⟨hgood, .inr ?_⟩
    rw [read_of_key (by rw [hfields, hvalue]), hv, decided, valueAt_of_some hvalue, hv]
    rfl
  · refine .inl ⟨hbad, ?_⟩
    obtain ⟨value, hvalue, hv⟩ := hbad
    rw [read_of_key (by rw [hfields, hvalue]), hv]
    rfl

/-- The second pass has what is left without the malformed rows of the first one. -/
structure Left (coercions : Coercions) (rows fields again : List (String × Json)) : Prop where
  first : ∀ key, fields.lookup key = valueOf rows key
  gone : ∀ (s : Setting) loc, s.read coercions fields = .error loc → again.lookup loc = none
  kept : ∀ loc, (∀ s : Setting, s.read coercions fields ≠ .error loc) →
    again.lookup loc = valueOf rows loc

theorem Left.key_kept {again : List (String × Json)} (h : Left coercions rows fields again)
    (hgood : ¬s.Malformed coercions rows s.key) : again.lookup s.key = valueOf rows s.key := by
  refine h.kept s.key fun s' hread => ?_
  rcases s'.read_cases h.first with ⟨hbad, hread'⟩ | ⟨-, ⟨-, -, hread'⟩ | hread'⟩ <;>
    rw [hread'] at hread
  · exact hgood (key_injective (Except.error.inj hread) ▸ hbad)
  · exact key_ne_name s s' (Except.error.inj hread).symm
  · cases hread

theorem Left.name_kept {again : List (String × Json)} (h : Left coercions rows fields again)
    (hgood : s.Malformed coercions rows s.key ∨ ¬s.Malformed coercions rows s.name) :
    again.lookup s.name = valueOf rows s.name := by
  refine h.kept s.name fun s' hread => ?_
  rcases s'.read_cases h.first with ⟨-, hread'⟩ | ⟨-, ⟨hnone, hbad, hread'⟩ | hread'⟩ <;>
    rw [hread'] at hread
  · exact key_ne_name s' s (Except.error.inj hread)
  · obtain rfl := name_injective (Except.error.inj hread)
    obtain ⟨value, hvalue, -⟩ | hgood := hgood
    · rw [hnone] at hvalue
      cases hvalue
    · exact hgood hbad
  · cases hread

/-- What the second pass reads of a setting. -/
theorem Left.read_cases {again : List (String × Json)} (h : Left coercions rows fields again) :
    (s.Malformed coercions rows s.key ∧ s.Malformed coercions rows s.name ∧
        s.read coercions again = .error s.name) ∨
      ¬(s.Malformed coercions rows s.key ∧ s.Malformed coercions rows s.name) ∧
        s.read coercions again = .ok (s.decided coercions rows) := by
  rcases s.read_cases h.first with ⟨hbad, hread⟩ | ⟨hgood, ⟨hnone, hbad, hread⟩ | hread⟩
  · -- The malformed row of the key is gone; that of the name is seen for the first time.
    rcases s.read_name (valueAt_of_malformed hbad) (h.gone s _ hread) (h.name_kept (.inl hbad)) with
      ⟨hname, hagain⟩ | ⟨hname, hagain⟩
    · exact .inl ⟨hbad, hname, hagain⟩
    · exact .inr ⟨fun hboth => hname hboth.2, hagain⟩
  · refine .inr ⟨fun hboth => hgood hboth.1, ?_⟩
    have hkey : again.lookup s.key = none := by rw [h.key_kept hgood, hnone]
    rw [read_of_none hkey (h.gone s _ hread), decided, valueAt_of_none hnone,
      valueAt_of_malformed hbad]
    rfl
  · refine .inr ⟨fun hboth => hgood hboth.1, ?_⟩
    rw [← hread, read, read, row, row, h.key_kept hgood, h.first]
    rcases hvalue : valueOf rows s.key with _ | value
    · have hname : ¬s.Malformed coercions rows s.name := by
        rintro ⟨value, hvalue', hv⟩
        rw [read_of_name (by rw [h.first, hvalue]) (by rw [h.first, hvalue']), hv] at hread
        cases hread
      rw [h.name_kept (.inr hname), h.first]
    · rfl

theorem validate_of_ok {f : (s : Setting) → s.kind.Value}
    (h : ∀ s : Setting, s.read coercions fields = .ok (f s)) :
    validate coercions fields = .ok f := by
  have hgood : ∀ s ∈ all, s.loc coercions fields = none := by
    intro s _
    rw [loc, h s]
  rw [validate, if_pos (List.filterMap_eq_nil_iff.mpr hgood)]
  congr 1
  funext s
  rw [h s]
  rfl

theorem validate_of_error {loc : String} (h : s.read coercions fields = .error loc) :
    ∃ malformed, validate coercions fields = .error malformed ∧
      ∀ loc, loc ∈ malformed ↔ ∃ s : Setting, s.read coercions fields = .error loc := by
  refine ⟨all.filterMap (Setting.loc coercions fields), ?_, fun loc => ?_⟩
  · refine if_neg fun hnil => ?_
    have hs := List.filterMap_eq_nil_iff.mp hnil s (mem_all s)
    rw [Setting.loc, h] at hs
    cases hs
  · rw [List.mem_filterMap]
    constructor
    · rintro ⟨s, -, hs⟩
      rw [Setting.loc] at hs
      rcases hread : s.read coercions fields with loc' | v <;> rw [hread] at hs
      · exact ⟨s, hread.trans (congrArg _ (Option.some.inj hs))⟩
      · cases hs
    · rintro ⟨s, hs⟩
      exact ⟨s, mem_all s, by rw [Setting.loc, hs]⟩

theorem lookup_present (hrows : (rows.map Prod.fst).Nodup) (key : String) :
    (RuntimeConfig.present rows).lookup key = valueOf rows key := lookup_filter hrows _ key

theorem left_filter {malformed : List String} (hrows : (rows.map Prod.fst).Nodup)
    (h : ∀ loc, loc ∈ malformed ↔
      ∃ s : Setting, s.read coercions (RuntimeConfig.present rows) = .error loc) :
    Left coercions rows (RuntimeConfig.present rows)
      ((RuntimeConfig.present rows).filter fun row => row.1 ∉ malformed) := by
  have hpresent : ((RuntimeConfig.present rows).map Prod.fst).Nodup :=
    hrows.sublist (List.filter_sublist.map _)
  refine ⟨lookup_present hrows, fun s loc hread => ?_, fun loc hgood => ?_⟩
  · rw [lookup_filter hpresent, Option.filter_eq_none_iff]
    intro value _
    simpa using (h loc).mpr ⟨s, hread⟩
  · have hnot : loc ∉ malformed := fun hmem => by
      obtain ⟨s, hs⟩ := (h loc).mp hmem
      exact hgood s hs
    rw [lookup_filter hpresent, lookup_present hrows]
    rcases valueOf rows loc with _ | value
    · rfl
    · exact Option.filter_some_pos (decide_eq_true hnot)

end Setting

section

variable {coercions : Coercions} {rows : List (String × Json)}

/-- The config as the rows decide it, setting by setting. -/
def decidedConfig (coercions : Coercions) (rows : List (String × Json)) : RuntimeConfig where
  setting s := s.decided coercions rows
  bucketTtlMinutes := bucketTtls coercions (RuntimeConfig.present rows)
  rateLimits limitClass := RateLimit.fromConfig coercions (rows.lookup (rateLimitKey limitClass))
    (fallbackRateLimits limitClass)

theorem fromRows_of_ok {setting : (s : Setting) → s.kind.Value}
    (h : Setting.validate coercions (RuntimeConfig.present rows) = .ok setting) :
    RuntimeConfig.fromRows coercions rows = some { decidedConfig coercions rows with setting } := by
  unfold RuntimeConfig.fromRows
  dsimp only
  rw [h]
  rfl

theorem fromRows_of_error {malformed : List String}
    (h : Setting.validate coercions (RuntimeConfig.present rows) = .error malformed) :
    RuntimeConfig.fromRows coercions rows =
      (Setting.validate coercions ((RuntimeConfig.present rows).filter fun row =>
        row.1 ∉ malformed)).toOption.map
          fun setting => { decidedConfig coercions rows with setting } := by
  unfold RuntimeConfig.fromRows
  dsimp only
  rw [h]
  dsimp only
  rcases Setting.validate coercions ((RuntimeConfig.present rows).filter fun row =>
    row.1 ∉ malformed) with _ | setting <;> rfl

theorem fromRows_of_good (hrows : (rows.map Prod.fst).Nodup)
    (h : ∀ s : Setting, ¬(s.Malformed coercions rows s.key ∧ s.Malformed coercions rows s.name)) :
    RuntimeConfig.fromRows coercions rows = some (decidedConfig coercions rows) := by
  by_cases hall : ∀ s : Setting,
      s.read coercions (RuntimeConfig.present rows) = .ok (s.decided coercions rows)
  · exact fromRows_of_ok (Setting.validate_of_ok hall)
  · obtain ⟨s, hs⟩ := not_forall.mp hall
    obtain ⟨loc, hloc⟩ : ∃ loc, s.read coercions (RuntimeConfig.present rows) = .error loc := by
      rcases s.read_cases (Setting.lookup_present hrows) with
        ⟨-, hread⟩ | ⟨-, ⟨-, -, hread⟩ | hread⟩
      · exact ⟨_, hread⟩
      · exact ⟨_, hread⟩
      · exact absurd hread hs
    obtain ⟨malformed, hvalidate, hmem⟩ := Setting.validate_of_error hloc
    have hagain : ∀ s : Setting, s.read coercions ((RuntimeConfig.present rows).filter fun row =>
        row.1 ∉ malformed) = .ok (s.decided coercions rows) := by
      intro s
      rcases (Setting.left_filter hrows hmem).read_cases (s := s) with ⟨hkey, hname, -⟩ | ⟨-, hread⟩
      · exact absurd ⟨hkey, hname⟩ (h s)
      · exact hread
    rw [fromRows_of_error hvalidate, Setting.validate_of_ok hagain]
    rfl

theorem fromRows_of_both (hrows : (rows.map Prod.fst).Nodup) {s : Setting}
    (hkey : s.Malformed coercions rows s.key) (hname : s.Malformed coercions rows s.name) :
    RuntimeConfig.fromRows coercions rows = none := by
  rcases s.read_cases (Setting.lookup_present hrows) with ⟨-, hread⟩ | ⟨hgood, -⟩
  · obtain ⟨malformed, hvalidate, hmem⟩ := Setting.validate_of_error hread
    rcases (Setting.left_filter hrows hmem).read_cases (s := s) with ⟨-, -, hagain⟩ | ⟨hnot, -⟩
    · obtain ⟨again, hvalidate', -⟩ := Setting.validate_of_error hagain
      rw [fromRows_of_error hvalidate, hvalidate']
      rfl
    · exact absurd ⟨hkey, hname⟩ hnot
  · exact absurd hkey hgood

/-- **A malformed row costs its own setting only.** Reading the table fails exactly when some
setting has a malformed row of its key and a malformed row of its name; otherwise each setting is
what its own rows decide, whatever the other rows hold. -/
theorem fromRows_eq_some_iff {table : ConfigTable} {config : RuntimeConfig} :
    RuntimeConfig.fromRows coercions table.getAll = some config ↔
      (∀ s : Setting, ¬(s.Malformed coercions table.getAll s.key ∧
        s.Malformed coercions table.getAll s.name)) ∧
        config = decidedConfig coercions table.getAll := by
  have hrows : (table.getAll.map Prod.fst).Nodup := nodup_items
  by_cases hgood : ∀ s : Setting, ¬(s.Malformed coercions table.getAll s.key ∧
      s.Malformed coercions table.getAll s.name)
  · rw [fromRows_of_good hrows hgood]
    exact ⟨fun h => ⟨hgood, (Option.some.inj h).symm⟩, fun h => h.2 ▸ rfl⟩
  · obtain ⟨s, hs⟩ := not_forall.mp hgood
    have hboth := not_not.mp hs
    rw [fromRows_of_both hrows hboth.1 hboth.2]
    exact ⟨fun h => absurd h (by simp), fun h => absurd h.1 hgood⟩

end

/-! ## Writing -/

section

variable {py : Pydantic} {value stored : Json}

theorem afterPrefix?_eq_none {start text : String} (h : ∀ rest, text ≠ start ++ rest) :
    afterPrefix? start text = none := by
  rcases hrest : afterPrefix? start text with _ | rest
  · rfl
  · exact absurd (afterPrefix?_eq_some.mp hrest) (h rest)

theorem parseEntry_of_annotation {key : String} {kind : Kind}
    (hstarts : afterPrefix? rateLimitPrefix key = none)
    (hkind : RuntimeConfig.annotationFor key = some kind)
    (h : RuntimeConfig.parseEntry py key value = .ok stored) :
    ∃ v, kind.validate .strict value = some v ∧ stored = kind.dump v := by
  rw [RuntimeConfig.parseEntry, hstarts] at h
  dsimp only at h
  rw [hkind] at h
  dsimp only at h
  rcases hv : kind.validate .strict value with _ | v <;> rw [hv] at h
  · cases h
  · exact ⟨v, rfl, (Except.ok.inj h).symm⟩

theorem Setting.annotationFor_key (s : Setting) :
    RuntimeConfig.annotationFor s.key = some s.kind := by
  cases s <;> rfl

theorem Setting.afterPrefix?_key (s : Setting) : afterPrefix? rateLimitPrefix s.key = none := by
  cases s <;> decide

/-- A setting's value is let through when it is one in strict mode. -/
theorem Setting.parseEntry_key {s : Setting}
    (h : RuntimeConfig.parseEntry py s.key value = .ok stored) :
    ∃ v, s.kind.validate .strict value = some v ∧ stored = s.kind.dump v :=
  parseEntry_of_annotation s.afterPrefix?_key s.annotationFor_key h

theorem parseEntry_bucket {bucket : String} (hname : BucketName bucket)
    (h : RuntimeConfig.parseEntry py (storageTtlKey bucket) value = .ok stored) :
    ∃ v, bucketTtl.validate .strict value = some v ∧ stored = bucketTtl.dump v := by
  have hstarts : afterPrefix? rateLimitPrefix (storageTtlKey bucket) = none := by
    refine afterPrefix?_eq_none fun rest heq => ?_
    rw [← String.toList_inj] at heq
    simp [storageTtlKey, rateLimitPrefix] at heq
  refine parseEntry_of_annotation hstarts ?_ h
  rw [RuntimeConfig.annotationFor, storageTtlBucket_eq_some.mpr ⟨rfl, hname⟩]
  rfl

/-- Nothing is written under the bare name of a setting. -/
theorem Setting.parseEntry_name (s : Setting) :
    RuntimeConfig.parseEntry py s.name value ≠ .ok stored := by
  have hstarts : afterPrefix? rateLimitPrefix s.name = none := by
    cases s <;> decide
  have hkind : RuntimeConfig.annotationFor s.name = none := by
    cases s <;> rfl
  rw [RuntimeConfig.parseEntry, hstarts]
  dsimp only
  rw [hkind]
  exact fun h => by cases h

theorem parseEntry_rateLimit {limitClass : LimitClass}
    (h : RuntimeConfig.parseEntry py (rateLimitKey limitClass) value = .ok stored) :
    ∃ members limit, value = .obj members ∧
      RateLimit.modelValidate .strict
        (RateLimit.union (fallbackRateLimits limitClass).modelDump members) = .ok limit ∧
      stored = .obj (limit.modelDump.filter fun m => m.1 ∈ members.map Prod.fst) := by
  have hstarts : afterPrefix? rateLimitPrefix (rateLimitKey limitClass) = some limitClass.value :=
    afterPrefix?_eq_some.mpr rfl
  rw [RuntimeConfig.parseEntry, hstarts] at h
  dsimp only at h
  rw [RuntimeConfig.parseRateLimitEntry, LimitClass.parse_value] at h
  dsimp only at h
  split at h
  · next members =>
    split at h
    · cases h
    · split at h
      · cases h
      · next limit hlimit => exact ⟨members, limit, rfl, hlimit, (Except.ok.inj h).symm⟩
  · cases h

end

/-! ### Rate limits -/

namespace RateLimit

theorem lookup_map_snd (g : String → Json → Json) (old : List (String × Json)) (key : String) :
    (old.map fun m => (m.1, g m.1 m.2)).lookup key = (old.lookup key).map (g key) := by
  induction old with
  | nil => rfl
  | cons m old ih =>
    rw [List.map_cons, List.lookup_cons, List.lookup_cons]
    by_cases hkey : key = m.1
    · subst hkey
      simp
    · have hne : (key == m.1) = false := by simpa using hkey
      rw [hne]
      exact ih

/-- A key of the old dict has the new value, if there is one. -/
theorem lookup_union {old new : List (String × Json)} {key : String} {value : Json}
    (h : old.lookup key = some value) :
    (union old new).lookup key = some ((new.lookup key).getD value) := by
  rw [union, List.lookup_append, lookup_map_snd fun key value => (new.lookup key).getD value, h]
  rfl

theorem lookup_eq_none_of_notMem {members : List (String × Json)} {key : String}
    (h : key ∉ members.map Prod.fst) : members.lookup key = none := by
  rw [List.lookup_eq_none_iff]
  intro m hm
  have hne : key ≠ m.1 := by
    rintro rfl
    exact h (List.mem_map_of_mem hm)
  simpa using hne

variable {exact : Coercions} {fallback limit : RateLimit} {members : List (String × Json)}
  {key : String} {n m : Int}

theorem field_of_lookup (hexact : exact.Exact) {fields : List (String × Json)}
    (h : fields.lookup key = some (.int n)) : field exact key fields = .ok n := by
  have hvalid : unbounded.validate exact (.int n) = some n :=
    Option.filter_eq_some_iff.mpr ⟨hexact.int n, rfl⟩
  rw [field, h, Option.getD_some, hvalid]

/-- A field of the merged limit is read back from the keys that the value had. -/
theorem field_stored (fallback : RateLimit) (hexact : exact.Exact)
    (hold : fallback.modelDump.lookup key = some (.int m))
    (hnew : limit.modelDump.lookup key = some (.int n))
    (h : field .strict key (union fallback.modelDump members) = .ok n) :
    field exact key (union fallback.modelDump
      (limit.modelDump.filter fun entry => entry.1 ∈ members.map Prod.fst)) = .ok n := by
  have hnodup : (limit.modelDump.map Prod.fst).Nodup := by
    simp [modelDump]
  refine field_of_lookup hexact ?_
  rw [lookup_union hold, lookup_filter hnodup, hnew]
  by_cases hkey : key ∈ members.map Prod.fst
  · have hkeep : (some (Json.int n)).filter (fun _ => decide (key ∈ members.map Prod.fst)) =
        some (.int n) := Option.filter_some_pos (decide_eq_true hkey)
    rw [hkeep]
    rfl
  · have hm : field .strict key (union fallback.modelDump members) = .ok m := by
      refine field_of_lookup Coercions.exact_strict ?_
      rw [lookup_union hold, lookup_eq_none_of_notMem hkey]
      rfl
    obtain rfl : m = n := Except.ok.inj (hm.symm.trans h)
    have hdrop : (some (Json.int m)).filter (fun _ => decide (key ∈ members.map Prod.fst)) =
        none := Option.filter_some_neg (decide_eq_false hkey)
    rw [hdrop]
    rfl

theorem modelValidate_eq_ok {coercions : Coercions} {fields : List (String × Json)} :
    modelValidate coercions fields = .ok limit ↔
      field coercions "per_minute" fields = .ok limit.perMinute ∧
        field coercions "burst" fields = .ok limit.burst := by
  obtain ⟨perMinute, burst⟩ := limit
  rw [modelValidate]
  rcases field coercions "per_minute" fields with e | n
  · simp [bind, Except.bind]
  · rcases field coercions "burst" fields with e | n'
    · simp [bind, Except.bind]
    · simp [bind, Except.bind, pure, Except.pure]

/-- What was let through reads as the limit that was checked. -/
theorem fromConfig_stored (hexact : exact.Exact)
    (h : modelValidate .strict (union fallback.modelDump members) = .ok limit) :
    fromConfig exact
      (some (.obj (limit.modelDump.filter fun entry => entry.1 ∈ members.map Prod.fst)))
      fallback = limit := by
  obtain ⟨hperMinute, hburst⟩ := modelValidate_eq_ok.mp h
  have hstored := modelValidate_eq_ok.mpr
    ⟨field_stored fallback hexact rfl rfl hperMinute,
      field_stored fallback hexact rfl rfl hburst⟩
  rw [fromConfig, hstored]
  rfl

end RateLimit

/-! ## The table after any calls -/

section

variable {py : Pydantic} {values parsed : List (String × Json)} {table : ConfigTable}

/-- Whether a call is let through. -/
def accepted (py : Pydantic) (values : List (String × Json)) : Bool :=
  (ConfigTable.parseValues py values).toOption.isSome

/-- The value that the last accepted call with this key gave it. -/
def lastWritten (py : Pydantic) (calls : List (List (String × Json))) (key : String) :
    Option Json :=
  calls.foldl (fun last values =>
    if accepted py values then (values.lookup key).or last else last) none

theorem lastWritten_append (calls : List (List (String × Json))) (key : String) :
    lastWritten py (calls ++ [values]) key =
      if accepted py values then (values.lookup key).or (lastWritten py calls key)
      else lastWritten py calls key := by
  rw [lastWritten, List.foldl_append]
  rfl

theorem setConfigs_append (calls : List (List (String × Json))) :
    ConfigTable.setConfigs py (calls ++ [values]) table =
      (ConfigTable.setConfig py values (ConfigTable.setConfigs py calls table)).toOption.getD
        (ConfigTable.setConfigs py calls table) := by
  rw [ConfigTable.setConfigs, List.foldl_append]
  rfl

theorem parseValues_cons {key : String} {value : Json} :
    ConfigTable.parseValues py ((key, value) :: values) = .ok parsed ↔
      ∃ stored rest, RuntimeConfig.parseEntry py key value = .ok stored ∧
        ConfigTable.parseValues py values = .ok rest ∧ parsed = (key, stored) :: rest := by
  unfold ConfigTable.parseValues
  rw [List.mapM_cons]
  rcases RuntimeConfig.parseEntry py key value with e | stored
  · simp [bind, Except.bind, Except.map]
  · rcases List.mapM (fun entry : String × Json =>
      (RuntimeConfig.parseEntry py entry.1 entry.2).map fun parsed => (entry.1, parsed)) values with
      e | rest
    · simp [bind, Except.bind, Except.map]
    · simp [bind, Except.bind, Except.map, pure, Except.pure, eq_comm]

/-- What was parsed has the same keys, each with its value as it is stored. -/
theorem lookup_parseValues (h : ConfigTable.parseValues py values = .ok parsed) (key : String) :
    parsed.map Prod.fst = values.map Prod.fst ∧
      (values.lookup key = none → parsed.lookup key = none) ∧
      ∀ value, values.lookup key = some value →
        ∃ stored, RuntimeConfig.parseEntry py key value = .ok stored ∧
          parsed.lookup key = some stored := by
  induction values generalizing parsed with
  | nil =>
    obtain rfl := Except.ok.inj h
    simp
  | cons entry values ih =>
    obtain ⟨key', value'⟩ := entry
    obtain ⟨stored, rest, hstored, hrest, rfl⟩ := parseValues_cons.mp h
    obtain ⟨hkeys, hnone, hsome⟩ := ih hrest
    refine ⟨by rw [List.map_cons, List.map_cons, hkeys], ?_⟩
    by_cases hkey : key = key'
    · subst hkey
      rw [List.lookup_cons_self, List.lookup_cons_self]
      refine ⟨fun h => by simp at h, fun value hvalue => ⟨stored, ?_, rfl⟩⟩
      exact Option.some.inj hvalue ▸ hstored
    · have hne : (key == key') = false := by simpa using hkey
      rw [List.lookup_cons, List.lookup_cons, hne]
      exact ⟨hnone, hsome⟩

theorem lookup_setValues (hdict : (values.map Prod.fst).Nodup) (key : String) :
    (table.setValues values).lookup key = (values.lookup key).or (table.lookup key) := by
  rw [ConfigTable.setValues]
  by_cases hkey : key ∈ values.map Prod.fst
  · obtain ⟨⟨key, value⟩, hentry, rfl⟩ := List.mem_map.mp hkey
    rw [lookup_upsertAll_of_mem (w := fun entry _ => some entry.2) hdict hentry,
      lookup_of_mem hdict hentry]
  · rw [lookup_upsertAll_of_notMem hkey, RateLimit.lookup_eq_none_of_notMem hkey, Option.none_or]

/-- What a call leaves under a key. -/
theorem lookup_setConfig (py : Pydantic) (table : ConfigTable)
    (hdict : (values.map Prod.fst).Nodup) (key : String) :
    (accepted py values = true → ∀ value, values.lookup key = some value →
        ∃ stored, RuntimeConfig.parseEntry py key value = .ok stored ∧
          ((ConfigTable.setConfig py values table).toOption.getD table).lookup key = some stored) ∧
      (accepted py values = false ∨ values.lookup key = none →
        ((ConfigTable.setConfig py values table).toOption.getD table).lookup key =
          table.lookup key) := by
  unfold accepted ConfigTable.setConfig
  rcases hparsed : ConfigTable.parseValues py values with e | parsed
  · refine ⟨fun h => by simp [Except.toOption] at h, fun _ => ?_⟩
    split <;> rfl
  · obtain ⟨hkeys, hnone, hsome⟩ := lookup_parseValues hparsed key
    have hlookup : (table.setValues parsed).lookup key = (parsed.lookup key).or (table.lookup key) :=
      lookup_setValues (hkeys ▸ hdict) key
    by_cases hempty : values = []
    · subst hempty
      refine ⟨fun _ value h => ?_, fun _ => rfl⟩
      cases h
    · rw [if_neg hempty]
      refine ⟨fun _ value hvalue => ?_, fun h => ?_⟩
      · obtain ⟨stored, hstored, hentry⟩ := hsome value hvalue
        exact ⟨stored, hstored, hlookup.trans (by rw [hentry, Option.some_or])⟩
      · rcases h with h | h
        · simp [Except.toOption] at h
        · exact hlookup.trans (by rw [hnone h, Option.none_or])

/-- After any calls a key has the last value that was written to it, as it is stored, and where
there is none, what it had. -/
theorem lookup_setConfigs (py : Pydantic) (table : ConfigTable)
    {calls : List (List (String × Json))}
    (hdict : ∀ values ∈ calls, (values.map Prod.fst).Nodup) (key : String) :
    (lastWritten py calls key = none →
        (ConfigTable.setConfigs py calls table).lookup key = table.lookup key) ∧
      ∀ value, lastWritten py calls key = some value →
        ∃ stored, RuntimeConfig.parseEntry py key value = .ok stored ∧
          (ConfigTable.setConfigs py calls table).lookup key = some stored := by
  induction calls using List.reverseRecOn with
  | nil =>
    refine ⟨fun _ => rfl, fun _ h => ?_⟩
    cases h
  | append_singleton calls values ih =>
    obtain ⟨ihnone, ihsome⟩ := ih fun v hv => hdict v (List.mem_append_left _ hv)
    obtain ⟨hnew, hold⟩ := lookup_setConfig py (ConfigTable.setConfigs py calls table)
      (hdict values (by simp)) key
    rw [lastWritten_append, setConfigs_append]
    -- The last call decides, unless it was refused or lacks the key.
    rcases haccepted : accepted py values with _ | _
    · rw [hold (.inl haccepted)]
      exact ⟨ihnone, ihsome⟩
    · rcases hvalue : values.lookup key with _ | value
      · rw [hold (.inr hvalue)]
        exact ⟨ihnone, ihsome⟩
      · refine ⟨fun h => by simp at h, fun v hv => ?_⟩
        obtain rfl : value = v := by simpa using hv
        exact hnew haccepted value hvalue

/-- No row has the bare name of a setting. -/
def Tidy (table : ConfigTable) : Prop := ∀ s : Setting, table.lookup s.name = none

theorem Tidy.setConfigs (h : Tidy table) {calls : List (List (String × Json))}
    (hdict : ∀ values ∈ calls, (values.map Prod.fst).Nodup) :
    Tidy (ConfigTable.setConfigs py calls table) := by
  intro s
  obtain ⟨hnone, hsome⟩ := lookup_setConfigs py table hdict s.name
  rcases hlast : lastWritten py calls s.name with _ | value
  · rw [hnone hlast, h s]
  · obtain ⟨stored, hstored, -⟩ := hsome value hlast
    exact absurd hstored s.parseEntry_name

variable {coercions : Coercions} {s : Setting}

theorem Tidy.valueOf_name (h : Tidy table) (s : Setting) : valueOf table.getAll s.name = none := by
  rw [valueOf, ConfigTable.getAll, lookup_items, h s]
  rfl

theorem Tidy.reads (h : Tidy table) :
    RuntimeConfig.fromRows coercions table.getAll = some (decidedConfig coercions table.getAll) := by
  refine fromRows_of_good nodup_items fun s hboth => ?_
  obtain ⟨value, hvalue, -⟩ := hboth.2
  rw [h.valueOf_name s] at hvalue
  cases hvalue

theorem Tidy.decided (h : Tidy table) :
    s.decided coercions table.getAll =
      (((table.lookup s.key).filter fun value => !EngineRun.isNull value).bind
        (s.kind.validate coercions)).getD s.default := by
  rw [Setting.decided, Setting.valueAt_of_none (h.valueOf_name s), Option.or_none,
    Setting.valueAt, valueOf, ConfigTable.getAll, lookup_items]

/-- A stored setting reads as the value that was checked. -/
theorem decided_stored (hexact : coercions.Exact) (h : Tidy table) {value : Json}
    {v : s.kind.Value} (hv : s.kind.validate .strict value = some v)
    (hlookup : table.lookup s.key = some (s.kind.dump v)) :
    s.decided coercions table.getAll = v := by
  rw [h.decided, hlookup]
  rcases hnull : EngineRun.isNull (s.kind.dump v) with _ | _
  · have hkeep : (some (s.kind.dump v)).filter (fun value => !EngineRun.isNull value) =
        some (s.kind.dump v) := Option.filter_some_pos (by rw [hnull]; rfl)
    rw [hkeep, Option.bind_some, Kind.validate_dump hexact hv]
    rfl
  · -- A row that holds null reads as the default; only the default is stored so.
    have hdrop : (some (s.kind.dump v)).filter (fun value => !EngineRun.isNull value) = none :=
      Option.filter_some_neg (by rw [hnull]; rfl)
    rw [hdrop, Setting.eq_default_of_null hnull]
    rfl

/-- The TTL of a bucket is that of its own row. -/
theorem lookup_bucketTtls {rows : List (String × Json)} (hrows : (rows.map Prod.fst).Nodup)
    {bucket : String} (hname : BucketName bucket) :
    (bucketTtls coercions rows).lookup bucket =
      (rows.lookup (storageTtlKey bucket)).bind (bucketTtl.validate coercions) := by
  induction rows with
  | nil => rfl
  | cons row rows ih =>
    obtain ⟨key, value⟩ := row
    obtain ⟨hkey, hrows⟩ := List.nodup_cons.mp hrows
    have hrest := ih hrows
    by_cases heq : storageTtlKey bucket = key
    · subst heq
      have hnone : (bucketTtls coercions rows).lookup bucket = none := by
        rw [hrest, RateLimit.lookup_eq_none_of_notMem hkey]
        rfl
      rw [List.lookup_cons_self, Option.bind_some]
      unfold bucketTtls at hnone ⊢
      rw [List.filterMap_cons, storageTtlBucket_eq_some.mpr ⟨rfl, hname⟩, Option.bind_some]
      rcases bucketTtl.validate coercions value with _ | ttl
      · exact hnone
      · exact List.lookup_cons_self
    · have hne : (storageTtlKey bucket == key) = false := by simpa using heq
      rw [List.lookup_cons, hne, ← hrest]
      unfold bucketTtls
      rw [List.filterMap_cons]
      rcases hbucket : storageTtlBucket key with _ | bucket'
      · rfl
      · -- A row of another bucket is passed over.
        have hother : bucket ≠ bucket' := by
          rintro rfl
          exact heq (storageTtlBucket_eq_some.mp hbucket).1.symm
        rw [Option.bind_some]
        rcases bucketTtl.validate coercions value with _ | ttl
        · rfl
        · have hskip : (bucket == bucket') = false := by simpa using hother
          rw [Option.map_some, List.lookup_cons, hskip]

theorem storageTtlMinutes_eq {bucket : String} (hname : BucketName bucket) :
    (decidedConfig coercions table.getAll).storageTtlMinutes bucket =
      (((table.lookup (storageTtlKey bucket)).filter fun value => !EngineRun.isNull value).bind
        (bucketTtl.validate coercions)).getD storageTtlDefaultMinutes := by
  have hrows : (table.getAll.map Prod.fst).Nodup := nodup_items
  have hpresent : ((RuntimeConfig.present table.getAll).map Prod.fst).Nodup :=
    hrows.sublist (List.filter_sublist.map _)
  rw [RuntimeConfig.storageTtlMinutes, decidedConfig, lookup_bucketTtls hpresent hname,
    Setting.lookup_present hrows, valueOf, ConfigTable.getAll, lookup_items]

/-- **Every value reads as the last accepted call set it.** From any table without rows under the
bare names, and after any calls of `set_config`, refused ones among them: the table can be read; a
setting, a bucket's TTL or a class's limit whose key some accepted call had is the value that the
last of them gave, as strict mode takes it, and any other is what it was before. -/
theorem last_write_read (py : Pydantic) (hexact : coercions.Exact) (htidy : Tidy table)
    {calls : List (List (String × Json))}
    (hdict : ∀ values ∈ calls, (values.map Prod.fst).Nodup) :
    ∃ before after,
      RuntimeConfig.fromRows coercions table.getAll = some before ∧
      RuntimeConfig.fromRows coercions (ConfigTable.setConfigs py calls table).getAll = some after ∧
      (∀ s : Setting,
        (lastWritten py calls s.key = none → after.setting s = before.setting s) ∧
        ∀ value, lastWritten py calls s.key = some value →
          s.kind.validate .strict value = some (after.setting s)) ∧
      (∀ bucket, BucketName bucket →
        (lastWritten py calls (storageTtlKey bucket) = none →
          after.storageTtlMinutes bucket = before.storageTtlMinutes bucket) ∧
        ∀ value, lastWritten py calls (storageTtlKey bucket) = some value →
          bucketTtl.validate .strict value = some (after.storageTtlMinutes bucket)) ∧
      ∀ limitClass,
        (lastWritten py calls (rateLimitKey limitClass) = none →
          after.rateLimits limitClass = before.rateLimits limitClass) ∧
        ∀ value, lastWritten py calls (rateLimitKey limitClass) = some value →
          ∃ members, value = .obj members ∧
            RateLimit.modelValidate .strict
              (RateLimit.union (fallbackRateLimits limitClass).modelDump members) =
                .ok (after.rateLimits limitClass) := by
  have hafter : Tidy (ConfigTable.setConfigs py calls table) := htidy.setConfigs hdict
  refine ⟨_, _, htidy.reads, hafter.reads, fun s => ?_, fun bucket hname => ?_, fun limitClass => ?_⟩
  · obtain ⟨hnone, hsome⟩ := lookup_setConfigs py table hdict s.key
    refine ⟨fun h => ?_, fun value h => ?_⟩
    · exact hafter.decided.trans (by rw [hnone h, ← htidy.decided]; rfl)
    · obtain ⟨stored, hstored, hlookup⟩ := hsome value h
      obtain ⟨v, hv, rfl⟩ := Setting.parseEntry_key hstored
      exact hv.trans (congrArg some (decided_stored hexact hafter hv hlookup).symm)
  · obtain ⟨hnone, hsome⟩ := lookup_setConfigs py table hdict
      (storageTtlKey bucket)
    rw [storageTtlMinutes_eq hname, storageTtlMinutes_eq hname]
    refine ⟨fun h => by rw [hnone h], fun value h => ?_⟩
    obtain ⟨stored, hstored, hlookup⟩ := hsome value h
    obtain ⟨v, hv, rfl⟩ := parseEntry_bucket hname hstored
    have hkeep : (some (bucketTtl.dump v)).filter (fun value => !EngineRun.isNull value) =
      some (bucketTtl.dump v) := Option.filter_some_pos rfl
    rw [hlookup, hkeep, Option.bind_some, Kind.validate_dump hexact hv]
    exact hv
  · obtain ⟨hnone, hsome⟩ := lookup_setConfigs py table hdict
      (rateLimitKey limitClass)
    rw [decidedConfig, decidedConfig]
    simp only [ConfigTable.getAll, lookup_items]
    refine ⟨fun h => by rw [hnone h], fun value h => ?_⟩
    obtain ⟨stored, hstored, hlookup⟩ := hsome value h
    obtain ⟨members, limit, rfl, hlimit, rfl⟩ := parseEntry_rateLimit hstored
    exact ⟨members, rfl, by rw [hlookup, RateLimit.fromConfig_stored hexact hlimit, hlimit]⟩

/-- Three calls, of which the second is refused: its number is a text. -/
def configCalls : List (List (String × Json)) :=
  [[("jobs.max_requeues", .int 7), ("rate_limit.query", .obj [("burst", .int 9)])],
    [("jobs.max_requeues", .str "5"), ("storage.incoming_ttl_minutes", .int 90)],
    [("storage.incoming_ttl_minutes", .int 30)]]

def plainPydantic : Pydantic where
  lax := .strict
  message _ _ := "Input should be a valid integer"
  repr text := "'" ++ text ++ "'"

theorem last_write_read_sample : ∃ after,
    RuntimeConfig.fromRows .strict (ConfigTable.setConfigs plainPydantic configCalls ∅).getAll =
      some after ∧
    after.setting .maxRequeues = (7 : Int) ∧ after.storageTtlMinutes "incoming" = 30 ∧
    after.rateLimits .query = ⟨120, 9⟩ := by
  have hdict : ∀ values ∈ configCalls, (values.map Prod.fst).Nodup := by
    simp [configCalls]
  obtain ⟨before, after, -, hafter, hsetting, hbucket, hlimit⟩ :=
    last_write_read plainPydantic Coercions.exact_strict
      (fun s => Finmap.lookup_empty s.name : Tidy ∅) hdict
  refine ⟨after, hafter, ?_, ?_, ?_⟩
  · exact (Option.some.inj ((hsetting .maxRequeues).2 (.int 7) rfl)).symm
  · exact (Option.some.inj ((hbucket "incoming" ⟨by decide, by decide⟩).2 (.int 30) rfl)).symm
  · obtain ⟨members, hmembers, h⟩ := (hlimit .query).2 (.obj [("burst", .int 9)]) rfl
    cases hmembers
    exact (Except.ok.inj h).symm

end

end Taas
