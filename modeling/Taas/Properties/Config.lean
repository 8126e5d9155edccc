import Mathlib.Tactic.Linarith
import Taas.Services.Config
import Taas.Workers.Harvests

/-!
# What is computed from the cached config

* `Answer.From` — how an answer is computed, from what was read.
* `answers_within` — every answer is computed from tables as they were seconds before, so a change
  reaches a process within the time to live and the time that a query takes.
* `stateTtl_covers` — a job's state outlives its queued and its running timeout, in every domain,
  once these have stood for that long.
-/

namespace Taas

open Infra Infra.Prog

namespace Config

variable {coercions : Coercions}

/-! ## What follows from what was read -/

/-- An answer that is computed from values that were seen. -/
def Answer.From (seen : ConfigKey → ConfigValue → Prop) (a : Answer) : Prop :=
  match a.question, a.answer with
  | .limits username limitClass, .inl limit =>
    ∃ config overrides, seen .runtimeConfig (.config config) ∧
      seen (.user username) (.overrides overrides) ∧
      limit = overrides.apply limitClass (config.rateLimits limitClass)
  | .stateTtl, .inr ttl =>
    ∃ config limits, seen .runtimeConfig (.config config) ∧ seen .domainLimits (.limits limits) ∧
      ttl = stateTtlSeconds config limits
  | .maxUpload domain settings, .inr bytes =>
    ∃ limits, seen .domainLimits (.limits limits) ∧ bytes = maxUploadBytes limits domain settings
  | _, _ => False

theorem Answer.From.imp {seen seen' : ConfigKey → ConfigValue → Prop} {a : Answer}
    (h : a.From seen) (himp : ∀ k v, seen k v → seen' k v) : a.From seen' := by
  obtain ⟨question, began, answer⟩ := a
  unfold Answer.From at h ⊢
  rcases question with ⟨username, limitClass⟩ | _ | ⟨domain, settings⟩ <;>
    rcases answer with limit | n
  · obtain ⟨config, overrides, hconfig, hoverrides, rfl⟩ := h
    exact ⟨config, overrides, himp _ _ hconfig, himp _ _ hoverrides, rfl⟩
  · exact h
  · exact h
  · obtain ⟨config, limits, hconfig, hlimits, rfl⟩ := h
    exact ⟨config, limits, himp _ _ hconfig, himp _ _ hlimits, rfl⟩
  · exact h
  · obtain ⟨limits, hlimits, rfl⟩ := h
    exact ⟨limits, himp _ _ hlimits, rfl⟩

/-- An answer is computed from what was served since the question. -/
def answers : Reports ConfigKey ConfigValue Answer where
  right a es := a.From fun k v => CachePolicy.ServedSince k v a.began es
  mono _ _ _ hsub h := h.imp fun _ _ hs => hs.mono hsub

/-- What the tables say. -/
def Tells (coercions : Coercions) (db : ConfigDb) (k : ConfigKey) (v : ConfigValue) : Prop :=
  v = ask coercions k db

/-! ## The programs -/

section

abbrev Notes := List (CacheNote ConfigKey ConfigValue Answer)

variable {α β : Type} {A : ℚ → Notes → Prop} {S : α → Notes → Prop} {T : β → Notes → Prop}
  {began : ℚ}

/-- The program ends as it began, and what it gives is sound. -/
def Gives (A : ℚ → Notes → Prop) (S : α → Notes → Prop) (result : Option α) (now : ℚ)
    (es : Notes) : Prop :=
  A now es ∧ ∀ a, result = some a → S a es

/-- What is served is remembered. -/
abbrev Seen (began : ℚ) (k : ConfigKey) (v : ConfigValue) (es : Notes) : Prop :=
  CachePolicy.ServedSince k v began es

theorem lasting_seen (hA : CachePolicy.Lasting A) (k : ConfigKey) (v : ConfigValue) :
    CachePolicy.Lasting fun now es => A now es ∧ Seen began k v es :=
  fun now now' es es' hle hsub h => ⟨hA now now' es es' hle hsub h.1, h.2.mono hsub⟩

theorem behaves_withSome {p : ConfigProg Answer (Option α)} {f : α → ConfigProg Answer (Option β)}
    (hp : configCache.Behaves answers (Tells coercions) A p (Gives A S))
    (hf : ∀ a, configCache.Behaves answers (Tells coercions) (fun now es => A now es ∧ S a es) (f a)
      (Gives A T)) :
    configCache.Behaves answers (Tells coercions) A (withSome p f) (Gives A T) := by
  refine hp.bind fun result => ?_
  rcases result with _ | a
  · exact CachePolicy.behaves_pure fun now es h => ⟨h.1, fun _ hnone => by simp at hnone⟩
  · have hpre := hf a
    refine ⟨fun ι i => (hpre.honest ι i).imp (fun _ _ _ h => ⟨h.1, h.2 a rfl⟩) fun _ _ _ h => h,
      hpre.truthful, hpre.fits⟩

theorem behaves_give {B : ℚ → Notes → Prop} {a : α} (hB : ∀ now es, B now es → A now es)
    (h : ∀ now es, B now es → S a es) :
    configCache.Behaves answers (Tells coercions) B (pure (some a)) (Gives A S) := by
  refine CachePolicy.behaves_pure fun now es hpre => ⟨hB now es hpre, fun b hb => ?_⟩
  obtain rfl := Option.some.inj hb
  exact h now es hpre

/-- What was known besides is forgotten. -/
theorem Gives.weaken {B : ℚ → Notes → Prop} {result : Option α} {now : ℚ} {es : Notes}
    (h : Gives (fun now es => A now es ∧ B now es) S result now es) : Gives A S result now es :=
  ⟨h.1.1, h.2⟩

variable (hA : CachePolicy.Lasting A) (hbegan : ∀ now es, A now es → began ≤ now)

include hA hbegan

theorem behaves_cached (k : ConfigKey) :
    configCache.Behaves answers (Tells coercions) A (cached coercions k)
      fun v now es => A now es ∧ Seen began k v es :=
  CachePolicy.behaves_fetch hA hbegan fun _ => rfl

theorem behaves_getRuntimeConfig :
    configCache.Behaves answers (Tells coercions) A (getRuntimeConfig coercions)
      (Gives A fun config => Seen began .runtimeConfig (.config config)) := by
  refine (behaves_cached hA hbegan .runtimeConfig).bind fun v => ?_
  rcases v with config | _ | _ | _
  · exact CachePolicy.behaves_pure fun now es h => ⟨h.1, fun _ hc => Option.some.inj hc ▸ h.2⟩
  all_goals exact CachePolicy.behaves_pure fun now es h => ⟨h.1, fun _ hc => by simp at hc⟩

theorem behaves_getUserOverrides (username : String) :
    configCache.Behaves answers (Tells coercions) A (getUserOverrides coercions username)
      (Gives A fun overrides => Seen began (.user username) (.overrides overrides)) := by
  refine (behaves_cached hA hbegan (.user username)).bind fun v => ?_
  rcases v with _ | overrides | _ | _
  case overrides =>
    exact CachePolicy.behaves_pure fun now es h => ⟨h.1, fun _ hc => Option.some.inj hc ▸ h.2⟩
  all_goals exact CachePolicy.behaves_pure fun now es h => ⟨h.1, fun _ hc => by simp at hc⟩

theorem behaves_getDomainLimits :
    configCache.Behaves answers (Tells coercions) A (getDomainLimits coercions)
      (Gives A fun limits => Seen began .domainLimits (.limits limits)) := by
  refine (behaves_cached hA hbegan .domainLimits).bind fun v => ?_
  rcases v with _ | _ | limits | _
  case limits =>
    exact CachePolicy.behaves_pure fun now es h => ⟨h.1, fun _ hc => Option.some.inj hc ▸ h.2⟩
  all_goals exact CachePolicy.behaves_pure fun now es h => ⟨h.1, fun _ hc => by simp at hc⟩

theorem behaves_effectiveLimits (username : String) (limitClass : LimitClass) :
    configCache.Behaves answers (Tells coercions) A (effectiveLimits coercions username limitClass)
      (Gives A fun limit es => (Answer.mk (.limits username limitClass) began (.inl limit)).From
        fun k v => Seen began k v es) := by
  refine behaves_withSome (behaves_getRuntimeConfig hA hbegan) fun config => ?_
  have hconfig : CachePolicy.Lasting fun now es =>
      A now es ∧ Seen began .runtimeConfig (.config config) es := lasting_seen hA _ _
  refine CachePolicy.Behaves.imp (behaves_withSome (behaves_getUserOverrides hconfig
    (fun now es h => hbegan now es h.1) username) fun overrides => ?_) fun _ _ _ => Gives.weaken
  exact behaves_give (fun now es h => h.1)
    fun now es h => ⟨config, overrides, h.1.2, h.2, rfl⟩

theorem behaves_getStateTtlSeconds :
    configCache.Behaves answers (Tells coercions) A (getStateTtlSeconds coercions)
      (Gives A fun ttl es => (Answer.mk .stateTtl began (.inr ttl)).From
        fun k v => Seen began k v es) := by
  refine behaves_withSome (behaves_getRuntimeConfig hA hbegan) fun config => ?_
  have hconfig : CachePolicy.Lasting fun now es =>
      A now es ∧ Seen began .runtimeConfig (.config config) es := lasting_seen hA _ _
  refine CachePolicy.Behaves.imp (behaves_withSome (behaves_getDomainLimits hconfig
    fun now es h => hbegan now es h.1) fun limits => ?_) fun _ _ _ => Gives.weaken
  exact behaves_give (fun now es h => h.1) fun now es h => ⟨config, limits, h.1.2, h.2, rfl⟩

theorem behaves_getMaxUploadBytes (domain : Option String) (settings : Int) :
    configCache.Behaves answers (Tells coercions) A (getMaxUploadBytes coercions domain settings)
      (Gives A fun bytes es => (Answer.mk (.maxUpload domain settings) began (.inr bytes)).From
        fun k v => Seen began k v es) := by
  refine behaves_withSome (behaves_getDomainLimits hA hbegan) fun limits => ?_
  exact behaves_give (fun now es h => h.1) fun now es h => ⟨limits, h.2, rfl⟩

/-- What a question is answered is computed from what was served since. -/
theorem behaves_question (question : Question) :
    configCache.Behaves answers (Tells coercions) A (question.prog coercions)
      (Gives A fun answer es => (Answer.mk question began answer).From
        fun k v => Seen began k v es) := by
  rcases question with ⟨username, limitClass⟩ | _ | ⟨domain, settings⟩
  · exact behaves_withSome (behaves_effectiveLimits hA hbegan username limitClass) fun limit =>
      behaves_give (fun now es h => h.1) fun now es h => h.2
  · exact behaves_withSome (behaves_getStateTtlSeconds hA hbegan) fun ttl =>
      behaves_give (fun now es h => h.1) fun now es h => h.2
  · exact behaves_withSome (behaves_getMaxUploadBytes hA hbegan domain settings) fun bytes =>
      behaves_give (fun now es h => h.1) fun now es h => h.2

omit hA hbegan

theorem behaves_answerQuestion (question : Question) :
    configCache.Behaves answers (Tells coercions) (fun _ _ => True)
      (answerQuestion coercions question) fun _ _ _ => True := by
  refine (CachePolicy.behaves_time CachePolicy.lasting_true).bind fun began => ?_
  have hA : CachePolicy.Lasting fun now (_ : Notes) => True ∧ began ≤ now :=
    fun _ _ _ _ hle _ h => ⟨trivial, h.2.trans hle⟩
  refine (behaves_question hA (fun _ _ h => h.2) question).bind fun result => ?_
  rcases result with _ | answer
  · exact CachePolicy.behaves_pure fun _ _ _ => trivial
  · refine (CachePolicy.behaves_tell (fun now now' es es' hle hsub h => ?_)
      fun now es h => h.2 answer rfl).imp fun _ _ _ _ => trivial
    exact ⟨hA now now' es es' hle hsub h.1,
      fun a ha => (h.2 a ha).imp fun k v hs => hs.mono hsub⟩

theorem behaves_hand (hand : Hand) (hforward : hand.Forward) :
    configCache.Behaves answers (Tells coercions) (fun _ _ => True) (hand.prog coercions)
      fun _ _ _ => True := by
  rcases hand with question | write | values | ⟨username, write⟩ | _ | durations
  · exact behaves_answerQuestion question
  · exact CachePolicy.behaves_change write
  · exact (CachePolicy.behaves_change _).bind fun _ => CachePolicy.behaves_drop _
  · exact (CachePolicy.behaves_change _).bind fun _ => CachePolicy.behaves_drop _
  · exact CachePolicy.behaves_drop fun _ => true
  · exact CachePolicy.behaves_clock hforward

end

/-! ## Every interleaving -/

section

variable {ι : Type} [DecidableEq ι] {hands : ι → Option Hand} {db : ConfigDb} {now : ℚ}
  {q : Pool (Cached ConfigDb ConfigKey ConfigValue) (CacheNote ConfigKey ConfigValue Answer) ι}

theorem opens_pool (hforward : ∀ i hand, hands i = some hand → hand.Forward) :
    configCache.Opens answers (Tells coercions) (pool coercions hands db now) where
  behaves i c hc := by
    obtain ⟨hand, hhand, rfl⟩ := Option.map_eq_some_iff.mp hc
    exact behaves_hand hand (hforward i hand hhand)
  entries := rfl
  history := rfl

/-- A moment of the run from `p` to `q` that is less than the time to live and `query` before
`began`, or later. -/
def Lately (p q : Pool (Cached ConfigDb ConfigKey ConfigValue)
    (CacheNote ConfigKey ConfigValue Answer) ι) (query began : ℚ) (holds : ConfigDb → Prop) : Prop :=
  ∃ r, Pool.Run .free p r ∧ Pool.Run .free r q ∧
    began < r.shared.now + cacheTtlSeconds + query ∧ holds r.shared.source

/-- No query takes longer from its answer to the note of it. -/
def Quick (query : ℚ) (es : Notes) : Prop :=
  0 ≤ query ∧ ∀ k v t s, .stored k v t s ∈ es → s ≤ t + query

theorem lately_of_seen (hforward : ∀ i hand, hands i = some hand → hand.Forward)
    (hr : Pool.Run .free (pool coercions hands db now) q) {query began : ℚ}
    (hquick : Quick query q.history) {k : ConfigKey} {v : ConfigValue}
    (hs : Seen began k v q.history) :
    Lately (pool coercions hands db now) q query began fun db => v = ask coercions k db := by
  obtain ⟨t, hbegan, hserved⟩ := hs
  have httl : (0 : ℚ) < cacheTtlSeconds := by decide +kernel
  obtain ⟨r, hpr, hrq, htells, hmoment⟩ := (opens_pool hforward).served hr hserved
  refine ⟨r, hpr, hrq, ?_, htells⟩
  rcases hmoment with rfl | ⟨-, s, hstored, hlt, -⟩
  · linarith [hquick.1]
  · have hs := hquick.2 k v _ s hstored
    have hlt : t < s + cacheTtlSeconds := hlt
    linarith

theorem answer_from (hforward : ∀ i hand, hands i = some hand → hand.Forward)
    (hr : Pool.Run .free (pool coercions hands db now) q) {query : ℚ}
    (hquick : Quick query q.history) {a : Answer} (ha : .told a ∈ q.history) :
    a.From fun k v => Lately (pool coercions hands db now) q query a.began
      fun db => v = ask coercions k db := by
  have htold : a.From fun k v => Seen a.began k v q.history := (opens_pool hforward).told hr ha
  exact htold.imp fun _ _ hs => lately_of_seen hforward hr hquick hs

theorem Lately.imp {p q : Pool (Cached ConfigDb ConfigKey ConfigValue)
    (CacheNote ConfigKey ConfigValue Answer) ι} {query began : ℚ} {holds holds' : ConfigDb → Prop}
    (h : Lately p q query began holds) (himp : ∀ db, holds db → holds' db) :
    Lately p q query began holds' := by
  obtain ⟨r, hpr, hrq, hlt, hr⟩ := h
  exact ⟨r, hpr, hrq, hlt, himp _ hr⟩

/-- What held at every such moment. -/
def Stood (p q : Pool (Cached ConfigDb ConfigKey ConfigValue)
    (CacheNote ConfigKey ConfigValue Answer) ι) (query began : ℚ) (holds : ConfigDb → Prop) : Prop :=
  ∀ r, Pool.Run .free p r → Pool.Run .free r q →
    began < r.shared.now + cacheTtlSeconds + query → holds r.shared.source

theorem Stood.lately {p q : Pool (Cached ConfigDb ConfigKey ConfigValue)
    (CacheNote ConfigKey ConfigValue Answer) ι} {query began : ℚ} {holds holds' : ConfigDb → Prop}
    (hstood : Stood p q query began holds) (h : Lately p q query began holds') :
    ∃ db, holds db ∧ holds' db := by
  obtain ⟨r, hpr, hrq, hlt, hr⟩ := h
  exact ⟨r.shared.source, hstood r hpr hrq hlt, hr⟩

omit [DecidableEq ι] in
theorem fromRows_of_ask {config : RuntimeConfig}
    (h : ConfigValue.config config = ask coercions .runtimeConfig db) :
    RuntimeConfig.fromRows coercions db.config.getAll = some config := by
  rw [ask] at h
  rcases hread : RuntimeConfig.fromRows coercions db.config.getAll with _ | config' <;>
    rw [hread] at h
  · cases h
  · rw [ConfigValue.config.inj h]

/-! ### The limits -/

/-- **A limit is computed from rows that stood seconds before.** Whatever questions, changes of the
tables, losses of the cache and time come in between: a limit that a user got is their own override
of the class's limit, the override and the config each as the tables had them less than the time to
live and a query before the question, or later. -/
theorem limits_within (hforward : ∀ i hand, hands i = some hand → hand.Forward)
    (hr : Pool.Run .free (pool coercions hands db now) q) {query : ℚ}
    (hquick : Quick query q.history) {username : String} {limitClass : LimitClass} {began : ℚ}
    {limit : RateLimit} (ha : .told ⟨.limits username limitClass, began, .inl limit⟩ ∈ q.history) :
    ∃ config overrides, limit = overrides.apply limitClass (config.rateLimits limitClass) ∧
      Lately (pool coercions hands db now) q query began (fun db =>
        RuntimeConfig.fromRows coercions db.config.getAll = some config) ∧
      Lately (pool coercions hands db now) q query began (fun db =>
        overrides = (db.users.lookup username).getD {}) := by
  obtain ⟨config, overrides, hconfig, hoverrides, hlimit⟩ := answer_from hforward hr hquick ha
  refine ⟨config, overrides, hlimit, hconfig.imp fun db h => fromRows_of_ask h,
    hoverrides.imp fun db h => ConfigValue.overrides.inj h⟩

/-- A question, then the override goes and nine seconds pass, and the same question. -/
def limitHands : List Hand :=
  [.ask (.limits "l" .submit), .admin fun db => { db with users := ∅ }, .clock [9],
    .ask (.limits "l" .submit)]

def libraryDb : ConfigDb where
  users := (∅ : Finmap fun _ : String => UserLimitOverrides).insert "l"
    { rateSubmitPerMinute := some 5 }
  domains := (∅ : Finmap fun _ : String => DomainLimits).insert "maps"
    { runningTimeoutSeconds := some 1200 }

/-- Whether a result is in the log. -/
def told (a : Answer) (es : Notes) : Bool :=
  es.any fun
    | .told b => b = a
    | _ => false

omit [DecidableEq ι] in
theorem mem_of_told {a : Answer} {es : Notes} (h : told a es = true) : .told a ∈ es := by
  obtain ⟨e, he, hb⟩ := List.any_eq_true.mp h
  rcases e with _ | _ | _ | b
  case told =>
    obtain rfl := of_decide_eq_true hb
    exact he
  all_goals cases hb

/-- Whether every note came with its answer. -/
def atOnce (es : Notes) : Bool :=
  es.all fun
    | .stored _ _ t s => s ≤ t
    | _ => true

omit [DecidableEq ι] in
theorem quick_of_atOnce {es : Notes} (h : atOnce es = true) : Quick 0 es := by
  refine ⟨le_rfl, fun k v t s hs => ?_⟩
  have hle := of_decide_eq_true (List.all_eq_true.mp h _ hs)
  rwa [add_zero]

/-- The second answer is from the cache, with the override that stood at the first question. -/
theorem limits_within_sample :
    ∃ q : Pool (Cached ConfigDb ConfigKey ConfigValue)
        (CacheNote ConfigKey ConfigValue Answer) Nat,
      .told ⟨.limits "l" .submit, 9, .inl ⟨5, 10⟩⟩ ∈ q.history ∧
        ∃ config overrides, (⟨5, 10⟩ : RateLimit) =
            UserLimitOverrides.apply overrides .submit (config.rateLimits .submit) ∧
          Lately (pool .strict (fun i => limitHands[i]?) libraryDb 0) q 0 9 (fun db =>
            RuntimeConfig.fromRows .strict db.config.getAll = some config) ∧
          Lately (pool .strict (fun i => limitHands[i]?) libraryDb 0) q 0 9 (fun db =>
            overrides = (db.users.lookup "l").getD {}) := by
  obtain ⟨q, hq, hP⟩ := Pool.exists_run_of_schedule (R := Regime.free) (fun _ _ => trivial)
    (p := pool .strict (fun i => limitHands[i]?) libraryDb 0)
    (l := List.replicate 8 0 ++ [1, 2] ++ List.replicate 4 3)
    (P := fun q => told ⟨.limits "l" .submit, 9, .inl ⟨5, 10⟩⟩ q.history && atOnce q.history)
    (by decide +kernel)
  rw [Bool.and_eq_true] at hP
  have hforward : ∀ (i : Nat) hand, limitHands[i]? = some hand → hand.Forward := by
    have hclock : (0 : ℚ) ≤ 9 := by decide +kernel
    have hall : ∀ hand ∈ limitHands, hand.Forward := by
      simp [limitHands, Hand.Forward, hclock]
    exact fun _ hand h => hall hand (List.mem_of_getElem? h)
  exact ⟨q, mem_of_told hP.1,
    limits_within hforward hq (quick_of_atOnce hP.2) (mem_of_told hP.1)⟩

/-! ### The TTL of a job's state -/

omit [DecidableEq ι] in
theorem le_longestRunning (running : Int) (limits : List (String × DomainLimits)) :
    running ≤ longestRunning running limits ∧
      ∀ domain ∈ limits, ∀ timeout, domain.2.runningTimeoutSeconds = some timeout →
        timeout ≤ longestRunning running limits := by
  induction limits generalizing running with
  | nil => exact ⟨le_rfl, fun _ h => absurd h (List.not_mem_nil)⟩
  | cons first limits ih =>
    have hstep : longestRunning running (first :: limits) =
        longestRunning (first.2.runningTimeoutSeconds.elim running (max running)) limits := rfl
    rw [hstep]
    obtain ⟨hle, hrest⟩ := ih (first.2.runningTimeoutSeconds.elim running (max running))
    have hfirst : running ≤ first.2.runningTimeoutSeconds.elim running (max running) := by
      rcases first.2.runningTimeoutSeconds with _ | timeout
      · exact le_rfl
      · exact le_max_left running timeout
    refine ⟨hfirst.trans hle, fun domain hdomain timeout ht => ?_⟩
    rcases List.mem_cons.mp hdomain with rfl | hdomain
    · have hmax : timeout ≤ domain.2.runningTimeoutSeconds.elim running (max running) := by
        rw [ht]
        exact le_max_right running timeout
      exact hmax.trans hle
    · exact hrest domain hdomain timeout ht

omit [DecidableEq ι] in
theorem mem_domainLimits {name : String} {limits : DomainLimits} {timeout : Int}
    (h : db.domains.lookup name = some limits) (ht : limits.runningTimeoutSeconds = some timeout) :
    (name, limits) ∈ db.domainLimits := by
  refine List.mem_filter.mpr ⟨mem_items.mpr h, ?_⟩
  simp [ht]

omit [DecidableEq ι] in
/-- The TTL is the one that a job's hash gets at its dispatch. -/
theorem stateTtlSeconds_eq {config : RuntimeConfig} {limits : List (String × DomainLimits)}
    {timeouts : Timeouts} (hqueued : config.queuedTimeoutSeconds = timeouts.queuedTimeoutSeconds)
    (hrunning : config.runningTimeoutSeconds = timeouts.runningTimeoutSeconds)
    (hlimits : limits.map (fun domain => domain.2.runningTimeoutSeconds) =
      timeouts.domainLimits.map fun timeout => timeout.map Nat.cast) :
    stateTtlSeconds config limits = Taas.getStateTtlSeconds timeouts := by
  have hlongest : ∀ (running : Nat) (own : List (Option Nat)) (limits : List (String × DomainLimits)),
      limits.map (fun domain => domain.2.runningTimeoutSeconds) =
        own.map (fun timeout => timeout.map Nat.cast) →
      longestRunning running limits =
        (own.foldl (fun running limit => max running (limit.getD 0)) running : Nat) := by
    intro running own limits h
    induction own generalizing running limits with
    | nil =>
      obtain rfl := List.map_eq_nil_iff.mp h
      rfl
    | cons timeout own ih =>
      obtain ⟨domain, limits, rfl, htimeout, hrest⟩ := List.map_eq_cons_iff.mp h
      have hstep : domain.2.runningTimeoutSeconds.elim (running : Int) (max running) =
          (max running (timeout.getD 0) : Nat) := by
        rw [htimeout]
        rcases timeout with _ | timeout <;> simp
      have hnext := ih (max running (timeout.getD 0)) limits hrest
      rw [← hstep] at hnext
      exact hnext
  unfold stateTtlSeconds Taas.getStateTtlSeconds
  rw [hqueued, hrunning, hlongest _ _ _ hlimits]
  push_cast [stateTtlMarginSeconds, Taas.stateTtlMarginSeconds]
  rfl

/-- **A state outlives the timeouts that have stood.** Where a queued timeout and a running timeout,
the config's or some domain's, have stood for the time to live and a query, every TTL that is
answered is at least their sum and the margin. -/
theorem stateTtl_covers (hforward : ∀ i hand, hands i = some hand → hand.Forward)
    (hr : Pool.Run .free (pool coercions hands db now) q) {query : ℚ}
    (hquick : Quick query q.history) {began : ℚ} {ttl : Int}
    (ha : .told ⟨.stateTtl, began, .inr ttl⟩ ∈ q.history) {queued running : Int}
    (hqueued : Stood (pool coercions hands db now) q query began fun db => ∀ config,
      RuntimeConfig.fromRows coercions db.config.getAll = some config →
        queued ≤ config.queuedTimeoutSeconds)
    (hrunning : (Stood (pool coercions hands db now) q query began fun db => ∀ config,
        RuntimeConfig.fromRows coercions db.config.getAll = some config →
          running ≤ config.runningTimeoutSeconds) ∨
      ∃ name, Stood (pool coercions hands db now) q query began fun db =>
        ∃ limits timeout, db.domains.lookup name = some limits ∧
          limits.runningTimeoutSeconds = some timeout ∧ running ≤ timeout) :
    queued + running + stateTtlMarginSeconds ≤ ttl := by
  obtain ⟨config, limits, hconfig, hlimits, rfl⟩ := answer_from hforward hr hquick ha
  obtain ⟨hle, hdomains⟩ := le_longestRunning config.runningTimeoutSeconds limits
  have hq : queued ≤ config.queuedTimeoutSeconds := by
    obtain ⟨db, hdb, hask⟩ := hqueued.lately hconfig
    exact hdb config (fromRows_of_ask hask)
  have hrun : running ≤ longestRunning config.runningTimeoutSeconds limits := by
    rcases hrunning with hrunning | ⟨name, hrunning⟩
    · obtain ⟨db, hdb, hask⟩ := hrunning.lately hconfig
      exact (hdb config (fromRows_of_ask hask)).trans hle
    · obtain ⟨db, ⟨own, timeout, hlookup, ht, htimeout⟩, hask⟩ := hrunning.lately hlimits
      have hlimits : limits = db.domainLimits := ConfigValue.limits.inj hask
      refine htimeout.trans (hdomains (name, own) ?_ timeout ht)
      exact hlimits ▸ mem_domainLimits hlookup ht
  unfold stateTtlSeconds
  omega

/-- A question changes no table. -/
theorem reads_withSome {α β : Type} {p : ConfigProg Answer (Option α)}
    {f : α → ConfigProg Answer (Option β)} (hp : p.Each CachePolicy.Reads)
    (hf : ∀ a, (f a).Each CachePolicy.Reads) : (withSome p f).Each CachePolicy.Reads := by
  refine hp.bind fun result => ?_
  rcases result with _ | a
  · exact each_pure _
  · exact hf a

theorem reads_getRuntimeConfig :
    (getRuntimeConfig coercions : ConfigProg Answer _).Each CachePolicy.Reads := by
  refine CachePolicy.reads_fetch.bind fun v => ?_
  rcases v <;> exact each_pure _

theorem reads_getDomainLimits :
    (getDomainLimits coercions : ConfigProg Answer _).Each CachePolicy.Reads := by
  refine CachePolicy.reads_fetch.bind fun v => ?_
  rcases v <;> exact each_pure _

theorem reads_stateTtl : (answerQuestion coercions .stateTtl).Each CachePolicy.Reads := by
  refine (each_call fun _ => rfl).bind fun began => ?_
  have hask : ((Question.stateTtl).prog coercions : ConfigProg Answer _).Each CachePolicy.Reads :=
    reads_withSome (reads_withSome reads_getRuntimeConfig fun config =>
      reads_withSome reads_getDomainLimits fun limits => each_pure _) fun ttl => each_pure _
  refine hask.bind fun result => ?_
  rcases result with _ | answer
  · exact each_pure _
  · exact each_callLog fun _ => rfl

/-- The domain of maps has a timeout of its own. -/
def mapsDb (timeout : Int) : ConfigDb :=
  { libraryDb with
    domains := (∅ : Finmap fun _ : String => DomainLimits).insert "maps"
      { runningTimeoutSeconds := some timeout } }

/-- Two questions; in between the timeout of maps is halved and eleven seconds pass. -/
def ttlHands : List Hand :=
  [.ask .stateTtl, .admin fun db => { db with domains := (mapsDb 1200).domains }, .clock [11],
    .ask .stateTtl]

/-- Whatever was done so far, maps have at least 1200 s. -/
def LongEnough (db : ConfigDb) : Prop := ∃ timeout, 1200 ≤ timeout ∧ db = mapsDb timeout

theorem longEnough_of_run {r : Pool (Cached ConfigDb ConfigKey ConfigValue)
    (CacheNote ConfigKey ConfigValue Answer) Nat}
    (hr : Pool.Run .free (pool .strict (fun i => ttlHands[i]?) (mapsDb 2400) 0) r) :
    LongEnough r.shared.source := by
  refine Pool.Run.each (I := fun c _ => LongEnough c.source)
    (C := fun effect _ => ∀ c : Cached ConfigDb ConfigKey ConfigValue,
      LongEnough c.source → LongEnough (effect c).source) hr
    (fun _ _ c _ hkeeps _ h => hkeeps c h) (fun _ _ _ h => h) (fun i c hc => ?_)
    ⟨2400, by norm_num, rfl⟩
  obtain ⟨hand, hhand, rfl⟩ := Option.map_eq_some_iff.mp hc
  have hmem : hand = ttlHands[0] ∨ hand = ttlHands[1] ∨ hand = ttlHands[2] ∨ hand = ttlHands[3] := by
    simpa [ttlHands] using List.mem_of_getElem? hhand
  have hasks : (answerQuestion .strict .stateTtl).Each fun effect _ =>
      ∀ c : Cached ConfigDb ConfigKey ConfigValue,
        LongEnough c.source → LongEnough (effect c).source :=
    reads_stateTtl.mono fun _ _ hreads c h => hreads c ▸ h
  obtain rfl | rfl | rfl | rfl := hmem
  · exact hasks
  · refine each_call fun c h => ?_
    obtain ⟨timeout, -, hdb⟩ := h
    exact ⟨1200, le_rfl, by rw [hdb]; rfl⟩
  · exact (each_call fun c h => h).bind fun _ => each_pure _
  · exact hasks

/-- The first answer is that of the long timeout, and the second one that of the short. -/
theorem stateTtl_covers_sample :
    ∃ q : Pool (Cached ConfigDb ConfigKey ConfigValue)
        (CacheNote ConfigKey ConfigValue Answer) Nat,
      .told ⟨.stateTtl, 0, .inr 3360⟩ ∈ q.history ∧ .told ⟨.stateTtl, 11, .inr 2160⟩ ∈ q.history ∧
        (900 : Int) + 1200 + stateTtlMarginSeconds ≤ 2160 := by
  obtain ⟨q, hq, hP⟩ := Pool.exists_run_of_schedule (R := Regime.free) (fun _ _ => trivial)
    (p := pool .strict (fun i => ttlHands[i]?) (mapsDb 2400) 0)
    (l := List.replicate 8 0 ++ [1, 2] ++ List.replicate 8 3)
    (P := fun q => told ⟨.stateTtl, 0, .inr 3360⟩ q.history &&
      (told ⟨.stateTtl, 11, .inr 2160⟩ q.history && atOnce q.history))
    (by decide +kernel)
  rw [Bool.and_eq_true, Bool.and_eq_true] at hP
  have hforward : ∀ (i : Nat) hand, ttlHands[i]? = some hand → hand.Forward := by
    have hclock : (0 : ℚ) ≤ 11 := by decide +kernel
    have hall : ∀ hand ∈ ttlHands, hand.Forward := by
      simp [ttlHands, Hand.Forward, hclock]
    exact fun _ hand h => hall hand (List.mem_of_getElem? h)
  have hconfig : ∀ timeout config,
      RuntimeConfig.fromRows .strict (mapsDb timeout).config.getAll = some config →
        config.queuedTimeoutSeconds = 900 := by
    intro timeout config h
    have hempty : (mapsDb timeout).config.getAll = [] := rfl
    have hread : RuntimeConfig.fromRows .strict [] =
        some ⟨Setting.default, [], fallbackRateLimits⟩ := rfl
    rw [hempty, hread] at h
    obtain rfl := Option.some.inj h
    rfl
  refine ⟨q, mem_of_told hP.1, mem_of_told hP.2.1, stateTtl_covers hforward hq
    (quick_of_atOnce hP.2.2) (mem_of_told hP.2.1) (fun r hr _ _ config h => ?_)
    (.inr ⟨"maps", fun r hr _ _ => ?_⟩)⟩
  · obtain ⟨timeout, -, hdb⟩ := longEnough_of_run hr
    rw [hdb] at h
    exact (hconfig timeout config h).ge
  · obtain ⟨timeout, hlong, hdb⟩ := longEnough_of_run hr
    rw [hdb]
    exact ⟨_, timeout, rfl, rfl, hlong⟩

end

end Config

end Taas
