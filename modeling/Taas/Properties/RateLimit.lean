import Taas.Infra.Gcra
import Taas.Services.RateLimit

/-!
# The limiter enforces its rate

* `RateStore.Fresh` — a key outlives its arrival time.
* `allowedTimes_checks` — what a user is allowed is what the cell rate algorithm allows.
* `enforces_rate` — the rate, the burst, when to try again, and that the expiry changes nothing.
-/

namespace Taas

open Infra

/-! ## One check -/

theorem startTat_eq (now : ℚ) (tat : Option ℚ) : startTat now tat = Gcra.arrival now tat := by
  cases tat with
  | none => rfl
  | some tat =>
    rw [startTat, Gcra.arrival]
    split
    · next hlt => rw [max_eq_right hlt.le]
    · next hlt => rw [max_eq_left (not_lt.mp hlt)]

/-- The script's arrival time is the algorithm's. -/
theorem gcraLua_eq (T tau now : ℚ) (tat : Option ℚ) : gcraLua T tau now tat =
    if Gcra.arrival now tat - now ≤ tau then
      (⟨true, 0⟩, some ⟨Gcra.arrival now tat + T, now + (⌈tau + T⌉ + 1)⟩)
    else (⟨false, Gcra.arrival now tat - tau - now⟩, none) := by
  unfold gcraLua
  dsimp only
  rw [startTat_eq]
  split
  · next hlt => rw [if_neg (not_le.mpr hlt)]
  · next hlt => rw [if_pos (not_lt.mp hlt)]

namespace RateStore

/-- No key expires before its arrival time. -/
def Fresh (s : RateStore) : Prop := ∀ key entry, s key = some entry → entry.tat < entry.expiresAt

/-- A key that expired would count as idle anyway. -/
theorem arrival_live {now : ℚ} {entry : Option RateTat}
    (h : ∀ e, entry = some e → e.tat < e.expiresAt) :
    Gcra.arrival now (RateTat.live now entry) = Gcra.arrival now (entry.map RateTat.tat) := by
  cases entry with
  | none => rfl
  | some e =>
    by_cases he : now < e.expiresAt
    · rw [RateTat.live, Option.filter_some_pos (by simpa using he)]
    · have htat : e.tat ≤ now := (h e rfl).le.trans (not_lt.mp he)
      rw [RateTat.live, Option.filter_some_neg (by simpa using he)]
      exact (max_eq_right htat).symm

variable {limit : RateLimit} {s : RateStore}

/-- A reading that gives the arrival time of the key. -/
def Reads (get : ℚ → Option RateTat → Option ℚ) : Prop :=
  ∀ now entry, (∀ e, entry = some e → e.tat < e.expiresAt) →
    Gcra.arrival now (get now entry) = Gcra.arrival now (entry.map RateTat.tat)

theorem reads_live : Reads RateTat.live := fun _ _ => arrival_live

theorem reads_forever : Reads fun _ entry => entry.map RateTat.tat := fun _ _ _ => rfl

/-- The arrival time of the key when a check comes. -/
def arrival (s : RateStore) (c : RateCheck) : ℚ := Gcra.arrival c.now ((s c.key).map RateTat.tat)

theorem checkBy_eq {get : ℚ → Option RateTat → Option ℚ} (hget : Reads get)
    (hrate : 0 < limit.perMinute) (hs : s.Fresh) (c : RateCheck) : checkBy get limit s c =
      if s.arrival c - c.now ≤ limit.tau then
        (⟨true, 0⟩, Function.update s c.key (some ⟨s.arrival c + limit.emissionInterval,
          c.now + (⌈limit.tau + limit.emissionInterval⌉ + 1)⟩))
      else (⟨false, s.arrival c - limit.tau - c.now⟩, s) := by
  unfold checkBy arrival
  rw [if_neg (not_le.mpr hrate), gcraLua_eq, hget c.now (s c.key) (hs c.key)]
  by_cases hallowed : Gcra.arrival c.now ((s c.key).map RateTat.tat) - c.now ≤ limit.tau
  · simp only [if_pos hallowed]
  · simp only [if_neg hallowed]

/-- The expiry that a check sets is after the arrival time that it sets. -/
theorem fresh_checkBy {get : ℚ → Option RateTat → Option ℚ} (hget : Reads get)
    (hrate : 0 < limit.perMinute) (hs : s.Fresh) (c : RateCheck) :
    (checkBy get limit s c).2.Fresh := by
  rw [checkBy_eq hget hrate hs c]
  split
  · next hallowed =>
    intro key entry (hentry : Function.update s c.key _ key = some entry)
    by_cases hkey : key = c.key
    · subst hkey
      rw [Function.update_self] at hentry
      obtain rfl := Option.some.inj hentry
      have hceil := Int.le_ceil (limit.tau + limit.emissionInterval)
      have hdue : s.arrival c ≤ c.now + limit.tau := by linarith
      change s.arrival c + limit.emissionInterval <
        c.now + ((⌈limit.tau + limit.emissionInterval⌉ : ℚ) + 1)
      linarith
    · rw [Function.update_of_ne hkey] at hentry
      exact hs key entry hentry
  · exact hs

theorem fresh_checksBy {get : ℚ → Option RateTat → Option ℚ} (hget : Reads get)
    (hrate : 0 < limit.perMinute) (hs : s.Fresh) (cs : List RateCheck) :
    (checksBy get limit s cs).2.Fresh := by
  induction cs generalizing s with
  | nil => exact hs
  | cons c cs ih => exact ih (fresh_checkBy hget hrate hs c)

end RateStore

/-! ## Many checks -/

/-- When the user's checks were allowed. -/
def allowedTimes (key : RateKey) (results : List (RateCheck × RateLimitResult)) : List ℚ :=
  (results.filter fun r => r.1.key = key ∧ r.2.allowed = true).map fun r => r.1.now

/-- The times of the user's checks. -/
def timesOf (key : RateKey) (cs : List RateCheck) : List ℚ :=
  (cs.filter fun c => c.key = key).map RateCheck.now

namespace RateStore

variable {limit : RateLimit} {s : RateStore} {get : ℚ → Option RateTat → Option ℚ}

theorem checksBy_cons (c : RateCheck) (cs : List RateCheck) : checksBy get limit s (c :: cs) =
    ((c, (checkBy get limit s c).1) :: (checksBy get limit (checkBy get limit s c).2 cs).1,
      (checksBy get limit (checkBy get limit s c).2 cs).2) := rfl

/-- A check of another user leaves the key alone. -/
theorem checkBy_of_ne {c : RateCheck} {key : RateKey} (hkey : c.key ≠ key) :
    (checkBy get limit s c).2 key = s key := by
  unfold checkBy
  split
  · rfl
  · dsimp only
    split
    · rfl
    · exact Function.update_of_ne hkey.symm ..

theorem checksBy_of_ne {cs : List RateCheck} {key : RateKey} (h : ∀ c ∈ cs, c.key ≠ key) :
    (checksBy get limit s cs).2 key = s key := by
  induction cs generalizing s with
  | nil => rfl
  | cons c cs ih =>
    rw [checksBy_cons]
    exact (ih fun c hc => h c (List.mem_cons_of_mem _ hc)).trans
      (checkBy_of_ne (h c List.mem_cons_self))

/-- **What a user is allowed is what the cell rate algorithm allows him.** -/
theorem allowedTimes_checksBy (hget : Reads get) (hrate : 0 < limit.perMinute) (hs : s.Fresh)
    (key : RateKey) (cs : List RateCheck) : allowedTimes key (checksBy get limit s cs).1 =
      Gcra.allowed limit.emissionInterval limit.tau ((s key).map RateTat.tat) (timesOf key cs) := by
  induction cs generalizing s with
  | nil => rfl
  | cons c cs ih =>
    have hrest := ih (fresh_checkBy hget hrate hs c)
    have heq := checkBy_eq hget hrate hs c
    rw [checksBy_cons]
    by_cases hkey : c.key = key
    · -- the user's own check
      subst hkey
      have htimes : timesOf c.key (c :: cs) = c.now :: timesOf c.key cs := by simp [timesOf]
      rw [htimes, Gcra.allowed]
      change _ = if s.arrival c - c.now ≤ limit.tau then _ else _
      by_cases hallowed : s.arrival c - c.now ≤ limit.tau
      · rw [if_pos hallowed] at heq ⊢
        rw [heq] at hrest ⊢
        dsimp only at hrest ⊢
        rw [Function.update_self] at hrest
        rw [allowedTimes, List.filter_cons_of_pos (by simp), List.map_cons]
        exact congrArg _ hrest
      · rw [if_neg hallowed] at heq ⊢
        rw [heq] at hrest ⊢
        dsimp only at hrest ⊢
        rw [allowedTimes, List.filter_cons_of_neg (by simp)]
        exact hrest
    · have htimes : timesOf key (c :: cs) = timesOf key cs := by simp [timesOf, hkey]
      rw [checkBy_of_ne hkey] at hrest
      rw [htimes, ← hrest, allowedTimes, List.filter_cons_of_neg (by simp [hkey])]
      rfl

/-- Two ways to read a key lead to the same answers. -/
theorem checksBy_congr {get' : ℚ → Option RateTat → Option ℚ} (hget : Reads get)
    (hget' : Reads get') (hrate : 0 < limit.perMinute) (hs : s.Fresh) (cs : List RateCheck) :
    checksBy get limit s cs = checksBy get' limit s cs := by
  induction cs generalizing s with
  | nil => rfl
  | cons c cs ih =>
    have heq : checkBy get limit s c = checkBy get' limit s c :=
      (checkBy_eq hget hrate hs c).trans (checkBy_eq hget' hrate hs c).symm
    rw [checksBy_cons, checksBy_cons, ih (fresh_checkBy hget hrate hs c), heq]

end RateStore

/-! ## The rate -/

variable {limit : RateLimit}

theorem RateLimit.emissionInterval_pos (hrate : 0 < limit.perMinute) :
    0 < limit.emissionInterval := by
  unfold emissionInterval
  have : (0 : ℚ) < limit.perMinute := by exact_mod_cast hrate
  positivity

theorem RateLimit.tau_eq (hburst : 0 ≤ limit.burst) :
    limit.tau = limit.emissionInterval * limit.burst := by
  rw [tau, max_eq_left hburst]

theorem RateLimit.tau_nonneg (hrate : 0 < limit.perMinute) (hburst : 0 ≤ limit.burst) :
    0 ≤ limit.tau := by
  have hT := RateLimit.emissionInterval_pos hrate
  have hburst' : (0 : ℚ) ≤ limit.burst := by exact_mod_cast hburst
  rw [RateLimit.tau_eq hburst]
  positivity

/-- The keys before the first check. -/
def RateStore.empty : RateStore := fun _ => none

theorem RateStore.fresh_empty : empty.Fresh := fun _ _ h => by cases h

/-- At most `burst + 1 + L / T` checks are allowed in an interval of length `L`. -/
theorem allowed_in_window (hrate : 0 < limit.perMinute) (hburst : 0 ≤ limit.burst)
    (cs : List RateCheck) (key : RateKey) (t L : ℚ) (hL : 0 ≤ L) :
    (((allowedTimes key (RateStore.checks limit .empty cs).1).filter
      fun now => t ≤ now ∧ now ≤ t + L).length : ℚ) ≤
        limit.burst + 1 + L / limit.emissionInterval := by
  have hT := RateLimit.emissionInterval_pos hrate
  have htau := RateLimit.tau_nonneg hrate hburst
  have htimes := RateStore.allowedTimes_checksBy RateStore.reads_live hrate RateStore.fresh_empty
    key cs
  have hwindow := Gcra.window hT none (timesOf key cs) t L hL htau
  unfold RateStore.checks
  rw [htimes]
  change (((Gcra.allowed limit.emissionInterval limit.tau none (timesOf key cs)).filter _).length : ℚ)
    ≤ _
  rw [RateLimit.tau_eq hburst] at hwindow ⊢
  have hdiv : L = L / limit.emissionInterval * limit.emissionInterval :=
    (div_mul_cancel₀ L hT.ne').symm
  refine le_of_mul_le_mul_right ?_ hT
  linarith

/-- A user with no key gets `burst + 1` requests at once. -/
theorem allowedTimes_burst {s : RateStore} (hrate : 0 < limit.perMinute) (hburst : 0 ≤ limit.burst)
    (hs : s.Fresh) (c : RateCheck) (hkey : RateTat.live c.now (s c.key) = none) :
    allowedTimes c.key (RateStore.checks limit s (List.replicate (limit.burst.toNat + 1) c)).1 =
      List.replicate (limit.burst.toNat + 1) c.now := by
  have hidle : Gcra.arrival c.now ((s c.key).map RateTat.tat) = c.now := by
    rw [← RateStore.arrival_live (hs c.key), hkey]
    rfl
  have htimes : timesOf c.key (List.replicate (limit.burst.toNat + 1) c) =
      List.replicate (limit.burst.toNat + 1) c.now := by
    rw [timesOf, List.filter_eq_self.mpr, List.map_replicate]
    intro d hd
    rw [List.eq_of_mem_replicate hd]
    exact decide_eq_true rfl
  have hcast : ((limit.burst.toNat : ℤ) : ℚ) = limit.burst := by rw [Int.toNat_of_nonneg hburst]
  have htau := limit.tau_eq hburst
  have hT := RateLimit.emissionInterval_pos hrate
  unfold RateStore.checks
  rw [RateStore.allowedTimes_checksBy RateStore.reads_live hrate hs, htimes]
  refine Gcra.allowed_burst hT.le hidle _ ?_ (RateLimit.tau_nonneg hrate hburst)
  push_cast at hcast ⊢
  rw [htau, hcast]
  exact le_of_eq (by ring)

/-- A denied request may be made again once `retry_after` has passed, and no sooner. -/
theorem allowed_again_iff {s : RateStore} (hrate : 0 < limit.perMinute) (hburst : 0 ≤ limit.burst)
    (hs : s.Fresh) (c : RateCheck) (hdenied : (RateStore.check limit s c).1.allowed = false)
    (others : List RateCheck) (hothers : ∀ o ∈ others, o.key ≠ c.key) (later : ℚ) :
    (RateStore.check limit (RateStore.checks limit (RateStore.check limit s c).2 others).2
      { c with now := later }).1.allowed = true ↔
        c.now + (RateStore.check limit s c).1.retryAfter ≤ later := by
  have hget := RateStore.reads_live
  have heq := RateStore.checkBy_eq hget hrate hs c
  have hfresh := RateStore.fresh_checksBy hget hrate (RateStore.fresh_checkBy hget hrate hs c) others
  have hagain := RateStore.checkBy_eq hget hrate hfresh { c with now := later }
  unfold RateStore.check RateStore.checks at *
  by_cases hallowed : s.arrival c - c.now ≤ limit.tau
  · rw [if_pos hallowed] at heq
    rw [heq] at hdenied
    cases hdenied
  · rw [if_neg hallowed] at heq
    rw [heq] at hagain ⊢
    -- the key is as the denied request found it
    have hsame : (RateStore.checksBy RateTat.live limit s others).2.arrival { c with now := later } =
        Gcra.arrival later ((s c.key).map RateTat.tat) := by
      unfold RateStore.arrival
      rw [show RateCheck.key { c with now := later } = c.key from rfl]
      rw [RateStore.checksBy_of_ne hothers]
    have hiff := Gcra.denied_iff later (RateLimit.tau_nonneg hrate hburst) hallowed
    rw [hsame] at hagain
    refine Iff.trans ?_ hiff
    rw [hagain]
    split
    · next hle => exact iff_of_true rfl hle
    · next hlt => exact iff_of_false Bool.false_ne_true hlt

/-- **The limiter enforces its rate.** The expiry of the keys is not even seen. -/
theorem enforces_rate (hrate : 0 < limit.perMinute) (hburst : 0 ≤ limit.burst)
    (cs : List RateCheck) :
    (∀ key t L, 0 ≤ L → (((allowedTimes key (RateStore.checks limit .empty cs).1).filter
        fun now => t ≤ now ∧ now ≤ t + L).length : ℚ) ≤
          limit.burst + 1 + L / limit.emissionInterval) ∧
    (∀ c, RateTat.live c.now ((RateStore.checks limit .empty cs).2 c.key) = none →
      allowedTimes c.key (RateStore.checks limit (RateStore.checks limit .empty cs).2
        (List.replicate (limit.burst.toNat + 1) c)).1 =
          List.replicate (limit.burst.toNat + 1) c.now) ∧
    (∀ c, let s := (RateStore.checks limit .empty cs).2
      (RateStore.check limit s c).1.allowed = false →
      ∀ others : List RateCheck, (∀ o ∈ others, o.key ≠ c.key) → ∀ later,
        ((RateStore.check limit (RateStore.checks limit (RateStore.check limit s c).2 others).2
          { c with now := later }).1.allowed = true ↔
            c.now + (RateStore.check limit s c).1.retryAfter ≤ later)) ∧
    (RateStore.checks limit .empty cs).1 =
      (RateStore.checksBy (fun _ entry => entry.map RateTat.tat) limit .empty cs).1 := by
  have hfresh := RateStore.fresh_checksBy RateStore.reads_live hrate RateStore.fresh_empty cs
  refine ⟨fun key t L hL => allowed_in_window hrate hburst cs key t L hL,
    fun c => allowedTimes_burst hrate hburst hfresh c,
    fun c hdenied => allowed_again_iff hrate hburst hfresh c hdenied, ?_⟩
  exact congrArg Prod.fst (RateStore.checksBy_congr RateStore.reads_live RateStore.reads_forever hrate
    RateStore.fresh_empty cs)

/-- Five requests are allowed at once. The sixth has to wait a second. -/
theorem enforces_rate_five :
    (RateStore.check ⟨60, 4⟩
        (RateStore.check ⟨60, 4⟩ (RateStore.checks ⟨60, 4⟩ .empty
          (List.replicate 5 ⟨0, .submit, "alice"⟩)).2 ⟨0, .submit, "alice"⟩).2
        ⟨1, .submit, "alice"⟩).1.allowed = true ∧
      allowedTimes (.submit, "alice") (RateStore.checks ⟨60, 4⟩ .empty
        (List.replicate 5 ⟨0, .submit, "alice"⟩)).1 = List.replicate 5 0 := by
  have hrates := enforces_rate (show 0 < (⟨60, 4⟩ : RateLimit).perMinute by decide)
    (show 0 ≤ (⟨60, 4⟩ : RateLimit).burst by decide)
  constructor
  · have hdenied : (RateStore.check ⟨60, 4⟩ (RateStore.checks ⟨60, 4⟩ .empty
        (List.replicate 5 ⟨0, .submit, "alice"⟩)).2 ⟨0, .submit, "alice"⟩).1 = ⟨false, 1⟩ := by
      decide +kernel
    refine ((hrates _).2.2.1 ⟨0, .submit, "alice"⟩ (congrArg _ hdenied) [] (by simp) 1).mpr ?_
    rw [hdenied]
    exact le_of_eq (zero_add 1)
  · exact (hrates []).2.1 ⟨0, .submit, "alice"⟩ rfl

end Taas
