import Mathlib.Algebra.Order.Floor.Ring
import Mathlib.Data.Rat.Floor
import Taas.Vocabulary

/-!
# The rate limiter

`app/services/rate_limit.py`: a GCRA limiter whose only state is one key per limit class and
user, with an expiry. The clock is Redis' own.

* `gcraLua` — the script.
* `RateStore.check` — one check.
* `RateStore.checks` — one check after another.
-/

namespace Taas

/-- A GCRA limit: `perMinute` sustained, `burst` extra at once. -/
structure RateLimit where
  perMinute : Int
  burst : Int
deriving DecidableEq

structure RateLimitResult where
  allowed : Bool
  retryAfter : ℚ
deriving DecidableEq

/-- The value of a key, and when the key is dropped. -/
structure RateTat where
  tat : ℚ
  expiresAt : ℚ

/-- `rl:<class>:<username>` -/
abbrev RateKey := LimitClass × String

/-- The keys of the limiter. One past its expiry is gone (`RateTat.live`). -/
abbrev RateStore := RateKey → Option RateTat

/-- `GET` at `now` -/
def RateTat.live (now : ℚ) (entry : Option RateTat) : Option ℚ :=
  (entry.filter fun e => now < e.expiresAt).map RateTat.tat

/-- `if tat == nil or tat < now then tat = now end` -/
def startTat (now : ℚ) : Option ℚ → ℚ
  | none => now
  | some tat => if tat < now then now else tat

/-- `GCRA_LUA`: the answer, and what it sets the key to. -/
def gcraLua (T tau now : ℚ) (tat : Option ℚ) : RateLimitResult × Option RateTat :=
  let tat := startTat now tat
  if tau < tat - now then (⟨false, tat - tau - now⟩, none)
  else (⟨true, 0⟩, some ⟨tat + T, now + (⌈tau + T⌉ + 1)⟩)

def RateLimit.emissionInterval (limit : RateLimit) : ℚ := 60 / limit.perMinute

def RateLimit.tau (limit : RateLimit) : ℚ := limit.emissionInterval * max limit.burst 0

/-- A check that comes at the time `now`. -/
structure RateCheck where
  now : ℚ
  limitClass : LimitClass
  username : String

def RateCheck.key (c : RateCheck) : RateKey := (c.limitClass, c.username)

namespace RateStore

/-- GCRA check: allows burst+1 instant requests, then one per 60/per_minute s. How the key is
read is `get`. -/
def checkBy (get : ℚ → Option RateTat → Option ℚ) (limit : RateLimit) (s : RateStore)
    (c : RateCheck) : RateLimitResult × RateStore :=
  if limit.perMinute ≤ 0 then (⟨false, 60⟩, s)
  else
    let (result, set) := gcraLua limit.emissionInterval limit.tau c.now (get c.now (s c.key))
    match set with
    | none => (result, s)
    | some entry => (result, Function.update s c.key (some entry))

/-- One check after another. -/
def checksBy (get : ℚ → Option RateTat → Option ℚ) (limit : RateLimit) :
    RateStore → List RateCheck → List (RateCheck × RateLimitResult) × RateStore
  | s, [] => ([], s)
  | s, c :: cs =>
    let (result, s') := checkBy get limit s c
    let (results, s'') := checksBy get limit s' cs
    ((c, result) :: results, s'')

def check : RateLimit → RateStore → RateCheck → RateLimitResult × RateStore := checkBy RateTat.live

def checks : RateLimit → RateStore → List RateCheck →
    List (RateCheck × RateLimitResult) × RateStore := checksBy RateTat.live

end RateStore

end Taas
