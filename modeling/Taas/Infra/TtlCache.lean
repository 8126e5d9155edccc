import Mathlib.Algebra.Order.Ring.Rat
import Taas.Infra.Pool

/-!
# Caches with a time to live

A process keeps what it read from a shared source for some time. Between its lookup, its query
and its note in the cache others run: they read through the same cache, change the source or drop
what the cache holds.

* `CachePolicy.fetch` — a lookup, and on a miss the query and the note of its answer. The time of
  an entry is that of the lookup (`early`) or that of the note.
* `Pool.Run.moment` — what was logged, some command of the run logged.
* `CachePolicy.Behaves` — the clients around a cache: `fetch`, changes of the source, the clock,
  commands that only drop entries, and reports (`tell`) of what follows from the answers.
* `CachePolicy.Opens.served` — each answer is one that the source gave at a moment of the run,
  and whose entry was then younger than the time to live.
* `CachePolicy.Opens.length_le` — a bounded cache stays within its bound.
-/

namespace Infra

variable {σ κ V δ ε ι α β : Type}

/-! ## The cache -/

/-- A source, a clock, and a dict of values and times in the order in which its keys came. -/
structure Cached (σ κ V : Type) where
  source : σ
  now : ℚ := 0
  entries : List (κ × V × ℚ) := []

inductive CacheNote (κ V δ : Type) where
  /-- The source was asked. -/
  | read (k : κ) (v : V) (time : ℚ)
  /-- What was read at `time` is in the cache, as of `stamp`. -/
  | stored (k : κ) (v : V) (time stamp : ℚ)
  /-- A client was answered. -/
  | served (k : κ) (v : V) (time : ℚ)
  /-- A client came to a result. -/
  | told (x : δ)
deriving DecidableEq

/-- A program around a cache. -/
abbrev CacheProg (σ κ V δ α : Type) := Prog (Cached σ κ V) (CacheNote κ V δ) α

structure CachePolicy (V : Type) where
  ttl : ℚ
  /-- Which values are kept. -/
  keep : V → Bool := fun _ => true
  /-- Whether the time of an entry is that of the lookup, not that of the note. -/
  early : Bool
  /-- At this size, the oldest entry makes room for the next one. -/
  cap : Option Nat := none

namespace CachePolicy

variable (P : CachePolicy V)

section

variable [DecidableEq κ]

/-- The entry of `k`, unless it is too old. -/
def hit (k : κ) (c : Cached σ κ V) : Option V :=
  ((c.entries.lookup k).filter fun e => c.now - e.2 < P.ttl).map Prod.fst

/-- `del d[next(iter(d))]` when the dict is full. -/
def evict (entries : List (κ × V × ℚ)) : List (κ × V × ℚ) :=
  if P.cap.any fun cap => cap ≤ entries.length then entries.tail else entries

/-- `d[k] = v`: a key that is there keeps its place. -/
def set (k : κ) (e : V × ℚ) (entries : List (κ × V × ℚ)) : List (κ × V × ℚ) :=
  if entries.any fun x => x.1 = k then entries.map fun x => if x.1 = k then (k, e) else x
  else entries ++ [(k, e)]

def stamp (start now : ℚ) : ℚ := if P.early then start else now

def note (k : κ) (v : V) (start : ℚ) (c : Cached σ κ V) : Cached σ κ V :=
  { c with entries := set k (v, P.stamp start c.now) (P.evict c.entries) }

/-- The query of a miss, and the note of its answer. -/
def load (ask : σ → V) (k : κ) (start : ℚ) : CacheProg σ κ V δ V := do
  let got ← .callLog (fun c => [.read k (ask c.source) c.now, .served k (ask c.source) c.now])
    (fun c => (ask c.source, c.now)) id
  .when (P.keep got.1) (.callLog (fun c => [.stored k got.1 got.2 (P.stamp start c.now)])
    (fun _ => ()) (P.note k got.1 start))
  pure got.1

/-- The value of `k` from the cache, or from the source by `ask`. -/
def fetch (ask : σ → V) (k : κ) : CacheProg σ κ V δ V := do
  let found ← .callLog (fun c => ((P.hit k c).map fun v => .served k v c.now).toList)
    (fun c => (c.now, P.hit k c)) id
  match found.2 with
  | some v => pure v
  | none => P.load ask k found.1

end

/-- Somebody changes the source. -/
def change (f : σ → σ) : CacheProg σ κ V δ Unit := .act fun c => { c with source := f c.source }

/-- Entries are dropped. -/
def drop (gone : κ → Bool) : CacheProg σ κ V δ Unit :=
  .act fun c => { c with entries := c.entries.filter fun e => !gone e.1 }

/-- The time goes by. -/
def clock : List ℚ → CacheProg σ κ V δ Unit
  | [] => pure ()
  | d :: ds => do
    .act fun c => { c with now := c.now + d }
    clock ds

/-- What the clock shows. -/
def time : CacheProg σ κ V δ ℚ := .query fun c => c.now

def tell (x : δ) : CacheProg σ κ V δ Unit := .callLog (fun _ => [.told x]) (fun _ => ()) id

variable {P}

theorem mem_evict {x : κ × V × ℚ} {entries : List (κ × V × ℚ)} (h : x ∈ P.evict entries) :
    x ∈ entries := by
  unfold evict at h
  split at h
  · exact List.mem_of_mem_tail h
  · exact h

theorem mem_set [DecidableEq κ] {k : κ} {e : V × ℚ} {x : κ × V × ℚ}
    {entries : List (κ × V × ℚ)} (h : x ∈ set k e entries) : x = (k, e) ∨ x ∈ entries := by
  unfold set at h
  split at h
  · obtain ⟨y, hy, rfl⟩ := List.mem_map.mp h
    split
    · exact .inl rfl
    · exact .inr hy
  · exact (List.mem_append.mp h).symm.imp_left List.mem_singleton.mp

theorem hit_eq_some [DecidableEq κ] {k : κ} {c : Cached σ κ V} {v : V} (h : P.hit k c = some v) :
    ∃ s, (k, v, s) ∈ c.entries ∧ c.now - s < P.ttl := by
  obtain ⟨⟨v', s⟩, he, rfl⟩ := Option.map_eq_some_iff.mp h
  obtain ⟨he, hlt⟩ := Option.filter_eq_some_iff.mp he
  obtain ⟨l, l', h, -⟩ := List.lookup_eq_some_iff.mp he
  exact ⟨s, h ▸ by simp, of_decide_eq_true hlt⟩

theorem length_evict {cap : Nat} (hcap : P.cap = some cap) {entries : List (κ × V × ℚ)}
    (h : entries.length ≤ cap) (hpos : 0 < cap) : (P.evict entries).length < cap := by
  unfold evict
  rw [hcap, Option.any_some]
  split
  · rw [List.length_tail]
    omega
  · next hlt => exact lt_of_not_ge (by simpa using hlt)

theorem length_set [DecidableEq κ] (k : κ) (e : V × ℚ) (entries : List (κ × V × ℚ)) :
    (set k e entries).length ≤ entries.length + 1 := by
  unfold set
  split <;> simp

end CachePolicy

/-! ## Moments of a run -/

/-- What was logged on the way, some command logged in some state on the way. -/
theorem Pool.Run.moment [DecidableEq ι] {R : Regime σ ε ι} {p q : Pool σ ε ι}
    {C : (σ → σ) → (σ → List ε) → Prop} (hr : Pool.Run R p q)
    (hp : ∀ i c, p.procs i = some c → c.Each C) {e : ε} (he : e ∈ q.history)
    (hnew : e ∉ p.history) : ∃ r effect log, Pool.Run R p r ∧ Pool.Run R r q ∧ C effect log ∧
      e ∈ log r.shared := by
  induction hr with
  | refl => exact absurd he hnew
  | @tail b d hrun hs ih =>
    have hold : e ∈ b.history → ∃ r effect log, Pool.Run R p r ∧ Pool.Run R r d ∧
        C effect log ∧ e ∈ log r.shared := fun he => by
      obtain ⟨r, effect, log, hpr, hrb, hC, hlog⟩ := ih he
      exact ⟨r, effect, log, hpr, hrb.tail hs, hC, hlog⟩
    cases hs with
    | exec hb hready ha =>
      rcases List.mem_append.mp he with he | he
      · exact hold he
      · exact ⟨b, _, _, hrun, .single (.exec hb hready ha),
          (Pool.Run.proc hrun (hp _) _ hb).1, he⟩
    | crash _ => exact hold he

/-! ## What a cache serves -/

/-- Which results follow from what was logged; what is logged later takes none back. -/
structure Reports (κ V δ : Type) where
  right : δ → List (CacheNote κ V δ) → Prop
  mono : ∀ x es es', es ⊆ es' → right x es → right x es'

namespace CachePolicy

variable (P : CachePolicy V) (J : Reports κ V δ)

/-- Every entry was noted, every note read, every answer is a read or a young note, and every
result follows from the log. -/
structure Honest (c : Cached σ κ V) (es : List (CacheNote κ V δ)) : Prop where
  noted : ∀ k v s, (k, v, s) ∈ c.entries → ∃ t, .stored k v t s ∈ es
  read : ∀ k v t s, .stored k v t s ∈ es →
    .read k v t ∈ es ∧ P.keep v = true ∧ (P.early = true → s ≤ t)
  served : ∀ k v t, .served k v t ∈ es →
    .read k v t ∈ es ∨ ∃ t' s, .stored k v t' s ∈ es ∧ t' ≤ t ∧ t < s + P.ttl
  past : ∀ k v t, .read k v t ∈ es → t ≤ c.now
  told : ∀ x, .told x ∈ es → J.right x es

/-- Notes are kept, and time does not go back. -/
def contract (σ ι : Type) : Contract (Cached σ κ V) (CacheNote κ V δ) ι where
  inv := P.Honest J
  guar _ c es c' es' := es ⊆ es' ∧ c.now ≤ c'.now

/-- A command that reads the source truthfully: `tells` holds of what was read. -/
def Truthful (tells : σ → κ → V → Prop) (_ : Cached σ κ V → Cached σ κ V)
    (log : Cached σ κ V → List (CacheNote κ V δ)) : Prop :=
  ∀ c k v t, .read k v t ∈ log c → tells c.source k v ∧ t = c.now

/-- A command that leaves a bounded cache within its bound. -/
def Fits (effect : Cached σ κ V → Cached σ κ V) : Prop := ∀ cap, P.cap = some cap → 0 < cap →
  ∀ c, c.entries.length ≤ cap → (effect c).entries.length ≤ cap

variable {P J} {c c' : Cached σ κ V} {es : List (CacheNote κ V δ)} {k : κ} {v : V} {t : ℚ}

theorem Honest.mono (h : P.Honest J c es) (hentries : c'.entries ⊆ c.entries)
    (hnow : c.now ≤ c'.now) : P.Honest J c' es :=
  ⟨fun k v s he => h.noted k v s (hentries he), h.read, h.served,
    fun k v t ht => (h.past k v t ht).trans hnow, h.told⟩

theorem Honest.served_append (h : P.Honest J c es) (fs : List (CacheNote κ V δ))
    (he : .served k v t ∈ es) : .read k v t ∈ es ++ fs ∨
      ∃ t' s, .stored k v t' s ∈ es ++ fs ∧ t' ≤ t ∧ t < s + P.ttl := by
  refine (h.served k v t he).imp (List.mem_append_left _) ?_
  rintro ⟨t', s, hst, hlt⟩
  exact ⟨t', s, List.mem_append_left _ hst, hlt⟩

theorem Honest.told_append (h : P.Honest J c es) (fs : List (CacheNote κ V δ)) {x : δ}
    (he : .told x ∈ es) : J.right x (es ++ fs) :=
  J.mono x es _ (List.subset_append_left ..) (h.told x he)

/-- An answer from a young note. -/
theorem Honest.serve (h : P.Honest J c es) {s : ℚ} (hs : .stored k v t s ∈ es)
    (hlt : c.now < s + P.ttl) : P.Honest J c (es ++ [.served k v c.now]) := by
  refine ⟨fun k v s he => ?_, fun k v t s he => ?_, fun k' v' t' he => ?_, fun k v t he => ?_,
    fun x he => h.told_append _ (by simpa using he)⟩
  · exact (h.noted k v s he).imp fun t ht => List.mem_append_left _ ht
  · have he : CacheNote.stored k v t s ∈ es := by simpa using he
    exact (h.read k v t s he).imp_left (List.mem_append_left _)
  · rcases List.mem_append.mp he with he | he
    · exact h.served_append _ he
    · obtain ⟨rfl, rfl, rfl⟩ : k' = k ∧ v' = v ∧ t' = c.now := by simpa using he
      exact .inr ⟨t, s, List.mem_append_left _ hs, h.past _ _ _ (h.read _ _ _ _ hs).1, hlt⟩
  · exact h.past k v t (by simpa using he)

/-- An answer of the source. -/
theorem Honest.ask (h : P.Honest J c es) (k : κ) (v : V) :
    P.Honest J c (es ++ [.read k v c.now, .served k v c.now]) := by
  refine ⟨fun k v s he => ?_, fun k v t s he => ?_, fun k' v' t' he => ?_, fun k' v' t' he => ?_,
    fun x he => h.told_append _ (by simpa using he)⟩
  · exact (h.noted k v s he).imp fun t ht => List.mem_append_left _ ht
  · have he : CacheNote.stored k v t s ∈ es := by simpa using he
    exact (h.read k v t s he).imp_left (List.mem_append_left _)
  · rcases List.mem_append.mp he with he | he
    · exact h.served_append _ he
    · obtain ⟨rfl, rfl, rfl⟩ : k' = k ∧ v' = v ∧ t' = c.now := by simpa using he
      exact .inl (by simp)
  · rcases List.mem_append.mp he with he | he
    · exact h.past k' v' t' he
    · obtain ⟨-, -, rfl⟩ : k' = k ∧ v' = v ∧ t' = c.now := by simpa using he
      exact le_rfl

/-- The note of what was read. -/
theorem Honest.note [DecidableEq κ] (h : P.Honest J c es) {start : ℚ} (hread : .read k v t ∈ es)
    (hkeep : P.keep v = true) (hstart : start ≤ t) :
    P.Honest J (P.note k v start c) (es ++ [.stored k v t (P.stamp start c.now)]) := by
  refine ⟨fun k' v' s' he => ?_, fun k' v' t' s' he => ?_, fun k' v' t' he => ?_,
    fun k' v' t' he => h.past k' v' t' (by simpa using he),
    fun x he => h.told_append _ (by simpa using he)⟩
  · rcases mem_set he with he | he
    · obtain ⟨rfl, rfl, rfl⟩ : k' = k ∧ v' = v ∧ s' = P.stamp start c.now := by simpa using he
      exact ⟨t, by simp⟩
    · exact (h.noted k' v' s' (mem_evict he)).imp fun t ht => List.mem_append_left _ ht
  · rcases List.mem_append.mp he with he | he
    · exact (h.read k' v' t' s' he).imp_left (List.mem_append_left _)
    · obtain ⟨rfl, rfl, rfl, rfl⟩ :
        k' = k ∧ v' = v ∧ t' = t ∧ s' = P.stamp start c.now := by simpa using he
      refine ⟨List.mem_append_left _ hread, hkeep, fun hearly => ?_⟩
      rw [stamp, if_pos hearly]
      exact hstart
  · exact h.served_append _ (by simpa using he)

/-- A result that follows from the log. -/
theorem Honest.tell (h : P.Honest J c es) {x : δ} (hx : J.right x es) :
    P.Honest J c (es ++ [.told x]) := by
  refine ⟨fun k v s he => ?_, fun k v t s he => ?_,
    fun k v t he => h.served_append _ (by simpa using he),
    fun k v t he => h.past k v t (by simpa using he), fun y he => ?_⟩
  · exact (h.noted k v s he).imp fun t ht => List.mem_append_left _ ht
  · have he : CacheNote.stored k v t s ∈ es := by simpa using he
    exact (h.read k v t s he).imp_left (List.mem_append_left _)
  · rcases List.mem_append.mp he with he | he
    · exact h.told_append _ he
    · obtain rfl : y = x := by simpa using he
      exact J.mono y es _ (List.subset_append_left ..) hx

/-! ## The clients around a cache -/

/-- An assertion about the clock and the log that nothing to come makes false. -/
def Lasting (A : ℚ → List (CacheNote κ V δ) → Prop) : Prop :=
  ∀ now now' es es', now ≤ now' → es ⊆ es' → A now es → A now' es'

section

variable (P J) (tells : σ → κ → V → Prop)

/-- A client that keeps the cache honest among any others, reads truthfully, and keeps the cache
within its bound. It starts where `A` holds of the clock and the log, and ends where `Q` does. -/
structure Behaves (A : ℚ → List (CacheNote κ V δ) → Prop) (p : CacheProg σ κ V δ α)
    (Q : α → ℚ → List (CacheNote κ V δ) → Prop) : Prop where
  honest : ∀ (ι : Type) (i : ι),
    (P.contract J σ ι).Triple .free i p (fun c => A c.now) fun a c => Q a c.now
  truthful : p.Each (Truthful tells)
  fits : p.Each fun effect _ => P.Fits effect

end

variable {tells : σ → κ → V → Prop} {A : ℚ → List (CacheNote κ V δ) → Prop}

theorem Lasting.stable (hA : Lasting A) {ι : Type} (i : ι) :
    (P.contract J σ ι).Stable i fun c => A c.now :=
  fun _ _ _ _ _ _ _ _ hg h => hA _ _ _ _ hg.2 hg.1 h

theorem lasting_true : Lasting fun (_ : ℚ) (_ : List (CacheNote κ V δ)) => True :=
  fun _ _ _ _ _ _ h => h

theorem Lasting.append (hA : Lasting A) {now : ℚ} (h : A now es) (fs : List (CacheNote κ V δ)) :
    A now (es ++ fs) := hA _ _ _ _ le_rfl (List.subset_append_left ..) h

theorem Behaves.bind {p : CacheProg σ κ V δ α} {f : α → CacheProg σ κ V δ β}
    {B : α → ℚ → List (CacheNote κ V δ) → Prop} {Q : β → ℚ → List (CacheNote κ V δ) → Prop}
    (hp : P.Behaves J tells A p B) (hf : ∀ a, P.Behaves J tells (B a) (f a) Q) :
    P.Behaves J tells A (p >>= f) Q :=
  ⟨fun ι i => (hp.honest ι i).bind fun a => (hf a).honest ι i,
    hp.truthful.bind fun a => (hf a).truthful, hp.fits.bind fun a => (hf a).fits⟩

theorem behaves_pure {a : α} {Q : α → ℚ → List (CacheNote κ V δ) → Prop}
    (h : ∀ now es, A now es → Q a now es) :
    P.Behaves J tells A (pure a : CacheProg σ κ V δ α) Q :=
  ⟨fun _ _ c es _ hA => h c.now es hA, trivial, trivial⟩

theorem Behaves.imp {p : CacheProg σ κ V δ α} {Q Q' : α → ℚ → List (CacheNote κ V δ) → Prop}
    (h : P.Behaves J tells A p Q) (hQ : ∀ a now es, Q a now es → Q' a now es) :
    P.Behaves J tells A p Q' :=
  ⟨fun ι i => (h.honest ι i).imp (fun _ _ _ h => h) fun a c es => hQ a c.now es, h.truthful, h.fits⟩

/-- A command that logs nothing, drops entries at most and lets time pass at most. -/
theorem behaves_act (hA : Lasting A) {effect : Cached σ κ V → Cached σ κ V}
    (hentries : ∀ c, (effect c).entries.Sublist c.entries) (hnow : ∀ c, c.now ≤ (effect c).now) :
    P.Behaves J tells A (.act effect) fun _ => A := by
  refine ⟨fun ι i => Contract.triple_call (fun c es hc h => ?_) fun _ => hA.stable i,
    Prog.each_call fun c k v t h => by simp at h,
    Prog.each_call fun _ _ _ c h => (hentries c).length_le.trans h⟩
  exact ⟨hc.mono (hentries c).subset (hnow c), ⟨List.Subset.refl es, hnow c⟩,
    hA _ _ _ _ (hnow c) (List.Subset.refl es) h⟩

theorem behaves_change (f : σ → σ) :
    P.Behaves J tells (fun _ _ => True) (change f) fun _ _ _ => True :=
  behaves_act lasting_true (fun _ => .refl _) fun _ => le_rfl

theorem behaves_drop (gone : κ → Bool) :
    P.Behaves J tells (fun _ _ => True) (drop gone : CacheProg σ κ V δ Unit) fun _ _ _ => True :=
  behaves_act lasting_true (fun _ => List.filter_sublist) fun _ => le_rfl

theorem behaves_clock {ds : List ℚ} (hds : ∀ d ∈ ds, 0 ≤ d) :
    P.Behaves J tells (fun _ _ => True) (clock ds : CacheProg σ κ V δ Unit) fun _ _ _ => True := by
  induction ds with
  | nil => exact behaves_pure fun _ _ h => h
  | cons d ds ih =>
    have hpass : P.Behaves J tells (fun _ _ => True)
        (.act fun c : Cached σ κ V => { c with now := c.now + d }) fun _ _ _ => True :=
      behaves_act lasting_true (fun _ => .refl _) fun _ =>
        le_add_of_nonneg_right (hds d (List.mem_cons_self ..))
    exact hpass.bind fun _ => ih fun d' hd' => hds d' (List.mem_cons_of_mem _ hd')

/-- The clock will not show less again. -/
theorem behaves_time (hA : Lasting A) : P.Behaves J tells A (time : CacheProg σ κ V δ ℚ)
    fun start now es => A now es ∧ start ≤ now := by
  refine ⟨fun ι i => Contract.triple_call (fun c es hc h => ?_) fun start => ?_,
    Prog.each_call fun c k v t h => by simp at h, Prog.each_call fun _ _ _ _ h => h⟩
  · exact ⟨hc, ⟨List.Subset.refl es, le_rfl⟩, h, le_rfl⟩
  · exact fun _ _ _ _ _ _ _ _ hg h => ⟨hA _ _ _ _ hg.2 hg.1 h.1, h.2.trans hg.2⟩

theorem behaves_tell (hA : Lasting A) {x : δ} (hx : ∀ now es, A now es → J.right x es) :
    P.Behaves J tells A (tell x) fun _ => A := by
  refine ⟨fun ι i => Contract.triple_callLog (fun c es hc h _ => ?_) fun _ => hA.stable i,
    Prog.each_callLog fun c k v t h => by simp at h, Prog.each_callLog fun _ _ _ _ h => h⟩
  exact ⟨hc.tell (hx _ es h), ⟨List.subset_append_left .., le_rfl⟩, hA.append h _⟩

/-- `v` was served at `begin` or later. -/
def ServedSince (k : κ) (v : V) (begin : ℚ) (es : List (CacheNote κ V δ)) : Prop :=
  ∃ t, begin ≤ t ∧ .served k v t ∈ es

theorem ServedSince.mono {begin : ℚ} {es' : List (CacheNote κ V δ)} (hsub : es ⊆ es')
    (h : ServedSince k v begin es) : ServedSince k v begin es' :=
  h.imp fun _ ht => ⟨ht.1, hsub ht.2⟩

theorem ServedSince.append {begin : ℚ} (h : ServedSince k v begin es)
    (fs : List (CacheNote κ V δ)) : ServedSince k v begin (es ++ fs) :=
  h.mono (List.subset_append_left ..)

variable [DecidableEq κ]

theorem triple_load {ι : Type} (i : ι) (hA : Lasting A) {begin : ℚ}
    (hbegin : ∀ now es, A now es → begin ≤ now) (ask : σ → V) (k : κ) (start : ℚ) :
    (P.contract J σ ι).Triple .free i (P.load ask k start)
      (fun c es => A c.now es ∧ start ≤ c.now)
      fun v c es => A c.now es ∧ ServedSince k v begin es := by
  refine Contract.Triple.bind (P := fun got c es => (A c.now es ∧ ServedSince k got.1 begin es) ∧
      .read k got.1 got.2 ∈ es ∧ start ≤ got.2)
    (Contract.triple_callLog (fun c es hc h _ => ?_) fun got => ?_) fun got => ?_
  · refine ⟨hc.ask k (ask c.source), ⟨List.subset_append_left .., le_rfl⟩,
      ⟨hA.append h.1 _, c.now, hbegin _ _ h.1, ?_⟩, ?_, h.2⟩ <;> simp
  · exact fun _ _ _ _ _ _ _ _ hg h =>
      ⟨⟨hA _ _ _ _ hg.2 hg.1 h.1.1, h.1.2.mono hg.1⟩, hg.1 h.2.1, h.2.2⟩
  · refine Contract.Triple.bind (P := fun _ c es => A c.now es ∧ ServedSince k got.1 begin es) ?_
      fun _ => Contract.triple_pure fun _ _ _ h => h
    unfold Prog.when
    refine Contract.Triple.ite (fun hkeep => ?_) fun _ =>
      Contract.triple_pure fun _ _ _ h => h.1
    refine Contract.triple_callLog (fun c es hc h _ => ?_) fun _ => ?_
    · exact ⟨hc.note h.2.1 hkeep h.2.2, ⟨List.subset_append_left .., le_rfl⟩,
        hA.append h.1.1 _, h.1.2.append _⟩
    · exact fun _ _ _ _ _ _ _ _ hg h => ⟨hA _ _ _ _ hg.2 hg.1 h.1, h.2.mono hg.1⟩

/-- The three commands of `fetch`. -/
theorem each_fetch {C : (Cached σ κ V → Cached σ κ V) → (Cached σ κ V → List (CacheNote κ V δ)) → Prop}
    {ask : σ → V} {k : κ} (hhit : C id fun c => ((P.hit k c).map fun v => .served k v c.now).toList)
    (hask : C id fun c => [.read k (ask c.source) c.now, .served k (ask c.source) c.now])
    (hnote : ∀ v t start, C (P.note k v start) fun c => [.stored k v t (P.stamp start c.now)]) :
    (P.fetch ask k : CacheProg σ κ V δ V).Each C := by
  refine Prog.Each.bind (Prog.each_callLog hhit) fun found => ?_
  split
  · exact Prog.each_pure _
  · exact Prog.Each.bind (Prog.each_callLog hask) fun got =>
      Prog.Each.bind (Prog.Each.when (Prog.each_callLog (hnote got.1 got.2 found.1))) fun _ =>
        Prog.each_pure _

theorem fits_note (k : κ) (v : V) (start : ℚ) :
    P.Fits (P.note k v start : Cached σ κ V → Cached σ κ V) := by
  intro cap hcap hpos c hc
  exact (length_set ..).trans (length_evict hcap hc hpos)

/-- A command that leaves the source as it is. -/
def Reads (effect : Cached σ κ V → Cached σ κ V) (_ : Cached σ κ V → List (CacheNote κ V δ)) :
    Prop := ∀ c, (effect c).source = c.source

theorem reads_fetch {ask : σ → V} {k : κ} :
    (P.fetch ask k : CacheProg σ κ V δ V).Each Reads :=
  each_fetch (fun _ => rfl) (fun _ => rfl) fun _ _ _ _ => rfl

/-- What `fetch` answers was served meanwhile. -/
theorem behaves_fetch (hA : Lasting A) {begin : ℚ} (hbegin : ∀ now es, A now es → begin ≤ now)
    {ask : σ → V} {k : κ} (htells : ∀ s, tells s k (ask s)) :
    P.Behaves J tells A (P.fetch ask k) fun v now es => A now es ∧ ServedSince k v begin es := by
  constructor
  · intro ι i
    refine Contract.Triple.bind (P := fun found c es => A c.now es ∧
        (∀ v, found.2 = some v → ServedSince k v begin es) ∧ found.1 ≤ c.now)
      (Contract.triple_callLog (fun c es hc h _ => ?_) fun found => ?_) fun found => ?_
    · cases hhit : P.hit k c with
      | none =>
        simp only [Option.map_none, Option.toList_none, List.append_nil]
        exact ⟨hc, ⟨List.Subset.refl es, le_rfl⟩, h, by simp, le_rfl⟩
      | some v =>
        obtain ⟨s, he, hlt⟩ := hit_eq_some hhit
        obtain ⟨t, ht⟩ := hc.noted k v s he
        refine ⟨hc.serve ht (sub_lt_iff_lt_add'.mp hlt), ⟨List.subset_append_left .., le_rfl⟩,
          hA.append h _, fun v' hv' => ⟨c.now, hbegin _ _ h, ?_⟩, le_rfl⟩
        obtain rfl := Option.some.inj hv'
        simp
    · exact fun _ _ _ _ _ _ _ _ hg h => ⟨hA _ _ _ _ hg.2 hg.1 h.1,
        fun v hv => (h.2.1 v hv).mono hg.1, h.2.2.trans hg.2⟩
    · split
      · next v hv => exact Contract.triple_pure fun _ _ _ h => ⟨h.1, h.2.1 v hv⟩
      · exact (triple_load i hA hbegin ask k found.1).imp (fun _ _ _ h => ⟨h.1, h.2.2⟩)
          fun _ _ _ h => h
  · refine each_fetch (fun c k v t h => by simp at h) (fun c k' v t h => ?_)
      fun v t start c k' v' t' h => by simp at h
    obtain ⟨rfl, rfl, rfl⟩ : k' = k ∧ v = ask c.source ∧ t = c.now := by simpa using h
    exact ⟨htells c.source, rfl⟩
  · exact each_fetch (fun _ _ _ _ h => h) (fun _ _ _ _ h => h) fun v _ start => fits_note k v start

/-! ## Every interleaving -/

section

variable (P J tells)

/-- A pool of such clients, at the start of the process. -/
structure Opens [DecidableEq ι] (p : Pool (Cached σ κ V) (CacheNote κ V δ) ι) : Prop where
  behaves : ∀ i c, p.procs i = some c → P.Behaves J tells (fun _ _ => True) c fun _ _ _ => True
  entries : p.shared.entries = []
  history : p.history = []

end

variable [DecidableEq ι] {p q : Pool (Cached σ κ V) (CacheNote κ V δ) ι}

omit [DecidableEq κ] in
theorem Opens.honest (h : P.Opens J tells p) (hr : Pool.Run .free p q) :
    P.Honest J q.shared q.history := by
  have hstart : P.Honest J p.shared p.history := by
    constructor <;> simp [h.entries, h.history]
  have hsound : Pool.Sound .free (P.contract J σ ι) (fun _ _ _ => True) p :=
    ⟨hstart, fun i c hc =>
      ⟨fun _ _ => True, trivial, Contract.stable_true, (h.behaves i c hc).honest ι i⟩⟩
  have hclean : Pool.CleanOk .free (P.contract J σ ι) := fun _ _ _ hinv =>
    ⟨hinv, List.Subset.refl _, le_rfl⟩
  exact (hsound.run hclean hr).inv

omit [DecidableEq κ] in
/-- **Each answer is one that the source gave at a moment of the run**: right then, or so that the
note of it was younger than the time to live. -/
theorem Opens.served (h : P.Opens J tells p) (hr : Pool.Run .free p q) {k : κ} {v : V} {t : ℚ}
    (hs : .served k v t ∈ q.history) :
    ∃ r, Pool.Run .free p r ∧ Pool.Run .free r q ∧ tells r.shared.source k v ∧
      (r.shared.now = t ∨ r.shared.now ≤ t ∧ ∃ s, .stored k v r.shared.now s ∈ q.history ∧
        t < s + P.ttl ∧ P.keep v = true ∧ (P.early = true → s ≤ r.shared.now)) := by
  have hq := h.honest hr
  have hmoment : ∀ t', .read k v t' ∈ q.history → ∃ r, Pool.Run .free p r ∧ Pool.Run .free r q ∧
      tells r.shared.source k v ∧ r.shared.now = t' := by
    intro t' hread
    obtain ⟨r, effect, log, hpr, hrq, htrue, hlog⟩ :=
      hr.moment (fun i c hc => (h.behaves i c hc).truthful) hread (by simp [h.history])
    obtain ⟨htells, rfl⟩ := htrue _ _ _ _ hlog
    exact ⟨r, hpr, hrq, htells, rfl⟩
  rcases hq.served k v t hs with hread | ⟨t', s, hst, hle, hlt⟩
  · obtain ⟨r, hpr, hrq, htells, hnow⟩ := hmoment t hread
    exact ⟨r, hpr, hrq, htells, .inl hnow⟩
  · obtain ⟨hread, hkeep, hearly⟩ := hq.read k v t' s hst
    obtain ⟨r, hpr, hrq, htells, rfl⟩ := hmoment t' hread
    exact ⟨r, hpr, hrq, htells, .inr ⟨hle, s, hst, hlt, hkeep, hearly⟩⟩

omit [DecidableEq κ] in
/-- Where an entry has the time of its lookup, no answer is older than the time to live. -/
theorem Opens.served_early (h : P.Opens J tells p) (hr : Pool.Run .free p q)
    (hearly : P.early = true) (httl : 0 < P.ttl) {k : κ} {v : V} {t : ℚ}
    (hs : .served k v t ∈ q.history) :
    ∃ r, Pool.Run .free p r ∧ Pool.Run .free r q ∧ tells r.shared.source k v ∧
      r.shared.now ≤ t ∧ t < r.shared.now + P.ttl := by
  obtain ⟨r, hpr, hrq, htells, rfl | ⟨hle, s, -, hlt, -, hs⟩⟩ := h.served hr hs
  · exact ⟨r, hpr, hrq, htells, le_rfl, lt_add_of_pos_right _ httl⟩
  · exact ⟨r, hpr, hrq, htells, hle, hlt.trans_le (add_le_add_left (hs hearly) _)⟩

omit [DecidableEq κ] in
/-- Every result follows from what was logged. -/
theorem Opens.told (h : P.Opens J tells p) (hr : Pool.Run .free p q) {x : δ}
    (hx : .told x ∈ q.history) : J.right x q.history := (h.honest hr).told x hx

omit [DecidableEq κ] in
/-- **A bounded cache stays within its bound.** -/
theorem Opens.length_le (h : P.Opens J tells p) (hr : Pool.Run .free p q) {cap : Nat}
    (hcap : P.cap = some cap) (hpos : 0 < cap) : q.shared.entries.length ≤ cap :=
  hr.each (I := fun c _ => c.entries.length ≤ cap)
    (fun _ _ c _ hfits _ h => hfits cap hcap hpos c h) (fun _ _ _ h => h)
    (fun i c hc => (h.behaves i c hc).fits) (by simp [h.entries])

end CachePolicy

end Infra
