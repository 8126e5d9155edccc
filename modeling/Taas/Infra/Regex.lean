import Mathlib.Data.List.TakeWhile

/-!
# Regular expressions by backtracking

A pattern gives the ways to match from a place on, in the order in which a backtracking matcher
tries them; the first one is its answer. A repetition is of one class of characters.

* `first_seq` — the first way to match one pattern and then another.
* `first_greedy` and `run_lazy` — what a repetition tries first.
* `split_through` and `split_at` — a text is cut where the pattern matches.
-/

namespace Infra

/-- Patterns over the characters `α` with groups named by `G`. -/
inductive Regex (α G : Type) where
  /-- A character of a class. -/
  | one (p : α → Bool)
  /-- As many of a class as there are, or as few as will do. -/
  | many (fewest : Bool) (p : α → Bool) (least : Nat) (most : Option Nat)
  /-- After a character of a class. -/
  | behind (p : α → Bool)
  /-- At the start. -/
  | start
  /-- At the end, or before the line break that ends the text. -/
  | stop (lineBreak : α → Bool)
  | seq (r s : Regex α G)
  | alt (r s : Regex α G)
  | group (g : G) (r : Regex α G)

namespace Regex

variable {α G : Type}

/-- A way to match. -/
structure Found (α G : Type) where
  taken : List α
  rest : List α
  groups : List (G × List α) := []
deriving DecidableEq

/-- One way to match and another one after it. -/
def Found.append (m m' : Found α G) : Found α G where
  taken := m.taken ++ m'.taken
  rest := m'.rest
  groups := m.groups ++ m'.groups

/-- What a group took, the last time that it did. -/
def Found.group [BEq G] (m : Found α G) (g : G) : List α := (m.groups.reverse.lookup g).getD []

/-- How many characters a repetition takes, as many as it can first. -/
def counts (p : α → Bool) (least : Nat) (most : Option Nat) (after : List α) : List Nat :=
  let longest := (after.takeWhile p).length
  (List.range' least (most.elim longest (min longest) + 1 - least)).reverse

/-- The ways to match from a place on, given what stands before it. -/
def run : Regex α G → List α → List α → List (Found α G)
  | one p, _, after =>
    match after with
    | c :: rest => if p c then [⟨[c], rest, []⟩] else []
    | [] => []
  | many fewest p least most, _, after =>
    (if fewest then (counts p least most after).reverse else counts p least most after).map
      fun n => ⟨after.take n, after.drop n, []⟩
  | behind p, before, after => if before.getLast?.any p then [⟨[], after, []⟩] else []
  | start, before, after => if before.isEmpty then [⟨[], after, []⟩] else []
  | stop lineBreak, _, after =>
    match after with
    | [] => [⟨[], after, []⟩]
    | [c] => if lineBreak c then [⟨[], after, []⟩] else []
    | _ => []
  | seq r s, before, after =>
    (run r before after).flatMap fun m => (run s (before ++ m.taken) m.rest).map m.append
  | alt r s, before, after => run r before after ++ run s before after
  | group g r, before, after =>
    (run r before after).map fun m => { m with groups := m.groups ++ [(g, m.taken)] }

/-- The match from a place on. -/
def first? (r : Regex α G) (before after : List α) : Option (Found α G) :=
  (r.run before after).head?

/-- Cut a text at each match; what is `pending` belongs to the next piece, and the first `skip`
characters to a match. A match of nothing does not cut. -/
def splitFrom (r : Regex α G) (before pending : List α) (skip : Nat) : List α → List (List α)
  | [] => [pending]
  | c :: after =>
    match skip with
    | skip + 1 => splitFrom r (before ++ [c]) pending skip after
    | 0 =>
      match (r.first? before (c :: after)).map fun m => m.taken.length with
      | some (n + 1) => pending :: splitFrom r (before ++ [c]) [] n after
      | _ => splitFrom r (before ++ [c]) (pending ++ [c]) 0 after

/-- The pieces between the matches of a pattern that takes something. -/
def split (r : Regex α G) (text : List α) : List (List α) := r.splitFrom [] [] 0 text

variable {r s : Regex α G} {p : α → Bool} {before after l rest : List α} {m m' : Found α G}

@[simp] theorem run_one_nil : (one p : Regex α G).run before [] = [] := rfl

@[simp] theorem run_one_cons {c : α} : (one p : Regex α G).run before (c :: rest) =
    if p c then [⟨[c], rest, []⟩] else [] := rfl

theorem run_many {fewest : Bool} {least : Nat} {most : Option Nat} :
    (many fewest p least most : Regex α G).run before after =
      (if fewest then (counts p least most after).reverse else counts p least most after).map
        fun n => ⟨after.take n, after.drop n, []⟩ := rfl

theorem run_behind : (behind p : Regex α G).run before after =
    if before.getLast?.any p then [⟨[], after, []⟩] else [] := rfl

@[simp] theorem run_seq : (seq r s).run before after =
    (r.run before after).flatMap fun m => (s.run (before ++ m.taken) m.rest).map m.append := rfl

@[simp] theorem run_alt :
    (alt r s).run before after = r.run before after ++ s.run before after := rfl

@[simp] theorem run_group {g : G} : (group g r).run before after =
    (r.run before after).map fun m => { m with groups := m.groups ++ [(g, m.taken)] } := rfl

theorem first_eq : r.first? before after = (r.run before after).head? := rfl

@[simp] theorem splitFrom_nil {pending : List α} {skip : Nat} :
    r.splitFrom before pending skip [] = [pending] := rfl

@[simp] theorem splitFrom_succ {pending : List α} {skip : Nat} {c : α} :
    r.splitFrom before pending (skip + 1) (c :: rest) =
      r.splitFrom (before ++ [c]) pending skip rest := rfl

theorem splitFrom_of_none {pending : List α} {c : α} (h : r.first? before (c :: rest) = none) :
    r.splitFrom before pending 0 (c :: rest) =
      r.splitFrom (before ++ [c]) (pending ++ [c]) 0 rest := by
  rw [splitFrom, h]
  rfl

theorem splitFrom_of_some {pending l' : List α} {c : α} {groups : List (G × List α)}
    (h : r.first? before (c :: rest) = some ⟨c :: l, l', groups⟩) :
    r.splitFrom before pending 0 (c :: rest) =
      pending :: r.splitFrom (before ++ [c]) [] l.length rest := by
  rw [splitFrom, h]
  rfl

/-! ## One after the other -/

/-- The first way of `r` after which `s` matches, and the first way of `s` there. -/
theorem first_seq {skipped others : List (Found α G)}
    (hr : r.run before after = skipped ++ m :: others)
    (hskipped : ∀ m₀ ∈ skipped, s.run (before ++ m₀.taken) m₀.rest = [])
    (hs : s.first? (before ++ m.taken) m.rest = some m') :
    (seq r s).first? before after = some (m.append m') := by
  have hnone : (skipped.flatMap fun m₀ =>
      (s.run (before ++ m₀.taken) m₀.rest).map m₀.append) = [] := by
    rw [List.flatMap_eq_nil_iff]
    intro m₀ hm₀
    rw [hskipped m₀ hm₀, List.map_nil]
  rw [first_eq, run_seq, hr, List.flatMap_append, hnone, List.nil_append, List.flatMap_cons]
  rw [first_eq] at hs
  rw [List.head?_append, List.head?_map, hs]
  rfl

/-- `s` matches after the first way of `r`. -/
theorem first_seq_of_first (hr : r.first? before after = some m)
    (hs : s.first? (before ++ m.taken) m.rest = some m') :
    (seq r s).first? before after = some (m.append m') := by
  obtain ⟨others, hrun⟩ := List.head?_eq_some_iff.mp hr
  rw [← List.nil_append (m :: others)] at hrun
  exact first_seq hrun (by simp) hs

theorem run_seq_eq_nil (h : ∀ m ∈ r.run before after, s.run (before ++ m.taken) m.rest = []) :
    (seq r s).run before after = [] := by
  rw [run_seq, List.flatMap_eq_nil_iff]
  intro m hm
  rw [h m hm, List.map_nil]

theorem first_group {g : G} (h : r.first? before after = some m) :
    (group g r).first? before after = some { m with groups := m.groups ++ [(g, m.taken)] } := by
  rw [first_eq] at h
  rw [first_eq, run_group, List.head?_map, h]
  rfl

theorem first_alt (h : r.first? before after = some m) :
    (alt r s).first? before after = some m := by
  rw [first_eq] at h
  rw [first_eq, run_alt, List.head?_append, h]
  rfl

theorem first_alt_of_nil (h : r.run before after = []) :
    (alt r s).first? before after = s.first? before after := by
  rw [first_eq, run_alt, h, List.nil_append, first_eq]

theorem first_behind {c : α} (hlast : before.getLast? = some c) (hc : p c = true) :
    (behind p : Regex α G).first? before after = some ⟨[], after, []⟩ := by
  rw [first_eq, run_behind, hlast, Option.any_some, if_pos hc]
  rfl

theorem run_behind_eq_nil (h : ∀ c ∈ before.getLast?, p c = false) :
    (behind p : Regex α G).run before after = [] := by
  have hany : before.getLast?.any p = false := by
    cases hlast : before.getLast? with
    | none => rfl
    | some c => exact h c hlast
  rw [run_behind, hany, if_neg (by simp)]

theorem rest_of_mem_run_behind (h : m ∈ (behind p).run before after) : m.rest = after := by
  rw [run_behind] at h
  split at h
  · rw [List.mem_singleton.mp h]
  · cases h

theorem run_one_eq_nil (h : ∀ c ∈ after.head?, p c = false) :
    (one p : Regex α G).run before after = [] := by
  cases after with
  | nil => rfl
  | cons c rest => rw [run_one_cons, h c rfl, if_neg (by simp)]

theorem first_start : (start : Regex α G).first? [] after = some ⟨[], after, []⟩ := rfl

theorem first_stop : (stop p : Regex α G).first? before [] = some ⟨[], [], []⟩ := rfl

theorem first_one {c : α} (h : p c = true) :
    (one p : Regex α G).first? before (c :: rest) = some ⟨[c], rest, []⟩ := by
  rw [first_eq, run_one_cons, if_pos h]
  rfl

/-! ## Repetitions -/

/-- Every way of a repetition takes characters of its class. -/
theorem mem_run_many {fewest : Bool} {least : Nat} {most : Option Nat}
    (h : m ∈ (many fewest p least most).run before after) :
    m.taken ++ m.rest = after ∧ least ≤ m.taken.length ∧ ∀ c ∈ m.taken, p c = true := by
  rw [run_many, List.mem_map] at h
  obtain ⟨n, hn, rfl⟩ := h
  have hcount : n ∈ counts p least most after := by
    cases fewest with
    | false => exact hn
    | true => exact List.mem_reverse.mp hn
  have hn : least ≤ n ∧ n ≤ (after.takeWhile p).length := by
    rw [counts, List.mem_reverse, List.mem_range'_1] at hcount
    cases most with
    | none => simp only [Option.elim] at hcount; omega
    | some most => simp only [Option.elim] at hcount; omega
  have htake : after.take n = (after.takeWhile p).take n := by
    calc after.take n = (after.takeWhile p ++ after.dropWhile p).take n := by
          rw [List.takeWhile_append_dropWhile]
      _ = (after.takeWhile p).take n := List.take_append_of_le_length hn.2
  refine ⟨List.take_append_drop n after, ?_, ?_⟩
  · rw [htake, List.length_take]
    omega
  · intro c hc
    rw [htake] at hc
    exact List.mem_takeWhile_imp (List.mem_of_mem_take hc)

/-- A repetition needs one character at least. -/
theorem run_many_eq_nil {fewest : Bool} {least : Nat} {most : Option Nat} {c : α}
    (hc : p c = false) (hleast : 0 < least) :
    (many fewest p least most : Regex α G).run before (c :: rest) = [] := by
  rw [List.eq_nil_iff_forall_not_mem]
  intro m hm
  obtain ⟨htaken, hlength, hclass⟩ := mem_run_many hm
  cases hl : m.taken with
  | nil =>
    rw [hl] at hlength
    exact absurd hlength (by simp; omega)
  | cons d taken =>
    rw [hl, List.cons_append] at htaken
    obtain ⟨rfl, -⟩ := List.cons_eq_cons.mp htaken
    rw [hclass d (hl ▸ List.mem_cons_self)] at hc
    cases hc

theorem takeWhile_append_of_head (hl : ∀ c ∈ l, p c = true) (hrest : ∀ c ∈ rest.head?, p c = false) :
    (l ++ rest).takeWhile p = l := by
  rw [List.takeWhile_append_of_pos hl]
  cases rest with
  | nil => simp
  | cons c rest => rw [List.takeWhile_cons_of_neg (by simp [hrest c rfl]), List.append_nil]

/-- As many as there are. -/
theorem first_greedy {least : Nat} {most : Option Nat} (hl : ∀ c ∈ l, p c = true)
    (hrest : ∀ c ∈ rest.head?, p c = false) (hleast : least ≤ l.length)
    (hmost : ∀ n ∈ most, l.length ≤ n) :
    (many false p least most : Regex α G).first? before (l ++ rest) = some ⟨l, rest, []⟩ := by
  have hlongest : most.elim l.length (min l.length) = l.length := by
    cases most with
    | none => rfl
    | some n => exact Nat.min_eq_left (hmost n rfl)
  have hcounts : (counts p least most (l ++ rest)).head? = some l.length := by
    rw [counts, takeWhile_append_of_head hl hrest, List.head?_reverse]
    simp only [hlongest]
    rw [List.getLast?_range', if_neg (by omega)]
    exact congrArg some (by omega)
  rw [first_eq, run_many, if_neg (by simp), List.head?_map, hcounts, Option.map_some,
    List.take_left' rfl, List.drop_left' rfl]

/-- The prefixes first, and then what comes after. -/
theorem run_lazy {least : Nat} (hl : ∀ c ∈ l, p c = true) (hleast : least ≤ l.length) :
    ∃ others, (many true p least none : Regex α G).run before (l ++ rest) =
      ((List.range' least (l.length - least)).map fun n => ⟨l.take n, l.drop n ++ rest, []⟩) ++
        ⟨l, rest, []⟩ :: others := by
  have hlongest : ((l ++ rest).takeWhile p).length = l.length + (rest.takeWhile p).length := by
    rw [List.takeWhile_append_of_pos hl, List.length_append]
  have hcounts : (counts p least none (l ++ rest)).reverse =
      List.range' least (l.length - least) ++
        l.length :: List.range' (l.length + 1) (rest.takeWhile p).length := by
    have htwo : l.length + (rest.takeWhile p).length + 1 - least =
        (l.length - least) + (1 + (rest.takeWhile p).length) := by omega
    have hat : least + (l.length - least) = l.length := by omega
    rw [counts, List.reverse_reverse, hlongest]
    simp only [Option.elim]
    rw [htwo, ← List.range'_append_1, hat, Nat.add_comm 1, List.range'_succ]
  refine ⟨(List.range' (l.length + 1) (rest.takeWhile p).length).map
    fun n => ⟨(l ++ rest).take n, (l ++ rest).drop n, []⟩, ?_⟩
  rw [run_many, if_pos rfl, hcounts, List.map_append, List.map_cons, List.take_left' rfl,
    List.drop_left' rfl]
  refine congrArg (· ++ _) (List.map_congr_left fun n hn => ?_)
  have hn : n ≤ l.length := by
    rw [List.mem_range'_1] at hn
    omega
  rw [List.take_append_of_le_length hn, List.drop_append_of_le_length hn]

/-- As few as will do: what comes after matches there, and at no prefix before. -/
theorem first_lazy {least : Nat} {g : G} (hl : ∀ c ∈ l, p c = true) (hleast : least ≤ l.length)
    (hbefore : ∀ u v, u ++ v = l → v ≠ [] → s.run (before ++ u) (v ++ rest) = [])
    (hs : s.first? (before ++ l) rest = some m) :
    (seq (group g (many true p least none)) s).first? before (l ++ rest) =
      some ⟨l ++ m.taken, m.rest, (g, l) :: m.groups⟩ := by
  obtain ⟨others, hrun⟩ : ∃ others, (many true p least none : Regex α G).run before (l ++ rest) =
      ((List.range' least (l.length - least)).map fun n => ⟨l.take n, l.drop n ++ rest, []⟩) ++
        ⟨l, rest, []⟩ :: others := run_lazy hl hleast
  have hgroup : (group g (many true p least none)).run before (l ++ rest) =
      ((List.range' least (l.length - least)).map
        fun n => ⟨l.take n, l.drop n ++ rest, [(g, l.take n)]⟩) ++
      ⟨l, rest, [(g, l)]⟩ :: others.map fun m => { m with groups := m.groups ++ [(g, m.taken)] } := by
    rw [run_group, hrun, List.map_append, List.map_map, List.map_cons]
    rfl
  refine first_seq hgroup ?_ hs
  intro m₀ hm₀
  rw [List.mem_map] at hm₀
  obtain ⟨n, hn, rfl⟩ := hm₀
  rw [List.mem_range'_1] at hn
  refine hbefore _ _ (List.take_append_drop n l) ?_
  rw [Ne, List.drop_eq_nil_iff]
  omega

/-! ## Cutting -/

/-- Nothing is cut where nothing matches. -/
theorem split_through {pending : List α}
    (h : ∀ u c v, l = u ++ c :: v → r.first? (before ++ u) (c :: v ++ rest) = none) :
    r.splitFrom before pending 0 (l ++ rest) =
      r.splitFrom (before ++ l) (pending ++ l) 0 rest := by
  induction l generalizing before pending with
  | nil => simp
  | cons c l ih =>
    have hc : r.first? before (c :: (l ++ rest)) = none := by
      simpa using h [] c l rfl
    rw [List.cons_append, splitFrom_of_none hc, ih, List.append_assoc, List.append_assoc, List.singleton_append]
    intro u d v hl
    have hd := h (c :: u) d v (by rw [hl, List.cons_append])
    rwa [List.append_cons] at hd

theorem splitFrom_skip {pending : List α} :
    r.splitFrom before pending l.length (l ++ rest) = r.splitFrom (before ++ l) pending 0 rest := by
  induction l generalizing before with
  | nil => simp
  | cons c l ih =>
    rw [List.length_cons, List.cons_append, splitFrom_succ, ih, ← List.append_cons]

/-- A match ends the piece. -/
theorem split_at {pending : List α} {groups : List (G × List α)}
    (h : r.first? before (l ++ rest) = some ⟨l, rest, groups⟩) (hl : l ≠ []) :
    r.splitFrom before pending 0 (l ++ rest) =
      pending :: r.splitFrom (before ++ l) [] 0 rest := by
  obtain ⟨c, l, rfl⟩ := List.exists_cons_of_ne_nil hl
  rw [List.cons_append] at h
  rw [List.cons_append, splitFrom_of_some h, splitFrom_skip, ← List.append_cons]

end Regex

end Infra
