import Taas.Deploy.Expression
import Taas.Properties.Weekly

/-!
# The round trip of the schedule expression

A text that renders windows is parsed to these windows. A piece between two cuts is one entry and
blanks (`split_renders`), and an entry is taken apart where its parts were joined
(`addEntry_entry`).

* `parseSchedule_renders` — the round trip.
-/

namespace Taas.Box

open Infra

/-! ## What renders windows -/

/-- The three-letter names from Monday on. -/
def dayNames : List String := ["mon", "tue", "wed", "thu", "fri", "sat", "sun"]

/-- The name of a day, in any case. -/
def Names (name : List Char) (day : Int) : Prop :=
  ∃ i : Nat, day = i ∧ dayNames[i]? = some (String.ofList (name.map Char.toLower))

/-- The days from `a` on to `b`, past Sunday where `b` comes before `a`. -/
def cyclic (a b : Int) : Finset Int :=
  allDays.filter fun d => if a ≤ b then a ≤ d ∧ d ≤ b else a ≤ d ∨ d ≤ b

/-- A part of a day list. -/
inductive RendersPart : List Char → Finset Int → Prop
  | day {name : List Char} {d : Int} : Names name d → RendersPart name {d}
  | range {first last : List Char} {a b : Int} :
      Names first a → Names last b → RendersPart (first ++ '-' :: last) (cyclic a b)

/-- A day list. -/
inductive RendersDays : List Char → Finset Int → Prop
  | last {part : List Char} {days : Finset Int} : RendersPart part days → RendersDays part days
  | more {part parts : List Char} {days others : Finset Int} :
      RendersPart part days → RendersDays parts others →
        RendersDays (part ++ ',' :: parts) (days ∪ others)

def spaces (n : Nat) : List Char := List.replicate n ' '

def twoDigits (n : Nat) : List Char := [Nat.digitChar (n / 10), Nat.digitChar (n % 10)]

/-- `HH:MM` -/
def clock (minutes : Int) : List Char :=
  twoDigits (minutes.toNat / 60) ++ ':' :: twoDigits (minutes.toNat % 60)

/-- `HH:MM-HH:MM` -/
def clocks (window : Window) : List Char := clock window.start ++ '-' :: clock window.stop

/-- An entry. -/
inductive RendersEntry (window : Window) : List Char → Prop
  | entry {days : List Char} (gap : Nat) :
      RendersDays days window.days → RendersEntry window (days ++ spaces (gap + 1) ++ clocks window)

/-- Entries, joined. -/
inductive Renders : List Window → List Char → Prop
  | last {window : Window} {entry : List Char} :
      RendersEntry window entry → Renders [window] entry
  | more {window : Window} {entry : List Char} {windows : List Window} {text : List Char}
      {sep : Char} (left right : Nat) :
      RendersEntry window entry → sep = ';' ∨ sep = ',' → Renders windows text →
        Renders (window :: windows) (entry ++ spaces left ++ sep :: (spaces right ++ text))

/-! ## Characters -/

theorem mem_spaces {n : Nat} {c : Char} (h : c ∈ spaces n) : c = ' ' := List.eq_of_mem_replicate h

theorem isSpace_spaces (n : Nat) : ∀ c ∈ spaces n, isSpace c = true := by
  intro c hc
  obtain rfl := mem_spaces hc
  rfl

/-! ## Day names -/

theorem dayNumbers_eq :
    dayNumbers = dayNames.zipIdx.map fun entry => (entry.1, (entry.2 : Int)) := rfl

theorem dayNumbers_letters :
    ∀ entry ∈ dayNumbers, entry.1.toList.length = 3 ∧ ∀ c ∈ entry.1.toList, c.isAlpha = true := by
  simp [dayNumbers]

theorem dayNumbers_lookup :
    ∀ entry ∈ dayNumbers, dayNumbers.lookup entry.1 = some entry.2 ∧ entry.1 ∉ dailyWords ∧
      0 ≤ entry.2 ∧ entry.2 ≤ 6 := by
  decide

namespace Names

variable {name : List Char} {d : Int}

theorem mem_dayNumbers (h : Names name d) :
    (String.ofList (name.map Char.toLower), d) ∈ dayNumbers := by
  obtain ⟨i, rfl, hi⟩ := h
  rw [dayNumbers_eq]
  exact List.mem_map.mpr ⟨(_, i), List.mem_zipIdx_iff_getElem?.mpr hi, rfl⟩

theorem bounds (h : Names name d) : 0 ≤ d ∧ d ≤ 6 :=
  (dayNumbers_lookup _ h.mem_dayNumbers).2.2

theorem isAlpha (h : Names name d) : ∀ c ∈ name, c.isAlpha = true := by
  intro c hc
  have hletters := (dayNumbers_letters _ h.mem_dayNumbers).2
  rw [String.toList_ofList] at hletters
  exact isAlpha_of_toLower (hletters _ (List.mem_map_of_mem hc))

theorem length (h : Names name d) : name.length = 3 := by
  have hlength := (dayNumbers_letters _ h.mem_dayNumbers).1
  rwa [String.toList_ofList, List.length_map] at hlength

theorem notMem (h : Names name d) {c : Char} (hc : c.isAlpha = false) : c ∉ name := by
  intro hmem
  rw [h.isAlpha c hmem] at hc
  cases hc

theorem lower (h : Names name d) (cases : CaseTable) :
    cases.lower (String.ofList name) = String.ofList (name.map Char.toLower) := by
  refine cases.lower_ascii fun c hc => ?_
  have hletter := isAlpha_iff.mp (h.isAlpha c hc)
  omega

theorem dayNumber (h : Names name d) (cases : CaseTable) :
    dayNumber cases (String.ofList name) = some d := by
  have htake : (name.map Char.toLower).take 3 = name.map Char.toLower :=
    List.take_of_length_le (by rw [List.length_map, h.length])
  rw [Box.dayNumber, h.lower, String.toList_ofList, htake]
  exact (dayNumbers_lookup _ h.mem_dayNumbers).1

end Names

/-! ## Day lists -/

/-- A word is none of these when it has a character that they don't have. -/
theorem lower_notMem {cases : CaseTable} {text : List Char} {words : List String} {c : Char}
    (hascii : ∀ c ∈ text, c.toNat < 128) (hc : c ∈ text) (hlower : c.toLower = c)
    (hwords : ∀ word ∈ words, c ∉ word.toList) : cases.lower (String.ofList text) ∉ words := by
  intro hmem
  rw [cases.lower_ascii hascii] at hmem
  refine hwords _ hmem ?_
  rw [String.toList_ofList, ← hlower]
  exact List.mem_map_of_mem hc

theorem mem_allDays {d : Int} : d ∈ allDays ↔ 0 ≤ d ∧ d ≤ 6 := by
  rw [allDays, Finset.mem_image]
  constructor
  · rintro ⟨n, hn, rfl⟩
    rw [Finset.mem_range] at hn
    exact ⟨Int.natCast_nonneg n, by change (n : Int) ≤ 6; omega⟩
  · rintro ⟨hnonneg, hle⟩
    exact ⟨d.toNat, Finset.mem_range.mpr (by omega), Int.toNat_of_nonneg hnonneg⟩

theorem mem_cyclic {a b d : Int} :
    d ∈ cyclic a b ↔ (0 ≤ d ∧ d ≤ 6) ∧ if a ≤ b then a ≤ d ∧ d ≤ b else a ≤ d ∨ d ≤ b := by
  rw [cyclic, Finset.mem_filter, mem_allDays]

/-- The steps from `a` to `b` modulo seven go round the end of the week. -/
theorem steps_eq_cyclic {a b : Int} (ha : 0 ≤ a ∧ a ≤ 6) (hb : 0 ≤ b ∧ b ≤ 6) :
    ((Finset.range ((b - a) % 7 + 1).toNat).image fun offset : Nat => (a + offset) % 7) =
      cyclic a b := by
  ext d
  rw [Finset.mem_image, mem_cyclic]
  constructor
  · rintro ⟨offset, hoffset, rfl⟩
    rw [Finset.mem_range] at hoffset
    refine ⟨by omega, ?_⟩
    split <;> omega
  · rintro ⟨hd, hbetween⟩
    refine ⟨((d - a) % 7).toNat, Finset.mem_range.mpr ?_, ?_⟩
    · split at hbetween <;> omega
    · omega

theorem RendersPart.mem {part : List Char} {days : Finset Int} (h : RendersPart part days) :
    ∀ c ∈ part, c.isAlpha = true ∨ c = '-' := by
  intro c hc
  cases h with
  | day hname => exact .inl (hname.isAlpha c hc)
  | range hfirst hlast =>
    rcases List.mem_append.mp hc with hc | hc
    · exact .inl (hfirst.isAlpha c hc)
    · rcases List.mem_cons.mp hc with hc | hc
      · exact .inr hc
      · exact .inl (hlast.isAlpha c hc)

theorem RendersPart.comma_notMem {part : List Char} {days : Finset Int}
    (h : RendersPart part days) : ',' ∉ part := by
  intro hc
  have hcomma := h.mem ',' hc
  revert hcomma
  decide

theorem RendersPart.nonempty {part : List Char} {days : Finset Int} (h : RendersPart part days) :
    days.Nonempty := by
  cases h with
  | @day _ d _ => exact Finset.singleton_nonempty d
  | @range _ _ a b hfirst hlast =>
    have ha := hfirst.bounds
    refine ⟨a, mem_cyclic.mpr ⟨ha, ?_⟩⟩
    split
    · next hle => exact ⟨le_refl a, hle⟩
    · exact .inl (le_refl a)

theorem Names.exists_cons {name : List Char} {d : Int} (h : Names name d) :
    ∃ c rest, name = c :: rest ∧ c.isAlpha = true := by
  cases name with
  | nil => cases h.length
  | cons c rest => exact ⟨c, rest, rfl, h.isAlpha c List.mem_cons_self⟩

theorem RendersPart.exists_cons {part : List Char} {days : Finset Int}
    (h : RendersPart part days) : ∃ c rest, part = c :: rest ∧ c.isAlpha = true := by
  cases h with
  | day hname => exact hname.exists_cons
  | @range _ last _ _ hfirst _ =>
    obtain ⟨c, rest, rfl, hc⟩ := hfirst.exists_cons
    exact ⟨c, rest ++ '-' :: last, rfl, hc⟩

/-- A part adds its days. -/
theorem addDays_part {part : List Char} {days : Finset Int} (cases : CaseTable)
    (h : RendersPart part days) (before : Finset Int) :
    addDays cases before (String.ofList part) = .ok (before ∪ days) := by
  cases h with
  | day hname =>
    have hne : String.ofList part ≠ "" := by
      intro hnil
      have hlength := hname.length
      rw [String.ofList_eq_empty_iff.mp hnil] at hlength
      cases hlength
    have hword : cases.lower (String.ofList part) ∉ dailyWords := by
      rw [hname.lower]
      exact (dayNumbers_lookup _ hname.mem_dayNumbers).2.1
    have hdash : '-' ∉ (String.ofList part).toList := by
      rw [String.toList_ofList]
      exact hname.notMem rfl
    rw [addDays, if_neg hne, if_neg hword, partition_of_notMem hdash]
    simp only [hname.dayNumber, if_pos hdash]
    rw [Finset.insert_eq, Finset.union_comm]
  | @range first last a b hfirst hlast =>
    have hmem : '-' ∈ first ++ '-' :: last := List.mem_append_right _ List.mem_cons_self
    have hne : String.ofList (first ++ '-' :: last) ≠ "" := by
      intro hnil
      rw [String.ofList_eq_empty_iff.mp hnil] at hmem
      cases hmem
    have hword : cases.lower (String.ofList (first ++ '-' :: last)) ∉ dailyWords := by
      refine lower_notMem (fun c hc => ?_) hmem rfl (by decide)
      rcases (RendersPart.range hfirst hlast).mem c hc with hc | rfl
      · have hletter := isAlpha_iff.mp hc
        omega
      · decide
    have hparts : partition '-' (String.ofList (first ++ '-' :: last)) =
        (String.ofList first, String.ofList last) := by
      have hfirst : '-' ∉ (String.ofList first).toList := by
        rw [String.toList_ofList]
        exact hfirst.notMem rfl
      rw [← partition_append hfirst (String.ofList last)]
      congr 1
      simp [← String.toList_inj]
    have hdash : ¬ '-' ∉ (String.ofList (first ++ '-' :: last)).toList := by
      rw [String.toList_ofList]
      exact not_not_intro hmem
    rw [addDays, if_neg hne, if_neg hword, hparts]
    simp only [hfirst.dayNumber, hlast.dayNumber, if_neg hdash]
    rw [steps_eq_cyclic hfirst.bounds hlast.bounds]

namespace RendersDays

variable {text : List Char} {days : Finset Int}

theorem mem (h : RendersDays text days) :
    ∀ c ∈ text, c.isAlpha = true ∨ c = '-' ∨ c = ',' := by
  induction h with
  | last hpart =>
    intro c hc
    exact (hpart.mem c hc).imp_right .inl
  | more hpart _ ih =>
    intro c hc
    rcases List.mem_append.mp hc with hc | hc
    · exact (hpart.mem c hc).imp_right .inl
    · rcases List.mem_cons.mp hc with hc | hc
      · exact .inr (.inr hc)
      · exact ih c hc

theorem solid (h : RendersDays text days) : ∀ c ∈ text, isSpace c = false := by
  intro c hc
  rcases h.mem c hc with hc | rfl | rfl
  · have hletter := isAlpha_iff.mp hc
    exact isSpace_of_toNat (by omega) (by omega)
  · rfl
  · rfl

theorem quiet (h : RendersDays text days) (digits : DigitTable) :
    ∀ c ∈ text, c ≠ ';' ∧ digits.isDigit c = false := by
  intro c hc
  rcases h.mem c hc with hc | rfl | rfl
  · have hletter := isAlpha_iff.mp hc
    refine ⟨?_, ?_⟩
    · rintro rfl
      revert hc
      decide
    · rw [digits.isDigit_ascii (by omega), Bool.eq_false_iff]
      intro hdigit
      have hrange := toNat_of_isDigit hdigit
      omega
  · exact ⟨by decide, digits.isDigit_ascii (by decide)⟩
  · exact ⟨by decide, digits.isDigit_ascii (by decide)⟩

theorem ascii (h : RendersDays text days) : ∀ c ∈ text, c.toNat < 128 := by
  intro c hc
  rcases h.mem c hc with hc | rfl | rfl
  · have hletter := isAlpha_iff.mp hc
    omega
  · decide
  · decide

/-- A day list begins with a letter. -/
theorem exists_cons (h : RendersDays text days) :
    ∃ c rest, text = c :: rest ∧ c.isAlpha = true := by
  induction h with
  | last hpart => exact hpart.exists_cons
  | @more _ parts _ _ hpart _ _ =>
    obtain ⟨c, rest, rfl, hc⟩ := hpart.exists_cons
    exact ⟨c, rest ++ ',' :: parts, rfl, hc⟩

/-- The parts of a day list add their days one after the other. -/
theorem foldlM_addDays (h : RendersDays text days) (cases : CaseTable) (before : Finset Int) :
    (split ',' (String.ofList text)).foldlM (addDays cases) before = .ok (before ∪ days) := by
  unfold split
  rw [String.toList_ofList]
  induction h generalizing before with
  | last hpart =>
    rw [List.splitOn_eq_singleton hpart.comma_notMem, List.map_singleton, List.foldlM_cons,
      addDays_part cases hpart]
    rfl
  | @more _ _ days others hpart _ ih =>
    rw [List.splitOn_append_cons_self_of_not_mem hpart.comma_notMem, List.map_cons,
      List.foldlM_cons, addDays_part cases hpart]
    refine (ih (before ∪ days)).trans ?_
    rw [Finset.union_assoc]

theorem nonempty (h : RendersDays text days) : days.Nonempty := by
  induction h with
  | last hpart => exact hpart.nonempty
  | more hpart _ _ => exact hpart.nonempty.mono Finset.subset_union_left

theorem parseDays (h : RendersDays text days) (cases : CaseTable) (hne : days.Nonempty) :
    parseDays cases (String.ofList text) = .ok days := by
  have hfilter : text.filter (fun c => decide (c ≠ ' ')) = text := by
    rw [List.filter_eq_self]
    intro c hc
    rw [decide_eq_true_eq]
    rintro rfl
    have hspace := h.mem ' ' hc
    revert hspace
    decide
  rw [Box.parseDays, String.toList_ofList, hfilter, h.foldlM_addDays cases]
  change (if ∅ ∪ days = ∅ then Except.error _ else Except.ok (∅ ∪ days)) = _
  rw [Finset.empty_union, if_neg hne.ne_empty]

end RendersDays

/-! ## Times -/

theorem digitOf_digitChar (digits : DigitTable) {d : Nat} (hd : d < 10) :
    digits.digitOf d.digitChar = some d := by
  have hchar := Nat.toNat_digitChar_of_lt_ten hd
  rw [digits.ascii _ (by omega), Nat.isDigit_digitChar, if_pos (decide_eq_true hd), hchar,
    Nat.add_sub_cancel_left]

theorem mem_twoDigits {n : Nat} (hn : n < 100) {c : Char} (hc : c ∈ twoDigits n) :
    c.isDigit = true := by
  rw [twoDigits, List.mem_pair] at hc
  rcases hc with rfl | rfl
  · rw [Nat.isDigit_digitChar, decide_eq_true_eq]
    omega
  · rw [Nat.isDigit_digitChar, decide_eq_true_eq]
    omega

theorem natural_twoDigits (digits : DigitTable) {n : Nat} (hn : n < 100) :
    digits.natural (twoDigits n) = some n := by
  have hparts : (twoDigits n).splitOn '_' = [twoDigits n] := by
    refine List.splitOn_eq_singleton fun hc => ?_
    cases mem_twoDigits hn hc
  have hlist : ([twoDigits n].flatten).mapM digits.digitOf = some [n / 10, n % 10] := by
    rw [mapM_eq_some_iff]
    simp only [twoDigits, List.flatten_cons, List.flatten_nil, List.append_nil, List.map_cons,
      List.map_nil]
    rw [digitOf_digitChar digits (by omega), digitOf_digitChar digits (by omega)]
  rw [DigitTable.natural, hparts, if_neg (by simp [twoDigits]), hlist, Option.map_some]
  simp only [List.foldl_cons, List.foldl_nil]
  exact congrArg some (by omega)

theorem strip_twoDigits {n : Nat} (hn : n < 100) :
    strip (String.ofList (twoDigits n)) = String.ofList (twoDigits n) := by
  have hsolid : ∀ c ∈ twoDigits n, isSpace c = false := by
    intro c hc
    have hdigit := toNat_of_isDigit (mem_twoDigits hn hc)
    exact isSpace_of_toNat (by omega) (by omega)
  refine strip_eq_self (fun c hc => ?_) (fun c hc => ?_) (by simp [twoDigits])
  · exact hsolid c (List.mem_of_mem_head? hc)
  · exact hsolid c (List.mem_of_mem_getLast? hc)

theorem int_twoDigits (digits : DigitTable) {n : Nat} (hn : n < 100) :
    digits.int (String.ofList (twoDigits n)) = some (n : Int) := by
  rw [DigitTable.int, strip_twoDigits hn, String.toList_ofList]
  split
  · next h => cases mem_twoDigits hn (h ▸ List.mem_cons_self)
  · next h => cases mem_twoDigits hn (h ▸ List.mem_cons_self)
  · rw [natural_twoDigits digits hn]
    rfl

theorem partition_clock {m : Int} (hm : 0 ≤ m ∧ m ≤ 1440) :
    partition ':' (String.ofList (clock m)) =
      (String.ofList (twoDigits (m.toNat / 60)), String.ofList (twoDigits (m.toNat % 60))) := by
  have hhours : ':' ∉ (String.ofList (twoDigits (m.toNat / 60))).toList := by
    rw [String.toList_ofList]
    intro hc
    cases mem_twoDigits (by omega) hc
  rw [← partition_append hhours]
  congr 1
  simp [clock, ← String.toList_inj]

theorem parseTime_clock (digits : DigitTable) {m : Int} (hm : 0 ≤ m ∧ m ≤ 1440) :
    parseTime digits (String.ofList (clock m)) = .ok m := by
  have hsum : ((m.toNat / 60 : Nat) : Int) * 60 + ((m.toNat % 60 : Nat) : Int) = m := by omega
  have hrange : ¬(¬(0 ≤ m ∧ m ≤ minutesPerDay) ∨ (59 : Int) < (m.toNat % 60 : Nat)) := by
    unfold minutesPerDay
    omega
  rw [parseTime, partition_clock hm]
  simp only [int_twoDigits digits (show m.toNat / 60 < 100 by omega),
    int_twoDigits digits (show m.toNat % 60 < 100 by omega)]
  rw [hsum, if_neg hrange]

theorem mem_clock {m : Int} (hm : 0 ≤ m ∧ m ≤ 1440) {c : Char} (hc : c ∈ clock m) :
    c.isDigit = true ∨ c = ':' := by
  rcases List.mem_append.mp hc with hc | hc
  · exact .inl (mem_twoDigits (by omega) hc)
  · rcases List.mem_cons.mp hc with hc | hc
    · exact .inr hc
    · exact .inl (mem_twoDigits (by omega) hc)

theorem mem_clocks {window : Window} (h : window.Weekly) {c : Char} (hc : c ∈ clocks window) :
    c.isDigit = true ∨ c = ':' ∨ c = '-' := by
  rcases List.mem_append.mp hc with hc | hc
  · exact (mem_clock h.start hc).imp_right .inl
  · rcases List.mem_cons.mp hc with hc | hc
    · exact .inr (.inr hc)
    · exact (mem_clock h.stop hc).imp_right .inl

theorem clocks_solid {window : Window} (h : window.Weekly) {c : Char} (hc : c ∈ clocks window) :
    c ≠ ';' ∧ c ≠ ',' ∧ isSpace c = false := by
  rcases mem_clocks h hc with hc | rfl | rfl
  · have hrange := toNat_of_isDigit hc
    refine ⟨?_, ?_, isSpace_of_toNat (by omega) (by omega)⟩
    · rintro rfl
      cases hc
    · rintro rfl
      cases hc
  · decide
  · decide

/-! ## The pattern of an entry -/

theorem isDigit_twoDigits (digits : DigitTable) {n : Nat} (hn : n < 100) :
    ∀ c ∈ twoDigits n, digits.isDigit c = true := by
  intro c hc
  have hdigit := mem_twoDigits hn hc
  have hrange := toNat_of_isDigit hdigit
  rw [digits.isDigit_ascii (by omega), hdigit]

theorem first_timeRe (digits : DigitTable) {m : Int} (hm : 0 ≤ m ∧ m ≤ 1440)
    (before : List Char) {rest : List Char}
    (hrest : ∀ c ∈ rest.head?, digits.isDigit c = false) :
    (timeRe digits).first? before (clock m ++ rest) = some ⟨clock m, rest, []⟩ := by
  have hcolon : ∀ c ∈ (':' :: (twoDigits (m.toNat % 60) ++ rest)).head?,
      digits.isDigit c = false := by
    rintro c ⟨⟩
    rw [digits.isDigit_ascii (by decide)]
    rfl
  have hhours : (Regex.many false digits.isDigit 1 (some 2) : Regex Char Part).first? before
      (twoDigits (m.toNat / 60) ++ ':' :: (twoDigits (m.toNat % 60) ++ rest)) =
        some ⟨twoDigits (m.toNat / 60), ':' :: (twoDigits (m.toNat % 60) ++ rest), []⟩ :=
    Regex.first_greedy (isDigit_twoDigits digits (by omega)) hcolon (by simp [twoDigits])
      (by simp [twoDigits])
  have hminutes : ∀ before, (Regex.many false digits.isDigit 2 (some 2) : Regex Char Part).first?
      before (twoDigits (m.toNat % 60) ++ rest) = some ⟨twoDigits (m.toNat % 60), rest, []⟩ :=
    fun _ => Regex.first_greedy (isDigit_twoDigits digits (by omega)) hrest (by simp [twoDigits])
      (by simp [twoDigits])
  rw [timeRe, clock, List.append_assoc, List.cons_append]
  exact Regex.first_seq_of_first hhours
    (Regex.first_seq_of_first (Regex.first_one rfl) (hminutes _))

/-- No blanks before a dash or a digit. -/
theorem first_blanks (before : List Char) {rest : List Char}
    (hrest : ∀ c ∈ rest.head?, isSpace c = false) :
    blanks.first? before rest = some ⟨[], rest, []⟩ :=
  Regex.first_greedy (l := []) (by simp) hrest (by simp) (by simp)

theorem head_clock {m : Int} (hm : 0 ≤ m ∧ m ≤ 1440) (rest : List Char) :
    ∀ c ∈ (clock m ++ rest).head?, isSpace c = false := by
  rintro c ⟨⟩
  have hdigit : (Nat.digitChar (m.toNat / 60 / 10)).isDigit = true := by
    rw [Nat.isDigit_digitChar, decide_eq_true_eq]
    omega
  have hrange := toNat_of_isDigit hdigit
  exact isSpace_of_toNat (by omega) (by omega)

/-- The times of an entry. -/
theorem first_timesRe (digits : DigitTable) {window : Window} (h : window.Weekly)
    (before : List Char) :
    (timesRe digits).first? before (clocks window) =
      some ⟨clocks window, [], [(.start, clock window.start), (.stop, clock window.stop)]⟩ := by
  have hdash : ∀ c ∈ ('-' :: clock window.stop).head?, digits.isDigit c = false := by
    rintro c ⟨⟩
    rw [digits.isDigit_ascii (by decide)]
    rfl
  have hend : ∀ c ∈ ([] : List Char).head?, digits.isDigit c = false := by simp
  have hstart := Regex.first_group (g := .start)
    (first_timeRe digits h.start before hdash)
  have hstop := fun before => Regex.first_group (g := .stop)
    (first_timeRe digits h.stop before hend)
  have hblank := fun before => first_blanks before
    (show ∀ c ∈ ('-' :: clock window.stop).head?, isSpace c = false by simp [isSpace])
  have hlast := fun before => first_blanks before (head_clock h.stop [])
  simp only [List.append_nil] at hstop hlast
  exact Regex.first_seq_of_first hstart (Regex.first_seq_of_first (hblank _)
    (Regex.first_seq_of_first (Regex.first_one rfl) (Regex.first_seq_of_first (hlast _)
      (Regex.first_seq_of_first (hstop _) Regex.first_stop))))

/-- An entry is taken apart where its parts were joined. -/
theorem first_entryRe (digits : DigitTable) {window : Window} (h : window.Weekly)
    {days : List Char} {set : Finset Int} (hdays : RendersDays days set) (gap : Nat) :
    ((entryRe digits).first? [] (days ++ spaces (gap + 1) ++ clocks window)).map
        (fun found => found.groups) =
      some [(.days, days), (.start, clock window.start), (.stop, clock window.stop)] := by
  have hblank : ∀ before, (Regex.many false isSpace 1 none : Regex Char Part).first? before
      (spaces (gap + 1) ++ clocks window) = some ⟨spaces (gap + 1), clocks window, []⟩ := by
    intro before
    refine Regex.first_greedy (isSpace_spaces _) ?_ (by simp [spaces]) (by simp)
    exact head_clock h.start _
  have hafter := fun before => Regex.first_seq_of_first (hblank before)
    (first_timesRe digits h (before ++ spaces (gap + 1)))
  have hclass : ∀ c ∈ days, inDays c = true := by
    intro c hc
    rcases hdays.mem c hc with hc | rfl | rfl
    · simp [inDays, hc]
    · rfl
    · rfl
  obtain ⟨first, rest, hcons, -⟩ := hdays.exists_cons
  -- a day list has no blank in it, so the times cannot begin before its end
  have hbefore : ∀ u v, u ++ v = days → v ≠ [] →
      (Regex.seq (.many false isSpace 1 none) (timesRe digits)).run ([] ++ u)
        (v ++ (spaces (gap + 1) ++ clocks window)) = [] := by
    intro u v huv hv
    obtain ⟨c, v, rfl⟩ := List.exists_cons_of_ne_nil hv
    have hc : isSpace c = false :=
      hdays.solid c (huv ▸ List.mem_append_right _ List.mem_cons_self)
    refine Regex.run_seq_eq_nil fun m hm => ?_
    rw [List.cons_append, Regex.run_many_eq_nil hc (by omega)] at hm
    cases hm
  have hdays := Regex.first_lazy (g := .days) hclass (show 1 ≤ days.length by simp [hcons])
    hbefore (hafter _)
  rw [entryRe, List.append_assoc, Regex.first_seq_of_first Regex.first_start hdays]
  rfl

/-! ## Entries -/

/-- Where an entry ends. -/
theorem getLast_clocks (window : Window) (before : List Char) :
    ∃ c, (before ++ clocks window).getLast? = some c ∧ c.isDigit = true := by
  refine ⟨Nat.digitChar (window.stop.toNat % 60 % 10), ?_, ?_⟩
  · simp [clocks, clock, twoDigits, List.getLast?_append]
  · rw [Nat.isDigit_digitChar, decide_eq_true_eq]
    omega

namespace RendersEntry

variable {window : Window} {entry : List Char}

theorem head (h : RendersEntry window entry) : ∃ c rest, entry = c :: rest ∧ c.isAlpha = true := by
  cases h with
  | entry gap hdays =>
    obtain ⟨c, rest, rfl, hc⟩ := hdays.exists_cons
    exact ⟨c, rest ++ spaces (gap + 1) ++ clocks window, rfl, hc⟩

theorem getLast (h : RendersEntry window entry) (before : List Char) :
    ∃ c, (before ++ entry).getLast? = some c ∧ c.isDigit = true := by
  cases h with
  | @entry days gap hdays =>
    rw [← List.append_assoc]
    exact getLast_clocks window _

/-- A piece between two cuts is stripped to its entry. -/
theorem strip_piece (h : RendersEntry window entry) (left right : Nat) :
    strip (String.ofList (spaces left ++ entry ++ spaces right)) = String.ofList entry := by
  obtain ⟨c, rest, hcons, hc⟩ := h.head
  obtain ⟨d, hlast, hd⟩ := h.getLast []
  rw [List.nil_append] at hlast
  have hcrange := isAlpha_iff.mp hc
  have hdrange := toNat_of_isDigit hd
  refine strip_ofList (isSpace_spaces left) ?_ ?_ (by simp [hcons]) (isSpace_spaces right)
  · rw [hcons]
    rintro _ ⟨⟩
    exact isSpace_of_toNat (by omega) (by omega)
  · rw [hlast]
    rintro _ ⟨⟩
    exact isSpace_of_toNat (by omega) (by omega)

theorem ascii (h : RendersEntry window entry) (hw : window.Weekly) :
    ∀ c ∈ entry, c.toNat < 128 := by
  cases h with
  | entry gap hdays =>
    intro c hc
    rcases List.mem_append.mp hc with hc | hc
    · rcases List.mem_append.mp hc with hc | hc
      · exact hdays.ascii c hc
      · rw [mem_spaces hc]
        decide
    · rcases mem_clocks hw hc with hc | rfl | rfl
      · have hrange := toNat_of_isDigit hc
        omega
      · decide
      · decide

theorem colon_mem (h : RendersEntry window entry) : ':' ∈ entry := by
  cases h with
  | entry gap hdays => simp [clocks, clock]

/-- An entry gives its window. -/
theorem addEntry (h : RendersEntry window entry) (hw : window.Weekly) (cases : CaseTable)
    (digits : DigitTable) (left right : Nat) (windows : List Window) :
    addEntry cases digits windows (String.ofList (spaces left ++ entry ++ spaces right)) =
      .ok (windows ++ [window]) := by
  have hne : String.ofList entry ≠ "" := by
    obtain ⟨c, rest, rfl, -⟩ := h.head
    simp
  rw [Box.addEntry, h.strip_piece, if_neg hne, String.toList_ofList]
  cases h with
  | @entry days gap hdays =>
    obtain ⟨found, hfound, hgroups⟩ := Option.map_eq_some_iff.mp (first_entryRe digits hw hdays gap)
    have hgroup : found.group .days = days ∧ found.group .start = clock window.start ∧
        found.group .stop = clock window.stop := by
      simp only [Regex.Found.group, hgroups]
      exact ⟨rfl, rfl, rfl⟩
    obtain ⟨hdaysGroup, hstartGroup, hstopGroup⟩ := hgroup
    rw [hfound]
    simp only [hdaysGroup, hstartGroup, hstopGroup, parseTime_clock digits hw.start,
      parseTime_clock digits hw.stop, hdays.parseDays cases hdays.nonempty]
    change (if window.start = window.stop then _ else _) = _
    rw [if_neg hw.nonempty]
    rfl

end RendersEntry

/-! ## Where the text is cut -/

section Split

variable (digits : DigitTable) {before after rest : List Char}

theorem entrySplit_semicolon :
    (entrySplit digits).first? before (';' :: rest) = some ⟨[';'], rest, []⟩ :=
  Regex.first_alt (Regex.first_one rfl)

/-- A comma after a digit cuts, with the blanks before it. -/
theorem entrySplit_comma {c : Char} (hlast : before.getLast? = some c)
    (hc : digits.isDigit c = true) (n : Nat) :
    (entrySplit digits).first? before (spaces n ++ ',' :: rest) =
      some ⟨spaces n ++ [','], rest, []⟩ := by
  have hother : (char ';').run before (spaces n ++ ',' :: rest) = [] := by
    refine Regex.run_one_eq_nil fun d hd => decide_eq_false ?_
    cases n with
    | zero => rcases hd with ⟨⟩; decide
    | succ n => rcases hd with ⟨⟩; decide
  have hblank : blanks.first? (before ++ []) (spaces n ++ ',' :: rest) =
      some ⟨spaces n, ',' :: rest, []⟩ := by
    refine Regex.first_greedy (isSpace_spaces n) ?_ (by simp) (by simp)
    rintro _ ⟨⟩
    rfl
  rw [entrySplit, Regex.first_alt_of_nil hother]
  exact Regex.first_seq_of_first (Regex.first_behind hlast hc)
    (Regex.first_seq_of_first hblank (Regex.first_one rfl))

/-- Nothing is cut at a character that is no semicolon, where no digit stands before it or no
comma after the blanks. -/
theorem entrySplit_none (hhead : ∀ c ∈ after.head?, c ≠ ';')
    (h : (∀ c ∈ before.getLast?, digits.isDigit c = false) ∨
      ∀ c ∈ (after.dropWhile isSpace).head?, c ≠ ',') :
    (entrySplit digits).first? before after = none := by
  have hother : (char ';').run before after = [] :=
    Regex.run_one_eq_nil fun c hc => decide_eq_false (hhead c hc)
  rw [entrySplit, Regex.first_alt_of_nil hother, Regex.first_eq, List.head?_eq_none_iff]
  rcases h with h | h
  · refine Regex.run_seq_eq_nil fun m hm => ?_
    rw [Regex.run_behind_eq_nil h] at hm
    cases hm
  · refine Regex.run_seq_eq_nil fun m hm => Regex.run_seq_eq_nil fun m' hm' => ?_
    have hrest : m.rest = after := Regex.rest_of_mem_run_behind hm
    obtain ⟨htaken, -, hblank⟩ := Regex.mem_run_many hm'
    refine Regex.run_one_eq_nil fun c hc => decide_eq_false ?_
    by_cases hspace : isSpace c = true
    · rintro rfl
      cases hspace
    · -- what is left after blanks begins where the blanks end
      refine h c ?_
      rw [← hrest, ← htaken, List.dropWhile_append_of_pos hblank]
      cases hr : m'.rest with
      | nil => rw [hr] at hc; cases hc
      | cons d rest =>
        rw [hr] at hc
        rcases hc with ⟨⟩
        rw [List.dropWhile_cons_of_neg hspace]
        rfl

/-- Characters among which nothing is cut, after none that is a digit. -/
theorem split_quiet {l pending : List Char}
    (hbefore : ∀ c ∈ before.getLast?, digits.isDigit c = false)
    (hl : ∀ c ∈ l, c ≠ ';' ∧ digits.isDigit c = false) :
    (entrySplit digits).splitFrom before pending 0 (l ++ rest) =
      (entrySplit digits).splitFrom (before ++ l) (pending ++ l) 0 rest := by
  refine Regex.split_through fun u c v huv => entrySplit_none digits ?_ (.inl fun d hd => ?_)
  · rintro _ ⟨⟩
    exact (hl c (huv ▸ List.mem_append_right _ List.mem_cons_self)).1
  · rw [List.getLast?_append] at hd
    cases hu : u.getLast? with
    | none =>
      rw [hu, Option.none_or] at hd
      exact hbefore d hd
    | some e =>
      rw [hu, Option.some_or] at hd
      rcases hd with ⟨⟩
      exact (hl d (huv ▸ List.mem_append_left _ (List.mem_of_getLast? hu))).2

/-- Nothing is cut between characters that are neither blank nor a separator. -/
theorem split_solid {l pending : List Char}
    (hl : ∀ c ∈ l, c ≠ ';' ∧ c ≠ ',' ∧ isSpace c = false) :
    (entrySplit digits).splitFrom before pending 0 (l ++ rest) =
      (entrySplit digits).splitFrom (before ++ l) (pending ++ l) 0 rest := by
  refine Regex.split_through fun u c v huv => entrySplit_none digits ?_ (.inr ?_)
  · rintro _ ⟨⟩
    exact (hl c (huv ▸ List.mem_append_right _ List.mem_cons_self)).1
  · have hc := (hl c (huv ▸ List.mem_append_right _ List.mem_cons_self)).2
    rw [List.cons_append, List.dropWhile_cons_of_neg (by simp [hc.2])]
    rintro _ ⟨⟩
    exact hc.1

/-- Blanks before a semicolon stay with the entry. -/
theorem split_spaces {pending : List Char} (n : Nat) :
    (entrySplit digits).splitFrom before pending 0 (spaces n ++ ';' :: rest) =
      (entrySplit digits).splitFrom (before ++ spaces n) (pending ++ spaces n) 0 (';' :: rest) := by
  refine Regex.split_through fun u c v huv => entrySplit_none digits ?_ (.inr ?_)
  · rintro _ ⟨⟩
    have hc : c ∈ spaces n := huv ▸ List.mem_append_right _ List.mem_cons_self
    rw [mem_spaces hc]
    decide
  · have hblank : ∀ d ∈ c :: v, isSpace d = true :=
      fun d hd => isSpace_spaces n d (huv ▸ List.mem_append_right _ hd)
    rw [List.dropWhile_append_of_pos hblank, List.dropWhile_cons_of_neg (by decide)]
    rintro _ ⟨⟩
    decide

/-- An entry is not cut. -/
theorem RendersEntry.split {window : Window} {entry : List Char} (h : RendersEntry window entry)
    (hw : window.Weekly) (hbefore : ∀ c ∈ before.getLast?, digits.isDigit c = false)
    (lead : Nat) :
    (entrySplit digits).splitFrom before [] 0 (spaces lead ++ entry ++ rest) =
      (entrySplit digits).splitFrom (before ++ (spaces lead ++ entry)) (spaces lead ++ entry) 0
        rest := by
  cases h with
  | @entry days gap hdays =>
    have hquiet : ∀ c ∈ spaces lead ++ days ++ spaces (gap + 1),
        c ≠ ';' ∧ digits.isDigit c = false := by
      have hspace : ' ' ≠ ';' ∧ digits.isDigit ' ' = false :=
        ⟨by decide, digits.isDigit_ascii (by decide)⟩
      intro c hc
      rcases List.mem_append.mp hc with hc | hc
      · rcases List.mem_append.mp hc with hc | hc
        · rw [mem_spaces hc]
          exact hspace
        · exact hdays.quiet digits c hc
      · rw [mem_spaces hc]
        exact hspace
    have hsolid : ∀ c ∈ clocks window, c ≠ ';' ∧ c ≠ ',' ∧ isSpace c = false :=
      fun c hc => clocks_solid hw hc
    have htext : spaces lead ++ (days ++ spaces (gap + 1) ++ clocks window) ++ rest =
        spaces lead ++ days ++ spaces (gap + 1) ++ (clocks window ++ rest) := by
      simp only [List.append_assoc]
    rw [htext, split_quiet digits hbefore hquiet, split_solid digits hsolid]
    simp only [List.append_assoc, List.nil_append]

/-- An entry and the blanks around it. -/
def Piece (window : Window) (chunk : List Char) : Prop :=
  ∃ entry left right, RendersEntry window entry ∧ chunk = spaces left ++ entry ++ spaces right

/-- The pieces of the text are the entries. -/
theorem split_renders {windows : List Window} {text : List Char} (h : Renders windows text)
    (hw : ∀ window ∈ windows, window.Weekly)
    (hbefore : ∀ c ∈ before.getLast?, digits.isDigit c = false) (lead : Nat) :
    List.Forall₂ Piece windows
      ((entrySplit digits).splitFrom before [] 0 (spaces lead ++ text)) := by
  induction h generalizing before lead with
  | @last window entry hentry =>
    rw [← List.append_nil (spaces lead ++ entry),
      hentry.split digits (hw _ List.mem_cons_self) hbefore, Regex.splitFrom_nil]
    exact .cons ⟨entry, lead, 0, hentry, (List.append_nil _).symm⟩ .nil
  | @more window entry windows text sep left right hentry hsep _ ih =>
    have hwindow := hw window List.mem_cons_self
    have htext : spaces lead ++ (entry ++ spaces left ++ sep :: (spaces right ++ text)) =
        spaces lead ++ entry ++ (spaces left ++ sep :: (spaces right ++ text)) := by
      simp only [List.append_assoc]
    have hnext : ∀ before, List.Forall₂ Piece windows ((entrySplit digits).splitFrom
        (before ++ [sep]) [] 0 (spaces right ++ text)) := by
      intro before
      refine ih (fun w hmem => hw w (List.mem_cons_of_mem _ hmem)) ?_ right
      rw [List.getLast?_concat]
      rintro _ ⟨⟩
      rcases hsep with rfl | rfl
      · exact digits.isDigit_ascii (by decide)
      · exact digits.isDigit_ascii (by decide)
    rw [htext, hentry.split digits hwindow hbefore]
    rcases hsep with rfl | rfl
    · have hcut : (entrySplit digits).first? (before ++ (spaces lead ++ entry) ++ spaces left)
          ([';'] ++ (spaces right ++ text)) = some ⟨[';'], spaces right ++ text, []⟩ :=
        entrySplit_semicolon digits
      rw [split_spaces]
      change List.Forall₂ Piece (window :: windows)
        ((entrySplit digits).splitFrom _ _ 0 ([';'] ++ (spaces right ++ text)))
      rw [Regex.split_at hcut (by simp)]
      exact .cons ⟨entry, lead, left, hentry, rfl⟩ (hnext _)
    · obtain ⟨c, hlast, hc⟩ := hentry.getLast (before ++ spaces lead)
      have hrange := toNat_of_isDigit hc
      have hdigit : digits.isDigit c = true := by
        rw [digits.isDigit_ascii (by omega), hc]
      rw [List.append_assoc] at hlast
      have hcut : (entrySplit digits).first? (before ++ (spaces lead ++ entry))
          (spaces left ++ ',' :: (spaces right ++ text)) =
            some ⟨spaces left ++ [','], spaces right ++ text, []⟩ :=
        entrySplit_comma digits hlast hdigit left
      rw [List.append_cons] at hcut
      rw [List.append_cons, Regex.split_at hcut (by simp), ← List.append_assoc]
      exact .cons ⟨entry, lead, 0, hentry, (List.append_nil _).symm⟩ (hnext _)

end Split

/-! ## The round trip -/

/-- The entries give their windows, in order. -/
theorem foldlM_addEntry {windows : List Window} {chunks : List (List Char)}
    (h : List.Forall₂ Piece windows chunks) (hw : ∀ window ∈ windows, window.Weekly)
    (cases : CaseTable) (digits : DigitTable) (before : List Window) :
    (chunks.map String.ofList).foldlM (addEntry cases digits) before = .ok (before ++ windows) := by
  induction h generalizing before with
  | nil => rw [List.append_nil]; rfl
  | @cons window chunk windows chunks hpiece _ ih =>
    obtain ⟨entry, left, right, hentry, rfl⟩ := hpiece
    rw [List.map_cons, List.foldlM_cons,
      hentry.addEntry (hw window List.mem_cons_self) cases digits left right before]
    refine (ih (fun w hmem => hw w (List.mem_cons_of_mem _ hmem)) (before ++ [window])).trans ?_
    rw [List.append_assoc, List.singleton_append]

namespace Renders

variable {windows : List Window} {text : List Char}

theorem ne_nil (h : Renders windows text) : windows ≠ [] := by
  cases h <;> exact List.cons_ne_nil _ _

theorem head (h : Renders windows text) : ∃ c rest, text = c :: rest ∧ c.isAlpha = true := by
  cases h with
  | last hentry => exact hentry.head
  | more left right hentry _ _ =>
    obtain ⟨c, rest, rfl, hc⟩ := hentry.head
    exact ⟨c, _, rfl, hc⟩

theorem getLast (h : Renders windows text) (before : List Char) :
    ∃ c, (before ++ text).getLast? = some c ∧ c.isDigit = true := by
  induction h generalizing before with
  | last hentry => exact hentry.getLast before
  | @more _ entry _ _ sep left right _ _ _ ih =>
    have htail := ih (before ++ (entry ++ spaces left ++ sep :: spaces right))
    simpa only [List.append_assoc, List.cons_append] using htail

theorem ascii (h : Renders windows text) (hw : ∀ window ∈ windows, window.Weekly) :
    ∀ c ∈ text, c.toNat < 128 := by
  induction h with
  | last hentry => exact hentry.ascii (hw _ List.mem_cons_self)
  | more left right hentry hsep _ ih =>
    have hspace : (' ').toNat < 128 := by decide
    intro c hc
    rcases List.mem_append.mp hc with hc | hc
    · rcases List.mem_append.mp hc with hc | hc
      · exact hentry.ascii (hw _ List.mem_cons_self) c hc
      · rw [mem_spaces hc]
        exact hspace
    · rcases List.mem_cons.mp hc with rfl | hc
      · rcases hsep with rfl | rfl <;> decide
      · rcases List.mem_append.mp hc with hc | hc
        · rw [mem_spaces hc]
          exact hspace
        · exact ih (fun w hmem => hw w (List.mem_cons_of_mem _ hmem)) c hc

theorem colon_mem (h : Renders windows text) : ':' ∈ text := by
  cases h with
  | last hentry => exact hentry.colon_mem
  | more left right hentry _ _ =>
    exact List.mem_append_left _ (List.mem_append_left _ hentry.colon_mem)

theorem strip_eq (h : Renders windows text) :
    strip (String.ofList text) = String.ofList text := by
  obtain ⟨c, rest, hcons, hc⟩ := h.head
  obtain ⟨d, hlast, hd⟩ := h.getLast []
  rw [List.nil_append] at hlast
  have hcrange := isAlpha_iff.mp hc
  have hdrange := toNat_of_isDigit hd
  refine strip_eq_self ?_ ?_ (by simp [hcons])
  · rw [hcons]
    rintro _ ⟨⟩
    exact isSpace_of_toNat (by omega) (by omega)
  · rw [hlast]
    rintro _ ⟨⟩
    exact isSpace_of_toNat (by omega) (by omega)

/-- What renders windows is parsed to them. -/
theorem parseSchedule (h : Renders windows text) (hw : ∀ window ∈ windows, window.Weekly)
    (cases : CaseTable) (digits : DigitTable) :
    parseSchedule cases digits (String.ofList text) = .ok windows := by
  have halways : cases.lower (String.ofList text) ∉ alwaysWords :=
    lower_notMem (h.ascii hw) h.colon_mem rfl (by decide)
  have hnever : cases.lower (String.ofList text) ∉ neverWords :=
    lower_notMem (h.ascii hw) h.colon_mem rfl (by decide)
  have hsplit : List.Forall₂ Piece windows ((entrySplit digits).split text) :=
    split_renders digits h hw (by simp) 0
  rw [Box.parseSchedule]
  simp only [h.strip_eq, if_neg halways, if_neg hnever, String.toList_ofList]
  rw [foldlM_addEntry hsplit hw cases digits []]
  change (if windows = [] then Except.error _ else Except.ok windows) = _
  rw [if_neg h.ne_nil]

end Renders

/-! ## Every window is rendered by something -/

theorem dayNames_lower :
    ∀ name ∈ dayNames, String.ofList (name.toList.map Char.toLower) = name := by
  decide

theorem exists_names {d : Int} (hd : 0 ≤ d ∧ d < 7) : ∃ name, Names name d := by
  have hlt : d.toNat < dayNames.length := by
    change d.toNat < 7
    omega
  refine ⟨dayNames[d.toNat].toList, d.toNat, by omega, ?_⟩
  rw [dayNames_lower _ (List.getElem_mem hlt), List.getElem?_eq_getElem hlt]

/-- The days one by one. -/
theorem exists_rendersDays {days : Finset Int} (hne : days.Nonempty)
    (hdays : ∀ d ∈ days, 0 ≤ d ∧ d < 7) : ∃ text, RendersDays text days := by
  induction hne using Finset.Nonempty.cons_induction with
  | singleton d =>
    obtain ⟨name, hname⟩ := exists_names (hdays d (Finset.mem_singleton_self d))
    exact ⟨name, .last (.day hname)⟩
  | cons d days hd hne ih =>
    obtain ⟨name, hname⟩ := exists_names (hdays d (Finset.mem_cons_self d days))
    obtain ⟨text, htext⟩ := ih fun e he => hdays e (Finset.mem_cons_of_mem he)
    refine ⟨name ++ ',' :: text, ?_⟩
    rw [Finset.cons_eq_insert, Finset.insert_eq]
    exact .more (.day hname) htext

theorem exists_rendersEntry {window : Window} (hw : window.Weekly) (hne : window.days.Nonempty) :
    ∃ entry, RendersEntry window entry := by
  obtain ⟨days, hdays⟩ := exists_rendersDays hne hw.days
  exact ⟨_, .entry 0 hdays⟩

theorem exists_renders {windows : List Window} (hne : windows ≠ [])
    (hw : ∀ window ∈ windows, window.Weekly ∧ window.days.Nonempty) :
    ∃ text, Renders windows text := by
  induction windows with
  | nil => exact absurd rfl hne
  | cons window windows ih =>
    obtain ⟨hweekly, hdays⟩ := hw window List.mem_cons_self
    obtain ⟨entry, hentry⟩ := exists_rendersEntry hweekly hdays
    cases windows with
    | nil => exact ⟨entry, .last hentry⟩
    | cons next windows =>
      obtain ⟨text, htext⟩ := ih (List.cons_ne_nil _ _)
        fun w hmem => hw w (List.mem_cons_of_mem _ hmem)
      exact ⟨_, .more 0 0 hentry (.inl rfl) htext⟩

/-- **Parsing inverts rendering.** Windows of the week are rendered by some text, and every text that
renders them is parsed to them, in order. -/
theorem parseSchedule_inverts (cases : CaseTable) (digits : DigitTable) (windows : List Window)
    (hne : windows ≠ []) (hw : ∀ window ∈ windows, window.Weekly ∧ window.days.Nonempty) :
    (∃ text : String, Renders windows text.toList) ∧
      ∀ text : String, Renders windows text.toList →
        parseSchedule cases digits text = .ok windows := by
  constructor
  · obtain ⟨text, htext⟩ := exists_renders hne hw
    exact ⟨String.ofList text, by rwa [String.toList_ofList]⟩
  · intro text htext
    have hparse := htext.parseSchedule (fun window hmem => (hw window hmem).1) cases digits
    rwa [String.ofList_toList] at hparse

def sampleWindows : List Window :=
  [{ days := {4, 5, 6, 0}, start := 1200, stop := 360 },
    { days := {5, 2}, start := 0, stop := 1440 }]

theorem sampleWindows_renders :
    Renders sampleWindows "Fri-MON 20:00-06:00 , sat,Wed  00:00-24:00".toList := by
  have hrange : RendersPart ("Fri".toList ++ '-' :: "MON".toList) (cyclic 4 0) :=
    .range ⟨4, rfl, by decide⟩ ⟨0, rfl, by decide⟩
  have hlist : RendersDays ("sat".toList ++ ',' :: "Wed".toList) ({5} ∪ {2}) :=
    .more (.day ⟨5, rfl, by decide⟩) (.last (.day ⟨2, rfl, by decide⟩))
  have hset : cyclic 4 0 = {4, 5, 6, 0} := by decide
  rw [hset] at hrange
  have hfirst : RendersEntry ⟨{4, 5, 6, 0}, 1200, 360⟩ _ := .entry 0 (.last hrange)
  have hsecond : RendersEntry ⟨{5, 2}, 0, 1440⟩ _ := .entry 1 hlist
  exact .more 1 1 hfirst (.inr rfl) (.last hsecond)

theorem sampleWindows_weekly :
    ∀ window ∈ sampleWindows, window.Weekly ∧ window.days.Nonempty := by
  intro window hmem
  have hcheck : ∀ window ∈ sampleWindows, (∀ d ∈ window.days, 0 ≤ d ∧ d < 7) ∧
      (0 ≤ window.start ∧ window.start ≤ 1440) ∧ (0 ≤ window.stop ∧ window.stop ≤ 1440) ∧
      window.start ≠ window.stop ∧ window.days.Nonempty := by decide
  obtain ⟨hdays, hstart, hstop, hne, hnonempty⟩ := hcheck window hmem
  exact ⟨⟨hdays, hstart, hstop, hne⟩, hnonempty⟩

theorem parseSchedule_inverts_sample :
    parseSchedule .asciiOnly .asciiOnly "Fri-MON 20:00-06:00 , sat,Wed  00:00-24:00" =
      .ok sampleWindows :=
  (parseSchedule_inverts .asciiOnly .asciiOnly sampleWindows (List.cons_ne_nil _ _)
    sampleWindows_weekly).2 _ sampleWindows_renders

end Taas.Box
