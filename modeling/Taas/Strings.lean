import Mathlib.Data.List.DropRight
import Mathlib.Data.String.Basic
import Taas.Infra.Lists

/-!
# Python's strings

The methods of `str` that the modelled code calls.

* `split_join` — items without the separator are split where they were joined.
* `partition_append` — a text is cut at the first separator.
-/

namespace Taas

/-- `str.isspace` of one character -/
def isSpace (c : Char) : Bool :=
  let n := c.toNat
  (9 ≤ n && n ≤ 13) || (28 ≤ n && n ≤ 32) || n == 0x85 || n == 0xA0 || n == 0x1680 ||
    (0x2000 ≤ n && n ≤ 0x200A) || n == 0x2028 || n == 0x2029 || n == 0x202F || n == 0x205F ||
    n == 0x3000

/-- `text.strip()` -/
def strip (text : String) : String :=
  String.ofList ((text.toList.dropWhile isSpace).rdropWhile isSpace)

/-- `text.split(sep)` -/
def split (sep : Char) (text : String) : List String :=
  (text.toList.splitOn sep).map String.ofList

/-- What `text.partition(sep)` has before and after the separator. -/
def partition (sep : Char) (text : String) : String × String :=
  (String.ofList (text.toList.takeWhile (· ≠ sep)),
    String.ofList (text.toList.dropWhile (· ≠ sep)).tail)

/-! ## Lower case -/

/-- What `str.lower` looks up in the Unicode database. The database is not part of the program;
only these facts about it are used. -/
structure CaseTable where
  lowerOf : Char → List Char
  cased : Char → Bool
  caseIgnorable : Char → Bool
  ascii : ∀ c, c.toNat < 128 → lowerOf c = [c.toLower]
  comma : ∀ c, ',' ∈ lowerOf c → c = ','

namespace CaseTable

/-- Whether a capital sigma stands at the end of a word; `before` is read backwards. -/
def finalSigma (table : CaseTable) (before after : List Char) : Bool :=
  (before.find? fun c => !table.caseIgnorable c).any table.cased &&
    !(after.find? fun c => !table.caseIgnorable c).any table.cased

def lowerAt (table : CaseTable) (before : List Char) (c : Char) (after : List Char) : List Char :=
  if c = 'Σ' then if table.finalSigma before after then ['ς'] else ['σ'] else table.lowerOf c

def lowerFrom (table : CaseTable) (before : List Char) : List Char → List Char
  | [] => []
  | c :: after => table.lowerAt before c after ++ table.lowerFrom (c :: before) after

/-- `text.lower()` -/
def lower (table : CaseTable) (text : String) : String :=
  String.ofList (table.lowerFrom [] text.toList)

theorem toLower_comma {c : Char} (h : c.toLower = ',') : c = ',' := by
  unfold Char.toLower at h
  split at h
  · next hc =>
    exfalso
    have hval : (c.val + ('a'.val - 'A'.val)).toNat = 44 := congrArg Char.toNat h
    have hlow := UInt32.le_iff_toNat_le.mp hc.1
    have hhigh := UInt32.le_iff_toNat_le.mp hc.2
    rw [UInt32.toNat_add] at hval
    simp at hval hlow hhigh
    omega
  · exact h

/-- The part of the database that is about ASCII. -/
def asciiOnly : CaseTable where
  lowerOf c := [c.toLower]
  cased c := c.isAlpha
  caseIgnorable c := c ∈ ['\'', '.', ':', '^', '`']
  ascii _ _ := rfl
  comma _ h := toLower_comma (List.mem_singleton.mp h).symm

end CaseTable

/-! ## Numbers -/

/-- The decimal digits of the Unicode database, of which only the ASCII ones are known here. -/
structure DigitTable where
  digitOf : Char → Option Nat
  ascii : ∀ c, c.toNat < 128 → digitOf c = if c.isDigit then some (c.toNat - 48) else none

namespace DigitTable

/-- What `\d` takes. -/
def isDigit (table : DigitTable) (c : Char) : Bool := (table.digitOf c).isSome

/-- Digits, with single underscores between them. -/
def natural (table : DigitTable) (text : List Char) : Option Nat :=
  let parts := text.splitOn '_'
  -- more digits than `sys.get_int_max_str_digits()` are a `ValueError`
  if parts.any List.isEmpty || 4300 < parts.flatten.length then none
  else (parts.flatten.mapM table.digitOf).map fun digits => digits.foldl (fun n d => 10 * n + d) 0

/-- `int(text)`, nothing for a `ValueError` -/
def int (table : DigitTable) (text : String) : Option Int :=
  match (strip text).toList with
  | '-' :: digits => (table.natural digits).map fun n => -(n : Int)
  | '+' :: digits => (table.natural digits).map Int.ofNat
  | digits => (table.natural digits).map Int.ofNat

/-- The digits of ASCII alone. -/
def asciiOnly : DigitTable where
  digitOf c := if c.isDigit then some (c.toNat - 48) else none
  ascii _ _ := rfl

end DigitTable

/-! ## What is joined and split -/

theorem split_join {items : List String} {sep : Char} (hne : items ≠ [])
    (h : ∀ item ∈ items, sep ∉ item.toList) :
    split sep ((String.singleton sep).intercalate items) = items := by
  unfold split
  rw [String.toList_intercalate, String.toList_singleton, List.splitOn_intercalate]
  · simp
  · intro l hl
    obtain ⟨item, hitem, rfl⟩ := List.mem_map.mp hl
    exact h item hitem
  · simpa using hne

/-- No item has the separator. -/
theorem not_mem_of_mem_split {text item : String} {sep : Char} (h : item ∈ split sep text) :
    sep ∉ item.toList := by
  obtain ⟨l, hl, rfl⟩ := List.mem_map.mp h
  rw [String.toList_ofList]
  exact Infra.not_mem_of_mem_splitOn hl

theorem partition_append {sep : Char} {before : String} (h : sep ∉ before.toList)
    (after : String) :
    partition sep (before ++ String.singleton sep ++ after) = (before, after) := by
  have hbefore : ∀ c ∈ before.toList, decide (c ≠ sep) = true := by
    intro c hc
    exact decide_eq_true fun heq => h (heq ▸ hc)
  unfold partition
  rw [String.toList_append, String.toList_append, String.toList_singleton, List.append_assoc,
    List.takeWhile_append_of_pos hbefore, List.dropWhile_append_of_pos hbefore]
  simp

theorem partition_of_notMem {sep : Char} {text : String} (h : sep ∉ text.toList) :
    partition sep text = (text, "") := by
  have htext : ∀ c ∈ text.toList, decide (c ≠ sep) = true := by
    intro c hc
    exact decide_eq_true fun heq => h (heq ▸ hc)
  unfold partition
  rw [List.takeWhile_eq_self_iff.mpr htext, List.dropWhile_eq_nil_iff.mpr htext]
  simp

theorem mem_strip {text : String} {c : Char} (h : c ∈ (strip text).toList) :
    c ∈ text.toList := by
  rw [strip, String.toList_ofList] at h
  exact (List.dropWhile_sublist _).subset ((List.rdropWhile_prefix _ _).subset h)

/-- White space goes from both ends. -/
theorem strip_ofList {before text after : List Char} (hbefore : ∀ c ∈ before, isSpace c = true)
    (hhead : ∀ c ∈ text.head?, isSpace c = false) (hlast : ∀ c ∈ text.getLast?, isSpace c = false)
    (hne : text ≠ []) (hafter : ∀ c ∈ after, isSpace c = true) :
    strip (String.ofList (before ++ text ++ after)) = String.ofList text := by
  have hleft : (before ++ text ++ after).dropWhile isSpace = text ++ after := by
    rw [List.append_assoc, List.dropWhile_append_of_pos hbefore]
    cases text with
    | nil => exact absurd rfl hne
    | cons c text =>
      rw [List.cons_append, List.dropWhile_cons_of_neg (by simp [hhead c rfl])]
  have hright : (text ++ after).rdropWhile isSpace = text := by
    have hafter : ∀ c ∈ after.reverse, isSpace c = true :=
      fun c hc => hafter c (List.mem_reverse.mp hc)
    rw [List.rdropWhile, List.reverse_append, List.dropWhile_append_of_pos hafter]
    cases hr : text.reverse with
    | nil => exact absurd (List.reverse_eq_nil_iff.mp hr) hne
    | cons c rest =>
      have hc : text.getLast? = some c := by
        rw [← List.head?_reverse, hr, List.head?_cons]
      rw [List.dropWhile_cons_of_neg (by simp [hlast c hc]), ← hr, List.reverse_reverse]
  rw [strip, String.toList_ofList, hleft, hright]

theorem strip_eq_self {text : List Char} (hhead : ∀ c ∈ text.head?, isSpace c = false)
    (hlast : ∀ c ∈ text.getLast?, isSpace c = false) (hne : text ≠ []) :
    strip (String.ofList text) = String.ofList text := by
  have hnone : ∀ c ∈ ([] : List Char), isSpace c = true := by simp
  simpa using strip_ofList hnone hhead hlast hne hnone

theorem CaseTable.lowerFrom_ascii (table : CaseTable) (before : List Char) {text : List Char}
    (h : ∀ c ∈ text, c.toNat < 128) : table.lowerFrom before text = text.map Char.toLower := by
  induction text generalizing before with
  | nil => rfl
  | cons c text ih =>
    have hc := h c List.mem_cons_self
    have hsigma : c ≠ 'Σ' := by
      rintro rfl
      exact absurd hc (by decide)
    rw [lowerFrom, lowerAt, if_neg hsigma, table.ascii c hc,
      ih _ fun d hd => h d (List.mem_cons_of_mem _ hd)]
    rfl

/-- The lower case of a text in ASCII. -/
theorem CaseTable.lower_ascii (table : CaseTable) {text : List Char}
    (h : ∀ c ∈ text, c.toNat < 128) :
    table.lower (String.ofList text) = String.ofList (text.map Char.toLower) := by
  rw [lower, String.toList_ofList, table.lowerFrom_ascii [] h]

theorem CaseTable.comma_lowerFrom (table : CaseTable) (before text : List Char)
    (h : ',' ∈ table.lowerFrom before text) : ',' ∈ text := by
  induction text generalizing before with
  | nil => cases h
  | cons c text ih =>
    rcases List.mem_append.mp h with h | h
    · unfold lowerAt at h
      split at h
      · split at h <;> simp at h
      · exact table.comma c h ▸ List.mem_cons_self
    · exact List.mem_cons_of_mem _ (ih _ h)

/-- Only a comma has a comma for a lower case. -/
theorem CaseTable.comma_lower (table : CaseTable) {text : String}
    (h : ',' ∈ (table.lower text).toList) : ',' ∈ text.toList := by
  rw [lower, String.toList_ofList] at h
  exact table.comma_lowerFrom [] _ h

/-! ## Letters and digits of ASCII -/

theorem isAlpha_iff {c : Char} : c.isAlpha = true ↔
    (65 ≤ c.toNat ∧ c.toNat ≤ 90) ∨ (97 ≤ c.toNat ∧ c.toNat ≤ 122) := by
  change ((decide (c.val ≥ 65 ∧ c.val ≤ 90) || (decide (c.val ≥ 97) && decide (c.val ≤ 122))) =
    true) ↔ _
  simp only [Bool.or_eq_true, Bool.and_eq_true, decide_eq_true_eq, ge_iff_le,
    UInt32.le_iff_toNat_le]
  rfl

theorem isAlpha_of_toLower {c : Char} (h : c.toLower.isAlpha = true) : c.isAlpha = true := by
  unfold Char.toLower at h
  split at h
  · next hc =>
    rw [ge_iff_le, UInt32.le_iff_toNat_le, UInt32.le_iff_toNat_le] at hc
    exact isAlpha_iff.mpr (.inl hc)
  · exact h

theorem toNat_of_isDigit {c : Char} (h : c.isDigit = true) : 48 ≤ c.toNat ∧ c.toNat ≤ 57 := by
  simp only [Char.isDigit, Bool.and_eq_true, decide_eq_true_eq, UInt32.le_iff_toNat_le] at h
  exact h

theorem isSpace_of_toNat {c : Char} (h : 32 < c.toNat) (h' : c.toNat < 128) :
    isSpace c = false := by
  simp only [isSpace, Bool.or_eq_false_iff, Bool.and_eq_false_iff, decide_eq_false_iff_not,
    beq_eq_false_iff_ne]
  omega

theorem DigitTable.isDigit_ascii (table : DigitTable) {c : Char} (h : c.toNat < 128) :
    table.isDigit c = c.isDigit := by
  rw [isDigit, table.ascii c h]
  cases c.isDigit <;> rfl

end Taas
