import Mathlib.Data.List.Infix
import Mathlib.Data.List.Lex
import Taas.Infra.Lists

/-!
# POSIX paths

`PurePosixPath` of Python 3.13, on texts as lists of characters: what a path is parsed into,
its name and stem, and how it is built from segments and written out again.

* `components` — the names that a path goes through, whichever way it is written.
* `PurePosixPath.parse`, `ofSegments`, `str`, `withSuffix` — the operations.
* `components_str_append` — writing a path out and reading its components gives its tail.
-/

namespace Infra

/-- A text: its code points. -/
abbrev Text := List Char

instance lawfulBEqText : LawfulBEq Text := inferInstance

/-- What a path goes through: `//` and `.` name nothing. -/
def components (t : Text) : List Text :=
  (t.splitOn '/').filter fun part => part ≠ [] ∧ part ≠ ['.']

/-- A component: it is not skipped, and it has no slash. -/
def IsComponent (part : Text) : Prop := part ≠ [] ∧ part ≠ ['.'] ∧ '/' ∉ part

/-- The position of the last `c`. -/
def rfind (c : Char) (t : Text) : Option Nat :=
  if c ∈ t then some (t.length - 1 - t.reverse.idxOf c) else none

structure PurePosixPath where
  /-- Empty, `/` or `//`. -/
  root : Text
  tail : List Text
deriving DecidableEq

namespace PurePosixPath

/-- The root, and the rest. Two leading slashes are a root of their own, three are one. -/
def splitroot : Text → Text × Text
  | '/' :: '/' :: '/' :: rest => (['/'], '/' :: '/' :: rest)
  | '/' :: '/' :: rest => (['/', '/'], rest)
  | '/' :: rest => (['/'], rest)
  | p => ([], p)

def parse (p : Text) : PurePosixPath :=
  ⟨(splitroot p).1, components (splitroot p).2⟩

/-- The root and the names, as the path lists them. -/
def parts (p : PurePosixPath) : List Text :=
  if p.root = [] then p.tail else p.root :: p.tail

/-- The last name, empty for a root. -/
def name (p : PurePosixPath) : Text := p.tail.getLast?.getD []

/-- The name without its last suffix. A dot that starts or ends the name starts none. -/
def stem (p : PurePosixPath) : Text :=
  match rfind '.' p.name with
  | some i => if 0 < i ∧ i < p.name.length - 1 then p.name.take i else p.name
  | none => p.name

/-- The last suffix, with its dot. -/
def suffix (p : PurePosixPath) : Text :=
  match rfind '.' p.name with
  | some i => if 0 < i ∧ i < p.name.length - 1 then p.name.drop i else []
  | none => []

/-- `none`: a `ValueError`. -/
def withName (p : PurePosixPath) (name : Text) : Option PurePosixPath :=
  if name = [] ∨ '/' ∈ name ∨ name = ['.'] then none
  else if p.tail = [] then none
  else some { p with tail := p.tail.dropLast ++ [name] }

def withSuffix (p : PurePosixPath) (suffix : Text) : Option PurePosixPath :=
  if p.stem = [] then none
  else if suffix ≠ [] ∧ ¬(suffix.head? = some '.' ∧ 1 < suffix.length) then none
  else p.withName (p.stem ++ suffix)

/-- `posixpath.join` of two -/
def join (a b : Text) : Text :=
  if b.head? = some '/' then b
  else if a = [] ∨ a.getLast? = some '/' then a ++ b
  else a ++ '/' :: b

/-- `PurePosixPath(*segments)` -/
def ofSegments : List Text → PurePosixPath
  | [] => parse []
  | p :: rest => parse (rest.foldl join p)

def str (p : PurePosixPath) : Text :=
  if p.root = [] ∧ p.tail = [] then ['.'] else p.root ++ ['/'].intercalate p.tail

end PurePosixPath

/-! ## Components -/

@[simp] theorem components_nil : components [] = [] := rfl

/-- A slash ends a component. -/
theorem components_append_slash (a b : Text) :
    components (a ++ '/' :: b) = components a ++ components b := by
  unfold components
  rw [List.splitOn_append_cons_self, List.filter_append]

@[simp] theorem components_slash (t : Text) : components ('/' :: t) = components t := by
  simpa using components_append_slash [] t

theorem IsComponent.components {part : Text} (h : IsComponent part) :
    components part = [part] := by
  obtain ⟨hne, hdot, hslash⟩ := h
  unfold Infra.components
  rw [List.splitOn_eq_singleton hslash]
  simp [hne, hdot]

/-- A component in front of a slash is the first one. -/
theorem IsComponent.components_slash {part : Text} (h : IsComponent part) (t : Text) :
    Infra.components (part ++ '/' :: t) = part :: Infra.components t := by
  rw [components_append_slash, h.components, List.singleton_append]

theorem isComponent_of_mem {t part : Text} (h : part ∈ components t) : IsComponent part := by
  obtain ⟨hmem, hkept⟩ := List.mem_filter.mp h
  have hkept : part ≠ [] ∧ part ≠ ['.'] := by simpa using hkept
  exact ⟨hkept.1, hkept.2, not_mem_of_mem_splitOn hmem⟩

/-- Names joined by slashes, and a text after the last one: all but the last stand as they
are. -/
theorem components_intercalate_append {names : List Text} (h : ∀ n ∈ names, IsComponent n)
    (last rest : Text) :
    components (['/'].intercalate (names ++ [last]) ++ rest) = names ++ components (last ++ rest) := by
  induction names with
  | nil => simp
  | cons n names ih =>
    have hne : names ++ [last] ≠ [] := by simp
    rw [List.cons_append, List.intercalate_cons_of_ne_nil hne, List.append_assoc,
      List.append_assoc, List.singleton_append, (h n List.mem_cons_self).components_slash,
      ih fun m hm => h m (List.mem_cons_of_mem _ hm), List.cons_append]

namespace PurePosixPath

/-! ## Parsing and writing -/

/-- What a parse gives: one of the three roots, and components. -/
structure WellFormed (p : PurePosixPath) : Prop where
  root : p.root = [] ∨ p.root = ['/'] ∨ p.root = ['/', '/']
  tail : ∀ n ∈ p.tail, IsComponent n

theorem wellFormed_parse (t : Text) : (parse t).WellFormed where
  root := by
    unfold parse splitroot
    split <;> simp
  tail _ hn := isComponent_of_mem hn

/-- A text that starts with no slash has no root. -/
theorem splitroot_of_head {t : Text} (h : t.head? ≠ some '/') : splitroot t = ([], t) := by
  unfold splitroot
  split
  · simp at h
  · simp at h
  · simp at h
  · rfl

theorem splitroot_slash {t : Text} (h : t.head? ≠ some '/') :
    splitroot ('/' :: t) = (['/'], t) := by
  match t, h with
  | [], _ => rfl
  | c :: rest, h =>
    have hc : c ≠ '/' := by simpa using h
    simp [splitroot, hc]

/-- Exactly two leading slashes. -/
theorem splitroot_slash_slash {t : Text} (h : t.head? ≠ some '/') :
    splitroot ('/' :: '/' :: t) = (['/', '/'], t) := by
  match t, h with
  | [], _ => rfl
  | c :: rest, h =>
    have hc : c ≠ '/' := by simpa using h
    simp [splitroot, hc]

/-- The root, and a text that starts with no slash, are read apart again. -/
theorem WellFormed.parse_append {p : PurePosixPath} (hp : p.WellFormed) {t : Text}
    (h : t.head? ≠ some '/') : parse (p.root ++ t) = ⟨p.root, components t⟩ := by
  unfold parse
  rcases hp.root with hr | hr | hr <;> rw [hr]
  · rw [List.nil_append, splitroot_of_head h]
  · rw [List.singleton_append, splitroot_slash h]
  · rw [List.cons_append, List.singleton_append, splitroot_slash_slash h]

end PurePosixPath

/-- A component starts with no slash. -/
theorem IsComponent.head {part : Text} (h : IsComponent part) (t : Text) :
    (part ++ t).head? ≠ some '/' := by
  obtain ⟨hne, -, hslash⟩ := h
  obtain ⟨c, rest, rfl⟩ := List.exists_cons_of_ne_nil hne
  intro hc
  have hc : c = '/' := by simpa using hc
  exact hslash (hc ▸ List.mem_cons_self)

/-- Nor does it end with one. -/
theorem IsComponent.getLast {part : Text} (h : IsComponent part) (t : Text) :
    (t ++ part).getLast? ≠ some '/' := by
  obtain ⟨hne, -, hslash⟩ := h
  rw [List.getLast?_append_of_ne_nil _ hne]
  exact fun hc => hslash (List.mem_of_getLast? hc)

theorem head_intercalate {names : List Text} (h : ∀ n ∈ names, IsComponent n) (t : Text)
    (hne : names ≠ [] ∨ t.head? ≠ some '/') :
    (['/'].intercalate names ++ t).head? ≠ some '/' := by
  match names, h with
  | [], _ => simpa using hne
  | [n], h => simpa using (h n List.mem_cons_self).head t
  | n :: m :: rest, h =>
    rw [List.intercalate_cons_cons, List.append_assoc, List.append_assoc]
    exact (h n List.mem_cons_self).head _

theorem components_intercalate {names : List Text} (h : ∀ n ∈ names, IsComponent n) :
    components (['/'].intercalate names) = names := by
  rcases List.eq_nil_or_concat names with rfl | ⟨init, last, rfl⟩
  · rfl
  · rw [List.concat_eq_append] at h ⊢
    have hinit : ∀ n ∈ init, IsComponent n := fun n hn => h n (by simp [hn])
    have hlast : IsComponent last := h last (by simp)
    have hparts := components_intercalate_append hinit last []
    rw [List.append_nil, List.append_nil, hlast.components] at hparts
    exact hparts

namespace PurePosixPath

/-- Joining components, one after another, puts a slash before each. -/
theorem foldl_join {names : List Text} (h : ∀ n ∈ names, IsComponent n) {a : Text}
    (hne : a ≠ []) (hlast : a.getLast? ≠ some '/') :
    names.foldl join a = ['/'].intercalate (a :: names) := by
  induction names generalizing a with
  | nil => simp
  | cons n names ih =>
    have hn : IsComponent n := h n List.mem_cons_self
    have hhead : n.head? ≠ some '/' := by simpa using hn.head []
    have hjoin : join a n = a ++ '/' :: n := by simp [join, hhead, hne, hlast]
    have hend : (a ++ '/' :: n).getLast? ≠ some '/' := by
      rw [List.append_cons]
      exact hn.getLast _
    rw [List.foldl_cons, hjoin, ih (fun m hm => h m (List.mem_cons_of_mem _ hm)) (by simp) hend]
    cases names with
    | nil => simp
    | cons m names => simp [List.intercalate_cons_cons]

/-- The segments of a path, joined, are the path written out. -/
theorem WellFormed.foldl_parts {p : PurePosixPath} (hp : p.WellFormed) {first : Text}
    {rest : List Text} (h : p.parts = first :: rest) :
    rest.foldl join first = p.root ++ ['/'].intercalate p.tail := by
  have hjoin : ∀ {r : Text}, r.getLast? = some '/' → r ≠ [] → p.root = r →
      rest.foldl join first = p.root ++ ['/'].intercalate p.tail := by
    intro r hlast hne hr
    have hparts : p.root :: p.tail = first :: rest := by
      rw [← h]
      simp [parts, hr, hne]
    obtain ⟨rfl, rfl⟩ := List.cons_eq_cons.mp hparts
    match htail : p.tail with
    | [] => simp
    | n :: names =>
      have hn : IsComponent n := hp.tail n (by rw [htail]; exact List.mem_cons_self)
      have hhead : n.head? ≠ some '/' := by simpa using hn.head []
      have hjoin : join p.root n = p.root ++ n := by simp [join, hhead, hr, hlast]
      rw [List.foldl_cons, hjoin, foldl_join
        (fun m hm => hp.tail m (by rw [htail]; exact List.mem_cons_of_mem _ hm))
        (by simp [hn.1]) (hn.getLast _)]
      cases names with
      | nil => simp
      | cons m names => simp [List.intercalate_cons_cons]
  rcases hp.root with hr | hr | hr
  · have hparts : p.tail = first :: rest := by
      rw [← h]
      simp [parts, hr]
    have hn : IsComponent first := hp.tail first (by rw [hparts]; exact List.mem_cons_self)
    rw [hr, List.nil_append, hparts]
    exact foldl_join (fun m hm => hp.tail m (by rw [hparts]; exact List.mem_cons_of_mem _ hm))
      hn.1 (by simpa using hn.getLast [])
  · exact hjoin rfl (by simp) hr
  · exact hjoin rfl (by simp) hr

/-- **A path is built again from its parts.** -/
theorem WellFormed.ofSegments_parts {p : PurePosixPath} (hp : p.WellFormed) :
    ofSegments p.parts = p := by
  match h : p.parts with
  | [] =>
    obtain ⟨hroot, htail⟩ : p.root = [] ∧ p.tail = [] := by
      unfold parts at h
      split at h
      · exact ⟨‹_›, h⟩
      · cases h
    rw [show p = ⟨[], []⟩ by rw [← hroot, ← htail]]
    rfl
  | first :: rest =>
    rw [ofSegments, hp.foldl_parts h]
    have hhead : (['/'].intercalate p.tail).head? ≠ some '/' := by
      simpa using head_intercalate hp.tail [] (Or.inr (by simp))
    rw [hp.parse_append hhead, components_intercalate hp.tail]

/-! ## Dropping the suffix -/

theorem stem_subset (p : PurePosixPath) : p.stem ⊆ p.name := by
  intro c hc
  unfold stem at hc
  split at hc
  · split at hc
    · exact List.mem_of_mem_take hc
    · exact hc
  · exact hc

theorem name_cases (p : PurePosixPath) : p.name = [] ∨ p.name ∈ p.tail := by
  unfold name
  cases h : p.tail.getLast? with
  | none => exact Or.inl rfl
  | some n => exact Or.inr (List.mem_of_getLast? h)

/-- A name that has something before its suffix keeps that; another one is an error. -/
theorem WellFormed.withSuffix_nil {p : PurePosixPath} (hp : p.WellFormed) :
    p.withSuffix [] = if p.stem = [] ∨ p.stem = ['.'] then none
      else some { p with tail := p.tail.dropLast ++ [p.stem] } := by
  by_cases hstem : p.stem = []
  · simp [withSuffix, hstem]
  have htail : p.tail ≠ [] := by
    intro htail
    have hsub := p.stem_subset
    simp only [name, htail, List.getLast?_nil, Option.getD_none, List.subset_nil] at hsub
    exact hstem hsub
  have hslash : '/' ∉ p.stem := by
    intro hc
    have hc := p.stem_subset hc
    rcases p.name_cases with hn | hn
    · simp [hn] at hc
    · exact (hp.tail _ hn).2.2 hc
  simp [withSuffix, withName, hstem, htail, hslash]

theorem WellFormed.dropSuffix {p q : PurePosixPath} (hp : p.WellFormed)
    (h : p.withSuffix [] = some q) : q.WellFormed := by
  rw [hp.withSuffix_nil] at h
  split at h
  · cases h
  rename_i hstem
  obtain rfl := Option.some.inj h
  refine ⟨hp.root, fun n hn => ?_⟩
  rcases List.mem_append.mp hn with hn | hn
  · exact hp.tail n (List.mem_of_mem_dropLast hn)
  · obtain rfl := List.mem_singleton.mp hn
    refine ⟨fun h => hstem (Or.inl h), fun h => hstem (Or.inr h), fun hc => ?_⟩
    have hc := p.stem_subset hc
    rcases p.name_cases with hname | hname
    · simp [hname] at hc
    · exact (hp.tail _ hname).2.2 hc

/-! ## Writing a path out -/

/-- The last name of a path written out; a dot stands for the empty path. -/
def leaf (p : PurePosixPath) : Text := p.tail.getLast?.getD (if p.root = [] then ['.'] else [])

/-- What a path written out, and a text after it, go through. -/
theorem WellFormed.components_str_append {p : PurePosixPath} (hp : p.WellFormed) (t : Text) :
    components (p.str ++ t) = p.tail.dropLast ++ components (p.leaf ++ t) := by
  have hroot : ∀ s : Text, components (p.root ++ s) = components s := by
    intro s
    rcases hp.root with hr | hr | hr <;> simp [hr]
  rcases List.eq_nil_or_concat p.tail with htail | ⟨init, last, htail⟩
  · by_cases hr : p.root = []
    · simp [str, leaf, htail, hr]
    · simp [str, leaf, htail, hr, hroot]
  · rw [List.concat_eq_append] at htail
    have hinit : ∀ n ∈ init, IsComponent n := fun n hn => hp.tail n (by simp [htail, hn])
    have hstr : p.str = p.root ++ ['/'].intercalate (init ++ [last]) := by simp [str, htail]
    rw [hstr, List.append_assoc, hroot, components_intercalate_append hinit]
    simp [leaf, htail]

end PurePosixPath

end Infra
