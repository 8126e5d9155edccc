import Mathlib.Data.List.Infix
import Taas.Infra.Lists

/-!
# Extraction

A directory that members are extracted into, one after another: a file of the same path is
written over, and a path through a file, or to a folder, is refused.

* `FileTree.write`, `extract`, `read`.
* `FileTree.extract_eq_some_iff` — when the members can be extracted, and what is then there.
* `FileTree.read_extract` — members at different paths keep their contents.
-/

namespace Infra

/-- The regular files of a directory, newest first, each by the names of its path. -/
abbrev FileTree (κ β : Type) := List (List κ × β)

/-- A file at one of the two paths stands in the way of the other. -/
def Clash {κ : Type} (a b : List κ) : Prop := a ≠ b ∧ (a <+: b ∨ b <+: a)

/-- Neither path is the other one, or on the way to it. -/
def Apart {κ : Type} (a b : List κ) : Prop := ¬a <+: b ∧ ¬b <+: a

namespace FileTree

variable {κ β : Type}

instance [DecidableEq κ] (a b : List κ) : Decidable (Clash a b) :=
  inferInstanceAs (Decidable (a ≠ b ∧ (a <+: b ∨ b <+: a)))

instance [DecidableEq κ] (a b : List κ) : Decidable (Apart a b) :=
  inferInstanceAs (Decidable (¬a <+: b ∧ ¬b <+: a))

/-- Paths apart are those that neither clash nor are one. -/
theorem apart_iff {a b : List κ} : Apart a b ↔ ¬Clash a b ∧ a ≠ b := by
  unfold Apart Clash
  constructor
  · rintro ⟨hab, hba⟩
    refine ⟨fun h => h.2.elim hab hba, ?_⟩
    rintro rfl
    exact hab (List.prefix_refl a)
  · rintro ⟨hclash, hne⟩
    exact ⟨fun h => hclash ⟨hne, Or.inl h⟩, fun h => hclash ⟨hne, Or.inr h⟩⟩

variable [DecidableEq κ]

def read (files : FileTree κ β) (path : List κ) : Option β := files.lookup path

/-- The file, with the folders it needs. -/
def write (files : FileTree κ β) (member : List κ × β) : Option (FileTree κ β) :=
  if ∃ f ∈ files, Clash f.1 member.1 then none else some (member :: files)

def extract (files : FileTree κ β) (members : List (List κ × β)) : Option (FileTree κ β) :=
  members.foldlM write files

/-- Members can be extracted when none clashes with a file there, or with an earlier one. -/
theorem extract_eq_some_iff {members : List (List κ × β)} {files files' : FileTree κ β} :
    files.extract members = some files' ↔
      (∀ f ∈ files, ∀ m ∈ members, ¬Clash f.1 m.1) ∧
        members.Pairwise (fun a b => ¬Clash a.1 b.1) ∧ files' = members.reverse ++ files := by
  induction members generalizing files with
  | nil => simp [extract, eq_comm]
  | cons m members ih =>
    by_cases hm : ∃ f ∈ files, Clash f.1 m.1
    · have hnone : files.extract (m :: members) = none := by simp [extract, write, hm]
      obtain ⟨f, hf, hclash⟩ := hm
      constructor
      · intro h
        rw [hnone] at h
        cases h
      · rintro ⟨hfiles, -⟩
        exact absurd hclash (hfiles f hf m List.mem_cons_self)
    · have hnext : files.extract (m :: members) = FileTree.extract (m :: files) members := by
        simp only [extract, List.foldlM_cons, write, if_neg hm]
        rfl
      have hm : ∀ f ∈ files, ¬Clash f.1 m.1 := fun f hf hc => hm ⟨f, hf, hc⟩
      rw [hnext, ih, List.pairwise_cons, List.reverse_cons, List.append_assoc,
        List.singleton_append]
      constructor
      · rintro ⟨hfiles, hpairs, rfl⟩
        refine ⟨fun f hf k hk => ?_, ⟨hfiles m List.mem_cons_self, hpairs⟩, rfl⟩
        rcases List.mem_cons.mp hk with rfl | hk
        · exact hm f hf
        · exact hfiles f (List.mem_cons_of_mem _ hf) k hk
      · rintro ⟨hfiles, ⟨hfirst, hpairs⟩, rfl⟩
        refine ⟨fun f hf k hk => ?_, hpairs, rfl⟩
        rcases List.mem_cons.mp hf with rfl | hf
        · exact hfirst k hk
        · exact hfiles f hf k (List.mem_cons_of_mem _ hk)

/-- With every path written once, a file reads as its member. -/
theorem read_reverse {members : List (List κ × β)} (h : (members.map Prod.fst).Nodup)
    {m : List κ × β} (hm : m ∈ members) : FileTree.read members.reverse m.1 = some m.2 := by
  have hm : (m.1, m.2) ∈ members.reverse := List.mem_reverse.mpr hm
  refine (lookup_of_mem ?_ hm : List.lookup m.1 members.reverse = some m.2)
  rw [List.map_reverse]
  exact List.nodup_reverse.mpr h

/-- **Members at paths apart are all extracted, each as it was.** -/
theorem extract_of_apart {members : List (List κ × β)}
    (h : members.Pairwise fun a b => Apart a.1 b.1) :
    FileTree.extract [] members = some members.reverse ∧
      ∀ m ∈ members, FileTree.read members.reverse m.1 = some m.2 := by
  constructor
  · refine extract_eq_some_iff.mpr ⟨by simp, ?_, by simp⟩
    exact h.imp fun hab => (apart_iff.mp hab).1
  · intro m hm
    refine read_reverse ?_ hm
    rw [List.nodup_iff_pairwise_ne, List.pairwise_map]
    exact h.imp fun hab => (apart_iff.mp hab).2

/-- And only then, if every path is written once. -/
theorem apart_of_extract {members : List (List κ × β)} {files : FileTree κ β}
    (hnodup : (members.map Prod.fst).Nodup) (h : FileTree.extract [] members = some files) :
    members.Pairwise fun a b => Apart a.1 b.1 := by
  obtain ⟨-, hpairs, -⟩ := extract_eq_some_iff.mp h
  rw [List.nodup_iff_pairwise_ne, List.pairwise_map] at hnodup
  exact hpairs.imp₂ (fun _ _ hc hne => apart_iff.mpr ⟨hc, hne⟩) hnodup

end FileTree

end Infra
