import Tsr.Lib.Ancestry
import Tsr.Tspath.Path

/-!
# Directories of a file table

A snapshot keeps, beside its table of files, which paths lie under each directory.  The index is built
from the files, or brought up to date from that of the base.

* `directories`         each file is linked to its directory, and so on up to the root;
* `updateDirectories`   new files are linked up to a directory that is there already, old ones are
                        taken out together with the directories that become empty.

`updateDirectories_same_iff` says when both have the same keys.  They do, unless a file of the base
has become a directory, or a directory of the base a file.
-/

set_option linter.unusedVariables false

namespace Tsr.Project
open Tsr.Json (Bytes)
open Tsr.Tspath
open Tsr.Lib.Ancestry

abbrev JsString := Bytes

/-- the children of a directory, with their base names -/
abbrev Directory := Std.ExtTreeMap JsString JsString

abbrev Directories := Std.ExtTreeMap JsString Directory

/-- what a snapshot knows of a file on disk -/
structure DiskEntry (H : Type) where
  name : JsString
  file : Option H
  needsReload : Bool
  realpath : Option JsString
deriving DecidableEq

abbrev DiskFiles (H : Type) := Std.ExtTreeMap JsString (DiskEntry H)

def Directories.link (m : Directories) (parent child name : JsString) : Directories :=
  m.insert parent ((m[parent]?.getD ∅).insert child (baseName name))

/-- the links from a path up to its root -/
def linkAll (m : Directories) (child name : JsString) : Directories :=
  if h : directory child = child then m
  else linkAll (m.link (directory child) child name) (directory child) (directory name)
termination_by height child
decreasing_by exact height_directory child h

def directories (files : List (JsString × JsString)) : Directories :=
  files.foldl (fun m file => linkAll m file.1 file.2) ∅

/-- the links from a new path up to a directory that is there -/
def linkNew (m : Directories) (child name : JsString) : Directories :=
  if h : directory child = child then m
  else if m.contains (directory child) then m.link (directory child) child name
  else linkNew (m.link (directory child) child name) (directory child) (directory name)
termination_by height child
decreasing_by exact height_directory child h

/-- takes a path out, and the directories that become empty -/
def unlink (m : Directories) (child : JsString) : Directories :=
  if h : directory child = child then m
  else match m[directory child]? with
    | none => m
    | some dir =>
      if (dir.erase child).isEmpty then unlink (m.erase (directory child)) (directory child)
      else m.insert (directory child) (dir.erase child)
termination_by height child
decreasing_by exact height_directory child h

section
variable {H : Type}

/-- the paths of a table, with the names of their files -/
def named (files : DiskFiles H) : List (JsString × JsString) :=
  files.toList.map fun e => (e.1, e.2.name)

/-- `baseFiles` and `baseDirectories` are the table and the index of the base -/
def updateDirectories (baseFiles : DiskFiles H) (baseDirectories : Directories)
    (files : DiskFiles H) : Directories :=
  let added := (named files).filter fun e => !baseFiles.contains e.1
  let removed := baseFiles.keys.filter fun path => !files.contains path
  removed.foldl unlink (added.foldl (fun m file => linkNew m file.1 file.2) baseDirectories)

end

/-- `child` lies under `parent` -/
def Directories.Has (m : Directories) (parent child : JsString) : Prop :=
  ∃ dir, m[parent]? = some dir ∧ child ∈ dir

/-- the same directories, with the same children -/
def SameKeys (m m' : Directories) : Prop :=
  (∀ parent, parent ∈ m ↔ parent ∈ m') ∧ ∀ parent child, m.Has parent child ↔ m'.Has parent child

/-! ## the links of an index -/

/-- paths, each under its directory -/
def forest : Forest JsString := ⟨directory, height, height_directory⟩

/-- the paths that lie under their directory -/
def links (m : Directories) : Set JsString := {c | m.Has (directory c) c}

/-- every directory has children, and they belong there -/
structure Tidy (m : Directories) : Prop where
  filled : ∀ parent, parent ∈ m → ∃ child, m.Has parent child
  proper : ∀ parent child, m.Has parent child → directory child = parent ∧ directory child ≠ child

variable {m m' : Directories} {c x name parent : JsString}

theorem has_mem (h : m.Has parent c) : parent ∈ m := by
  obtain ⟨dir, hdir, -⟩ := h
  exact Std.ExtTreeMap.mem_iff_isSome_getElem?.2 (Option.isSome_of_eq_some hdir)

namespace Tidy

theorem has_iff (h : Tidy m) : m.Has parent c ↔ c ∈ links m ∧ directory c = parent := by
  constructor
  · intro hc
    obtain ⟨hparent, -⟩ := h.proper parent c hc
    subst hparent
    exact ⟨hc, rfl⟩
  · rintro ⟨hc, rfl⟩
    exact hc

theorem mem_iff (h : Tidy m) : parent ∈ m ↔ ∃ d ∈ links m, directory d = parent := by
  constructor
  · intro hmem
    obtain ⟨d, hd⟩ := h.filled parent hmem
    exact ⟨d, h.has_iff.1 hd⟩
  · rintro ⟨d, hd, rfl⟩
    exact has_mem hd

theorem contains_iff (h : Tidy m) : m.contains (directory c) = true ↔ HasSibling forest (links m) c :=
  h.mem_iff

end Tidy

theorem sameKeys_iff (h : Tidy m) (h' : Tidy m') : SameKeys m m' ↔ links m = links m' := by
  constructor
  · rintro ⟨-, hhas⟩
    ext c
    exact hhas (directory c) c
  · intro heq
    refine ⟨?_, ?_⟩
    · intro parent
      rw [h.mem_iff, h'.mem_iff, heq]
    · intro parent child
      rw [h.has_iff, h'.has_iff, heq]

/-! ## linking one path -/

theorem has_link : (m.link parent c name).Has x d ↔ m.Has x d ∨ x = parent ∧ d = c := by
  rw [Directories.Has, Directories.Has, Directories.link]
  simp only [Std.ExtTreeMap.getElem?_insert, Std.compare_eq_iff_eq]
  by_cases hx : parent = x
  · subst hx
    rw [if_pos rfl]
    constructor
    · rintro ⟨dir, hdir, hd⟩
      cases hdir
      rw [Std.ExtTreeMap.mem_insert, Std.compare_eq_iff_eq] at hd
      rcases hd with rfl | hd
      · exact .inr ⟨rfl, rfl⟩
      · left
        cases hm : m[parent]? with
        | none =>
          rw [hm] at hd
          exact absurd hd Std.ExtTreeMap.not_mem_empty
        | some dir =>
          rw [hm] at hd
          exact ⟨dir, rfl, hd⟩
    · rintro (⟨dir, hdir, hd⟩ | ⟨-, rfl⟩)
      · refine ⟨_, rfl, ?_⟩
        rw [hdir, Std.ExtTreeMap.mem_insert]
        exact .inr hd
      · refine ⟨_, rfl, ?_⟩
        rw [Std.ExtTreeMap.mem_insert, Std.compare_eq_iff_eq]
        exact .inl rfl
  · rw [if_neg hx]
    constructor
    · exact .inl
    · rintro (h | ⟨rfl, -⟩)
      · exact h
      · exact absurd rfl hx

theorem mem_link : x ∈ m.link parent c name ↔ x = parent ∨ x ∈ m := by
  rw [Directories.link, Std.ExtTreeMap.mem_insert, Std.compare_eq_iff_eq, eq_comm]

theorem links_link (hroot : directory c ≠ c) :
    links (m.link (directory c) c name) = insert c (links m) := by
  ext x
  show (m.link (directory c) c name).Has (directory x) x ↔ x = c ∨ m.Has (directory x) x
  rw [has_link]
  constructor
  · rintro (h | ⟨-, h⟩)
    · exact .inr h
    · exact .inl h
  · rintro (rfl | h)
    · exact .inr ⟨rfl, rfl⟩
    · exact .inl h

theorem Tidy.link (h : Tidy m) (hroot : directory c ≠ c) : Tidy (m.link (directory c) c name) := by
  refine ⟨?_, ?_⟩
  · intro x hx
    rcases mem_link.1 hx with rfl | hx
    · exact ⟨c, has_link.2 (.inr ⟨rfl, rfl⟩)⟩
    · obtain ⟨d, hd⟩ := h.filled x hx
      exact ⟨d, has_link.2 (.inl hd)⟩
  · intro x d hd
    rcases has_link.1 hd with hd | ⟨rfl, rfl⟩
    · exact h.proper x d hd
    · exact ⟨rfl, hroot⟩

/-! ## the walks -/

theorem linkAll_spec (h : Tidy m) : Tidy (linkAll m c name) ∧
    ∀ x, x ∈ links (linkAll m c name) ↔ x ∈ links m ∨ directory x ≠ x ∧ Above forest c x := by
  induction m, c, name using linkAll.induct with
  | case1 m c name hroot =>
    rw [linkAll, dif_pos hroot]
    refine ⟨h, ?_⟩
    intro x
    constructor
    · exact .inl
    · rintro (hx | ⟨hx, ha⟩)
      · exact hx
      · exact absurd (ha.of_root hroot ▸ hroot) hx
  | case2 m c name hroot ih =>
    rw [linkAll, dif_neg hroot]
    obtain ⟨htidy, hlinks⟩ := ih (h.link hroot)
    refine ⟨htidy, ?_⟩
    intro x
    rw [hlinks, links_link hroot]
    constructor
    · rintro ((rfl | hx) | ⟨hx, ha⟩)
      · exact .inr ⟨hroot, .refl _⟩
      · exact .inl hx
      · exact .inr ⟨hx, .up hroot ha⟩
    · rintro (hx | ⟨hx, ha⟩)
      · exact .inl (.inr hx)
      · by_cases hxc : c = x
        · exact .inl (.inl hxc.symm)
        · exact .inr ⟨hx, (ha.of_ne hxc).2⟩

theorem tidy_empty : Tidy ∅ := by
  refine ⟨?_, ?_⟩
  · intro x hx
    exact absurd hx Std.ExtTreeMap.not_mem_empty
  · intro x d hd
    exact absurd (has_mem hd) Std.ExtTreeMap.not_mem_empty

theorem links_empty : links ∅ = ∅ := by
  ext x
  show Directories.Has ∅ (directory x) x ↔ False
  exact ⟨fun h => absurd (has_mem h) Std.ExtTreeMap.not_mem_empty, False.elim⟩

theorem directories_fold (files : List (JsString × JsString)) (h : Tidy m) :
    Tidy (files.foldl (fun m file => linkAll m file.1 file.2) m) ∧
      ∀ x, x ∈ links (files.foldl (fun m file => linkAll m file.1 file.2) m) ↔
        x ∈ links m ∨ x ∈ nodes forest {path | path ∈ files.map (·.1)} := by
  induction files generalizing m with
  | nil =>
    refine ⟨h, ?_⟩
    intro x
    constructor
    · exact .inl
    · rintro (hx | ⟨-, f, hf, -⟩)
      · exact hx
      · exact absurd hf List.not_mem_nil
  | cons file files ih =>
    obtain ⟨htidy, hlinks⟩ : Tidy (linkAll m file.1 file.2) ∧ _ := linkAll_spec h
    obtain ⟨htidy', hlinks'⟩ := ih htidy
    refine ⟨htidy', ?_⟩
    intro x
    rw [List.foldl_cons, hlinks', hlinks]
    constructor
    · rintro ((hx | ⟨hx, ha⟩) | ⟨hx, f, hf, ha⟩)
      · exact .inl hx
      · exact .inr ⟨hx, file.1, List.mem_cons_self, ha⟩
      · exact .inr ⟨hx, f, List.mem_cons_of_mem _ hf, ha⟩
    · rintro (hx | ⟨hx, f, hf, ha⟩)
      · exact .inl (.inl hx)
      · rcases List.mem_cons.1 hf with rfl | hf
        · exact .inl (.inr ⟨hx, ha⟩)
        · exact .inr ⟨hx, f, hf, ha⟩

/-- **The index of some files links their nodes.** -/
theorem directories_spec (files : List (JsString × JsString)) :
    Tidy (directories files) ∧
      links (directories files) = nodes forest {path | path ∈ files.map (·.1)} := by
  obtain ⟨htidy, hlinks⟩ := directories_fold files tidy_empty
  refine ⟨htidy, ?_⟩
  ext x
  rw [directories, hlinks, links_empty]
  exact ⟨fun h => h.resolve_left id, .inr⟩

theorem linkNew_spec (h : Tidy m) :
    Tidy (linkNew m c name) ∧ Adds forest (links m) c (links (linkNew m c name)) := by
  induction m, c, name using linkNew.induct with
  | case1 m c name hroot =>
    rw [linkNew, dif_pos hroot]
    exact ⟨h, .root hroot⟩
  | case2 m c name hroot hthere =>
    rw [linkNew, dif_neg hroot, if_pos hthere, links_link hroot]
    exact ⟨h.link hroot, .stop hroot (h.contains_iff.1 hthere)⟩
  | case3 m c name hroot hnew ih =>
    rw [linkNew, dif_neg hroot, if_neg hnew]
    obtain ⟨htidy, hadds⟩ := ih (h.link hroot)
    rw [links_link hroot] at hadds
    exact ⟨htidy, .up hroot (fun hsib => hnew (h.contains_iff.2 hsib)) hadds⟩

/-! ## taking a path out -/

variable {dir : Directory}

theorem has_insert : Directories.Has (m.insert parent dir) x d ↔
    x = parent ∧ d ∈ dir ∨ x ≠ parent ∧ m.Has x d := by
  rw [Directories.Has, Directories.Has]
  simp only [Std.ExtTreeMap.getElem?_insert, Std.compare_eq_iff_eq]
  by_cases hx : parent = x
  · subst hx
    simp
  · simp [hx, Ne.symm hx]

theorem has_erase : Directories.Has (m.erase parent) x d ↔ x ≠ parent ∧ m.Has x d := by
  rw [Directories.Has, Directories.Has]
  simp only [Std.ExtTreeMap.getElem?_erase, Std.compare_eq_iff_eq]
  by_cases hx : parent = x
  · subst hx
    simp
  · simp [hx, Ne.symm hx]

/-- what is left under the directory of a path that goes -/
theorem mem_erase_iff (hdir : m[directory c]? = some dir) :
    x ∈ dir.erase c ↔ m.Has (directory c) x ∧ x ≠ c := by
  rw [Std.ExtTreeMap.mem_erase]
  constructor
  · rintro ⟨hne, hx⟩
    exact ⟨⟨dir, hdir, hx⟩, fun heq => hne (Std.compare_eq_iff_eq.2 heq.symm)⟩
  · rintro ⟨⟨dir', hdir', hx⟩, hne⟩
    cases hdir.symm.trans hdir'
    exact ⟨fun heq => hne (Std.compare_eq_iff_eq.1 heq).symm, hx⟩

theorem erase_empty_iff (h : Tidy m) (hdir : m[directory c]? = some dir) :
    (dir.erase c).isEmpty = true ↔ ¬ HasSibling forest (links m \ {c}) c := by
  rw [Std.ExtTreeMap.isEmpty_iff, Std.ExtTreeMap.eq_empty_iff_forall_not_mem]
  constructor
  · rintro hnone ⟨d, ⟨hd, hdc⟩, hparent⟩
    exact hnone d ((mem_erase_iff hdir).2 ⟨h.has_iff.2 ⟨hd, hparent⟩, hdc⟩)
  · intro hnone d hd
    obtain ⟨hd, hdc⟩ := (mem_erase_iff hdir).1 hd
    obtain ⟨hd, hparent⟩ := h.has_iff.1 hd
    exact hnone ⟨d, ⟨hd, hdc⟩, hparent⟩

theorem links_insert_erase (h : Tidy m) (hdir : m[directory c]? = some dir) :
    links (m.insert (directory c) (dir.erase c)) = links m \ {c} := by
  ext x
  show Directories.Has _ (directory x) x ↔ m.Has (directory x) x ∧ x ≠ c
  rw [has_insert, mem_erase_iff hdir]
  by_cases hx : directory x = directory c
  · rw [hx]
    simp
  · simp only [hx, false_and, ne_eq, not_false_eq_true, true_and, false_or]
    constructor
    · intro hhas
      exact ⟨hhas, fun heq => hx (heq ▸ rfl)⟩
    · exact And.left

theorem links_erase (h : Tidy m) (hdir : m[directory c]? = some dir)
    (hempty : (dir.erase c).isEmpty = true) : links (m.erase (directory c)) = links m \ {c} := by
  ext x
  show Directories.Has _ (directory x) x ↔ m.Has (directory x) x ∧ x ≠ c
  rw [has_erase]
  constructor
  · rintro ⟨hne, hhas⟩
    exact ⟨hhas, fun heq => hne (heq ▸ rfl)⟩
  · rintro ⟨hhas, hne⟩
    refine ⟨?_, hhas⟩
    intro heq
    rw [Std.ExtTreeMap.isEmpty_iff, Std.ExtTreeMap.eq_empty_iff_forall_not_mem] at hempty
    exact hempty x ((mem_erase_iff hdir).2 ⟨heq ▸ hhas, hne⟩)

theorem Tidy.erase (h : Tidy m) : Tidy (m.erase parent) := by
  refine ⟨?_, ?_⟩
  · intro x hx
    rw [Std.ExtTreeMap.mem_erase] at hx
    obtain ⟨d, hd⟩ := h.filled x hx.2
    exact ⟨d, has_erase.2 ⟨fun heq => hx.1 (Std.compare_eq_iff_eq.2 heq.symm), hd⟩⟩
  · intro x d hd
    exact h.proper x d (has_erase.1 hd).2

theorem Tidy.insert_erase (h : Tidy m) (hdir : m[directory c]? = some dir)
    (hrest : ¬ (dir.erase c).isEmpty = true) : Tidy (m.insert (directory c) (dir.erase c)) := by
  refine ⟨?_, ?_⟩
  · intro x hx
    by_cases hxc : x = directory c
    · subst hxc
      rw [Std.ExtTreeMap.isEmpty_iff, Std.ExtTreeMap.eq_empty_iff_forall_not_mem] at hrest
      obtain ⟨d, hd⟩ := not_forall_not.1 hrest
      exact ⟨d, has_insert.2 (.inl ⟨rfl, hd⟩)⟩
    · rw [Std.ExtTreeMap.mem_insert, Std.compare_eq_iff_eq] at hx
      obtain ⟨d, hd⟩ := h.filled x (hx.resolve_left (Ne.symm hxc))
      exact ⟨d, has_insert.2 (.inr ⟨hxc, hd⟩)⟩
  · intro x d hd
    rcases has_insert.1 hd with ⟨rfl, hd'⟩ | ⟨-, hd'⟩
    · exact h.proper _ d ((mem_erase_iff hdir).1 hd').1
    · exact h.proper x d hd'

theorem unlink_spec (h : Tidy m) :
    Tidy (unlink m c) ∧ Removes forest (links m) c (links (unlink m c)) := by
  induction m, c using unlink.induct with
  | case1 m c hroot =>
    rw [unlink, dif_pos hroot]
    exact ⟨h, .root hroot⟩
  | case2 m c hroot hnone =>
    rw [unlink, dif_neg hroot, hnone]
    refine ⟨h, .absent hroot ?_⟩
    intro hsib
    have hmem := h.contains_iff.2 hsib
    rw [Std.ExtTreeMap.contains_eq_isSome_getElem?, hnone] at hmem
    exact absurd hmem Bool.false_ne_true
  | case3 m c hroot dir hdir hempty ih =>
    rw [unlink, dif_neg hroot, hdir]
    dsimp only
    rw [if_pos hempty]
    obtain ⟨htidy, hrem⟩ := ih h.erase
    rw [links_erase h hdir hempty] at hrem
    exact ⟨htidy, .up hroot ((erase_empty_iff h hdir).1 hempty) hrem⟩
  | case4 m c hroot dir hdir hrest =>
    rw [unlink, dif_neg hroot, hdir]
    dsimp only
    rw [if_neg hrest, links_insert_erase h hdir]
    refine ⟨h.insert_erase hdir hrest, .stop hroot ?_⟩
    by_contra hsib
    exact hrest ((erase_empty_iff h hdir).2 hsib)

/-! ## the whole update -/

theorem linkNew_fold (added : List (JsString × JsString)) (h : Tidy m) :
    Tidy (added.foldl (fun m file => linkNew m file.1 file.2) m) ∧
      Each (Adds forest) (links m) (added.map (·.1))
        (links (added.foldl (fun m file => linkNew m file.1 file.2) m)) := by
  induction added generalizing m with
  | nil => exact ⟨h, .nil _⟩
  | cons file added ih =>
    obtain ⟨htidy, hadds⟩ : Tidy (linkNew m file.1 file.2) ∧ _ := linkNew_spec h
    obtain ⟨htidy', hrest⟩ := ih htidy
    exact ⟨htidy', .cons hadds hrest⟩

theorem unlink_fold (removed : List JsString) (h : Tidy m) :
    Tidy (removed.foldl unlink m) ∧
      Each (Removes forest) (links m) removed (links (removed.foldl unlink m)) := by
  induction removed generalizing m with
  | nil => exact ⟨h, .nil _⟩
  | cons path removed ih =>
    obtain ⟨htidy, hrem⟩ := unlink_spec (c := path) h
    obtain ⟨htidy', hrest⟩ := ih htidy
    exact ⟨htidy', .cons hrem hrest⟩

section
variable {H : Type} (baseFiles files : DiskFiles H)

theorem map_named : (named files).map (·.1) = files.keys := by
  rw [named, List.map_map, ← Std.ExtTreeMap.map_fst_toList_eq_keys]
  rfl

/-- the paths of a table -/
def paths (files : DiskFiles H) : Set JsString := {path | path ∈ files}

theorem directories_named : Tidy (directories (named files)) ∧
    links (directories (named files)) = nodes forest (paths files) := by
  obtain ⟨htidy, hlinks⟩ := directories_spec (named files)
  refine ⟨htidy, hlinks.trans ?_⟩
  congr 1
  ext path
  show path ∈ (named files).map (·.1) ↔ path ∈ files
  rw [map_named, Std.ExtTreeMap.mem_keys]

/-- both passes of the update, as walks over the links -/
theorem updateDirectories_spec :
    Tidy (updateDirectories baseFiles (directories (named baseFiles)) files) ∧
      Each (Removes forest) (nodes forest (paths baseFiles ∪ paths files))
        (baseFiles.keys.filter fun path => !files.contains path)
        (links (updateDirectories baseFiles (directories (named baseFiles)) files)) := by
  obtain ⟨hbase, hlinks⟩ := directories_named baseFiles
  obtain ⟨htidy, hadds⟩ :=
    linkNew_fold ((named files).filter fun e => !baseFiles.contains e.1) hbase
  rw [hlinks] at hadds
  have hnodes := nodes_addsAll hadds
  have hset : paths baseFiles ∪
      {c | c ∈ ((named files).filter fun e => !baseFiles.contains e.1).map (·.1)} =
        paths baseFiles ∪ paths files := by
    ext path
    have hmap : path ∈ ((named files).filter fun e => !baseFiles.contains e.1).map (·.1) ↔
        path ∈ files ∧ path ∉ baseFiles := by
      rw [← Std.ExtTreeMap.mem_keys, ← map_named, List.mem_map, List.mem_map]
      constructor
      · rintro ⟨e, he, rfl⟩
        rw [List.mem_filter, Bool.not_eq_true', ← Bool.not_eq_true, Std.ExtTreeMap.contains_iff_mem] at he
        exact ⟨⟨e, he.1, rfl⟩, he.2⟩
      · rintro ⟨⟨e, he, rfl⟩, hnot⟩
        refine ⟨e, ?_, rfl⟩
        rw [List.mem_filter, Bool.not_eq_true', ← Bool.not_eq_true, Std.ExtTreeMap.contains_iff_mem]
        exact ⟨he, hnot⟩
    show path ∈ baseFiles ∨ _ ↔ path ∈ baseFiles ∨ path ∈ files
    rw [show (path ∈ {c | c ∈ ((named files).filter fun e => !baseFiles.contains e.1).map (·.1)}) =
      (path ∈ files ∧ path ∉ baseFiles) from propext hmap]
    tauto
  rw [hset] at hnodes
  rw [← hnodes]
  exact unlink_fold _ htidy

theorem same_iff_replaces :
    SameKeys (updateDirectories baseFiles (directories (named baseFiles)) files)
      (directories (named files)) ↔ Replaces forest (paths baseFiles) (paths files) := by
  obtain ⟨htidy, hwalks⟩ := updateDirectories_spec baseFiles files
  obtain ⟨htidy', hlinks⟩ := directories_named files
  rw [sameKeys_iff htidy htidy', hlinks]
  refine nodes_removes ?_ hwalks
  intro path
  rw [List.mem_filter, Std.ExtTreeMap.mem_keys, Bool.not_eq_true', ← Bool.not_eq_true,
    Std.ExtTreeMap.contains_iff_mem]
  rfl

/-- **The update has the keys of an index built anew, if and only if no old file is a directory of the
new table, and no directory of the old files alone is a file of it.** -/
theorem updateDirectories_same_iff :
    SameKeys (updateDirectories baseFiles (directories (named baseFiles)) files)
        (directories (named files)) ↔
      (∀ r ∈ baseFiles, r ∉ files → directory r ≠ r → ¬ ∃ f ∈ files, Above forest f r) ∧
        ∀ f ∈ files, directory f ≠ f → (∃ b ∈ baseFiles, b ≠ f ∧ Above forest b f) →
          ∃ g ∈ files, g ≠ f ∧ Above forest g f := by
  rw [same_iff_replaces]
  constructor
  · intro h
    exact ⟨h.above, h.below⟩
  · rintro ⟨habove, hbelow⟩
    exact ⟨habove, hbelow⟩

end

/-- a table with one file -/
def oneFile (path : JsString) : DiskFiles Unit := (∅ : DiskFiles Unit).insert path ⟨path, none, false, none⟩

/-- `/a` gives way to `/a/b`, and the root directory is lost -/
theorem updateDirectories_file_to_directory :
    ¬ SameKeys (updateDirectories (oneFile [0x2F, 0x61]) (directories (named (oneFile [0x2F, 0x61])))
        (oneFile [0x2F, 0x61, 0x2F, 0x62])) (directories (named (oneFile [0x2F, 0x61, 0x2F, 0x62]))) := by
  rw [same_iff_replaces]
  intro h
  have hmem : ∀ path : JsString, path ∈ oneFile path := fun path => Std.ExtTreeMap.mem_insert_self
  have hnot : [0x2F, 0x61] ∉ oneFile [0x2F, 0x61, 0x2F, 0x62] := by
    rw [oneFile, Std.ExtTreeMap.mem_insert, Std.compare_eq_iff_eq]
    rintro (heq | hin)
    · cases heq
    · exact Std.ExtTreeMap.not_mem_empty hin
  refine h.above _ (hmem _) hnot (by decide) ⟨_, hmem _, ?_⟩
  exact .up (by decide) (.refl _)

end Tsr.Project
