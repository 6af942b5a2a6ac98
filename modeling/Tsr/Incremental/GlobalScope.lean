import Tsr.Incremental.ProgramToSnapshot

/-!
# Files that leave the global scope

When a file that affected the global scope is gone, or does not affect it any more, every file of
the program may check differently.  `marksAll_iff` says exactly when `programToSnapshot` marks all
of them as changed: it misses the files that are gone behind a module file that is gone too, since
`handleFileDelete` looks at the first old file that is not in the program and at no other.
-/

namespace Tsr.Incremental
open Tsr.Lib.Result

section
variable {D E : Type} (sv : Services D E)

/-! ## The property and the condition -/

/-- some old file of the global scope is gone, or is not of the global scope any more -/
def LostGlobal (old : Snapshot D) (p : Program) : Prop :=
  ∃ path info, old.fileInfos[path]? = some info ∧ info.affectsGlobalScope = true ∧
    (p.file path = none ∨ ∃ f, p.file path = some f ∧ fileAffectsGlobalScope f = false)

/-- every file outside the default library is a changed file -/
def MarksAll (p : Program) (s : Snapshot D) : Prop :=
  ∀ f ∈ p.files, p.isLib f.path = false → s.changedFilesSet.contains f.path = true

/-- the file counts as changed before files that are gone are looked at -/
def changes (old : Snapshot D) (p : Program) (hashWithText : Bool) (f : SourceFile) : Bool :=
  old.changedFilesSet.contains f.path ||
    match sv.getReferencedFiles f with
    | .ok references => isChanged old p f (newFileInfo sv hashWithText (some old) p f) references
    | .error _ => false

/-- the first old file, in path order, that is not in the program, was of the global scope -/
def FirstGone (old : Snapshot D) (p : Program) : Prop :=
  ∃ entry, old.fileInfos.toList.find? (fun entry => (p.file entry.1).isNone) = some entry ∧
    entry.2.affectsGlobalScope = true

/-- an old file of the global scope is still there and not of the global scope any more -/
def LostPresent (old : Snapshot D) (p : Program) : Prop :=
  ∃ path info f, old.fileInfos[path]? = some info ∧ info.affectsGlobalScope = true ∧
    p.file path = some f ∧ fileAffectsGlobalScope f = false

/-- no old file of the global scope is gone, or the first file that is gone, in path order, was one
of them, or one is still there without being of the global scope, or all files changed anyway -/
def Noticed (old : Snapshot D) (p : Program) (hashWithText : Bool) : Prop :=
  (∀ path info, old.fileInfos[path]? = some info → info.affectsGlobalScope = true →
    p.file path ≠ none) ∨
  FirstGone old p ∨ LostPresent old p ∨
  ∀ f ∈ p.files, p.isLib f.path = false → changes sv old p hashWithText f = true

/-! ## What the tasks of the files do -/

theorem file_eq_some (p : Program) (f : SourceFile) (hf : f ∈ p.files) : p.file f.path = some f := by
  unfold Program.file
  cases h : p.files.find? fun g => g.path == f.path with
  | none =>
    have hnot := List.find?_eq_none.1 h f hf
    simp at hnot
  | some g =>
    have hpath : g.path = f.path := by simpa using List.find?_some h
    rw [List.inj_on_of_nodup_map p.nodup (List.mem_of_find?_eq_some h) hf hpath]

theorem mem_files_of_file (p : Program) (path : Path) (f : SourceFile) (h : p.file path = some f) :
    f ∈ p.files ∧ f.path = path :=
  ⟨List.mem_of_find?_eq_some h, by simpa using List.find?_some h⟩

/-- what the later passes read of the snapshot that a task leaves -/
structure TaskEffect (changed : Bool) (path : Path) (info : FileInfo) (s s' : Snapshot D) :
    Prop where
  changedFilesSet : s'.changedFilesSet =
    if changed then s.changedFilesSet.insert path else s.changedFilesSet
  fileInfos : s'.fileInfos = s.fileInfos.insert path info
  allFiles : s'.allFilesExcludingDefaultLibraryFile = s.allFilesExcludingDefaultLibraryFile
  hashWithText : s'.hashWithText = s.hashWithText

theorem copyDiagnostics_frame (old : Snapshot D) (p : Program) (f : SourceFile) (s s' : Snapshot D)
    (h : copyDiagnostics sv old p f s = .ok s') : s'.changedFilesSet = s.changedFilesSet ∧
      s'.fileInfos = s.fileInfos ∧
      s'.allFilesExcludingDefaultLibraryFile = s.allFilesExcludingDefaultLibraryFile ∧
      s'.hashWithText = s.hashWithText := by
  unfold copyDiagnostics at h
  split at h
  next =>
    cases h
    exact ⟨rfl, rfl, rfl, rfl⟩
  next =>
    obtain ⟨s1, h1, h2⟩ := (bind_eq_ok _ _ _).1 h
    have hfirst : s1.changedFilesSet = s.changedFilesSet ∧ s1.fileInfos = s.fileInfos ∧
        s1.allFilesExcludingDefaultLibraryFile = s.allFilesExcludingDefaultLibraryFile ∧
        s1.hashWithText = s.hashWithText := by
      unfold copyEmitDiagnostics at h1
      split at h1
      next =>
        cases h1
        exact ⟨rfl, rfl, rfl, rfl⟩
      next =>
        obtain ⟨d, -, h3⟩ := (bind_eq_ok _ _ _).1 h1
        cases h3
        exact ⟨rfl, rfl, rfl, rfl⟩
    unfold copySemanticDiagnostics at h2
    simp only at h2
    split at h2
    next =>
      split at h2
      next =>
        cases h2
        exact hfirst
      next =>
        obtain ⟨d, -, h3⟩ := (bind_eq_ok _ _ _).1 h2
        cases h3
        exact hfirst
    next =>
      cases h2
      exact hfirst

theorem copyEmitSignature_frame (old : Snapshot D) (p : Program) (f : SourceFile) (s : Snapshot D) :
    (copyEmitSignature sv old p f s).changedFilesSet = s.changedFilesSet ∧
      (copyEmitSignature sv old p f s).fileInfos = s.fileInfos ∧
      (copyEmitSignature sv old p f s).allFilesExcludingDefaultLibraryFile =
        s.allFilesExcludingDefaultLibraryFile ∧
      (copyEmitSignature sv old p f s).hashWithText = s.hashWithText := by
  unfold copyEmitSignature
  split
  next =>
    split
    next => exact ⟨rfl, rfl, rfl, rfl⟩
    next => exact ⟨rfl, rfl, rfl, rfl⟩
  next => exact ⟨rfl, rfl, rfl, rfl⟩

theorem fileTask_effect (old : Snapshot D) (p : Program) (f : SourceFile) (s s' : Snapshot D)
    (h : fileTask sv (some old) p f s = .ok s') : ∃ references,
      sv.getReferencedFiles f = .ok references ∧
      TaskEffect (isChanged old p f (newFileInfo sv s.hashWithText (some old) p f) references)
        f.path (newFileInfo sv s.hashWithText (some old) p f) s s' := by
  unfold fileTask at h
  obtain ⟨references, href, h⟩ := (bind_eq_ok _ _ _).1 h
  refine ⟨references, href, ?_⟩
  obtain ⟨s1, h1, h⟩ := (bind_eq_ok _ _ _).1 h
  cases h
  unfold changeTask at h1
  obtain ⟨s2, h2, h1⟩ := (bind_eq_ok _ _ _).1 h1
  cases h1
  generalize isChanged old p f (newFileInfo sv s.hashWithText (some old) p f) references = changed
    at h2 ⊢
  obtain ⟨c1, c2, c3, c4⟩ := copyEmitSignature_frame sv old p f s2
  obtain ⟨d1, d2, d3, d4⟩ := copyDiagnostics_frame sv old p f _ s2 h2
  -- the references are stored before the change is looked at
  have hmark : ∀ s3 : Snapshot D, s3 = (if changed then
        (storeReferences f references s).addFileToChangeSet f.path
        else storeReferences f references s) →
      s3.changedFilesSet = (if changed then s.changedFilesSet.insert f.path else s.changedFilesSet) ∧
      s3.fileInfos = s.fileInfos ∧
      s3.allFilesExcludingDefaultLibraryFile = s.allFilesExcludingDefaultLibraryFile ∧
      s3.hashWithText = s.hashWithText := by
    rintro s3 rfl
    cases changed <;> cases references <;> exact ⟨rfl, rfl, rfl, rfl⟩
  obtain ⟨m1, m2, m3, m4⟩ := hmark _ rfl
  exact ⟨c1.trans (d1.trans m1), by simp only [c2, d2, m2], c3.trans (d3.trans m3),
    c4.trans (d4.trans m4)⟩

/-- what the later passes read of the snapshot, once the tasks of the files in `l` are done -/
structure FilesDone (old : Snapshot D) (p : Program) (hashWithText : Bool) (l : List SourceFile)
    (s s' : Snapshot D) : Prop where
  changed : ∀ path, s'.changedFilesSet.contains path = true ↔
    s.changedFilesSet.contains path = true ∨ ∃ f ∈ l, f.path = path ∧ ∃ references,
      sv.getReferencedFiles f = .ok references ∧
      isChanged old p f (newFileInfo sv hashWithText (some old) p f) references = true
  references : ∀ f ∈ l, ∃ references, sv.getReferencedFiles f = .ok references
  present : ∀ path, s'.fileInfos.contains path = true ↔
    s.fileInfos.contains path = true ∨ ∃ f ∈ l, f.path = path
  infos : ∀ path info, s'.fileInfos[path]? = some info → s.fileInfos[path]? = some info ∨
    ∃ f ∈ l, f.path = path ∧ info = newFileInfo sv hashWithText (some old) p f
  allFiles : s'.allFilesExcludingDefaultLibraryFile = s.allFilesExcludingDefaultLibraryFile
  hashWithText_eq : s'.hashWithText = s.hashWithText

theorem contains_insert_iff (t : Std.ExtTreeSet Path) (a b : Path) :
    (t.insert a).contains b = true ↔ b = a ∨ t.contains b = true := by
  rw [Std.ExtTreeSet.contains_insert, Bool.or_eq_true, beq_iff_eq, Std.compare_eq_iff_eq,
    eq_comm]

/-- the run of the tasks: a failure is kept to the end -/
theorem foldl_fileTask (old : Snapshot D) (p : Program) (l : List SourceFile) (s s' : Snapshot D)
    (failure : Option E)
    (h : l.foldl (fun (s, failure) f =>
      match fileTask sv (some old) p f s with
      | .ok s => (s, failure)
      | .error e => (s, failure.or (some e))) (s, failure) = (s', none)) :
    failure = none ∧ FilesDone sv old p s.hashWithText l s s' := by
  induction l generalizing s failure with
  | nil =>
    cases h
    refine ⟨rfl, ?_, ?_, ?_, ?_, rfl, rfl⟩
    · intro path
      simp
    · intro f hf
      cases hf
    · intro path
      simp
    · intro path info hinfo
      exact Or.inl hinfo
  | cons f l ih =>
    rw [List.foldl_cons] at h
    simp only at h
    split at h
    next s1 h1 =>
      obtain ⟨hnone, hdone⟩ := ih s1 failure h
      obtain ⟨references, href, heff⟩ := fileTask_effect sv old p f s s1 h1
      rw [heff.hashWithText] at hdone
      refine ⟨hnone, ?_, ?_, ?_, ?_, hdone.allFiles.trans heff.allFiles,
        hdone.hashWithText_eq.trans heff.hashWithText⟩
      · intro path
        rw [hdone.changed path, heff.changedFilesSet]
        constructor
        · rintro (h2 | ⟨g, hg, hrest⟩)
          · split at h2
            next hch =>
              rcases (contains_insert_iff _ _ _).1 h2 with rfl | h3
              · exact Or.inr ⟨f, List.mem_cons_self .., rfl, references, href, hch⟩
              · exact Or.inl h3
            next => exact Or.inl h2
          · exact Or.inr ⟨g, List.mem_cons_of_mem f hg, hrest⟩
        · rintro (h2 | ⟨g, hg, hpath, refs, hrefs, hch⟩)
          · refine Or.inl ?_
            split
            next => exact (contains_insert_iff _ _ _).2 (Or.inr h2)
            next => exact h2
          · rcases List.mem_cons.1 hg with rfl | hg'
            · rw [href] at hrefs
              cases hrefs
              rw [if_pos hch]
              exact Or.inl ((contains_insert_iff _ _ _).2 (Or.inl hpath.symm))
            · exact Or.inr ⟨g, hg', hpath, refs, hrefs, hch⟩
      · intro g hg
        rcases List.mem_cons.1 hg with rfl | hg'
        · exact ⟨references, href⟩
        · exact hdone.references g hg'
      · intro path
        rw [hdone.present path, heff.fileInfos, Std.ExtTreeMap.contains_insert, Bool.or_eq_true,
          beq_iff_eq, Std.compare_eq_iff_eq]
        constructor
        · rintro ((h2 | h2) | ⟨g, hg, hpath⟩)
          · exact Or.inr ⟨f, List.mem_cons_self .., h2⟩
          · exact Or.inl h2
          · exact Or.inr ⟨g, List.mem_cons_of_mem f hg, hpath⟩
        · rintro (h2 | ⟨g, hg, hpath⟩)
          · exact Or.inl (Or.inr h2)
          · rcases List.mem_cons.1 hg with rfl | hg'
            · exact Or.inl (Or.inl hpath)
            · exact Or.inr ⟨g, hg', hpath⟩
      · intro path info hinfo
        rcases hdone.infos path info hinfo with h2 | ⟨g, hg, hrest⟩
        · rw [heff.fileInfos] at h2
          simp only [Std.ExtTreeMap.getElem?_insert, Std.compare_eq_iff_eq] at h2
          split at h2
          next hpath => exact Or.inr ⟨f, List.mem_cons_self .., hpath, (Option.some.inj h2).symm⟩
          next => exact Or.inl h2
        · exact Or.inr ⟨g, List.mem_cons_of_mem f hg, hrest⟩
    next e h1 =>
      obtain ⟨hnone, -⟩ := ih s _ h
      cases failure with
      | none => cases hnone
      | some e' => cases hnone

/-! ## The later passes -/

theorem markAll_contains (p : Program) (s : Snapshot D)
    (hall : s.allFilesExcludingDefaultLibraryFile = none) (path : Path) :
    (markAll p s).changedFilesSet.contains path = true ↔ s.changedFilesSet.contains path = true ∨
      ∃ f ∈ p.files, p.isLib f.path = false ∧ f.path = path := by
  have hfold : ∀ (l : List SourceFile) (s : Snapshot D),
      (l.foldl (fun s f => s.addFileToChangeSet f.path) s).changedFilesSet.contains path = true ↔
        s.changedFilesSet.contains path = true ∨ ∃ f ∈ l, f.path = path := by
    intro l
    induction l with
    | nil =>
      intro s
      simp
    | cons f l ih =>
      intro s
      rw [List.foldl_cons, ih]
      have h1 := contains_insert_iff s.changedFilesSet f.path path
      show (s.changedFilesSet.insert f.path).contains path = true ∨ _ ↔ _
      rw [h1]
      constructor
      · rintro ((h2 | h2) | ⟨g, hg, hpath⟩)
        · exact Or.inr ⟨f, List.mem_cons_self .., h2.symm⟩
        · exact Or.inl h2
        · exact Or.inr ⟨g, List.mem_cons_of_mem f hg, hpath⟩
      · rintro (h2 | ⟨g, hg, hpath⟩)
        · exact Or.inl (Or.inr h2)
        · rcases List.mem_cons.1 hg with rfl | hg'
          · exact Or.inl (Or.inl hpath.symm)
          · exact Or.inr ⟨g, hg', hpath⟩
  unfold markAll Snapshot.getAllFilesExcludingDefaultLibraryFile
  rw [hall]
  simp only
  rw [hfold]
  have hmem : ∀ f, f ∈ Snapshot.allFiles p none ↔ f ∈ p.files ∧ p.isLib f.path = false := by
    intro f
    simp [Snapshot.allFiles]
  constructor
  · rintro (h | ⟨f, hf, hpath⟩)
    · exact Or.inl h
    · exact Or.inr ⟨f, ((hmem f).1 hf).1, ((hmem f).1 hf).2, hpath⟩
  · rintro (h | ⟨f, hf, hlib, hpath⟩)
    · exact Or.inl h
    · exact Or.inr ⟨f, (hmem f).2 ⟨hf, hlib⟩, hpath⟩

theorem addPendingEmit_changed (p : Program) (kind : FileEmitKind) (s : Snapshot D) :
    (addPendingEmit p kind s).changedFilesSet = s.changedFilesSet := by
  unfold addPendingEmit
  induction p.files generalizing s with
  | nil => rfl
  | cons f l ih =>
    rw [List.foldl_cons, ih]
    split
    next => rfl
    next => rfl

theorem handlePendingEmit_changed (old : Option (OldProgram D)) (p : Program) (removed : Bool)
    (s : Snapshot D) : (handlePendingEmit sv old p removed s).changedFilesSet = s.changedFilesSet := by
  unfold handlePendingEmit
  split
  next => rfl
  next =>
    split
    next => rfl
    next =>
      split
      next => rfl
      next => exact addPendingEmit_changed p _ s

theorem handlePendingCheck_changed (old : Option (OldProgram D)) (p : Program) (s : Snapshot D) :
    (handlePendingCheck old p s).changedFilesSet = s.changedFilesSet := by
  unfold handlePendingCheck
  split
  next => rfl
  next =>
    split
    next => rfl
    next => rfl

/-! ## What the passes see of the new program -/

theorem computeProgramFileChanges_done (old : OldProgram D) (p : Program) (order : List SourceFile)
    (hash : Bool) (s : Snapshot D)
    (h : computeProgramFileChanges sv (some old) p order
      (reuseFromOldProgram (some old) (freshSnapshot p hash)) = .ok s) :
    FilesDone sv old.snapshot p hash order (reuseFromOldProgram (some old) (freshSnapshot p hash)) s := by
  unfold computeProgramFileChanges at h
  simp only [Option.map_some] at h
  split at h
  next => cases h
  next hnone =>
    cases h
    exact (foldl_fileTask sv old.snapshot p order _ _ none (Prod.ext rfl hnone)).2

section
variable {old : OldProgram D} {p : Program} {order : List SourceFile} {hash : Bool} {s : Snapshot D}
variable (hperm : order.Perm p.files)
variable (hdone : FilesDone sv old.snapshot p hash order
  (reuseFromOldProgram (some old) (freshSnapshot p hash)) s)
include hperm hdone

theorem contains_fileInfos_iff (path : Path) :
    s.fileInfos.contains path = true ↔ p.file path ≠ none := by
  rw [hdone.present path]
  have hempty : (reuseFromOldProgram (some old) (freshSnapshot p hash)).fileInfos.contains path =
      false := Std.ExtTreeMap.contains_empty
  rw [hempty]
  constructor
  · rintro (h | ⟨f, hf, rfl⟩)
    · cases h
    · rw [file_eq_some p f (hperm.mem_iff.1 hf)]
      exact Option.some_ne_none f
  · intro h
    obtain ⟨f, hf⟩ := Option.ne_none_iff_exists'.1 h
    obtain ⟨hmem, hpath⟩ := mem_files_of_file p path f hf
    exact Or.inr ⟨f, hperm.mem_iff.2 hmem, hpath⟩

theorem affectsGlobalScope_of_fileInfos (path : Path) (info : FileInfo)
    (h : s.fileInfos[path]? = some info) :
    ∃ f, p.file path = some f ∧ info.affectsGlobalScope = fileAffectsGlobalScope f := by
  rcases hdone.infos path info h with h1 | ⟨f, hf, rfl, rfl⟩
  · have hempty : (reuseFromOldProgram (some old) (freshSnapshot p hash)).fileInfos[path]? = none :=
      Std.ExtTreeMap.getElem?_empty
    rw [hempty] at h1
    cases h1
  · exact ⟨f, file_eq_some p f (hperm.mem_iff.1 hf), rfl⟩

theorem contains_changed_iff (f : SourceFile) (hf : f ∈ p.files) :
    s.changedFilesSet.contains f.path = true ↔ changes sv old.snapshot p hash f = true := by
  rw [hdone.changed f.path]
  unfold changes
  rw [Bool.or_eq_true]
  refine or_congr Iff.rfl ?_
  obtain ⟨references, href⟩ := hdone.references f (hperm.mem_iff.2 hf)
  rw [href]
  constructor
  · rintro ⟨g, hg, hpath, refs, hrefs, hch⟩
    have hgf : g = f := List.inj_on_of_nodup_map p.nodup (hperm.mem_iff.1 hg) hf hpath
    subst hgf
    rw [href] at hrefs
    cases hrefs
    exact hch
  · intro hch
    exact ⟨f, hperm.mem_iff.2 hf, rfl, references, href, hch⟩

theorem find_gone : (old.snapshot.fileInfos.toList.find? fun entry => !s.fileInfos.contains entry.1) =
    old.snapshot.fileInfos.toList.find? fun entry => (p.file entry.1).isNone := by
  refine congrArg (fun q => old.snapshot.fileInfos.toList.find? q) (funext fun entry => ?_)
  rw [Bool.eq_iff_iff, Option.isNone_iff_eq_none, Bool.not_eq_true', ← Bool.not_eq_true,
    contains_fileInfos_iff sv hperm hdone, not_not]

theorem any_lost : (old.snapshot.fileInfos.toList.any fun entry => entry.2.affectsGlobalScope &&
      (s.fileInfos[entry.1]?).any fun info => !info.affectsGlobalScope) = true ↔
    LostPresent old.snapshot p := by
  rw [List.any_eq_true]
  constructor
  · rintro ⟨⟨path, info⟩, hmem, hlost⟩
    rw [Std.ExtTreeMap.mem_toList_iff_getElem?_eq_some] at hmem
    rw [Bool.and_eq_true, Option.any_eq_true] at hlost
    obtain ⟨hglobal, info', hinfo', hnot⟩ := hlost
    obtain ⟨f, hf, haff⟩ := affectsGlobalScope_of_fileInfos sv hperm hdone path info' hinfo'
    refine ⟨path, info, f, hmem, hglobal, hf, ?_⟩
    rw [← haff]
    simpa using hnot
  · rintro ⟨path, info, f, hinfo, hglobal, hf, hnot⟩
    refine ⟨(path, info), Std.ExtTreeMap.mem_toList_iff_getElem?_eq_some.2 hinfo, ?_⟩
    have hcontains := (contains_fileInfos_iff sv hperm hdone path).2 (by rw [hf]; exact nofun)
    rw [Std.ExtTreeMap.contains_eq_isSome_getElem?] at hcontains
    obtain ⟨info', hinfo'⟩ := Option.isSome_iff_exists.1 hcontains
    obtain ⟨f', hf', haff⟩ := affectsGlobalScope_of_fileInfos sv hperm hdone path info' hinfo'
    rw [hf] at hf'
    cases hf'
    show (info.affectsGlobalScope && (s.fileInfos[path]?).any fun info => !info.affectsGlobalScope) =
      true
    rw [hinfo', hglobal, Option.any_some, haff, hnot]
    rfl

theorem deletePasses_contains (path : Path) :
    (handleGlobalScopeChange (some old) p (handleFileDelete (some old) p s).2
      (handleFileDelete (some old) p s).1).changedFilesSet.contains path = true ↔
    s.changedFilesSet.contains path = true ∨ ((FirstGone old.snapshot p ∨ LostPresent old.snapshot p) ∧
      ∃ f ∈ p.files, p.isLib f.path = false ∧ f.path = path) := by
  have hall : s.allFilesExcludingDefaultLibraryFile = none := hdone.allFiles
  have hlost := any_lost sv hperm hdone
  -- without a file of the global scope in front, only files that are still there count
  have hscope : ∀ s1 : Snapshot D, s1.changedFilesSet = s.changedFilesSet →
      s1.fileInfos = s.fileInfos → s1.allFilesExcludingDefaultLibraryFile = none →
      ¬ FirstGone old.snapshot p →
      ((handleGlobalScopeChange (some old) p false s1).changedFilesSet.contains path = true ↔
        s.changedFilesSet.contains path = true ∨
          ((FirstGone old.snapshot p ∨ LostPresent old.snapshot p) ∧
            ∃ f ∈ p.files, p.isLib f.path = false ∧ f.path = path)) := by
    intro s1 hchanged hinfos hall1 hfirst
    unfold handleGlobalScopeChange
    simp only [Bool.false_eq_true, if_false, hinfos]
    split
    next hany =>
      rw [markAll_contains p s1 hall1, hchanged]
      have hpresent := hlost.1 hany
      constructor
      · rintro (h | h)
        · exact Or.inl h
        · exact Or.inr ⟨Or.inr hpresent, h⟩
      · rintro (h | ⟨-, h⟩)
        · exact Or.inl h
        · exact Or.inr h
    next hany =>
      rw [hchanged]
      constructor
      · exact Or.inl
      · rintro (h | ⟨h | h, -⟩)
        · exact h
        · exact absurd h hfirst
        · exact absurd (hlost.2 h) hany
  unfold handleFileDelete
  simp only [find_gone sv hperm hdone]
  split
  next hfind =>
    refine hscope s rfl rfl hall ?_
    rintro ⟨entry, hentry, -⟩
    rw [hfind] at hentry
    cases hentry
  next gone info hfind =>
    split
    next hglobal =>
      show (markAll p s).changedFilesSet.contains path = true ↔ _
      rw [markAll_contains p s hall]
      constructor
      · rintro (h | h)
        · exact Or.inl h
        · exact Or.inr ⟨Or.inl ⟨(gone, info), hfind, hglobal⟩, h⟩
      · rintro (h | ⟨-, h⟩)
        · exact Or.inl h
        · exact Or.inr h
    next hglobal =>
      refine hscope _ rfl rfl hall ?_
      rintro ⟨entry, hentry, hscope⟩
      rw [hfind] at hentry
      cases hentry
      exact hglobal hscope

end

/-! ## The main result -/

/-- **all files are marked when a file leaves the global scope, exactly when the loss is noticed** -/
theorem marksAll_iff (old : OldProgram D) (p : Program) (hash : Bool) (order : List SourceFile)
    (s : Snapshot D) (hptr : old.program ≠ some p.id)
    (hinc : (freshSnapshot p hash : Snapshot D).canUseIncrementalState = true)
    (hperm : order.Perm p.files) (h : programToSnapshot sv p (some old) hash order = .ok s) :
    (LostGlobal old.snapshot p → MarksAll p s) ↔ Noticed sv old.snapshot p hash := by
  unfold programToSnapshot at h
  have hold : (some old).filter (fun old => old.program == some p.id) = none := by
    simpa [Option.filter] using hptr
  rw [hold] at h
  simp only [hinc, if_true] at h
  obtain ⟨s1, h1, h2⟩ := (bind_eq_ok _ _ _).1 h
  cases h2
  have hdone := computeProgramFileChanges_done sv old p order hash s1 h1
  have hmarks : MarksAll p (handlePendingCheck (some old) p (handlePendingEmit sv (some old) p
      (handleFileDelete (some old) p s1).2 (handleGlobalScopeChange (some old) p
        (handleFileDelete (some old) p s1).2 (handleFileDelete (some old) p s1).1))) ↔
      (FirstGone old.snapshot p ∨ LostPresent old.snapshot p) ∨
        ∀ f ∈ p.files, p.isLib f.path = false → changes sv old.snapshot p hash f = true := by
    unfold MarksAll
    rw [handlePendingCheck_changed, handlePendingEmit_changed]
    constructor
    · intro hall
      by_cases hnoticed : FirstGone old.snapshot p ∨ LostPresent old.snapshot p
      · exact Or.inl hnoticed
      · refine Or.inr fun f hf hlib => ?_
        rcases (deletePasses_contains sv hperm hdone f.path).1 (hall f hf hlib) with h3 | ⟨h3, -⟩
        · exact (contains_changed_iff sv hperm hdone f hf).1 h3
        · exact absurd h3 hnoticed
    · rintro (hnoticed | hall) f hf hlib
      · exact (deletePasses_contains sv hperm hdone f.path).2
          (Or.inr ⟨hnoticed, f, hf, hlib, rfl⟩)
      · exact (deletePasses_contains sv hperm hdone f.path).2
          (Or.inl ((contains_changed_iff sv hperm hdone f hf).2 (hall f hf hlib)))
  constructor
  · intro himp
    by_cases hlost : LostGlobal old.snapshot p
    · rcases hmarks.1 (himp hlost) with (h3 | h3) | h3
      · exact Or.inr (Or.inl h3)
      · exact Or.inr (Or.inr (Or.inl h3))
      · exact Or.inr (Or.inr (Or.inr h3))
    · refine Or.inl fun path info hinfo hglobal hgone => hlost ?_
      exact ⟨path, info, hinfo, hglobal, Or.inl hgone⟩
  · rintro hnoticed ⟨path, info, hinfo, hglobal, hgone⟩
    refine hmarks.2 ?_
    rcases hnoticed with h3 | h3 | h3 | h3
    · rcases hgone with hgone | ⟨f, hf, hnot⟩
      · exact absurd hgone (h3 path info hinfo hglobal)
      · exact Or.inl (Or.inr ⟨path, info, f, hinfo, hglobal, hf, hnot⟩)
    · exact Or.inl (Or.inl h3)
    · exact Or.inl (Or.inr h3)
    · exact Or.inr h3

end

/-! ## A module and a global file deleted together -/

namespace Deleted

/-- `/a.ts` -/
def pathA : Path := [47, 97, 46, 116, 115]
/-- `/b.d.ts` -/
def pathB : Path := [47, 98, 46, 100, 46, 116, 115]
/-- `/d.ts` -/
def pathD : Path := [47, 100, 46, 116, 115]

def services : Services Unit Unit where
  affectSemanticDiagnostics _ _ := false
  affectDeclarationPath _ _ := false
  affectEmit _ _ := false
  getReferencedFiles _ := .ok none
  repopulateDiagnosticsOfFile d _ := .ok d
  digest text := text

def options : CompilerOptions :=
  ⟨false, true, false, false, false, false, false, false, false, false, false, false, false, []⟩

/-- the module `/c.ts`, with the text `export g` -/
def file : SourceFile where
  path := [47, 99, 46, 116, 115]
  text := [101, 120, 112, 111, 114, 116, 32, 103]
  originalText := [101, 120, 112, 111, 114, 116, 32, 103]
  contentMapper := []
  contentMapperTransformIdentity := []
  isDeclarationFile := false
  isJsonSourceFile := false
  isExternalOrCommonJsModule := true
  moduleAugmentations := []
  statements := [false]

def program : Program where
  id := 1
  options := options
  files := [file]
  isLib _ := false
  impliedNodeFormat _ := none
  nodup := List.nodup_singleton _

/-- the old program had `/c.ts` and two files more, of which `/b.d.ts` declared the global `g` -/
def old (other : Path) : OldProgram Unit where
  program := some 0
  snapshot := { Snapshot.empty options false with
    fileInfos := (((∅ : Std.ExtTreeMap Path FileInfo).insert other ⟨[], [], false, 0⟩).insert
      pathB ⟨[], [], true, 0⟩).insert file.path
      ⟨computeHash services false file.text, [], false, 0⟩ }

end Deleted

open Deleted in
/-- the global file comes first, and the module `/c.ts` is checked again -/
theorem marksAll_first : ∃ s,
    programToSnapshot services program (some (old pathD)) false [file] = .ok s ∧
    MarksAll program s := by
  have hok : ∃ s, programToSnapshot services program (some (old pathD)) false [file] =
      .ok s := ⟨_, rfl⟩
  obtain ⟨s, hs⟩ := hok
  refine ⟨s, hs, ?_⟩
  refine (marksAll_iff services (old pathD) program false [file] s
    (by decide) (by decide) (List.Perm.refl _) hs).2 ?_ ?_
  · exact Or.inr (Or.inl ⟨(pathB, ⟨[], [], true, 0⟩), by rfl, rfl⟩)
  · exact ⟨pathB, ⟨[], [], true, 0⟩, by rfl, rfl, Or.inl (by rfl)⟩

open Deleted in
/-- a module in front of the global file hides its loss -/
theorem marksAll_hidden : ∃ s,
    programToSnapshot services program (some (old pathA)) false [file] = .ok s ∧
    LostGlobal (old pathA).snapshot program ∧ ¬ MarksAll program s := by
  refine ⟨_, rfl, ⟨pathB, ⟨[], [], true, 0⟩, by rfl, rfl, Or.inl (by rfl)⟩, ?_⟩
  intro hall
  exact absurd (hall file (List.mem_singleton_self _) rfl) (by decide)

end Tsr.Incremental
