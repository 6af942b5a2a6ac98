import Tsr.Lib.Result
import Tsr.Incremental.Snapshot

/-!
# From a program to its snapshot

`programToSnapshot` builds the snapshot of a program, on the one of the old program where there is
one.  Its passes, in the order in which they run:

* `reuseFromOldProgram`         what carries over as it is;
* `computeProgramFileChanges`   a task per file, in any order: its version and references, whether
  it changed, and the diagnostics and signatures that it keeps;
* `handleFileDelete` and `handleGlobalScopeChange`   files that left the global scope;
* `handlePendingEmit` and `handlePendingCheck`.

`Services` is what the passes use from other crates: the tables of option effects, the checker's
view of references, the repopulation of diagnostics and the hash.
-/

namespace Tsr.Incremental
open Tsr.Lib.Result

structure Services (D E : Type) where
  affectSemanticDiagnostics : CompilerOptions → CompilerOptions → Bool
  affectDeclarationPath : CompilerOptions → CompilerOptions → Bool
  affectEmit : CompilerOptions → CompilerOptions → Bool
  getReferencedFiles : SourceFile → Except E (Option ReferenceSet)
  repopulateDiagnosticsOfFile : D → SourceFile → Except E D
  /-- the hexadecimal digits of the hash -/
  digest : JsString → JsString

/-- `program` is the allocation of the old program, if it is still held -/
structure OldProgram (D : Type) where
  program : Option Nat
  snapshot : Snapshot D

section
variable {D E : Type} (sv : Services D E)

/-! ## One file -/

def computeHash (hashWithText : Bool) (text : JsString) : JsString :=
  sv.digest text ++ if hashWithText then 45 :: text else []

/-- the text whose hash is the version of the file -/
def versionText (f : SourceFile) : JsString :=
  if f.contentMapper.isEmpty then f.text
  else f.originalText ++ 0 :: f.contentMapperTransformIdentity

/-- a file that augments the global scope, or a script with more than ambient modules -/
def fileAffectsGlobalScope (f : SourceFile) : Bool :=
  if f.moduleAugmentations.any fun parent => parent == some true then true
  else if f.isExternalOrCommonJsModule || f.isJsonSourceFile then false
  else f.statements.any fun ambient => !ambient

/-- `newReferences.Equals(oldReferences)` -/
def referencesEqual (new old : Option ReferenceSet) : Bool :=
  match new, old with
  | none, none => true
  | some new, some old => decide (new.toList = old.toList)
  | _, _ => false

/-- why a file of the new program counts as changed -/
def isChanged (old : Snapshot D) (p : Program) (f : SourceFile) (info : FileInfo)
    (newReferences : Option ReferenceSet) : Bool :=
  match old.fileInfos[f.path]? with
  | none => true
  | some oldInfo =>
    if oldInfo.version ≠ info.version ∨ oldInfo.affectsGlobalScope ≠ info.affectsGlobalScope ∨
        oldInfo.impliedNodeFormat ≠ info.impliedNodeFormat then true
    else if !referencesEqual newReferences old.referencedMap[f.path]? then true
    else (newReferences.elim [] Std.ExtTreeSet.toList).any fun r =>
      (p.file r).isNone && old.fileInfos.contains r

/-- the version, signature and scope of a file -/
def newFileInfo (hashWithText : Bool) (old : Option (Snapshot D)) (p : Program) (f : SourceFile) :
    FileInfo :=
  let version := computeHash sv hashWithText (versionText f)
  { version := version
    signature := match old with
      | none => version
      | some old => (old.fileInfos[f.path]?.map (·.signature)).getD []
    affectsGlobalScope := fileAffectsGlobalScope f
    impliedNodeFormat := (p.impliedNodeFormat f.path).getD 0 }

def copyEmitDiagnostics (old : Snapshot D) (f : SourceFile) (s : Snapshot D) :
    Except E (Snapshot D) :=
  match old.emitDiagnosticsPerFile[f.path]? with
  | none => pure s
  | some diagnostics => do
    let repopulated ← sv.repopulateDiagnosticsOfFile diagnostics f
    pure { s with emitDiagnosticsPerFile := s.emitDiagnosticsPerFile.insert f.path repopulated }

def copySemanticDiagnostics (old : Snapshot D) (p : Program) (f : SourceFile) (s : Snapshot D) :
    Except E (Snapshot D) :=
  let canCopySemantic := !sv.affectSemanticDiagnostics old.options p.options
  let copyDeclaration := canCopySemantic && (s.options.skipLibCheck == old.options.skipLibCheck)
  let copyLib := copyDeclaration && (s.options.skipDefaultLibCheck == old.options.skipDefaultLibCheck)
  if canCopySemantic && (!f.isDeclarationFile || copyDeclaration) && (!p.isLib f.path || copyLib) then
    match old.semanticDiagnosticsPerFile[f.path]? with
    | none => pure s
    | some diagnostics => do
      let repopulated ← sv.repopulateDiagnosticsOfFile diagnostics f
      pure { s with
        semanticDiagnosticsPerFile := s.semanticDiagnosticsPerFile.insert f.path repopulated }
  else pure s

/-- what an unchanged file keeps of its diagnostics -/
def copyDiagnostics (old : Snapshot D) (p : Program) (f : SourceFile) (s : Snapshot D) :
    Except E (Snapshot D) :=
  if s.changedFilesSet.contains f.path then pure s
  else do
    let s ← copyEmitDiagnostics sv old f s
    copySemanticDiagnostics sv old p f s

def copyEmitSignature (old : Snapshot D) (p : Program) (f : SourceFile) (s : Snapshot D) :
    Snapshot D :=
  if s.options.composite && !sv.affectDeclarationPath old.options p.options then
    match old.emitSignatures[f.path]? with
    | none => s
    | some signature => { s with
        emitSignatures := s.emitSignatures.insert f.path
          (signature.getNewEmitSignature old.options s.options) }
  else s

def storeReferences (f : SourceFile) (references : Option ReferenceSet) (s : Snapshot D) :
    Snapshot D :=
  match references with
  | some references => { s with referencedMap := s.referencedMap.insert f.path references }
  | none => s

/-- the rest of the task, once the file's references are stored -/
def changeTask (old : Option (Snapshot D)) (p : Program) (f : SourceFile) (info : FileInfo)
    (newReferences : Option ReferenceSet) (s : Snapshot D) : Except E (Snapshot D) :=
  match old with
  | none => pure (s.addFileToAffectedFilesPendingEmit f.path (getFileEmitKind s.options))
  | some old => do
    let s ← copyDiagnostics sv old p f
      (if isChanged old p f info newReferences then s.addFileToChangeSet f.path else s)
    pure (copyEmitSignature sv old p f s)

/-- the task of one file; what a failing task has written is dropped with the snapshot -/
def fileTask (old : Option (Snapshot D)) (p : Program) (f : SourceFile) (s : Snapshot D) :
    Except E (Snapshot D) := do
  let newReferences ← sv.getReferencedFiles f
  let s' ← changeTask sv old p f (newFileInfo sv s.hashWithText old p f) newReferences
    (storeReferences f newReferences s)
  pure { s' with
    fileInfos := s'.fileInfos.insert f.path (newFileInfo sv s.hashWithText old p f) }

/-! ## The passes -/

def reuseFromOldProgram (old : Option (OldProgram D)) (s : Snapshot D) : Snapshot D :=
  match old with
  | none => { s with buildInfoEmitPending := s.options.isIncremental }
  | some old =>
    let o := old.snapshot
    { s with
      changedFilesSet := o.changedFilesSet
      affectedFilesPendingEmit := o.affectedFilesPendingEmit
      buildInfoEmitPending := o.buildInfoEmitPending
      state := { s.state with
        latestChangedDtsFile :=
          if s.options.composite then o.state.latestChangedDtsFile else s.state.latestChangedDtsFile
        hasErrorsFromOldState := o.state.hasErrors
        hasSemanticErrorsFromOldState := o.state.hasSemanticErrors
        packageJsonsFromOldState := o.state.packageJsons
        missingPackageJsonsFromOldState := o.state.missingPackageJsons } }

/-- the tasks in the order in which they run; the first error is reported when all are done -/
def computeProgramFileChanges (old : Option (OldProgram D)) (p : Program) (order : List SourceFile)
    (s : Snapshot D) : Except E (Snapshot D) :=
  let (s, failure) := order.foldl (fun (s, failure) f =>
    match fileTask sv (old.map (·.snapshot)) p f s with
    | .ok s => (s, failure)
    | .error e => (s, failure.or (some e))) (s, none)
  match failure with
  | some e => .error e
  | none => .ok s

/-- every file outside the default library becomes a changed file -/
def markAll (p : Program) (s : Snapshot D) : Snapshot D :=
  let (files, s) := s.getAllFilesExcludingDefaultLibraryFile p none
  files.foldl (fun s f => s.addFileToChangeSet f.path) s

/-- the first old file that is not in the program decides; the flag says whether all files were
marked -/
def handleFileDelete (old : Option (OldProgram D)) (p : Program) (s : Snapshot D) :
    Snapshot D × Bool :=
  match old with
  | none => (s, false)
  | some old =>
    match old.snapshot.fileInfos.toList.find? fun entry => !s.fileInfos.contains entry.1 with
    | none => (s, false)
    | some (_, oldInfo) =>
      if oldInfo.affectsGlobalScope then (markAll p s, true)
      else ({ s with buildInfoEmitPending := true }, false)

def handleGlobalScopeChange (old : Option (OldProgram D)) (p : Program) (globalFileRemoved : Bool)
    (s : Snapshot D) : Snapshot D :=
  match old with
  | none => s
  | some old =>
    if globalFileRemoved then s
    else if old.snapshot.fileInfos.toList.any fun entry => entry.2.affectsGlobalScope &&
        (s.fileInfos[entry.1]?).any fun info => !info.affectsGlobalScope then markAll p s
    else s

/-- what the change of the options asks to be emitted again -/
def pendingEmitKind (old : OldProgram D) (s : Snapshot D) : FileEmitKind :=
  if sv.affectEmit old.snapshot.options s.options then getFileEmitKind s.options
  else getPendingEmitKindWithOptions s.options old.snapshot.options

/-- every unchanged file is to be emitted -/
def addPendingEmit (p : Program) (kind : FileEmitKind) (s : Snapshot D) : Snapshot D :=
  p.files.foldl (fun s f => if s.changedFilesSet.contains f.path then s
    else s.addFileToAffectedFilesPendingEmit f.path kind) s

def handlePendingEmit (old : Option (OldProgram D)) (p : Program) (globalFileRemoved : Bool)
    (s : Snapshot D) : Snapshot D :=
  match old with
  | none => s
  | some old =>
    if globalFileRemoved then s
    else if pendingEmitKind sv old s = .none then s
    else { addPendingEmit p (pendingEmitKind sv old s) s with buildInfoEmitPending := true }

def handlePendingCheck (old : Option (OldProgram D)) (p : Program) (s : Snapshot D) : Snapshot D :=
  match old with
  | none => s
  | some old =>
    if s.semanticDiagnosticsPerFile.size ≠ p.files.length ∧
        old.snapshot.state.checkPending ≠ s.state.checkPending then
      { s with buildInfoEmitPending := true }
    else s

/-- the snapshot before the first pass -/
def freshSnapshot (p : Program) (hashWithText : Bool) : Snapshot D :=
  { Snapshot.empty p.options hashWithText with
    state := { SnapshotState.empty with checkPending := p.options.noCheck } }

/-- `order` is the order in which the tasks of the files run -/
def programToSnapshot (p : Program) (old : Option (OldProgram D)) (hashWithText : Bool)
    (order : List SourceFile) : Except E (Snapshot D) :=
  match old.filter fun old => old.program == some p.id with
  | some old => .ok old.snapshot
  | none =>
    let s : Snapshot D := freshSnapshot p hashWithText
    if s.canUseIncrementalState then do
      let s := reuseFromOldProgram old s
      let s ← computeProgramFileChanges sv old p order s
      let (s, globalFileRemoved) := handleFileDelete old p s
      let s := handleGlobalScopeChange old p globalFileRemoved s
      let s := handlePendingEmit sv old p globalFileRemoved s
      pure (handlePendingCheck old p s)
    else .ok s

end

end Tsr.Incremental
