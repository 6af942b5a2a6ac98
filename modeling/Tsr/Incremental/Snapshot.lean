import Mathlib

/-!
# The incremental state of a program

`Snapshot` is what a build keeps for the next one: the version, signature and scope of each file,
the references between files, cached diagnostics, the changed files and what is pending emit.

* `FileEmitKind`, `getFileEmitKind`, `getPendingEmitKind`   the outputs of a file, as bits;
* `Snapshot.addFileToChangeSet`, `Snapshot.addFileToAffectedFilesPendingEmit`;
* `Snapshot.getAllFilesExcludingDefaultLibraryFile`         computed once and kept;
* `Snapshot.getReferencedBy`                                the inverse of the references.

Maps that the source keeps ordered by path are ordered here too.
-/

namespace Tsr.Incremental

/-- the bytes of a string -/
abbrev JsString := List UInt8

abbrev Path := JsString

abbrev ReferenceSet := Std.ExtTreeSet Path

/-! ## Options -/

/-- each option says whether it is set to true; `other` stands for the options that only the tables
of option effects read -/
structure CompilerOptions where
  composite : Bool
  incremental : Bool
  build : Bool
  noCheck : Bool
  isolatedModules : Bool
  assumeChangesOnlyAffectDirectDependencies : Bool
  skipLibCheck : Bool
  skipDefaultLibCheck : Bool
  declaration : Bool
  declarationMap : Bool
  emitDeclarationOnly : Bool
  sourceMap : Bool
  inlineSourceMap : Bool
  other : JsString
deriving DecidableEq

namespace CompilerOptions

def isIncremental (o : CompilerOptions) : Bool := o.incremental || o.composite

def emitDeclarations (o : CompilerOptions) : Bool := o.declaration || o.composite

end CompilerOptions

/-! ## What is emitted for a file -/

abbrev FileEmitKind := UInt32

namespace FileEmitKind

def none : FileEmitKind := 0
/-- the js file -/
def js : FileEmitKind := 1
/-- the js.map file -/
def jsMap : FileEmitKind := 2
/-- the source map in the js file -/
def jsInlineMap : FileEmitKind := 4
/-- the errors of declarations -/
def dtsErrors : FileEmitKind := 8
/-- the d.ts file -/
def dtsEmit : FileEmitKind := 16
/-- the d.ts.map file -/
def dtsMap : FileEmitKind := 32

def dts : FileEmitKind := dtsErrors ||| dtsEmit
def allJs : FileEmitKind := js ||| jsMap ||| jsInlineMap
def allDtsEmit : FileEmitKind := dtsEmit ||| dtsMap
def allDts : FileEmitKind := dts ||| dtsMap

end FileEmitKind

def getFileEmitKind (o : CompilerOptions) : FileEmitKind :=
  let result := FileEmitKind.js
  let result := if o.sourceMap then result ||| FileEmitKind.jsMap else result
  let result := if o.inlineSourceMap then result ||| FileEmitKind.jsInlineMap else result
  let result := if o.emitDeclarations then result ||| FileEmitKind.dts else result
  let result := if o.declarationMap then result ||| FileEmitKind.dtsMap else result
  if o.emitDeclarationOnly then result &&& FileEmitKind.allDts else result

def getPendingEmitKind (emitKind oldEmitKind : FileEmitKind) : FileEmitKind :=
  if oldEmitKind = emitKind then .none
  else if oldEmitKind = .none ∨ emitKind = .none then emitKind
  else
    let diff := oldEmitKind ^^^ emitKind
    let result := FileEmitKind.none
    -- a difference in js emit leaves the js flags pending
    let result := if diff &&& .allJs ≠ .none then result ||| (emitKind &&& .allJs) else result
    let result := if diff &&& .dtsErrors ≠ .none then result ||| (emitKind &&& .allDts) else result
    if diff &&& .allDtsEmit ≠ .none then result ||| (emitKind &&& .allDtsEmit) else result

def getPendingEmitKindWithOptions (options oldOptions : CompilerOptions) : FileEmitKind :=
  getPendingEmitKind (getFileEmitKind options) (getFileEmitKind oldOptions)

/-! ## Files -/

structure FileInfo where
  version : JsString
  signature : JsString
  affectsGlobalScope : Bool
  impliedNodeFormat : Nat
deriving DecidableEq

/-- what the passes read of a source file: its texts, and of its tree, for each module augmentation
whether its parent, if it has one, is a global augmentation, and for each statement whether it
declares a module with a string name -/
structure SourceFile where
  path : Path
  text : JsString
  originalText : JsString
  contentMapper : JsString
  contentMapperTransformIdentity : JsString
  isDeclarationFile : Bool
  isJsonSourceFile : Bool
  isExternalOrCommonJsModule : Bool
  moduleAugmentations : List (Option Bool)
  statements : List Bool
deriving DecidableEq

/-- a loaded program; `id` tells one allocation from another -/
structure Program where
  id : Nat
  options : CompilerOptions
  files : List SourceFile
  isLib : Path → Bool
  impliedNodeFormat : Path → Option Nat
  nodup : (files.map (·.path)).Nodup

namespace Program

def file (p : Program) (path : Path) : Option SourceFile := p.files.find? fun f => f.path == path

/-- the files that are not of the default library -/
def nonLib (p : Program) : List SourceFile := p.files.filter fun f => !p.isLib f.path

end Program

/-! ## The snapshot -/

/-- `signatureWithDifferentOptions` is the signature under the other `declarationMap` -/
structure EmitSignature where
  signature : JsString
  signatureWithDifferentOptions : Option (List JsString)
deriving DecidableEq

/-- `get_new_emit_signature`; an empty tuple has no first element and ends the process -/
def EmitSignature.getNewEmitSignature (s : EmitSignature) (oldOptions newOptions : CompilerOptions) :
    EmitSignature :=
  if oldOptions.declarationMap = newOptions.declarationMap then s
  else
    match s.signatureWithDifferentOptions with
    | none => ⟨[], some [s.signature]⟩
    | some signatures => ⟨signatures.headD [], none⟩

structure SnapshotState where
  latestChangedDtsFile : JsString
  hasErrors : Option Bool
  hasSemanticErrors : Bool
  checkPending : Bool
  packageJsons : Option (List JsString)
  missingPackageJsons : Option (List JsString)
  hasErrorsFromOldState : Option Bool
  hasSemanticErrorsFromOldState : Bool
  packageJsonsFromOldState : Option (List JsString)
  missingPackageJsonsFromOldState : Option (List JsString)
deriving DecidableEq

def SnapshotState.empty : SnapshotState :=
  ⟨[], none, false, false, none, none, none, false, none, none⟩

/-- `D` is a cached list of diagnostics -/
structure Snapshot (D : Type) where
  fileInfos : Std.ExtTreeMap Path FileInfo
  options : CompilerOptions
  referencedMap : Std.ExtTreeMap Path ReferenceSet
  semanticDiagnosticsPerFile : Std.ExtTreeMap Path D
  emitDiagnosticsPerFile : Std.ExtTreeMap Path D
  changedFilesSet : Std.ExtTreeSet Path
  affectedFilesPendingEmit : Std.ExtTreeMap Path FileEmitKind
  emitSignatures : Std.ExtTreeMap Path EmitSignature
  state : SnapshotState
  buildInfoEmitPending : Bool
  allFilesExcludingDefaultLibraryFile : Option (List SourceFile)
  hashWithText : Bool

namespace Snapshot

variable {D : Type}

def empty (options : CompilerOptions) (hashWithText : Bool) : Snapshot D where
  fileInfos := ∅
  options := options
  referencedMap := ∅
  semanticDiagnosticsPerFile := ∅
  emitDiagnosticsPerFile := ∅
  changedFilesSet := ∅
  affectedFilesPendingEmit := ∅
  emitSignatures := ∅
  state := SnapshotState.empty
  buildInfoEmitPending := false
  allFilesExcludingDefaultLibraryFile := none
  hashWithText := hashWithText

def addFileToChangeSet (s : Snapshot D) (path : Path) : Snapshot D :=
  { s with changedFilesSet := s.changedFilesSet.insert path, buildInfoEmitPending := true }

def addFileToAffectedFilesPendingEmit (s : Snapshot D) (path : Path) (emitKind : FileEmitKind) :
    Snapshot D :=
  { s with
    affectedFilesPendingEmit := s.affectedFilesPendingEmit.insert path
      ((s.affectedFilesPendingEmit[path]?.getD .none) ||| emitKind)
    emitDiagnosticsPerFile :=
      if emitKind &&& .dtsErrors ≠ .none then s.emitDiagnosticsPerFile.erase path
      else s.emitDiagnosticsPerFile
    buildInfoEmitPending := true }

/-- the files other than `first`, told apart by their path -/
def allFiles (p : Program) (first : Option SourceFile) : List SourceFile :=
  (first.toList ++ p.files.filter fun f => first.all fun g => f.path != g.path).filter
    fun f => !p.isLib f.path

/-- the list is kept once it is computed, whatever file it starts with -/
def getAllFilesExcludingDefaultLibraryFile (s : Snapshot D) (p : Program)
    (first : Option SourceFile) : List SourceFile × Snapshot D :=
  match s.allFilesExcludingDefaultLibraryFile with
  | some files => (files, s)
  | none =>
    (allFiles p first, { s with allFilesExcludingDefaultLibraryFile := some (allFiles p first) })

/-- the files that reference `path`, in path order -/
def getReferencedBy (s : Snapshot D) (path : Path) : List Path :=
  (s.referencedMap.toList.filter fun r => r.2.contains path).map (·.1)

def canUseIncrementalState (s : Snapshot D) : Bool :=
  !(!s.options.isIncremental && s.options.build)

end Snapshot

end Tsr.Incremental
