import Tsr.Jsstring.Lsp
import Tsr.Lib.Result

/-!
# Editor overlays

The texts of the files that an editor has open, by path.  A batch of events is grouped by file first;
then each file is closed, compared with the disk, edited and saved, in this order.

* `Events.add`          one event of a file, in the flags that the batch keeps of it;
* `processUri`          what the flags of a file do to its overlay, and to the summary;
* `processChanges`      a batch: `panicked` is an assertion that fails or a line out of bounds, `failed`
                        an error of the disk.  The overlays of a batch that fails are not published.
-/

namespace Tsr.Project
open Tsr.Json (Bytes)
open Tsr.Jsstring

inductive ScriptKind where
  | unknown
  | js
  | jsx
  | ts
  | tsx
  | json
deriving DecidableEq

def asciiLower (b : UInt8) : UInt8 := if 0x41 ≤ b ∧ b ≤ 0x5A then b + 0x20 else b

def bytesOf (s : String) : Bytes := s.toUTF8.data.toList

/-- by what stands behind the last dot, without regard to case -/
def ScriptKind.fromFileName (fileName : Bytes) : ScriptKind :=
  let suffix := (fileName.reverse.takeWhile fun b => b ≠ 0x2E).reverse
  if suffix.length = fileName.length then .unknown
  else
    let suffix := suffix.map asciiLower
    if suffix = bytesOf "js" ∨ suffix = bytesOf "cjs" ∨ suffix = bytesOf "mjs" then .js
    else if suffix = bytesOf "jsx" then .jsx
    else if suffix = bytesOf "ts" ∨ suffix = bytesOf "cts" ∨ suffix = bytesOf "mts" then .ts
    else if suffix = bytesOf "tsx" then .tsx
    else if suffix = bytesOf "json" then .json
    else .unknown

def languageKindToScriptKind (language : Bytes) : ScriptKind :=
  if language = bytesOf "typescript" then .ts
  else if language = bytesOf "typescriptreact" then .tsx
  else if language = bytesOf "javascript" then .js
  else if language = bytesOf "javascriptreact" then .jsx
  else if language = bytesOf "json" then .json
  else .unknown

/-! ## events -/

inductive FileChangeKind where
  | openFile
  | close
  | change
  | save
  | watchCreate
  | watchChange
  | watchDelete
deriving DecidableEq

def FileChangeKind.isWatch (kind : FileChangeKind) : Bool :=
  kind = .watchCreate ∨ kind = .watchChange ∨ kind = .watchDelete

structure Partial where
  start : LspPosition
  stop : LspPosition
  text : Bytes
deriving DecidableEq

/-- a union of which at most one arm is there -/
structure ContentChange where
  range : Option Partial
  wholeDocument : Option Bytes
deriving DecidableEq

structure FileChange where
  kind : FileChangeKind
  uri : Bytes
  version : Int32
  content : Bytes
  language : Bytes
  changes : List ContentChange
deriving DecidableEq

/-- all the rest is empty -/
def FileChange.new (kind : FileChangeKind) (uri : Bytes) : FileChange := ⟨kind, uri, 0, [], [], []⟩

structure FileChangeSummary where
  opened : Option Bytes
  reopened : Option Bytes
  closed : Finset Bytes
  changed : Finset Bytes
  created : Finset Bytes
  deleted : Finset Bytes
  includesWatchChangeOutsideNodeModules : Bool
  invalidateAll : Bool
deriving DecidableEq

def FileChangeSummary.empty : FileChangeSummary := ⟨none, none, ∅, ∅, ∅, ∅, false, false⟩

/-! ## overlays -/

/-- the hash of the content and its line map are computed from it -/
structure FileHandle where
  name : Bytes
  content : Bytes
  version : Int32
  kind : ScriptKind
  matchesDisk : Bool
deriving DecidableEq

def FileHandle.overlay (name : Bytes) (content : Bytes) (version : Int32) (kind : ScriptKind) :
    FileHandle :=
  ⟨name, content, version, kind, false⟩

def FileHandle.withDiskMatch (file : FileHandle) (matchesDisk : Bool) : FileHandle :=
  { FileHandle.overlay file.name file.content file.version file.kind with matchesDisk := matchesDisk }

abbrev Overlays := Std.ExtTreeMap Bytes FileHandle

inductive Failure (E : Type) where
  | panicked
  | failed (error : E)
deriving DecidableEq

/-- what the batch asks of its surroundings; the disk does not change meanwhile -/
structure OverlayHost (E H : Type) where
  path : Bytes → Bytes
  fileName : Bytes → Bytes
  readFile : Bytes → Except E (Option Bytes)
  hash : Bytes → H
  encoding : PositionEncoding

def isDynamicFileName (path : Bytes) : Bool := (bytesOf "^/").isPrefixOf path

section
variable {E H : Type} [DecidableEq H] (host : OverlayHost E H)

/-- whether the text is that on disk, and whether there is one -/
def FileHandle.computeDiskMatch (file : FileHandle) : Except E (Bool × Bool) :=
  if isDynamicFileName file.name then .ok (false, false)
  else match host.readFile file.name with
    | .error e => .error e
    | .ok none => .ok (false, false)
    | .ok (some content) => .ok (host.hash content = host.hash file.content, true)

/-! ## grouping -/

/-- what a batch keeps of the events of one file -/
structure Events where
  opened : Option FileChange
  close : Bool
  watched : Bool
  changes : List FileChange
  saved : Bool
  created : Bool
  deleted : Bool
deriving DecidableEq

def Events.empty : Events := ⟨none, false, false, [], false, false, false⟩

def Events.add (events : Events) (change : FileChange) : Except (Failure E) Events :=
  if events.opened.isSome then .error .panicked
  else match change.kind with
    | .openFile => .ok { Events.empty with opened := some change }
    | .close => .ok { events with close := true, changes := [], saved := false, watched := false }
    | .change =>
      if events.close then .error .panicked
      else .ok { events with changes := events.changes ++ [change], saved := false, watched := false }
    | .save => .ok { events with saved := true }
    | .watchCreate =>
      if events.deleted then .ok { events with deleted := false, watched := true }
      else .ok { events with created := true }
    | .watchChange =>
      if !events.created then .ok { events with watched := true, saved := false } else .ok events
    | .watchDelete =>
      let events := { events with watched := false, saved := false }
      if events.created then .ok { events with created := false }
      else .ok { events with deleted := true }

abbrev Grouped := Std.ExtTreeMap Bytes Events

def groupStep (grouped : Grouped × FileChangeSummary) (change : FileChange) :
    Except (Failure E) (Grouped × FileChangeSummary) := do
  let events ← (grouped.1[change.uri]?.getD .empty).add change
  let outside := change.kind.isWatch && !decide (bytesOf "/node_modules/" <:+: change.uri)
  let result := { grouped.2 with
    includesWatchChangeOutsideNodeModules :=
      grouped.2.includesWatchChangeOutsideNodeModules || outside }
  return (grouped.1.insert change.uri events, result)

def group (changes : List FileChange) : Except (Failure E) (Grouped × FileChangeSummary) :=
  changes.foldlM groupStep (∅, .empty)

/-! ## one file -/

/-- the map that is made, the overlay of the file in it, and the summary -/
structure Working where
  overlays : Overlays
  overlay : Option FileHandle
  result : FileChangeSummary

def openOverlay (uri : Bytes) (change : FileChange) (w : Working) : Except (Failure E) Working :=
  if w.result.opened.isSome ∨ w.result.reopened.isSome then .error .panicked
  else
    let result := match w.overlay with
      | some old =>
        if old.content ≠ change.content then { w.result with changed := insert uri w.result.changed }
        else { w.result with reopened := some uri }
      | none => { w.result with opened := some uri }
    let name := host.fileName uri
    let kind := languageKindToScriptKind change.language
    let kind := if kind = .unknown then .fromFileName name else kind
    let overlay := FileHandle.overlay name change.content change.version kind
    .ok ⟨w.overlays.insert (host.path uri) overlay, some overlay, result⟩

def closeOverlay (uri : Bytes) (events : Events) (w : Working) : Working :=
  if events.close ∧ w.overlay.isSome then
    ⟨w.overlays.erase (host.path uri), none, { w.result with closed := insert uri w.result.closed }⟩
  else w

def watchOverlay (uri : Bytes) (events : Events) (w : Working) : Except (Failure E) Working :=
  if events.watched then
    match w.overlay with
    | some old =>
      if !events.saved then
        match old.computeDiskMatch host with
        | .error e => .error (.failed e)
        | .ok (matchesDisk, _) =>
          if matchesDisk ≠ old.matchesDisk then
            let overlay := old.withDiskMatch matchesDisk
            .ok { w with overlays := w.overlays.insert (host.path uri) overlay, overlay := some overlay }
          else .ok w
      else .ok w
    | none => .ok { w with result := { w.result with changed := insert uri w.result.changed } }
  else .ok w

/-- the text behind an edit, `none` for an empty union -/
def editedContent (content : Bytes) (edit : ContentChange) : Except (Failure E) (Option Bytes) :=
  match edit.range, edit.wholeDocument with
  | some part, _ =>
    let lineMap := LspLineMap.new content
    match lspLineAndCharacterToPosition content lineMap part.start host.encoding,
        lspLineAndCharacterToPosition content lineMap part.stop host.encoding with
    | some start, some stop =>
      .ok (some (content.take start.toNat ++ part.text ++ content.drop stop.toNat))
    | _, _ => .error .panicked
  | none, some whole => .ok (some whole)
  | none, none => .ok none

def applyEdit (version : Int32) (old : FileHandle) (edit : ContentChange) :
    Except (Failure E) FileHandle := do
  match ← editedContent host old.content edit with
  | some content => return .overlay old.name content version old.kind
  | none => return old

/-- the edits of one event; the version is taken over unless there are none -/
def changeFile (old : FileHandle) (change : FileChange) : Except (Failure E) FileHandle := do
  let edited ← change.changes.foldlM (applyEdit host change.version) old
  if change.changes.isEmpty then return edited
  else if edited.version = change.version ∧ !edited.matchesDisk then return edited
  else return .overlay edited.name edited.content change.version edited.kind

def changeStep (uri : Bytes) (w : Working) (change : FileChange) : Except (Failure E) Working :=
  match w.overlay with
  | none => .ok w
  | some old => do
    let next ← changeFile host old change
    if change.changes.isEmpty then return { w with overlay := some next }
    else return { w with overlays := w.overlays.insert (host.path uri) next, overlay := some next }

def changeOverlay (uri : Bytes) (events : Events) (w : Working) : Except (Failure E) Working :=
  if !events.changes.isEmpty ∧ w.overlay.isSome then
    events.changes.foldlM (changeStep host uri)
      { w with result := { w.result with changed := insert uri w.result.changed } }
  else .ok w

def saveOverlay (uri : Bytes) (events : Events) (w : Working) : Working :=
  if events.saved then
    match w.overlay with
    | some old => { w with overlays := w.overlays.insert (host.path uri) (old.withDiskMatch true) }
    | none =>
      if !events.watched then { w with result := { w.result with changed := insert uri w.result.changed } }
      else w
  else w

def reportDisk (uri : Bytes) (events : Events) (w : Working) : Working :=
  if w.overlay.isNone then
    let result := w.result
    let result := if events.created then { result with created := insert uri result.created } else result
    let result := if events.deleted then { result with deleted := insert uri result.deleted } else result
    { w with result := result }
  else w

def processUri (w : Overlays × FileChangeSummary) (entry : Bytes × Events) :
    Except (Failure E) (Overlays × FileChangeSummary) := do
  let (uri, events) := entry
  let w : Working := ⟨w.1, w.1[host.path uri]?, w.2⟩
  match events.opened with
  | some change =>
    let w ← openOverlay host uri change w
    return (w.overlays, w.result)
  | none =>
    let w := closeOverlay host uri events w
    let w ← watchOverlay host uri events w
    let w ← changeOverlay host uri events w
    let w := reportDisk uri events (saveOverlay host uri events w)
    return (w.overlays, w.result)

/-- the overlays that are published, and the summary -/
def processChanges (overlays : Overlays) (changes : List FileChange) :
    Except (Failure E) (Overlays × FileChangeSummary) := do
  let (grouped, result) ← group changes
  grouped.toList.foldlM (processUri host) (overlays, result)

end
end Tsr.Project
