import Tsr.Jsstring.SimpleFold
import Tsr.Scanner.Classify
import Tsr.Sourcemap.SourceMapper

/-!
# The source map of a generated file

The url at the end of a generated file is the map itself, as a data url, or the name of the map.  The
outer `none` of a result stands for a panic.

* `tryParseBase64Url`           the object of a data url;
* `stdDecodeString`             the bytes it stands for;
* `getDocumentPositionMapper`   the mapper of a generated file, from its url.
-/

set_option linter.unusedSectionVars false

namespace Tsr.Sourcemap
open Tsr.Jsstring
open Tsr.Json (decodeUtf8)
open Tsr.Lib.Loop

def asciiBytes (s : String) : JsString := s.toList.map fun c => c.toNat.toUInt8

/-! ## base64 -/

def padChar : UInt8 := 0x3D

/-- the value of a symbol, none for a byte that is no symbol -/
def decodeMap (byte : UInt8) : Option Nat :=
  if 0x41 ≤ byte ∧ byte ≤ 0x5A then some (byte - 0x41).toNat
  else if 0x61 ≤ byte ∧ byte ≤ 0x7A then some (byte - 0x61 + 26).toNat
  else if 0x30 ≤ byte ∧ byte ≤ 0x39 then some (byte - 0x30 + 52).toNat
  else if byte = 0x2B then some 62
  else if byte = 0x2F then some 63
  else none

/-- the padding of a group, by its last two symbols -/
def paddingOf (third fourth : UInt8) : Nat :=
  if third = padChar ∧ fourth = padChar then 2 else if fourth = padChar then 1 else 0

/-- groups of four symbols; only the last may have a padding -/
def decodeGroups : List UInt8 → Option JsString
  | first :: second :: third :: fourth :: rest => do
    let padding := paddingOf third fourth
    if 0 < padding ∧ rest ≠ [] then none
    else
      let digits ← ([first, second, third, fourth].take (4 - padding)).mapM decodeMap
      let val := (digits.foldl (fun val digit => (val <<< 6) ||| digit) 0) <<< (6 * padding)
      let tail ← decodeGroups rest
      return ([val >>> 16, val >>> 8, val].map UInt8.ofNat).take (3 - padding) ++ tail
  | _ => some []

/-- none where the text is no base64 -/
def stdDecodeString (src : JsString) : Option JsString :=
  let symbols := src.filter fun byte => byte != 0x0D && byte != 0x0A
  if symbols.length % 4 ≠ 0 then none else decodeGroups symbols

/-! ## data urls -/

def isBase64Rune (r : Nat) : Bool :=
  Scanner.isAsciiLetter r || Scanner.isDigit r || r = 0x2B || r = 0x2F || r = 0x3D

/-- `s` is the url from `offset` on -/
def base64Pass (s : JsString) : Pass JsString Bool :=
  if s = [] then .leave true
  else if isBase64Rune (decodeUtf8 s).1 then .again (s.drop (decodeUtf8 s).2) else .leave false

def onlyBase64 (url : JsString) : Bool := loop base64Pass (fun _ => false) List.length url

/-- what follows the character set -/
def base64Object (url : JsString) : JsString × Bool :=
  match url.dropPrefix? (asciiBytes "base64,") with
  | none => ([], true)
  | some url => if onlyBase64 url then (url, true) else ([], true)

section
variable (table : SimpleFold)

/-- The object of a data url, and whether the url is one.  The slice behind `charset=` panics where
the url ends too early. -/
def tryParseBase64Url (url : JsString) : Option (JsString × Bool) :=
  match url.dropPrefix? (asciiBytes "data:") with
  | none => some ([], false)
  | some url =>
    match url.dropPrefix? (asciiBytes "application/json;") with
    | none => some ([], true)
    | some url =>
      match url.dropPrefix? (asciiBytes "charset=") with
      | none => some (base64Object url)
      | some url =>
        if url.length < 6 then none
        else do
          let equal ← equalFold table (url.take 6) (asciiBytes "utf-8;")
          if equal then some (base64Object (url.drop 6)) else some ([], true)

/-! ## the mapper -/

variable (host : Host) (paths : Paths) (unmarshal : JsString → Option RawSourceMap)

def tryParseRawSourceMap (contents : JsString) : Option RawSourceMap :=
  (unmarshal contents).filter fun map => map.version = 3

def convertDocumentToSourceMapper (contents mapFileName : JsString) :
    Option (Option DocumentPositionMapper) :=
  match tryParseRawSourceMap unmarshal contents with
  | none => some none
  | some map =>
    if map.sources.isEmpty || map.file.isEmpty || map.mappings.isEmpty then some none
    else if (map.sourcesContent.getD []).any Option.isSome then some none
    else (createDocumentPositionMapper host paths map mapFileName).map some

/-- the text of the map and the name it is read under -/
def mapDocument (url generatedFileName : JsString) : Option (Option (JsString × JsString)) := do
  let object ← if url.isEmpty then some ([], false) else tryParseBase64Url table url
  match if object.1.isEmpty then none else stdDecodeString object.1 with
  | some decoded => return some (decoded, generatedFileName)
  | none =>
    let mapFileName := if object.2 then [] else url
    let possibleMapLocations :=
      (if mapFileName.isEmpty then [] else [mapFileName]) ++ [generatedFileName ++ asciiBytes ".map"]
    return possibleMapLocations.findSome? fun location =>
      let mapFileName := paths.absolute location (paths.directory generatedFileName)
      (host.readFile mapFileName).map fun contents => (contents, mapFileName)

def getDocumentPositionMapper (url generatedFileName : JsString) :
    Option (Option DocumentPositionMapper) := do
  match ← mapDocument table host paths url generatedFileName with
  | none => return none
  | some (contents, mapFileName) =>
    convertDocumentToSourceMapper host paths unmarshal contents mapFileName

end

end Tsr.Sourcemap
