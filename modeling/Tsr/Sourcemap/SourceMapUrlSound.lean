import Tsr.Sourcemap.SourceMapperQueries
import Tsr.Sourcemap.SourceMapUrl

/-!
# No panic from the text of a map

* `tryParseBase64Url_none`     the only url that panics;
* `getPositions_some`          the queries of a mapper never panic;
* `getDocumentPositionMapper_total`   the mapper of every url and every text, as long as the sources of the
                               mappings are entries of the list;
* `getDocumentPositionMapper_panics`  a data url, and a map, that panic.
-/

set_option linter.unusedSectionVars false

namespace Tsr.Sourcemap
open Tsr.Jsstring
open Tsr.Lib.Loop

/-! ## data urls -/

theorem dropPrefix_eq (url start rest : JsString) : url.dropPrefix? start = some rest ↔ url = start ++ rest := by
  rw [List.dropPrefix?_eq_some_iff]
  constructor
  · intro h
    obtain ⟨start', hurl, hsame⟩ := h
    rw [hurl, eq_of_beq hsame]
  · intro h
    exact ⟨start, h, beq_self_eq_true start⟩

/-- a data url of JSON that ends less than six bytes behind `charset=` -/
def ShortCharset (url : JsString) : Prop :=
  ∃ rest : JsString, url = asciiBytes "data:application/json;charset=" ++ rest ∧ rest.length < 6

theorem dataCharset_eq (rest : JsString) : asciiBytes "data:" ++ (asciiBytes "application/json;" ++
    (asciiBytes "charset=" ++ rest)) = asciiBytes "data:application/json;charset=" ++ rest := rfl

/-- **Only a short character set panics.** -/
theorem tryParseBase64Url_none (table : SimpleFold) (url : JsString) :
    tryParseBase64Url table url = none ↔ ShortCharset url := by
  unfold tryParseBase64Url
  constructor
  · intro h
    split at h
    · cases h
    · next url1 hdata =>
      split at h
      · cases h
      · next url2 hjson =>
        split at h
        · cases h
        · next url3 hcharset =>
          rw [dropPrefix_eq] at hdata hjson hcharset
          split at h
          · next hshort => exact ⟨url3, by rw [hdata, hjson, hcharset, dataCharset_eq], hshort⟩
          · obtain ⟨equal, hequal⟩ := equalFold_some table (url3.take 6) (asciiBytes "utf-8;")
            rw [hequal, Option.bind_eq_bind, Option.bind_some] at h
            split at h
            · cases h
            · cases h
  · intro h
    obtain ⟨rest, hurl, hshort⟩ := h
    rw [← dataCharset_eq] at hurl
    rw [(dropPrefix_eq _ _ _).2 hurl]
    dsimp only
    rw [(dropPrefix_eq _ _ _).2 rfl]
    dsimp only
    rw [(dropPrefix_eq _ _ _).2 rfl]
    dsimp only
    rw [if_pos hshort]

/-! ## the queries -/

section
variable {host : Host} {paths : Paths} {map : RawSourceMap} {mapPath : JsString}
variable {decoded : List MappedPosition} {mapper : DocumentPositionMapper}

theorem binarySearchFunc_some (ms : List MappedPosition) (target : Int) (key : MappedPosition → Offset) :
    ∃ i, binarySearchFunc ms target key = some i := by
  refine loop_rule (binarySearchPass ms fun m => signOf ((key m).1 - target) = .lt) (fun _ => none)
    (fun s => s.2 - s.1) (fun s => s.2 ≤ ms.length) ?_ (fun r => ∃ i, r = some i) ?_ _ (Nat.le_refl _)
  · intro s s' hs hpass
    unfold binarySearchPass at hpass
    split at hpass
    · next hopen =>
      have hmid : (s.1 + s.2) / 2 < ms.length := by omega
      simp only [List.getElem?_eq_getElem hmid] at hpass
      split at hpass
      · cases hpass
        exact ⟨hs, by dsimp only; omega⟩
      · cases hpass
        exact ⟨by dsimp only; omega, by dsimp only; omega⟩
    · cases hpass
  · intro s r hs hpass
    unfold binarySearchPass at hpass
    split at hpass
    · next hopen =>
      have hmid : (s.1 + s.2) / 2 < ms.length := by omega
      simp only [List.getElem?_eq_getElem hmid] at hpass
      split at hpass
      · cases hpass
      · cases hpass
    · cases hpass
      exact ⟨s.1, rfl⟩

/-- **The queries never panic**, whatever position they are asked for. -/
theorem getPositions_some (hmade : Made host paths map mapPath decoded mapper)
    (hin : ∀ p ∈ decoded, InSources map p) (loc : DocumentPosition) :
    (∃ answer, mapper.getSourcePosition loc = some answer) ∧
      ∃ answer, mapper.getGeneratedPosition loc paths = some answer := by
  constructor
  · obtain ⟨i, hi⟩ := binarySearchFunc_some mapper.generatedMappings loc.pos MappedPosition.generatedPosition
    rw [getSourcePosition_eq hmade hi]
    split
    · exact ⟨none, rfl⟩
    · cases hget : mapper.generatedMappings[i]? with
      | none => exact ⟨none, rfl⟩
      | some m => exact sourceOf_some (hin m (hmade.generated.mem m (List.mem_of_getElem? hget)))
  · unfold DocumentPositionMapper.getGeneratedPosition
    split
    · exact ⟨none, rfl⟩
    · next k _ =>
      split
      · exact ⟨none, rfl⟩
      · obtain ⟨i, hi⟩ := binarySearchFunc_some (mapper.mappingsOf k) loc.pos MappedPosition.sourcePosition
        dsimp only
        rw [hi, Option.bind_eq_bind, Option.bind_some]
        split
        · exact ⟨none, rfl⟩
        · split
          · exact ⟨none, rfl⟩
          · exact ⟨_, rfl⟩

end

/-! ## the mapper of a url -/

section
variable (table : SimpleFold) (host : Host) (paths : Paths) (unmarshal : JsString → Option RawSourceMap)

theorem mapDocument_none (url generatedFileName : JsString) :
    mapDocument table host paths url generatedFileName = none ↔ ShortCharset url := by
  rw [← tryParseBase64Url_none table url]
  unfold mapDocument
  cases hempty : url.isEmpty with
  | true =>
    rw [List.isEmpty_iff.1 hempty]
    constructor
    · intro h
      cases h
    · intro h
      cases h
  | false =>
    simp only [Bool.false_eq_true, if_false, Option.bind_eq_bind]
    cases hobject : tryParseBase64Url table url with
    | none => exact ⟨fun _ => rfl, fun _ => rfl⟩
    | some object =>
      constructor
      · intro h
        rw [Option.bind_some] at h
        split at h
        · cases h
        · cases h
      · intro h
        cases h

/-- **A text never panics** if the sources of its mappings are entries of the list. -/
theorem convertDocumentToSourceMapper_some (contents mapFileName : JsString)
    (hsources : ∀ map, tryParseRawSourceMap unmarshal contents = some map → SourcesInRange map) :
    ∃ answer, convertDocumentToSourceMapper host paths unmarshal contents mapFileName = some answer ∧
      ∀ mapper, answer = some mapper → ∃ map decoded, Made host paths map mapFileName decoded mapper ∧
        ∀ p ∈ decoded, InSources map p := by
  have hnone : ∃ answer : Option DocumentPositionMapper, some none = some answer ∧
      ∀ mapper, answer = some mapper → ∃ map decoded, Made host paths map mapFileName decoded mapper ∧
        ∀ p ∈ decoded, InSources map p := by
    refine ⟨none, rfl, ?_⟩
    intro mapper h
    cases h
  unfold convertDocumentToSourceMapper
  cases hmap : tryParseRawSourceMap unmarshal contents with
  | none => exact hnone
  | some map =>
    dsimp only
    split
    · exact hnone
    · split
      · exact hnone
      · obtain ⟨decoded, mapper, -, hcreate, hmade, hin⟩ :=
          create_spec host paths map mapFileName (hsources map hmap)
        rw [hcreate]
        refine ⟨some mapper, rfl, ?_⟩
        intro mapper' h
        rw [← Option.some.inj h]
        exact ⟨map, decoded, hmade, hin⟩

/-- a document that is found, or missing, has its answer -/
theorem getDocumentPositionMapper_some {url generatedFileName : JsString} {document : Option (JsString × JsString)}
    (hdocument : mapDocument table host paths url generatedFileName = some document)
    (hsources : ∀ contents mapFileName map, document = some (contents, mapFileName) →
      tryParseRawSourceMap unmarshal contents = some map → SourcesInRange map) :
    ∃ answer, getDocumentPositionMapper table host paths unmarshal url generatedFileName = some answer ∧
      ∀ mapper, answer = some mapper → ∃ mapFileName map decoded,
        Made host paths map mapFileName decoded mapper ∧ ∀ p ∈ decoded, InSources map p := by
  unfold getDocumentPositionMapper
  rw [hdocument, Option.bind_eq_bind, Option.bind_some]
  cases document with
  | none =>
    refine ⟨none, rfl, ?_⟩
    intro mapper h
    cases h
  | some document =>
    obtain ⟨answer, hanswer, hmade⟩ := convertDocumentToSourceMapper_some host paths unmarshal document.1
      document.2 fun map hmap => hsources document.1 document.2 map rfl hmap
    exact ⟨answer, hanswer, fun mapper h => ⟨document.2, hmade mapper h⟩⟩

/-- **The mapper of a url is made, its queries are answered, and the decoder of every mappings string
ends.**  Only a short character set panics. -/
theorem getDocumentPositionMapper_total (url generatedFileName : JsString)
    (hsources : ∀ contents mapFileName map,
      mapDocument table host paths url generatedFileName = some (some (contents, mapFileName)) →
      tryParseRawSourceMap unmarshal contents = some map → SourcesInRange map) :
    (getDocumentPositionMapper table host paths unmarshal url generatedFileName = none ↔ ShortCharset url) ∧
    (∀ mapper, getDocumentPositionMapper table host paths unmarshal url generatedFileName =
        some (some mapper) → ∀ loc : DocumentPosition,
      (∃ answer, mapper.getSourcePosition loc = some answer) ∧
        ∃ answer, mapper.getGeneratedPosition loc paths = some answer) ∧
    ∀ (mappings : JsString) (fuel : Nat), mappings.length < fuel →
      (MappingsDecoder.values fuel (decodeMappings mappings)).2.Ended := by
  rw [← mapDocument_none table host paths url generatedFileName]
  refine ⟨?_, ?_, fun mappings fuel hfuel => (decoder_ends mappings fuel hfuel).1⟩
  · constructor
    · intro hnone
      cases hdocument : mapDocument table host paths url generatedFileName with
      | none => rfl
      | some document =>
        rw [hdocument] at hsources
        obtain ⟨answer, hanswer, -⟩ := getDocumentPositionMapper_some table host paths unmarshal hdocument
          fun contents name map h => hsources contents name map (congrArg some h)
        rw [hnone] at hanswer
        cases hanswer
    · intro hnone
      unfold getDocumentPositionMapper
      rw [hnone]
      rfl
  · intro mapper hmapper loc
    cases hdocument : mapDocument table host paths url generatedFileName with
    | none =>
      unfold getDocumentPositionMapper at hmapper
      rw [hdocument] at hmapper
      cases hmapper
    | some document =>
      rw [hdocument] at hsources
      obtain ⟨answer, hanswer, hmade⟩ := getDocumentPositionMapper_some table host paths unmarshal hdocument
        fun contents name map h => hsources contents name map (congrArg some h)
      rw [hmapper] at hanswer
      obtain ⟨mapFileName, map, decoded, hmade, hin⟩ := hmade mapper (Option.some.inj hanswer).symm
      exact getPositions_some hmade hin loc

end

/-! ## maps in data urls -/

/-- no rune has a fold -/
def noFolds : SimpleFold where
  simpleFold := id
  longest := 1
  cycle := fun _ => ⟨0, Nat.one_pos, rfl⟩

/-- the text of `sparseMap` -/
def sparseText : JsString :=
  asciiBytes "\x7b\"version\":3,\"file\":\"/c\",\"sources\":[\"/a\",\"/b\"],\"mappings\":\"ACAA\"\x7d"

def sparseUrl : JsString := asciiBytes
  "data:application/json;base64,eyJ2ZXJzaW9uIjozLCJmaWxlIjoiL2MiLCJzb3VyY2VzIjpbIi9hIiwiL2IiXSwibWFwcGluZ3MiOiJBQ0FBIn0="

/-- a map whose mapping is of a source behind its list -/
def farMap : RawSourceMap := { sparseMap with sources := [firstSource] }

def farText : JsString :=
  asciiBytes "\x7b\"version\":3,\"file\":\"/c\",\"sources\":[\"/a\"],\"mappings\":\"ACAA\"\x7d"

def shortCharsetUrl : JsString := asciiBytes "data:application/json;charset=utf8"

/-- a short character set, and a source behind the list -/
theorem getDocumentPositionMapper_panics :
    getDocumentPositionMapper noFolds shortFiles rootPaths (fun _ => none) shortCharsetUrl firstSource = none ∧
    getDocumentPositionMapper noFolds { shortFiles with readFile := fun _ => some farText } rootPaths
      (fun contents => if contents = farText then some farMap else none) [] firstSource = none := by
  constructor
  · decide +kernel
  · decide +kernel

theorem getDocumentPositionMapper_total_sparse :
    (getDocumentPositionMapper noFolds shortFiles rootPaths
        (fun contents => if contents = sparseText then some sparseMap else none) sparseUrl firstSource = none ↔
      ShortCharset sparseUrl) ∧
    (∀ mapper, getDocumentPositionMapper noFolds shortFiles rootPaths
        (fun contents => if contents = sparseText then some sparseMap else none) sparseUrl firstSource =
        some (some mapper) → ∀ loc : DocumentPosition,
      (∃ answer, mapper.getSourcePosition loc = some answer) ∧
        ∃ answer, mapper.getGeneratedPosition loc rootPaths = some answer) ∧
    ∀ (mappings : JsString) (fuel : Nat), mappings.length < fuel →
      (MappingsDecoder.values fuel (decodeMappings mappings)).2.Ended := by
  refine getDocumentPositionMapper_total noFolds shortFiles rootPaths
    (fun contents => if contents = sparseText then some sparseMap else none) sparseUrl firstSource ?_
  intro contents mapFileName map _ hmap
  obtain ⟨hmap, -⟩ := Option.filter_eq_some_iff.1 hmap
  dsimp only at hmap
  split at hmap
  · rw [← Option.some.inj hmap]
    exact sparse_inRange
  · cases hmap

end Tsr.Sourcemap
