import Tsr.Sourcemap.DecoderSound
import Tsr.Sourcemap.SourceMapperSound

/-!
# The queries of a mapper

The sources of the mappings are entries of the list of sources; then a mapper is made, and its lists
hold the mappings in the order of their positions.

* `sourceIndicesOf_spec`          a path stands for the last source that has it;
* `create_spec`                   the mapper that is made;
* `position_queries`              the answers are the nearest mappings, as long as the index of the source
                                  is below the number of sources that are mapped;
* `getGeneratedPosition_sparse`   a source that is mapped and not found.
-/

set_option linter.unusedSectionVars false

namespace Tsr.Sourcemap
open Tsr.Jsstring
open Tsr.Lib.Result

/-! ## the positions of a mapping -/

theorem LineInfo.position_some (info : LineInfo) (line character : Int) :
    ∃ p, info.position line character = some p := by
  rcases ecmaLineStarts_table info.text with ⟨hnone, -⟩ | ⟨starts, hsome, htable⟩
  · rw [info.made] at hnone
    cases hnone
  · rw [info.made] at hsome
    obtain ⟨q, -, hposition⟩ := computePosition_edits htable line character
    rw [← Option.some.inj hsome] at hposition
    unfold LineInfo.position
    split
    · next hnone =>
      rw [hposition] at hnone
      cases hnone
    · exact ⟨_, rfl⟩

theorem positionIn_some (info : Option LineInfo) (line character : Int) :
    ∃ p, positionIn info line character = some p := by
  cases info with
  | none => exact ⟨missingPosition, rfl⟩
  | some info => exact info.position_some line character

section
variable (host : Host) (paths : Paths) (map : RawSourceMap) (mapPath : JsString)

/-- every mapping that has a source has one of the sources of the map -/
def SourcesInRange : Prop :=
  ∀ m ∈ (decodeAll map.mappings).1, m.isSourceMapping = true → m.sourceIndex.toInt < map.sources.length

/-- the source of a mapped position is an entry of the list -/
def InSources (p : MappedPosition) : Prop :=
  p.isSourceMappedPosition = true → 0 ≤ p.sourceIndex.toInt ∧ p.sourceIndex.toInt < map.sources.length

theorem sourcePathsOf_get {i : Int} (hlow : 0 ≤ i) (hhigh : i < map.sources.length) :
    ∃ path, at? (sourcePathsOf paths map mapPath) i = some path := by
  have hlen : (sourcePathsOf paths map mapPath).length = map.sources.length := List.length_map _
  have hi : i.toNat < (sourcePathsOf paths map mapPath).length := by omega
  refine ⟨(sourcePathsOf paths map mapPath)[i.toNat], ?_⟩
  rw [at?, if_neg (Int.not_lt.2 hlow)]
  exact List.getElem?_eq_getElem hi

theorem processMapping_spec {m : Mapping}
    (h : m.isSourceMapping = true → 0 ≤ m.sourceIndex.toInt ∧ m.sourceIndex.toInt < map.sources.length) :
    ∃ p, processMapping host paths map mapPath m = some p ∧ InSources map p := by
  obtain ⟨generated, hgenerated⟩ := positionIn_some
    (host.getEcmaLineInfo (generatedPathOf paths map mapPath)) m.generatedLine.toInt m.generatedCharacter.toInt
  cases hm : m.isSourceMapping with
  | true =>
    obtain ⟨path, hpath⟩ := sourcePathsOf_get paths map mapPath (h hm).1 (h hm).2
    obtain ⟨source, hsource⟩ := positionIn_some (host.getEcmaLineInfo path) m.sourceLine.toInt
      m.sourceCharacter.toInt
    have hposition : sourcePositionOf host paths map mapPath m = some source := by
      rw [sourcePositionOf, if_pos hm, hpath]
      exact hsource
    refine ⟨⟨generated, source, m.sourceIndex, m.nameIndex⟩, ?_, fun _ => h hm⟩
    rw [processMapping, hgenerated, hposition]
    rfl
  | false =>
    have hposition : sourcePositionOf host paths map mapPath m = some missingPosition := by
      rw [sourcePositionOf, if_neg (by rw [hm]; exact Bool.false_ne_true)]
    refine ⟨⟨generated, missingPosition, m.sourceIndex, m.nameIndex⟩, ?_, ?_⟩
    · rw [processMapping, hgenerated, hposition]
      rfl
    · intro hmapped
      rw [MappedPosition.isSourceMappedPosition, bne_self_eq_false, Bool.and_false] at hmapped
      cases hmapped

/-- every mapping has its positions -/
theorem processMappings_spec (hsources : SourcesInRange map) :
    ∃ decoded, (decodeAll map.mappings).1.mapM (processMapping host paths map mapPath) = some decoded ∧
      ∀ p ∈ decoded, InSources map p := by
  obtain ⟨decoded, hdecoded, hall⟩ := exists_mapM fun m hm =>
    processMapping_spec host paths map mapPath (m := m) fun hsource =>
      ⟨decodeAll_sourceIndex map.mappings m hm hsource, hsources m hm hsource⟩
  refine ⟨decoded, hdecoded, ?_⟩
  intro p hp
  obtain ⟨_, -, hsource⟩ := forall₂_mem_right hall p hp
  exact hsource

/-! ## the index of a path -/

/-- `k` is the last entry of the sources with the path of a file -/
structure SourceOf (fileName : JsString) (k : Nat) : Prop where
  entry : ∃ path, (sourcePathsOf paths map mapPath)[k]? = some path ∧
    paths.canonical path host.useCaseSensitiveFileNames =
      paths.canonical fileName host.useCaseSensitiveFileNames
  last : ∀ (j : Nat) (path : JsString), k < j → (sourcePathsOf paths map mapPath)[j]? = some path →
    paths.canonical path host.useCaseSensitiveFileNames ≠
      paths.canonical fileName host.useCaseSensitiveFileNames

theorem insertIndices_spec (canonical : JsString → JsString) (sources : List JsString) (key : JsString) (k : Nat)
    (hentry : ∃ path, sources[k]? = some path ∧ canonical path = key)
    (hlast : ∀ (j : Nat) (path : JsString), k < j → sources[j]? = some path → canonical path ≠ key) :
    (sources.zipIdx.foldl (fun (indices : Std.ExtTreeMap JsString Int) source =>
      indices.insert (canonical source.1) source.2) ∅)[key]? = some (k : Int) := by
  induction sources using List.reverseRecOn with
  | nil =>
    obtain ⟨path, hpath, -⟩ := hentry
    cases hpath
  | append_singleton sources path ih =>
    rw [List.zipIdx_append, List.foldl_append]
    show (Std.ExtTreeMap.insert _ (canonical path) ((0 + sources.length : Nat) : Int))[key]? = some (k : Int)
    rw [Nat.zero_add, Std.ExtTreeMap.getElem?_insert]
    obtain ⟨path', hpath', hkey⟩ := hentry
    by_cases hk : k < sources.length
    · have hne : canonical path ≠ key :=
        hlast sources.length path hk (by rw [List.getElem?_append_right (Nat.le_refl _), Nat.sub_self]; rfl)
      rw [if_neg (fun heq => hne (Std.LawfulEqCmp.eq_of_compare heq))]
      rw [List.getElem?_append_left hk] at hpath'
      refine ih ⟨path', hpath', hkey⟩ ?_
      intro j other hj hother
      refine hlast j other hj ?_
      rw [List.getElem?_append_left (List.getElem?_eq_some_iff.1 hother).1]
      exact hother
    · have hlen := (List.getElem?_eq_some_iff.1 hpath').1
      rw [List.length_append, List.length_singleton] at hlen
      have heq : k = sources.length := by omega
      rw [heq, List.getElem?_append_right (Nat.le_refl _), Nat.sub_self] at hpath'
      cases hpath'
      rw [if_pos (by rw [hkey]; exact Std.ReflCmp.compare_self), heq]

/-- **A path stands for the last source that has it.** -/
theorem sourceIndicesOf_spec {fileName : JsString} {k : Nat} (h : SourceOf host paths map mapPath fileName k) :
    (sourceIndicesOf host paths map mapPath)[paths.canonical fileName host.useCaseSensitiveFileNames]? =
      some (k : Int) :=
  insertIndices_spec (fun path => paths.canonical path host.useCaseSensitiveFileNames) _ _ k h.entry h.last

/-! ## the mapper that is made -/

/-- the mappings that have a position in a source -/
def mappedOf (decoded : List MappedPosition) : List MappedPosition :=
  decoded.filter MappedPosition.isSourceMappedPosition

/-- the mappings of a source -/
def ofSource (ms : List MappedPosition) (k : Int) : List MappedPosition :=
  ms.filter fun m => m.sourceIndex.toInt = k

structure Made (decoded : List MappedPosition) (mapper : DocumentPositionMapper) : Prop where
  sensitive : mapper.useCaseSensitiveFileNames = host.useCaseSensitiveFileNames
  sources : mapper.sourceFileAbsolutePaths = sourcePathsOf paths map mapPath
  indices : mapper.sourceToSourceIndexMap = sourceIndicesOf host paths map mapPath
  file : mapper.generatedAbsoluteFilePath = generatedPathOf paths map mapPath
  generated : Ordered MappedPosition.generatedPosition decoded mapper.generatedMappings
  lists : ∀ k : Int, Ordered MappedPosition.sourcePosition (ofSource (mappedOf decoded) k) (mapper.mappingsOf k)
  length : mapper.sourceMappings.length = mappedSources (mappedOf decoded)

/-- the list of an index is found by its value -/
theorem mappingsOf_ordered {mapper : DocumentPositionMapper} {mapped : List MappedPosition}
    (hkeys : ∀ k, k ∈ mapper.sourceMappings.map Prod.fst ↔ k ∈ mapped.map MappedPosition.sourceIndex)
    (hlists : ∀ g ∈ mapper.sourceMappings,
      Ordered MappedPosition.sourcePosition (mapped.filter fun m => m.sourceIndex = g.1) g.2) (k : Int) :
    Ordered MappedPosition.sourcePosition (ofSource mapped k) (mapper.mappingsOf k) := by
  unfold DocumentPositionMapper.mappingsOf
  cases hfind : mapper.sourceMappings.find? fun g => g.1.toInt = k with
  | some g =>
    have hk : g.1.toInt = k := by
      have hfound := List.find?_some hfind
      exact of_decide_eq_true hfound
    have hsame : ofSource mapped k = mapped.filter fun m => m.sourceIndex = g.1 := by
      refine List.filter_congr ?_
      intro m _
      rw [decide_eq_decide, ← hk, Int64.toInt_inj]
    rw [hsame]
    exact hlists g (List.mem_of_find?_eq_some hfind)
  | none =>
    have hnone : ofSource mapped k = [] := by
      refine List.filter_eq_nil_iff.2 ?_
      intro m hm hk
      obtain ⟨g, hg, heq⟩ := List.mem_map.1 ((hkeys m.sourceIndex).2 (List.mem_map.2 ⟨m, hm, rfl⟩))
      refine List.find?_eq_none.1 hfind g hg (decide_eq_true ?_)
      rw [heq]
      exact of_decide_eq_true hk
    rw [hnone]
    refine ⟨?_, ?_, List.Pairwise.nil⟩
    · intro m hm
      exact hm
    · intro m hm
      exact absurd hm List.not_mem_nil

/-- **A mapper is made.** -/
theorem create_spec (hsources : SourcesInRange map) :
    ∃ decoded mapper, decodedMappings host paths map mapPath = some decoded ∧
      createDocumentPositionMapper host paths map mapPath = some mapper ∧
      Made host paths map mapPath decoded mapper ∧ ∀ p ∈ decoded, InSources map p := by
  obtain ⟨all, hall, hrange⟩ := processMappings_spec host paths map mapPath hsources
  obtain ⟨decoded, hdecoded, hin⟩ : ∃ decoded, decodedMappings host paths map mapPath = some decoded ∧
      ∀ p ∈ decoded, InSources map p := by
    rw [decodedMappings, hall]
    by_cases herror : (decodeAll map.mappings).2.isSome = true
    · exact ⟨[], if_pos herror, fun p hp => absurd hp List.not_mem_nil⟩
    · exact ⟨all, if_neg herror, hrange⟩
  have hgroups := groups_spec (mappedOf decoded)
  obtain ⟨lists, hlists, hfst, hordered⟩ := orderGroups_spec (mappedOf decoded) _ hgroups.lists
  obtain ⟨generated, hgenerated, hsorted⟩ := orderMappings_spec MappedPosition.generatedPosition decoded
  change orderMappings compareGenerated decoded = some generated at hgenerated
  change ((decoded.filter MappedPosition.isSourceMappedPosition).foldl groupBySource []).mapM _ = _ at hlists
  refine ⟨decoded, ⟨host.useCaseSensitiveFileNames, sourcePathsOf paths map mapPath,
    sourceIndicesOf host paths map mapPath, generatedPathOf paths map mapPath, generated, lists⟩, hdecoded,
    ?_, ?_, hin⟩
  · rw [createDocumentPositionMapper, hdecoded]
    show Option.bind (List.mapM _ _) _ = _
    rw [hlists, Option.bind_some, hgenerated]
    rfl
  · refine ⟨rfl, rfl, rfl, rfl, hsorted, ?_, ?_⟩
    · apply mappingsOf_ordered
      · intro k
        show k ∈ lists.map Prod.fst ↔ _
        rw [hfst]
        exact hgroups.keys k
      · exact hordered
    · show lists.length = _
      rw [← hgroups.length, ← List.length_map Prod.fst, hfst, List.length_map]

/-! ## the answers -/

variable {host paths map mapPath}
variable {decoded : List MappedPosition} {mapper : DocumentPositionMapper} {loc : DocumentPosition}

/-- the source position of a mapping -/
def sourceOf (paths : Paths) (map : RawSourceMap) (mapPath : JsString) (m : MappedPosition) :
    Option (Option DocumentPosition) :=
  if m.isSourceMappedPosition then
    (at? (sourcePathsOf paths map mapPath) m.sourceIndex.toInt).map fun path => some ⟨path, m.sourcePosition.1⟩
  else some none

theorem sourceOf_some {m : MappedPosition} (h : InSources map m) :
    ∃ answer, sourceOf paths map mapPath m = some answer := by
  unfold sourceOf
  by_cases hm : m.isSourceMappedPosition = true
  · obtain ⟨path, hpath⟩ := sourcePathsOf_get paths map mapPath (h hm).1 (h hm).2
    rw [if_pos hm, hpath]
    exact ⟨_, rfl⟩
  · rw [if_neg hm]
    exact ⟨none, rfl⟩

/-- the answer is the source position of the nearest mapping; none where no mapping is left, or the
nearest has no source -/
def SourceMeets (paths : Paths) (map : RawSourceMap) (mapPath : JsString) (decoded : List MappedPosition)
    (mapper : DocumentPositionMapper) (loc : DocumentPosition) : Prop :=
  (∃ m answer, Nearest MappedPosition.generatedPosition decoded loc.pos m ∧
    sourceOf paths map mapPath m = some answer ∧ mapper.getSourcePosition loc = some answer) ∨
  ((∀ m ∈ decoded, m.generatedPosition.1 < loc.pos) ∧ mapper.getSourcePosition loc = some none)

/-- the answer is the generated position of the nearest mapping of the source -/
def GeneratedMeets (paths : Paths) (map : RawSourceMap) (mapPath : JsString) (decoded : List MappedPosition)
    (mapper : DocumentPositionMapper) (loc : DocumentPosition) (k : Nat) : Prop :=
  (∃ m, Nearest MappedPosition.sourcePosition (ofSource decoded k) loc.pos m ∧
    mapper.getGeneratedPosition loc paths =
      some (some ⟨generatedPathOf paths map mapPath, m.generatedPosition.1⟩)) ∨
  ((∀ m ∈ ofSource decoded k, m.sourcePosition.1 < loc.pos) ∧
    mapper.getGeneratedPosition loc paths = some none)

/-- the answer is that of the mapping that is found -/
theorem getSourcePosition_eq (hmade : Made host paths map mapPath decoded mapper) {i : Nat}
    (hi : binarySearchFunc mapper.generatedMappings loc.pos MappedPosition.generatedPosition = some i) :
    mapper.getSourcePosition loc = if mapper.generatedMappings.isEmpty then some none
      else (mapper.generatedMappings[i]?).elim (some none) (sourceOf paths map mapPath) := by
  unfold DocumentPositionMapper.getSourcePosition
  rw [hi, hmade.sources]
  cases mapper.generatedMappings.isEmpty with
  | true => rfl
  | false =>
    simp only [Bool.false_eq_true, if_false, Option.bind_eq_bind, Option.bind_some]
    cases mapper.generatedMappings[i]? with
    | none => rfl
    | some m =>
      dsimp only [Option.elim_some]
      rw [sourceOf]
      cases m.isSourceMappedPosition with
      | true =>
        cases at? (sourcePathsOf paths map mapPath) m.sourceIndex.toInt with
        | none => rfl
        | some path => rfl
      | false => rfl

/-- **The source of a position.** -/
theorem getSourcePosition_meets (hmade : Made host paths map mapPath decoded mapper)
    (hin : ∀ p ∈ decoded, InSources map p) (hlow : 0 ≤ loc.pos) (hhigh : loc.pos < 2 ^ 63) :
    SourceMeets paths map mapPath decoded mapper loc := by
  obtain ⟨i, hi, hanswer⟩ := search_nearest hmade.generated (fun a b h => h.1) hlow hhigh
  have hvalue := getSourcePosition_eq hmade hi
  by_cases hempty : mapper.generatedMappings.isEmpty = true
  · rw [if_pos hempty] at hvalue
    refine Or.inr ⟨?_, hvalue⟩
    intro m hm
    obtain ⟨m', hm', -⟩ := hmade.generated.same m hm
    rw [List.isEmpty_iff.1 hempty] at hm'
    exact absurd hm' List.not_mem_nil
  · rw [if_neg hempty] at hvalue
    rcases hanswer with ⟨m, hget, hnear⟩ | ⟨hget, hbelow⟩
    · have hfound : ∃ answer, sourceOf paths map mapPath m = some answer := sourceOf_some (hin m hnear.mem)
      obtain ⟨answer, hsome⟩ := hfound
      rw [hget] at hvalue
      exact Or.inl ⟨m, answer, hnear, hsome, hvalue.trans hsome⟩
    · rw [hget] at hvalue
      exact Or.inr ⟨hbelow, hvalue⟩

theorem mapped_of_le {m : MappedPosition} {k : Nat} (hindex : m.sourceIndex.toInt = k) (hlow : 0 ≤ loc.pos)
    (hle : loc.pos ≤ m.sourcePosition.1) : m.isSourceMappedPosition = true := by
  rw [MappedPosition.isSourceMappedPosition, Bool.and_eq_true, bne_iff_ne, bne_iff_ne]
  constructor
  · intro heq
    rw [heq] at hindex
    have : missingSource.toInt = -1 := rfl
    omega
  · intro heq
    rw [heq] at hle
    have : missingPosition.1 = -1 := rfl
    omega

/-- a mapping without a source position is no answer -/
theorem ofSource_mapped {k : Nat} (hlow : 0 ≤ loc.pos) {m : MappedPosition}
    (hm : m ∈ ofSource decoded k) (hle : loc.pos ≤ m.sourcePosition.1) :
    m ∈ ofSource (mappedOf decoded) k := by
  obtain ⟨hmem, hk⟩ := List.mem_filter.1 hm
  exact List.mem_filter.2 ⟨List.mem_filter.2 ⟨hmem, mapped_of_le (of_decide_eq_true hk) hlow hle⟩, hk⟩

theorem ofSource_of_mapped {k : Int} {m : MappedPosition} (hm : m ∈ ofSource (mappedOf decoded) k) :
    m ∈ ofSource decoded k := by
  obtain ⟨hmem, hk⟩ := List.mem_filter.1 hm
  exact List.mem_filter.2 ⟨(List.mem_filter.1 hmem).1, hk⟩

/-- **The generated position of a source whose index is below the number of mapped sources.** -/
theorem getGeneratedPosition_meets (hmade : Made host paths map mapPath decoded mapper) {k : Nat}
    (hsource : SourceOf host paths map mapPath loc.fileName k) (hk : k < mappedSources (mappedOf decoded))
    (hlow : 0 ≤ loc.pos) (hhigh : loc.pos < 2 ^ 63) :
    GeneratedMeets paths map mapPath decoded mapper loc k := by
  obtain ⟨i, hi, hanswer⟩ := search_nearest (hmade.lists k) (fun a b h => h.2.2) hlow hhigh
  have hindex := sourceIndicesOf_spec host paths map mapPath hsource
  have hin : ¬ ((k : Int) < 0 ∨ (mapper.sourceMappings.length : Int) ≤ k) := by
    rw [hmade.length]
    omega
  have hvalue : mapper.getGeneratedPosition loc paths =
      ((mapper.mappingsOf k)[i]?).elim (some none) fun mapping =>
        if mapping.sourceIndex.toInt ≠ k then some none
        else some (some ⟨mapper.generatedAbsoluteFilePath, mapping.generatedPosition.1⟩) := by
    unfold DocumentPositionMapper.getGeneratedPosition
    rw [hmade.indices, hmade.sensitive, hindex]
    dsimp only
    rw [if_neg hin, hi, Option.bind_eq_bind, Option.bind_some]
    cases (mapper.mappingsOf k)[i]? with
    | none => rfl
    | some m => rfl
  rcases hanswer with ⟨m, hget, hnear⟩ | ⟨hget, hbelow⟩
  · rw [hget, Option.elim_some] at hvalue
    have hmk : m.sourceIndex.toInt = k := of_decide_eq_true (List.mem_filter.1 hnear.mem).2
    rw [if_neg (not_not_intro hmk), hmade.file] at hvalue
    refine Or.inl ⟨m, ⟨ofSource_of_mapped hnear.mem, hnear.le, ?_⟩, hvalue⟩
    intro m' hm' hle
    exact hnear.least m' (ofSource_mapped hlow hm' hle) hle
  · rw [hget] at hvalue
    refine Or.inr ⟨?_, hvalue⟩
    intro m hm
    by_contra hge
    exact hge (hbelow m (ofSource_mapped hlow hm (Int.not_lt.1 hge)))

/-- a source with a higher index is not found -/
theorem getGeneratedPosition_high (hmade : Made host paths map mapPath decoded mapper) {k : Nat}
    (hsource : SourceOf host paths map mapPath loc.fileName k) (hk : ¬ k < mappedSources (mappedOf decoded)) :
    mapper.getGeneratedPosition loc paths = some none := by
  have hindex := sourceIndicesOf_spec host paths map mapPath hsource
  have hout : (k : Int) < 0 ∨ (mapper.sourceMappings.length : Int) ≤ k := by
    rw [hmade.length]
    omega
  unfold DocumentPositionMapper.getGeneratedPosition
  rw [hmade.indices, hmade.sensitive, hindex]
  dsimp only
  rw [if_pos hout]
  rfl

end

section
variable (host : Host) (paths : Paths) (map : RawSourceMap) (mapPath : JsString)

/-- **The queries are answered by the nearest mappings exactly when the index of the source is below the
number of mapped sources, or the source has no mapping left.** -/
theorem position_queries (hdecode : (decodeAll map.mappings).2 = none) (hsources : SourcesInRange map) :
    ∃ decoded mapper,
      (decodeAll map.mappings).1.mapM (processMapping host paths map mapPath) = some decoded ∧
      createDocumentPositionMapper host paths map mapPath = some mapper ∧
      ∀ (loc : DocumentPosition) (k : Nat), 0 ≤ loc.pos → loc.pos < 2 ^ 63 →
        SourceOf host paths map mapPath loc.fileName k →
        ((SourceMeets paths map mapPath decoded mapper loc ∧
            GeneratedMeets paths map mapPath decoded mapper loc k) ↔
          (k < mappedSources (mappedOf decoded) ∨ ∀ m ∈ ofSource decoded k, m.sourcePosition.1 < loc.pos)) := by
  obtain ⟨decoded, mapper, hdecoded, hcreate, hmade, hin⟩ := create_spec host paths map mapPath hsources
  have hall : (decodeAll map.mappings).1.mapM (processMapping host paths map mapPath) = some decoded := by
    obtain ⟨all, hall, hif⟩ := Option.bind_eq_some_iff.1 hdecoded
    rw [hdecode] at hif
    rw [hall, ← hif]
    rfl
  refine ⟨decoded, mapper, hall, hcreate, ?_⟩
  intro loc k hlow hhigh hsource
  have hsourceMeets : SourceMeets paths map mapPath decoded mapper loc :=
    getSourcePosition_meets hmade hin hlow hhigh
  by_cases hk : k < mappedSources (mappedOf decoded)
  · exact ⟨fun _ => Or.inl hk, fun _ => ⟨hsourceMeets, getGeneratedPosition_meets hmade hsource hk hlow hhigh⟩⟩
  · have hnone := getGeneratedPosition_high hmade hsource hk
    constructor
    · intro h
      rcases h.2 with ⟨m, -, hanswer⟩ | ⟨hbelow, -⟩
      · rw [hnone] at hanswer
        cases hanswer
      · exact Or.inr hbelow
    · intro h
      exact ⟨hsourceMeets, Or.inr ⟨h.resolve_left hk, hnone⟩⟩

end

/-! ## a map whose first source has no mapping -/

def threeChars : LineInfo where
  text := [0x61, 0x62, 0x63]
  lineStarts := [0]
  made := rfl
  small := by decide

/-- every file has three characters -/
def shortFiles : Host where
  useCaseSensitiveFileNames := true
  getEcmaLineInfo := fun _ => some threeChars
  readFile := fun _ => none

/-- the functions of paths, on names from the root -/
def rootPaths : Paths where
  directory := fun _ => [0x2F]
  absolute := fun path _ => path
  canonical := fun path _ => path

def firstSource : JsString := [0x2F, 0x61]
def secondSource : JsString := [0x2F, 0x62]

/-- the only mapping is of the second source -/
def sparseMap : RawSourceMap where
  version := 3
  file := [0x2F, 0x63]
  sourceRoot := []
  sources := [firstSource, secondSource]
  names := []
  mappings := [0x41, 0x43, 0x41, 0x41]
  sourcesContent := none

def secondMapping : MappedPosition := ⟨⟨0, by decide⟩, ⟨0, by decide⟩, 1, -1⟩

theorem sparse_inRange : SourcesInRange sparseMap := by
  have hall : ∀ m ∈ [(⟨0, 0, 1, 0, 0, -1⟩ : Mapping)], m.isSourceMapping = true → m.sourceIndex.toInt < 2 := by
    decide
  exact hall

theorem sparse_source : SourceOf shortFiles rootPaths sparseMap firstSource secondSource 1 := by
  refine ⟨⟨secondSource, rfl, rfl⟩, ?_⟩
  intro j path hj hpath
  have hlen : j < 2 := (List.getElem?_eq_some_iff.1 hpath).1
  omega

/-- the mapping of the second source is not found -/
theorem getGeneratedPosition_sparse :
    ¬ ∀ (host : Host) (paths : Paths) (map : RawSourceMap) (mapPath : JsString),
      (decodeAll map.mappings).2 = none → SourcesInRange map →
      ∃ decoded mapper,
        (decodeAll map.mappings).1.mapM (processMapping host paths map mapPath) = some decoded ∧
        createDocumentPositionMapper host paths map mapPath = some mapper ∧
        ∀ (loc : DocumentPosition) (k : Nat), 0 ≤ loc.pos → loc.pos < 2 ^ 63 →
          SourceOf host paths map mapPath loc.fileName k →
          SourceMeets paths map mapPath decoded mapper loc ∧
            GeneratedMeets paths map mapPath decoded mapper loc k := by
  intro h
  obtain ⟨decoded, mapper, hdecoded, hcreate, hmeets⟩ :=
    h shortFiles rootPaths sparseMap firstSource rfl sparse_inRange
  have hmapping : (decodeAll sparseMap.mappings).1.mapM
      (processMapping shortFiles rootPaths sparseMap firstSource) = some [secondMapping] := by decide +kernel
  have hnone : ((createDocumentPositionMapper shortFiles rootPaths sparseMap firstSource).bind fun mapper =>
      mapper.getGeneratedPosition ⟨secondSource, 0⟩ rootPaths) = some none := by decide +kernel
  rw [hmapping] at hdecoded
  rw [hcreate, Option.bind_some] at hnone
  have hgenerated := (hmeets ⟨secondSource, 0⟩ 1 (by decide) (by decide) sparse_source).2
  rcases hgenerated with ⟨m, -, hanswer⟩ | ⟨hbelow, -⟩
  · rw [hnone] at hanswer
    cases hanswer
  · rw [← Option.some.inj hdecoded] at hbelow
    have hlt : (0 : Int) < 0 := hbelow secondMapping (by decide)
    omega

/-- behind the mapping nothing is left to be found -/
theorem position_queries_sparse : ∃ decoded mapper,
    (decodeAll sparseMap.mappings).1.mapM (processMapping shortFiles rootPaths sparseMap firstSource) =
      some decoded ∧
    createDocumentPositionMapper shortFiles rootPaths sparseMap firstSource = some mapper ∧
    ((SourceMeets rootPaths sparseMap firstSource decoded mapper ⟨secondSource, 1⟩ ∧
        GeneratedMeets rootPaths sparseMap firstSource decoded mapper ⟨secondSource, 1⟩ 1) ↔
      (1 < mappedSources (mappedOf decoded) ∨ ∀ m ∈ ofSource decoded 1, m.sourcePosition.1 < 1)) := by
  obtain ⟨decoded, mapper, hdecoded, hcreate, hqueries⟩ :=
    position_queries shortFiles rootPaths sparseMap firstSource rfl sparse_inRange
  exact ⟨decoded, mapper, hdecoded, hcreate,
    hqueries ⟨secondSource, 1⟩ 1 (by decide) (by decide) sparse_source⟩

end Tsr.Sourcemap
