import Tsr.Json.Utf8

/-!
# Paths

Byte strings as the compiler's paths, whatever the host: `/` and `\` separate, and a root is a
separator, a server, a volume, a dynamic name or the authority of a URL.

* `encodedRootLength`   length of the root, the complement of it for a URL;
* `directory`           the path up to its last separator; a root is its own directory;
* `baseName`            the rest.

`directory_shorter` ends each walk from a path up to its root.
-/

namespace Tsr.Tspath
open Tsr.Json (Bytes)

def separator (byte : UInt8) : Bool := byte = 0x2F || byte = 0x5C

def isAlphabetic (byte : UInt8) : Bool :=
  (0x41 ≤ byte && byte ≤ 0x5A) || (0x61 ≤ byte && byte ≤ 0x7A)

/-- `file` -/
def fileScheme : Bytes := [0x66, 0x69, 0x6C, 0x65]

/-- `localhost` -/
def localhost : Bytes := [0x6C, 0x6F, 0x63, 0x61, 0x6C, 0x68, 0x6F, 0x73, 0x74]

/-- `://` -/
def schemeMark : Bytes := [0x3A, 0x2F, 0x2F]

/-- end of the volume separator of a file URL that starts at `start` -/
def volumeEnd (path : Bytes) (start : Nat) : Option Nat :=
  if path[start]? = some 0x3A then some (start + 1)
  else if (path.drop start).take 3 = [0x25, 0x33, 0x61] ∨
      (path.drop start).take 3 = [0x25, 0x33, 0x41] then some (start + 3)
  else none

/-- a file URL of this machine whose path begins with a volume -/
def hasVolume (path : Bytes) (schemeEnd authorityEnd : Nat) : Bool :=
  let authority := (path.take authorityEnd).drop (schemeEnd + 3)
  path.take schemeEnd = fileScheme && (authority = [] || authority = localhost) &&
    authorityEnd + 2 < path.length && path[authorityEnd + 1]?.any isAlphabetic

/-- length of the root of a URL; the scheme ends at `schemeEnd` -/
def urlRootLength (path : Bytes) (schemeEnd : Nat) : Nat :=
  match (path.drop (schemeEnd + 3)).findIdx? (· = 0x2F) with
  | none => path.length
  | some offset =>
    let authorityEnd := schemeEnd + 3 + offset
    let volume := if hasVolume path schemeEnd authorityEnd then volumeEnd path (authorityEnd + 2)
      else none
    match volume with
    | none => authorityEnd + 1
    | some stop =>
      if stop = path.length then stop
      else if path[stop]? = some 0x2F then stop + 1
      else authorityEnd + 1

/-- where `://` begins -/
def schemeEnd (path : Bytes) : Option Nat :=
  (List.range path.length).find? fun i => (path.drop i).take 3 = schemeMark

/-- a server is named up to the next separator of the kind that the path begins with -/
def serverLength (path : Bytes) (first : UInt8) : Nat :=
  match (path.drop 2).findIdx? (· = first) with
  | none => path.length
  | some stop => stop + 3

/-- URL roots are bitwise complemented; disk and untitled roots are positive -/
def encodedRootLength (path : Bytes) : Int :=
  match path with
  | [] => 0
  | first :: rest =>
    if separator first then
      if rest.head? = some first then serverLength path first else 1
    else if isAlphabetic first ∧ rest.head? = some 0x3A ∧ rest.length = 1 then 2
    else if isAlphabetic first ∧ rest.head? = some 0x3A ∧ rest[1]?.any separator then 3
    else if first = 0x5E ∧ rest.head? = some 0x2F then 2
    else match schemeEnd path with
      | some stop => -(urlRootLength path stop : Int) - 1
      | none => 0

def rootLength (path : Bytes) : Nat :=
  let encoded := encodedRootLength path
  if encoded < 0 then (-encoded - 1).toNat else encoded.toNat

def normalizeSlashes (path : Bytes) : Bytes := path.map fun b => if b = 0x5C then 0x2F else b

/-- position of the last byte with the property -/
def rposition (p : UInt8 → Bool) (path : Bytes) : Option Nat :=
  (List.range path.length).reverse.find? fun i => path[i]?.any p

def trimSlash (path : Bytes) : Bytes := if path.getLast? = some 0x2F then path.dropLast else path

def directory (path : Bytes) : Bytes :=
  let path := normalizeSlashes path
  let root := rootLength path
  if root = path.length then path
  else
    let path := trimSlash path
    path.take (max root ((rposition (· = 0x2F) path).getD 0))

/-- the root is measured with the separators normalized -/
def baseName (path : Bytes) : Bytes :=
  let root := rootLength (normalizeSlashes path)
  if root = path.length then []
  else
    let path := if path.getLast?.any separator then path.dropLast else path
    path.drop (((rposition separator path).map (· + 1)).getD root)

example : directory [0x2F, 0x61, 0x2F, 0x62] = [0x2F, 0x61] := by decide

/-! ## a walk upward ends -/

@[simp] theorem length_normalizeSlashes (path : Bytes) :
    (normalizeSlashes path).length = path.length := List.length_map _

theorem findIdx?_lt {p : UInt8 → Bool} {bytes : Bytes} {i : Nat} (h : bytes.findIdx? p = some i) :
    i < bytes.length := (List.findIdx?_eq_some_iff_getElem.1 h).1

theorem length_drop_take {bytes piece : Bytes} {start : Nat} (h : (bytes.drop start).take 3 = piece)
    (hpiece : piece.length = 3) : start + 3 ≤ bytes.length := by
  have := congrArg List.length h
  rw [List.length_take, List.length_drop, hpiece] at this
  omega

theorem volumeEnd_le {path : Bytes} {start stop : Nat} (h : volumeEnd path start = some stop) :
    stop ≤ path.length := by
  rw [volumeEnd] at h
  split at h
  next hbyte =>
    cases h
    exact (List.getElem?_eq_some_iff.1 hbyte).1
  next =>
    split at h
    next hthree =>
      cases h
      rcases hthree with hthree | hthree
      · exact length_drop_take hthree rfl
      · exact length_drop_take hthree rfl
    next => cases h

theorem urlRootLength_le {path : Bytes} {start : Nat} (hstart : start + 3 ≤ path.length) :
    urlRootLength path start ≤ path.length := by
  rw [urlRootLength]
  split
  next => exact Nat.le_refl _
  next offset hoffset =>
    have hlt := findIdx?_lt hoffset
    rw [List.length_drop] at hlt
    dsimp only
    split
    next => omega
    next stop hvolume =>
      have hstop : stop ≤ path.length := by
        split at hvolume
        · exact volumeEnd_le hvolume
        · cases hvolume
      split
      · exact hstop
      · split
        next hbyte => exact (List.getElem?_eq_some_iff.1 hbyte).1
        next => omega

theorem schemeEnd_le {path : Bytes} {stop : Nat} (h : schemeEnd path = some stop) :
    stop + 3 ≤ path.length := by
  have hmark := List.find?_some h
  exact length_drop_take (of_decide_eq_true hmark) rfl

theorem serverLength_le {path : Bytes} {first : UInt8} : serverLength path first ≤ path.length := by
  rw [serverLength]
  split
  · exact Nat.le_refl _
  next stop h =>
    have hlt := findIdx?_lt h
    rw [List.length_drop] at hlt
    omega

theorem rootLength_le (path : Bytes) : rootLength path ≤ path.length := by
  rw [rootLength]
  cases path with
  | nil => decide
  | cons first rest =>
    have hserver : serverLength (first :: rest) first ≤ (first :: rest).length := serverLength_le
    rw [List.length_cons] at hserver ⊢
    rw [encodedRootLength]
    by_cases hsep : separator first = true
    · rw [if_pos hsep]
      by_cases hsame : rest.head? = some first
      · rw [if_pos hsame]
        split <;> omega
      · rw [if_neg hsame]
        split <;> omega
    · rw [if_neg hsep]
      by_cases hvolume : isAlphabetic first ∧ rest.head? = some 0x3A ∧ rest.length = 1
      · rw [if_pos hvolume]
        have := hvolume.2.2
        split <;> omega
      · rw [if_neg hvolume]
        by_cases hslash : isAlphabetic first ∧ rest.head? = some 0x3A ∧ rest[1]?.any separator
        · rw [if_pos hslash]
          have hlen : 1 < rest.length := by
            by_contra hle
            rw [List.getElem?_eq_none (by omega)] at hslash
            exact absurd hslash.2.2 Bool.false_ne_true
          split <;> omega
        · rw [if_neg hslash]
          by_cases hdynamic : first = 0x5E ∧ rest.head? = some 0x2F
          · rw [if_pos hdynamic]
            have hlen : rest ≠ [] := by
              rintro rfl
              cases hdynamic.2
            have := List.length_pos_of_ne_nil hlen
            split <;> omega
          · rw [if_neg hdynamic]
            cases hscheme : schemeEnd (first :: rest) with
            | none =>
              dsimp only
              split <;> omega
            | some stop =>
              have hurl := urlRootLength_le (schemeEnd_le hscheme)
              rw [List.length_cons] at hurl
              dsimp only
              split <;> omega

theorem rposition_lt {p : UInt8 → Bool} {path : Bytes} {i : Nat} (h : rposition p path = some i) :
    i < path.length := by
  have hmem := List.mem_of_find?_eq_some h
  rw [List.mem_reverse] at hmem
  exact List.mem_range.1 hmem

theorem length_trimSlash (path : Bytes) :
    (trimSlash path).length ≤ path.length ∧ path.length ≤ (trimSlash path).length + 1 := by
  rw [trimSlash]
  split
  · rw [List.length_dropLast]
    omega
  · omega

theorem rposition_trimSlash_lt (path : Bytes) (hne : path ≠ []) :
    (rposition (· = 0x2F) (trimSlash path)).getD 0 < path.length := by
  cases h : rposition (· = 0x2F) (trimSlash path) with
  | none => exact List.length_pos_of_ne_nil hne
  | some i => exact Nat.lt_of_lt_of_le (rposition_lt h) (length_trimSlash path).1

/-- a directory is shorter, or is the path with its separators normalized -/
theorem directory_shorter (path : Bytes) :
    (directory path).length < path.length ∨
      directory path = normalizeSlashes path ∧ rootLength (normalizeSlashes path) = path.length := by
  rw [directory]
  dsimp only
  have hle := rootLength_le (normalizeSlashes path)
  rw [length_normalizeSlashes] at hle
  by_cases hroot : rootLength (normalizeSlashes path) = (normalizeSlashes path).length
  · rw [if_pos hroot]
    exact .inr ⟨rfl, hroot.trans (length_normalizeSlashes path)⟩
  · rw [if_neg hroot, List.length_take]
    rw [length_normalizeSlashes] at hroot
    have hne : normalizeSlashes path ≠ [] := by
      intro hnil
      have := congrArg List.length hnil
      rw [length_normalizeSlashes, List.length_nil] at this
      omega
    have hlast := rposition_trimSlash_lt (normalizeSlashes path) hne
    rw [length_normalizeSlashes] at hlast
    left
    omega

theorem normalizeSlashes_idem (path : Bytes) :
    normalizeSlashes (normalizeSlashes path) = normalizeSlashes path := by
  rw [normalizeSlashes, normalizeSlashes, List.map_map]
  apply List.map_congr_left
  intro b hb
  show (if (if b = 0x5C then (0x2F : UInt8) else b) = 0x5C then (0x2F : UInt8)
    else if b = 0x5C then 0x2F else b) = _
  by_cases h : b = 0x5C
  · rw [if_pos h]
    decide
  · rw [if_neg h, if_neg h]

/-- counts the steps from a path to its root: its bytes, and one for separators to be normalized -/
def height (path : Bytes) : Nat := 2 * path.length + if normalizeSlashes path = path then 0 else 1

theorem height_directory (path : Bytes) (h : directory path ≠ path) :
    height (directory path) < height path := by
  rw [height, height]
  rcases directory_shorter path with hlt | ⟨heq, -⟩
  · split <;> split <;> omega
  · rw [heq, length_normalizeSlashes, if_pos (normalizeSlashes_idem path), if_neg]
    · omega
    · intro hsame
      exact h (heq.trans hsame)

end Tsr.Tspath
