import Tsr.Tspath.Normalize

/-!
# The shape of a root

What stands in a root, and what may stand behind it without a change of the root.

* `Shape root rest`       a root that ends with a separator, and a rest that leaves it alone;
* `shape_of_rootLength`   a path whose separators are normalized is of some shape, or is a root that
                          a separator makes one;
* `rootLength_shape`      the root of a path of that shape;
* `Shape.replace`         another rest, but for a volume behind the root of a local file URL.
-/

namespace Tsr.Tspath
open Tsr.Json (Bytes)

/-! ## volumes -/

/-- a letter and a colon, the colon as it is or encoded -/
def IsVolume (segment : Bytes) : Prop :=
  ∃ c, isAlphabetic c = true ∧
    (segment = [c, 0x3A] ∨ segment = [c, 0x25, 0x33, 0x61] ∨ segment = [c, 0x25, 0x33, 0x41])

/-- the first segment of a path -/
def firstSegment (rest : Bytes) : Bytes := rest.takeWhile (· ≠ 0x2F)

/-- `file://` and no authority, or that of this machine -/
def LocalFile (scheme authority : Bytes) : Prop :=
  scheme = fileScheme ∧ (authority = [] ∨ authority = localhost)

instance (scheme authority : Bytes) : Decidable (LocalFile scheme authority) :=
  inferInstanceAs (Decidable (_ ∧ (_ ∨ _)))

/-- the first bytes of a path that is no URL only because of them -/
def LeadsOtherwise (path : Bytes) : Prop :=
  match path with
  | [] => True
  | first :: rest =>
    separator first = true ∨
      (isAlphabetic first = true ∧ rest.head? = some 0x3A ∧
        (rest.length = 1 ∨ rest[1]?.any separator = true)) ∨
      first = 0x5E ∧ rest.head? = some 0x2F

/-- a scheme, up to the first `://` -/
def IsScheme (scheme : Bytes) : Prop :=
  ¬LeadsOtherwise (scheme ++ schemeMark) ∧ schemeEnd (scheme ++ schemeMark) = some scheme.length

inductive Shape : Bytes → Bytes → Prop
  | slash {rest : Bytes} (h : rest.head? ≠ some 0x2F) : Shape [0x2F] rest
  | server {server rest : Bytes} (h : 0x2F ∉ server) : Shape (0x2F :: 0x2F :: (server ++ [0x2F])) rest
  | volume {c : UInt8} {rest : Bytes} (h : isAlphabetic c = true) : Shape [c, 0x3A, 0x2F] rest
  | dynamic {rest : Bytes} : Shape [0x5E, 0x2F] rest
  | url {scheme authority rest : Bytes} (hscheme : IsScheme scheme) (h : 0x2F ∉ authority)
      (hrest : LocalFile scheme authority → ¬IsVolume (firstSegment rest)) :
      Shape (scheme ++ schemeMark ++ authority ++ [0x2F]) rest
  | urlVolume {scheme authority segment rest : Bytes} (hlocal : LocalFile scheme authority)
      (h : IsVolume segment) :
      Shape (scheme ++ schemeMark ++ authority ++ 0x2F :: (segment ++ [0x2F])) rest

/-! ## the parts of a URL -/

theorem findIdx?_split {p : UInt8 → Bool} {before after : Bytes} {b : UInt8}
    (hbefore : ∀ x ∈ before, p x = false) (hb : p b = true) :
    (before ++ b :: after).findIdx? p = some before.length := by
  rw [List.findIdx?_append, List.findIdx?_eq_none_iff.2 hbefore, List.findIdx?_cons, if_pos hb]
  show some (0 + before.length) = _
  rw [Nat.zero_add]

theorem split_findIdx? {p : UInt8 → Bool} {bytes : Bytes} {i : Nat}
    (h : bytes.findIdx? p = some i) :
    ∃ b after, bytes = bytes.take i ++ b :: after ∧ p b = true ∧ ∀ x ∈ bytes.take i, p x = false := by
  obtain ⟨hi, hb, hbefore⟩ := List.findIdx?_eq_some_iff_getElem.1 h
  refine ⟨bytes[i], bytes.drop (i + 1), ?_, hb, ?_⟩
  · rw [List.getElem_cons_drop hi, List.take_append_drop]
  · intro x hx
    obtain ⟨j, hj, rfl⟩ := List.mem_take_iff_getElem.1 hx
    exact Bool.not_eq_true _ ▸ hbefore j (by omega)

theorem schemeEnd_iff {path : Bytes} {stop : Nat} :
    schemeEnd path = some stop ↔
      stop < path.length ∧ (path.drop stop).take 3 = schemeMark ∧
        ∀ j < stop, (path.drop j).take 3 ≠ schemeMark := by
  rw [schemeEnd, List.find?_range_eq_some]
  constructor
  · intro ⟨hmark, hmem, hbefore⟩
    exact ⟨List.mem_range.1 hmem, of_decide_eq_true hmark, fun j hj => by simpa using hbefore j hj⟩
  · intro ⟨hlt, hmark, hbefore⟩
    exact ⟨decide_eq_true hmark, List.mem_range.2 hlt, fun j hj => by simpa using hbefore j hj⟩

/-- where the scheme ends depends on no more than the first `://` -/
theorem schemeEnd_append {path : Bytes} {stop : Nat} (h : stop + 3 ≤ path.length) (rest : Bytes) :
    schemeEnd (path ++ rest) = some stop ↔ schemeEnd path = some stop := by
  have hsame : ∀ j ≤ stop, ((path ++ rest).drop j).take 3 = (path.drop j).take 3 := by
    intro j hj
    rw [List.drop_append_of_le_length (by omega), List.take_append_of_le_length]
    rw [List.length_drop]
    omega
  rw [schemeEnd_iff, schemeEnd_iff, hsame stop (Nat.le_refl _), List.length_append]
  constructor
  · intro ⟨_, hmark, hbefore⟩
    exact ⟨by omega, hmark, fun j hj => hsame j hj.le ▸ hbefore j hj⟩
  · intro ⟨hlt, hmark, hbefore⟩
    exact ⟨by omega, hmark, fun j hj => (hsame j hj.le).symm ▸ hbefore j hj⟩

/-- how a path leads depends on its first three bytes -/
theorem leadsOtherwise_append {path : Bytes} (h : 3 ≤ path.length) (rest : Bytes) :
    LeadsOtherwise (path ++ rest) ↔ LeadsOtherwise path := by
  obtain ⟨a, b, c, path, rfl⟩ : ∃ a b c tail, path = a :: b :: c :: tail := by
    obtain ⟨a, path, rfl⟩ : ∃ a tail, path = a :: tail := List.exists_cons_of_length_pos (by omega)
    rw [List.length_cons] at h
    obtain ⟨b, path, rfl⟩ : ∃ b tail, path = b :: tail := List.exists_cons_of_length_pos (by omega)
    rw [List.length_cons] at h
    obtain ⟨c, path, rfl⟩ : ∃ c tail, path = c :: tail := List.exists_cons_of_length_pos (by omega)
    exact ⟨a, b, c, path, rfl⟩
  simp only [LeadsOtherwise, List.cons_append, List.head?_cons, List.length_cons, List.getElem?_cons_succ,
    List.getElem?_cons_zero]
  have hlong : ∀ n : Nat, ¬n + 1 + 1 = 1 := by omega
  simp only [hlong]

theorem IsScheme.path {scheme : Bytes} (h : IsScheme scheme) (rest : Bytes) :
    ¬LeadsOtherwise (scheme ++ schemeMark ++ rest) ∧
      schemeEnd (scheme ++ schemeMark ++ rest) = some scheme.length := by
  have hlen : (scheme ++ schemeMark).length = scheme.length + 3 := List.length_append
  exact ⟨fun hleads => h.1 ((leadsOtherwise_append (by omega) rest).1 hleads),
    (schemeEnd_append (by omega) rest).2 h.2⟩

theorem isScheme_take {path : Bytes} {stop : Nat} (hleads : ¬LeadsOtherwise path)
    (h : schemeEnd path = some stop) :
    ∃ rest, path = path.take stop ++ schemeMark ++ rest ∧ IsScheme (path.take stop) := by
  have hle := schemeEnd_le h
  have hpath : path = path.take stop ++ schemeMark ++ path.drop (stop + 3) := by
    have hmark := (schemeEnd_iff.1 h).2.1
    have hdrop := List.take_append_drop 3 (path.drop stop)
    rw [hmark, List.drop_drop] at hdrop
    rw [List.append_assoc, hdrop, List.take_append_drop]
  have hlen : (path.take stop ++ schemeMark).length = stop + 3 := by
    rw [List.length_append, List.length_take]
    show min stop path.length + 3 = stop + 3
    omega
  refine ⟨path.drop (stop + 3), hpath, ?_, ?_⟩
  · intro hl
    apply hleads
    rw [hpath]
    exact (leadsOtherwise_append (by omega) _).2 hl
  · have htake : (path.take stop).length = stop := by
      rw [List.length_take]
      omega
    rw [htake]
    rw [hpath] at h
    exact (schemeEnd_append (by omega) _).1 h

/-! ## the root of each shape -/

theorem rootLength_of_encoded {path : Bytes} {n : Nat} (h : encodedRootLength path = n) :
    rootLength path = n := by
  show (if encodedRootLength path < 0 then _ else (encodedRootLength path).toNat) = n
  rw [h, if_neg (by omega)]
  rfl

theorem rootLength_slash {rest : Bytes} (h : rest.head? ≠ some 0x2F) :
    rootLength (0x2F :: rest) = 1 := by
  apply rootLength_of_encoded
  rw [encodedRootLength, if_pos (by decide), if_neg h]
  rfl

theorem rootLength_twoSlashes (rest : Bytes) :
    rootLength (0x2F :: 0x2F :: rest) = serverLength (0x2F :: 0x2F :: rest) 0x2F := by
  apply rootLength_of_encoded
  rw [encodedRootLength, if_pos (by decide), if_pos (by rfl)]

theorem rootLength_server {server rest : Bytes} (h : 0x2F ∉ server) :
    rootLength (0x2F :: 0x2F :: (server ++ 0x2F :: rest)) = server.length + 3 := by
  have hdrop : (0x2F :: 0x2F :: (server ++ 0x2F :: rest)).drop 2 = server ++ 0x2F :: rest := rfl
  have hserver : ∀ x ∈ server, decide (x = 0x2F) = false :=
    fun x hx => decide_eq_false fun heq => h (heq ▸ hx)
  rw [rootLength_twoSlashes, serverLength, hdrop, findIdx?_split hserver (by decide)]

theorem rootLength_volume {c : UInt8} {rest : Bytes} (h : isAlphabetic c = true) :
    rootLength (c :: 0x3A :: 0x2F :: rest) = 3 := by
  have hsep : ¬separator c = true := by
    intro hsep
    rw [separator, Bool.or_eq_true, decide_eq_true_eq, decide_eq_true_eq] at hsep
    rcases hsep with rfl | rfl <;> exact absurd h (by decide)
  apply rootLength_of_encoded
  rw [encodedRootLength, if_neg hsep, if_neg (by simp), if_pos ⟨h, rfl, by rfl⟩]
  rfl

theorem rootLength_dynamic (rest : Bytes) : rootLength (0x5E :: 0x2F :: rest) = 2 := by
  apply rootLength_of_encoded
  rw [encodedRootLength, if_neg (by decide), if_neg (by simp), if_neg (by simp), if_pos ⟨rfl, rfl⟩]
  rfl

theorem encodedRootLength_url {path : Bytes} (h : ¬LeadsOtherwise path) :
    encodedRootLength path =
      (schemeEnd path).elim 0 fun stop => -(urlRootLength path stop : Int) - 1 := by
  cases path with
  | nil => exact absurd trivial h
  | cons first rest =>
    rw [LeadsOtherwise, not_or, not_or] at h
    obtain ⟨hsep, hvolume, hdynamic⟩ := h
    have hbare : ¬(isAlphabetic first = true ∧ rest.head? = some 0x3A ∧ rest.length = 1) :=
      fun hv => hvolume ⟨hv.1, hv.2.1, Or.inl hv.2.2⟩
    have hslash : ¬(isAlphabetic first = true ∧ rest.head? = some 0x3A ∧
        rest[1]?.any separator = true) := fun hv => hvolume ⟨hv.1, hv.2.1, Or.inr hv.2.2⟩
    rw [encodedRootLength, if_neg hsep, if_neg hbare, if_neg hslash, if_neg hdynamic]
    cases schemeEnd (first :: rest) with
    | none => rfl
    | some stop => rfl

theorem rootLength_url {path : Bytes} {stop : Nat} (h : ¬LeadsOtherwise path)
    (hstop : schemeEnd path = some stop) : rootLength path = urlRootLength path stop := by
  have hencoded : encodedRootLength path = -(urlRootLength path stop : Int) - 1 := by
    rw [encodedRootLength_url h, hstop]
    rfl
  show (if encodedRootLength path < 0 then (-encodedRootLength path - 1).toNat else _) = _
  rw [hencoded, if_pos (by omega)]
  omega

/-- what `volumeEnd` finds, counted from the letter -/
def volumeMark (rest : Bytes) : Option Nat :=
  if rest[1]? = some 0x3A then some 2
  else if (rest.drop 1).take 3 = [0x25, 0x33, 0x61] ∨ (rest.drop 1).take 3 = [0x25, 0x33, 0x41] then
    some 4
  else none

/-- the bytes that a volume at the start of `rest` adds to the root -/
def volumeLength (rest : Bytes) : Nat :=
  match if 1 < rest.length && rest.head?.any isAlphabetic then volumeMark rest else none with
  | none => 0
  | some n => if n = rest.length then n else if rest[n]? = some 0x2F then n + 1 else 0

theorem volumeEnd_drop {path rest : Bytes} {n : Nat} (h : path.drop (n + 1) = rest) :
    volumeEnd path (n + 2) = (volumeMark rest).map (n + 1 + ·) := by
  have hbyte : path[n + 2]? = rest[1]? := by
    rw [← h, List.getElem?_drop]
  have hdrop : path.drop (n + 2) = rest.drop 1 := by
    rw [← h, List.drop_drop]
  rw [volumeEnd, volumeMark, hbyte, hdrop]
  by_cases hcolon : rest[1]? = some 0x3A
  · rw [if_pos hcolon, if_pos hcolon]
    rfl
  · rw [if_neg hcolon, if_neg hcolon]
    split <;> rfl

section
variable {scheme authority rest : Bytes}

theorem url_length : (scheme ++ schemeMark ++ authority ++ 0x2F :: rest).length =
    scheme.length + 3 + authority.length + 1 + rest.length := by
  rw [List.length_append, List.length_append, List.length_append, List.length_cons]
  show _ + 3 + _ + _ = _
  omega

theorem url_authority : (scheme ++ schemeMark ++ authority).length =
    scheme.length + 3 + authority.length := by
  rw [List.length_append, List.length_append]
  rfl

theorem url_take_scheme :
    (scheme ++ schemeMark ++ authority ++ 0x2F :: rest).take scheme.length = scheme := by
  rw [List.append_assoc, List.append_assoc, List.take_left]

theorem url_drop_scheme :
    (scheme ++ schemeMark ++ authority ++ 0x2F :: rest).drop (scheme.length + 3) =
      authority ++ 0x2F :: rest := by
  rw [List.append_assoc]
  exact List.drop_left' List.length_append

theorem url_drop_authority :
    (scheme ++ schemeMark ++ authority ++ 0x2F :: rest).drop
      (scheme.length + 3 + authority.length + 1) = rest := by
  rw [← url_authority, ← List.drop_drop, List.drop_left]
  rfl

theorem hasVolume_split :
    hasVolume (scheme ++ schemeMark ++ authority ++ 0x2F :: rest) scheme.length
        (scheme.length + 3 + authority.length) =
      (decide (LocalFile scheme authority) && (1 < rest.length && rest.head?.any isAlphabetic)) := by
  have hauthority : ((scheme ++ schemeMark ++ authority ++ 0x2F :: rest).take
      (scheme.length + 3 + authority.length)).drop (scheme.length + 3) = authority := by
    rw [List.take_left' url_authority]
    exact List.drop_left' List.length_append
  have hbyte : (scheme ++ schemeMark ++ authority ++ 0x2F :: rest)[scheme.length + 3 +
      authority.length + 1]? = rest.head? := by
    rw [← List.head?_drop, url_drop_authority]
  rw [hasVolume, hauthority, url_take_scheme, hbyte, url_length]
  have hlong : decide (scheme.length + 3 + authority.length + 2 <
      scheme.length + 3 + authority.length + 1 + rest.length) = decide (1 < rest.length) :=
    decide_eq_decide.2 (by omega)
  have hlocal : decide (LocalFile scheme authority) = (decide (scheme = fileScheme) &&
      (decide (authority = []) || decide (authority = localhost))) := by
    rw [Bool.eq_iff_iff, decide_eq_true_iff]
    simp [LocalFile]
  rw [hlong, Bool.and_assoc, hlocal]

/-- the root of a URL with an authority that ends -/
theorem urlRootLength_split (h : 0x2F ∉ authority) :
    urlRootLength (scheme ++ schemeMark ++ authority ++ 0x2F :: rest) scheme.length =
      scheme.length + 3 + authority.length + 1 +
        if LocalFile scheme authority then volumeLength rest else 0 := by
  have hend : (authority ++ 0x2F :: rest).findIdx? (· = 0x2F) = some authority.length :=
    findIdx?_split (fun x hx => decide_eq_false fun heq => h (heq ▸ hx)) (by decide)
  have hget : ∀ n, (scheme ++ schemeMark ++ authority ++ 0x2F :: rest)[scheme.length + 3 +
      authority.length + 1 + n]? = rest[n]? := by
    intro n
    rw [← List.getElem?_drop, url_drop_authority]
  rw [urlRootLength, url_drop_scheme, hend]
  dsimp only
  rw [hasVolume_split, volumeEnd_drop url_drop_authority, volumeLength]
  by_cases hlocal : LocalFile scheme authority
  · rw [if_pos hlocal, decide_eq_true hlocal, Bool.true_and]
    by_cases hletter : (1 < rest.length && rest.head?.any isAlphabetic) = true
    · rw [if_pos hletter, if_pos hletter]
      cases volumeMark rest with
      | none => rfl
      | some n =>
        dsimp only [Option.map_some]
        rw [url_length, hget]
        by_cases hn : n = rest.length
        · rw [if_pos (by omega), if_pos hn]
        · rw [if_neg (by omega), if_neg hn]
          split <;> omega
    · rw [if_neg hletter, if_neg hletter]
      rfl
  · rw [if_neg hlocal, decide_eq_false hlocal, Bool.false_and]
    rfl

end

/-! ## a volume is a segment -/

theorem firstSegment_of_not_mem {segment : Bytes} (h : 0x2F ∉ segment) :
    firstSegment segment = segment :=
  List.takeWhile_eq_self_iff.2 fun _ hb => decide_eq_true fun heq => h (heq ▸ hb)

theorem firstSegment_append {segment : Bytes} (h : 0x2F ∉ segment) (rest : Bytes) :
    firstSegment (segment ++ 0x2F :: rest) = segment := by
  have hself : segment.takeWhile (· ≠ 0x2F) = segment := firstSegment_of_not_mem h
  rw [firstSegment, List.takeWhile_append, if_pos (congrArg List.length hself),
    List.takeWhile_cons_of_neg (by decide), List.append_nil]

theorem isAlphabetic_ne_slash {c : UInt8} (h : isAlphabetic c = true) : c ≠ 0x2F := by
  rintro rfl
  exact absurd h (by decide)

theorem IsVolume.no_slash {segment : Bytes} (h : IsVolume segment) : 0x2F ∉ segment := by
  obtain ⟨c, hc, hsegment⟩ := h
  have hne := (isAlphabetic_ne_slash hc).symm
  rcases hsegment with rfl | rfl | rfl <;> simp [hne]

theorem volumeMark_take {c : UInt8} {rest : Bytes} {n : Nat} (hc : isAlphabetic c = true)
    (h : volumeMark (c :: rest) = some n) : IsVolume ((c :: rest).take n) := by
  unfold volumeMark at h
  split at h
  next hcolon =>
    cases h
    obtain ⟨d, rest, rfl⟩ : ∃ d tail, rest = d :: tail := by
      cases rest with
      | nil => cases hcolon
      | cons d tail => exact ⟨d, tail, rfl⟩
    cases hcolon
    exact ⟨c, hc, Or.inl rfl⟩
  next =>
    split at h
    next hmark =>
      cases h
      have htake : (c :: rest).take 4 = c :: ((c :: rest).drop 1).take 3 := rfl
      rw [htake]
      refine ⟨c, hc, Or.inr (hmark.imp ?_ ?_)⟩ <;> exact congrArg (c :: ·)
    next => cases h

/-- bytes are added only for a volume that is the first segment -/
theorem volumeLength_eq_zero {rest : Bytes} (h : ¬IsVolume (firstSegment rest)) :
    volumeLength rest = 0 := by
  unfold volumeLength
  split
  next => rfl
  next n hmark =>
    split at hmark
    next hletter =>
      obtain ⟨c, tail, rfl⟩ : ∃ c tail, rest = c :: tail := by
        cases rest with
        | nil => cases hmark
        | cons c tail => exact ⟨c, tail, rfl⟩
      have hvolume := volumeMark_take (Bool.and_eq_true _ _ ▸ hletter).2 hmark
      split
      next hn =>
        exfalso
        apply h
        rw [hn, List.take_length] at hvolume
        rw [firstSegment_of_not_mem hvolume.no_slash]
        exact hvolume
      next hn =>
        split
        next hslash =>
          exfalso
          apply h
          obtain ⟨hlt, hbyte⟩ := List.getElem?_eq_some_iff.1 hslash
          have hsplit : c :: tail = (c :: tail).take n ++ 0x2F :: (c :: tail).drop (n + 1) := by
            rw [← hbyte, List.getElem_cons_drop hlt, List.take_append_drop]
          rw [hsplit, firstSegment_append hvolume.no_slash]
          exact hvolume
        next => rfl
    next => cases hmark

theorem volumeLength_append {segment : Bytes} (h : IsVolume segment) (rest : Bytes) :
    volumeLength (segment ++ 0x2F :: rest) = segment.length + 1 := by
  obtain ⟨c, hc, rfl | rfl | rfl⟩ := h
  · simp [volumeLength, volumeMark, hc]
  · simp [volumeLength, volumeMark, hc]
  · simp [volumeLength, volumeMark, hc]

theorem volumeLength_self {segment : Bytes} (h : IsVolume segment) :
    volumeLength segment = segment.length := by
  obtain ⟨c, hc, rfl | rfl | rfl⟩ := h
  · simp [volumeLength, volumeMark, hc]
  · simp [volumeLength, volumeMark, hc]
  · simp [volumeLength, volumeMark, hc]

theorem firstSegment_split (rest : Bytes) :
    rest = firstSegment rest ∨ ∃ tail, rest = firstSegment rest ++ 0x2F :: tail := by
  have hsplit := List.takeWhile_append_dropWhile (p := (· ≠ 0x2F)) (l := rest)
  cases hdrop : rest.dropWhile (· ≠ 0x2F) with
  | nil =>
    rw [hdrop, List.append_nil] at hsplit
    exact Or.inl hsplit.symm
  | cons b tail =>
    have hb : b = 0x2F := by
      have hhead := List.head?_dropWhile_not (· ≠ (0x2F : UInt8)) rest
      rw [hdrop] at hhead
      simpa using hhead
    rw [hdrop, hb] at hsplit
    exact Or.inr ⟨tail, hsplit.symm⟩

theorem volumeLength_pos {rest : Bytes} (h : IsVolume (firstSegment rest)) : 0 < volumeLength rest := by
  rcases firstSegment_split rest with hself | ⟨tail, hsplit⟩
  · have hlen : 0 < (firstSegment rest).length := by
      obtain ⟨c, -, hv | hv | hv⟩ := h <;> rw [hv] <;> exact Nat.succ_pos _
    rw [hself, volumeLength_self h]
    exact hlen
  · rw [hsplit, volumeLength_append h]
    exact Nat.succ_pos _

/-! ## shapes -/

theorem isScheme_file : IsScheme fileScheme := by
  constructor
  · intro h
    rcases h with h | ⟨-, h, -⟩ | ⟨h, -⟩ <;> exact absurd h (by decide)
  · decide

/-- the root of a path of a shape -/
theorem rootLength_shape {root rest : Bytes} (h : Shape root rest) :
    rootLength (root ++ rest) = root.length := by
  cases h with
  | slash h => exact rootLength_slash h
  | @server server _ h =>
    have hpath : 0x2F :: 0x2F :: (server ++ [0x2F]) ++ rest = 0x2F :: 0x2F :: (server ++ 0x2F :: rest) := by
      simp
    rw [hpath, rootLength_server h]
    simp
  | volume h => exact rootLength_volume h
  | dynamic => exact rootLength_dynamic rest
  | @url scheme authority _ hscheme h hrest =>
    have hpath : scheme ++ schemeMark ++ authority ++ [0x2F] ++ rest =
        scheme ++ schemeMark ++ authority ++ 0x2F :: rest := by simp
    obtain ⟨hleads, hstop⟩ := hscheme.path (authority ++ 0x2F :: rest)
    rw [← List.append_assoc] at hleads hstop
    rw [hpath, rootLength_url hleads hstop, urlRootLength_split h]
    have hnone : (if LocalFile scheme authority then volumeLength rest else 0) = 0 := by
      split
      next hlocal => exact volumeLength_eq_zero (hrest hlocal)
      next => rfl
    rw [hnone, List.length_append, url_authority]
    rfl
  | @urlVolume scheme authority segment _ hlocal h =>
    have hscheme : IsScheme scheme := hlocal.1 ▸ isScheme_file
    have hauthority : 0x2F ∉ authority := by
      rcases hlocal.2 with rfl | rfl <;> decide
    have hpath : scheme ++ schemeMark ++ authority ++ 0x2F :: (segment ++ [0x2F]) ++ rest =
        scheme ++ schemeMark ++ authority ++ 0x2F :: (segment ++ 0x2F :: rest) := by simp
    obtain ⟨hleads, hstop⟩ := hscheme.path (authority ++ 0x2F :: (segment ++ 0x2F :: rest))
    rw [← List.append_assoc] at hleads hstop
    rw [hpath, rootLength_url hleads hstop, urlRootLength_split hauthority, if_pos hlocal,
      volumeLength_append h, List.length_append, url_authority, List.length_cons, List.length_append]
    show _ + (_ + 1) = _ + (_ + 1 + 1)
    omega

/-- another rest may take the place of one, but for a separator behind a separator, and for a volume
behind the root of a local file URL -/
theorem Shape.replace {root rest rest' : Bytes} (h : Shape root rest)
    (hhead : root = [0x2F] → rest'.head? ≠ some 0x2F) :
    Shape root rest' ∨ ∃ scheme authority, LocalFile scheme authority ∧
      root = scheme ++ schemeMark ++ authority ++ [0x2F] ∧ IsVolume (firstSegment rest') := by
  cases h with
  | slash h => exact Or.inl (Shape.slash (hhead rfl))
  | server h => exact Or.inl (Shape.server h)
  | volume h => exact Or.inl (Shape.volume h)
  | dynamic => exact Or.inl Shape.dynamic
  | @url scheme authority _ hscheme h hrest =>
    by_cases hvolume : LocalFile scheme authority ∧ IsVolume (firstSegment rest')
    · exact Or.inr ⟨scheme, authority, hvolume.1, rfl, hvolume.2⟩
    · exact Or.inl (Shape.url hscheme h fun hlocal hv => hvolume ⟨hlocal, hv⟩)
  | urlVolume hlocal h => exact Or.inl (Shape.urlVolume hlocal h)

/-- what stands in a root ends with a separator -/
theorem Shape.getLast {root rest : Bytes} (h : Shape root rest) : root.getLast? = some 0x2F := by
  cases h with
  | slash => rfl
  | @server server => exact List.getLast?_concat (l := 0x2F :: 0x2F :: server)
  | volume => rfl
  | dynamic => rfl
  | url => exact List.getLast?_concat
  | @urlVolume scheme authority segment =>
    have hroot : scheme ++ schemeMark ++ authority ++ 0x2F :: (segment ++ [0x2F]) =
        scheme ++ schemeMark ++ authority ++ 0x2F :: segment ++ [0x2F] := by simp
    rw [hroot]
    exact List.getLast?_concat

/-- a path is a root of some shape before its rest, or is a root that a separator completes -/
inductive Rooted : Bytes → Prop
  | shape {root rest : Bytes} (h : Shape root rest) : Rooted (root ++ rest)
  | bare {path : Bytes} (hne : path ≠ []) (h : Shape (path ++ [0x2F]) [])
      (hroot : rootLength path = path.length) : Rooted path

theorem rooted_server {rest : Bytes} : Rooted (0x2F :: 0x2F :: rest) := by
  cases hend : rest.findIdx? (· = 0x2F) with
  | none =>
    have hrest : 0x2F ∉ rest := by
      intro hmem
      have := List.findIdx?_eq_none_iff.1 hend _ hmem
      exact absurd this (by decide)
    have hdrop : (0x2F :: 0x2F :: rest).drop 2 = rest := rfl
    refine Rooted.bare (List.cons_ne_nil _ _) (Shape.server hrest) ?_
    rw [rootLength_twoSlashes, serverLength, hdrop, hend]
  | some i =>
    obtain ⟨b, after, hrest, hb, hbefore⟩ := split_findIdx? hend
    have hb : b = 0x2F := of_decide_eq_true hb
    have hserver : 0x2F ∉ rest.take i := by
      intro hmem
      exact absurd (hbefore _ hmem) (by decide)
    have hpath : 0x2F :: 0x2F :: rest = 0x2F :: 0x2F :: (rest.take i ++ [0x2F]) ++ after := by
      rw [hb] at hrest
      rw [List.cons_append, List.cons_append, List.append_assoc, List.singleton_append, ← hrest]
    rw [hpath]
    exact Rooted.shape (Shape.server hserver)

theorem url_ne_nil (scheme rest : Bytes) : scheme ++ schemeMark ++ rest ≠ [] := by
  intro hnil
  have hmark := (List.append_eq_nil_iff.1 (List.append_eq_nil_iff.1 hnil).1).2
  cases hmark

theorem rooted_authority {scheme rest : Bytes} (h : IsScheme scheme) :
    Rooted (scheme ++ schemeMark ++ rest) := by
  cases hend : rest.findIdx? (· = 0x2F) with
  | none =>
    have hrest : 0x2F ∉ rest := by
      intro hmem
      have := List.findIdx?_eq_none_iff.1 hend _ hmem
      exact absurd this (by decide)
    refine Rooted.bare (url_ne_nil _ _) (Shape.url h hrest fun _ hv => ?_) ?_
    · obtain ⟨c, -, hv | hv | hv⟩ := hv <;> cases hv
    · obtain ⟨hleads, hstop⟩ := h.path rest
      rw [rootLength_url hleads hstop, urlRootLength]
      have hdrop : (scheme ++ schemeMark ++ rest).drop (scheme.length + 3) = rest :=
        List.drop_left' List.length_append
      rw [hdrop, hend]
  | some i =>
    obtain ⟨b, after, hrest, hb, hbefore⟩ := split_findIdx? hend
    have hb : b = 0x2F := of_decide_eq_true hb
    have hauthority : 0x2F ∉ rest.take i := by
      intro hmem
      exact absurd (hbefore _ hmem) (by decide)
    generalize rest.take i = authority at hrest hauthority
    subst hb hrest
    by_cases hvolume : LocalFile scheme authority ∧ IsVolume (firstSegment after)
    · rcases firstSegment_split after with hself | ⟨tail, hsplit⟩
      · have hlast : Shape (scheme ++ schemeMark ++ (authority ++ 0x2F :: after) ++ [0x2F]) [] := by
          have hroot : scheme ++ schemeMark ++ (authority ++ 0x2F :: after) ++ [0x2F] =
              scheme ++ schemeMark ++ authority ++ 0x2F :: (firstSegment after ++ [0x2F]) := by
            rw [← hself]
            simp
          rw [hroot]
          exact Shape.urlVolume hvolume.1 hvolume.2
        refine Rooted.bare (url_ne_nil _ _) hlast ?_
        obtain ⟨hleads, hstop⟩ := h.path (authority ++ 0x2F :: after)
        rw [rootLength_url hleads hstop, ← List.append_assoc, urlRootLength_split hauthority,
          if_pos hvolume.1, hself, volumeLength_self hvolume.2, url_length]
      · have hpath : scheme ++ schemeMark ++ (authority ++ 0x2F :: after) =
            scheme ++ schemeMark ++ authority ++ 0x2F :: (firstSegment after ++ [0x2F]) ++ tail := by
          rw [hsplit, firstSegment_append hvolume.2.no_slash]
          simp
        rw [hpath]
        exact Rooted.shape (Shape.urlVolume hvolume.1 hvolume.2)
    · have hpath : scheme ++ schemeMark ++ (authority ++ 0x2F :: after) =
          scheme ++ schemeMark ++ authority ++ [0x2F] ++ after := by simp
      rw [hpath]
      exact Rooted.shape (Shape.url h hauthority fun hlocal hv => hvolume ⟨hlocal, hv⟩)

theorem rootLength_nil : rootLength [] = 0 := rfl

theorem serverLength_pos (first : UInt8) (rest : Bytes) (b : UInt8) :
    0 < serverLength (first :: rest) b := by
  rw [serverLength]
  split
  · exact Nat.succ_pos _
  · exact Nat.succ_pos _

theorem urlRootLength_pos {path : Bytes} {stop : Nat} (h : path ≠ []) :
    0 < urlRootLength path stop := by
  have hlen := List.length_pos_of_ne_nil h
  rw [urlRootLength]
  split
  · exact hlen
  next offset hoffset =>
    dsimp only
    split
    · exact Nat.succ_pos _
    next n hn =>
      split
      next heq => omega
      next =>
        split <;> exact Nat.succ_pos _

/-- a path has a root exactly where its first bytes say so, or a scheme ends in it -/
theorem rootLength_ne_zero_iff {path : Bytes} :
    rootLength path ≠ 0 ↔ path ≠ [] ∧ (LeadsOtherwise path ∨ (schemeEnd path).isSome = true) := by
  by_cases hleads : LeadsOtherwise path
  · cases path with
    | nil => exact ⟨fun h => absurd rootLength_nil h, fun h => absurd rfl h.1⟩
    | cons first rest =>
      refine ⟨fun _ => ⟨List.cons_ne_nil _ _, Or.inl hleads⟩, fun _ => ?_⟩
      have hencoded : ∃ n : Nat, 0 < n ∧ encodedRootLength (first :: rest) = n := by
        rw [encodedRootLength]
        by_cases hsep : separator first = true
        · rw [if_pos hsep]
          split
          · exact ⟨_, serverLength_pos first rest first, rfl⟩
          · exact ⟨1, Nat.one_pos, rfl⟩
        · rw [if_neg hsep]
          split
          · exact ⟨2, by decide, rfl⟩
          next hbare =>
            split
            · exact ⟨3, by decide, rfl⟩
            next hslash =>
              split
              · exact ⟨2, by decide, rfl⟩
              next hdynamic =>
                exfalso
                rcases hleads with h | ⟨hc, hcolon, h | h⟩ | h
                · exact hsep h
                · exact hbare ⟨hc, hcolon, h⟩
                · exact hslash ⟨hc, hcolon, h⟩
                · exact hdynamic h
      obtain ⟨n, hn, hencoded⟩ := hencoded
      rw [rootLength_of_encoded hencoded]
      omega
  · have hne : path ≠ [] := fun h => hleads (h ▸ trivial)
    cases hstop : schemeEnd path with
    | none =>
      have hzero : rootLength path = 0 := by
        apply rootLength_of_encoded
        rw [encodedRootLength_url hleads, hstop]
        rfl
      refine ⟨fun h => absurd hzero h, fun h => ?_⟩
      rcases h.2 with h | h
      · exact absurd h hleads
      · cases h
    | some stop =>
      have hpos : 0 < urlRootLength path stop := urlRootLength_pos hne
      rw [rootLength_url hleads hstop]
      exact ⟨fun _ => ⟨hne, Or.inr rfl⟩, fun _ => by omega⟩

/-- a path with a root, its separators normalized, is of a shape or is a bare root -/
theorem rooted_of_rootLength {path : Bytes} (hnormal : 0x5C ∉ path) (h : rootLength path ≠ 0) :
    Rooted path := by
  obtain ⟨hne, hlead⟩ := rootLength_ne_zero_iff.1 h
  by_cases hleads : LeadsOtherwise path
  · cases path with
    | nil => exact absurd rfl hne
    | cons first rest =>
      rw [List.mem_cons, not_or] at hnormal
      obtain ⟨hfirst, hrest⟩ := hnormal
      rcases hleads with hsep | ⟨hc, hcolon, hend | hslash⟩ | ⟨rfl, hslash⟩
      · have hfirst : first = 0x2F := by
          rw [separator, Bool.or_eq_true, decide_eq_true_eq, decide_eq_true_eq] at hsep
          exact hsep.resolve_right (Ne.symm hfirst)
        subst hfirst
        by_cases hhead : rest.head? = some 0x2F
        · obtain ⟨rest, rfl⟩ := List.head?_eq_some_iff.1 hhead
          exact rooted_server
        · exact Rooted.shape (Shape.slash hhead)
      · obtain ⟨rest, rfl⟩ := List.head?_eq_some_iff.1 hcolon
        have hnil : rest = [] := List.eq_nil_of_length_eq_zero (by simpa using hend)
        subst hnil
        refine Rooted.bare (List.cons_ne_nil _ _) (Shape.volume hc) ?_
        have hsep : ¬separator first = true := by
          intro hsep
          rw [separator, Bool.or_eq_true, decide_eq_true_eq, decide_eq_true_eq] at hsep
          rcases hsep with rfl | rfl <;> exact absurd hc (by decide)
        apply rootLength_of_encoded
        rw [encodedRootLength, if_neg hsep, if_pos ⟨hc, rfl, rfl⟩]
        rfl
      · obtain ⟨rest, rfl⟩ := List.head?_eq_some_iff.1 hcolon
        cases rest with
        | nil => exact absurd hslash Bool.false_ne_true
        | cons s rest =>
          have hs : separator s = true := hslash
          have hsame : s = 0x2F := by
            rw [separator, Bool.or_eq_true, decide_eq_true_eq, decide_eq_true_eq] at hs
            refine hs.resolve_right fun heq => hrest ?_
            rw [heq]
            exact List.mem_cons_of_mem _ List.mem_cons_self
          subst hsame
          exact Rooted.shape (Shape.volume hc)
      · obtain ⟨rest, rfl⟩ := List.head?_eq_some_iff.1 hslash
        exact Rooted.shape Shape.dynamic
  · obtain ⟨stop, hstop⟩ := Option.isSome_iff_exists.1 (hlead.resolve_left hleads)
    obtain ⟨rest, hpath, hscheme⟩ := isScheme_take hleads hstop
    rw [hpath]
    exact rooted_authority hscheme

/-! ## combined paths -/

theorem isSome_schemeEnd {path : Bytes} :
    (schemeEnd path).isSome = true ↔ ∃ i, (path.drop i).take 3 = schemeMark := by
  rw [schemeEnd, List.find?_isSome]
  constructor
  · intro ⟨i, _, h⟩
    exact ⟨i, of_decide_eq_true h⟩
  · intro ⟨i, h⟩
    have hle := length_drop_take h rfl
    exact ⟨i, List.mem_range.2 (by omega), decide_eq_true h⟩

theorem not_mem_normalizeSlashes (path : Bytes) : 0x5C ∉ normalizeSlashes path := by
  intro hmem
  obtain ⟨b, -, hb⟩ := List.mem_map.1 hmem
  by_cases h : b = 0x5C
  · rw [if_pos h] at hb
    exact absurd hb (by decide)
  · rw [if_neg h] at hb
    exact h hb

theorem normalizeSlashes_of_not_mem {path : Bytes} (h : 0x5C ∉ path) : normalizeSlashes path = path := by
  have hsame : normalizeSlashes path = path.map id :=
    List.map_congr_left fun b hb => if_neg fun heq : b = 0x5C => h (heq ▸ hb)
  exact hsame.trans (List.map_id path)

theorem separator_normalize (b : UInt8) : separator (if b = 0x5C then 0x2F else b) = separator b := by
  by_cases h : b = 0x5C
  · rw [if_pos h, h]
    rfl
  · rw [if_neg h]

theorem alphabetic_normalize {b : UInt8} (h : isAlphabetic b = true) :
    isAlphabetic (if b = 0x5C then 0x2F else b) = true := by
  have hne : b ≠ 0x5C := by
    rintro rfl
    exact absurd h (by decide)
  rw [if_neg hne]
  exact h

/-- a root is still there when the separators are normalized -/
theorem rootLength_normalizeSlashes {path : Bytes} (h : rootLength path ≠ 0) :
    rootLength (normalizeSlashes path) ≠ 0 := by
  obtain ⟨hne, hlead⟩ := rootLength_ne_zero_iff.1 h
  refine rootLength_ne_zero_iff.2 ⟨fun hnil => hne (List.map_eq_nil_iff.1 hnil), ?_⟩
  rcases hlead with hleads | hstop
  · left
    cases path with
    | nil => exact absurd rfl hne
    | cons first rest =>
      rcases hleads with hsep | ⟨hc, hcolon, hrest⟩ | ⟨rfl, hslash⟩
      · exact Or.inl ((separator_normalize first).trans hsep)
      · refine Or.inr (Or.inl ⟨alphabetic_normalize hc, ?_, ?_⟩)
        · rw [List.head?_map, hcolon]
          rfl
        · rw [List.length_map]
          refine hrest.imp id fun hs => ?_
          rw [List.getElem?_map]
          cases hget : rest[1]? with
          | none =>
            rw [hget] at hs
            exact absurd hs Bool.false_ne_true
          | some s =>
            rw [hget] at hs
            exact (separator_normalize s).trans hs
      · refine Or.inr (Or.inr ⟨rfl, ?_⟩)
        rw [List.head?_map, hslash]
        rfl
  · right
    obtain ⟨i, hi⟩ := isSome_schemeEnd.1 hstop
    refine isSome_schemeEnd.2 ⟨i, ?_⟩
    rw [normalizeSlashes, ← List.map_drop, ← List.map_take, hi]
    rfl

/-- and when more follows a separator -/
theorem rootLength_append {path : Bytes} (h : rootLength path ≠ 0) (rest : Bytes) :
    (path.getLast? = some 0x2F → rootLength (path ++ rest) ≠ 0) ∧
      rootLength (path ++ 0x2F :: rest) ≠ 0 := by
  obtain ⟨hne, hlead⟩ := rootLength_ne_zero_iff.1 h
  rw [rootLength_ne_zero_iff, rootLength_ne_zero_iff]
  rcases hlead with hleads | hstop
  · cases path with
    | nil => exact absurd rfl hne
    | cons first tail =>
      have hcons : ∀ more : Bytes, first :: tail ++ more ≠ [] := fun more => List.cons_ne_nil _ _
      rcases hleads with hsep | ⟨hc, hcolon, hend | hs⟩ | ⟨rfl, hslash⟩
      · exact ⟨fun _ => ⟨hcons _, Or.inl (Or.inl hsep)⟩, hcons _, Or.inl (Or.inl hsep)⟩
      · obtain ⟨tail, rfl⟩ := List.head?_eq_some_iff.1 hcolon
        have hnil : tail = [] := List.eq_nil_of_length_eq_zero (by simpa using hend)
        subst hnil
        refine ⟨fun hlast => ?_, hcons _, Or.inl (Or.inr (Or.inl ⟨hc, rfl, Or.inr rfl⟩))⟩
        have hsame : some (0x3A : UInt8) = some 0x2F := hlast
        exact absurd hsame (by decide)
      · obtain ⟨tail, rfl⟩ := List.head?_eq_some_iff.1 hcolon
        cases tail with
        | nil => exact absurd hs Bool.false_ne_true
        | cons s tail =>
          have hleads : ∀ more : Bytes, LeadsOtherwise (first :: 0x3A :: s :: tail ++ more) :=
            fun more => Or.inr (Or.inl ⟨hc, rfl, Or.inr hs⟩)
          exact ⟨fun _ => ⟨hcons _, Or.inl (hleads _)⟩, hcons _, Or.inl (hleads _)⟩
      · obtain ⟨tail, rfl⟩ := List.head?_eq_some_iff.1 hslash
        have hleads : ∀ more : Bytes, LeadsOtherwise (0x5E :: 0x2F :: tail ++ more) :=
          fun more => Or.inr (Or.inr ⟨rfl, rfl⟩)
        exact ⟨fun _ => ⟨hcons _, Or.inl (hleads _)⟩, hcons _, Or.inl (hleads _)⟩
  · obtain ⟨i, hi⟩ := isSome_schemeEnd.1 hstop
    have hle := length_drop_take hi rfl
    have hsome : ∀ more : Bytes, (schemeEnd (path ++ more)).isSome = true := by
      intro more
      refine isSome_schemeEnd.2 ⟨i, ?_⟩
      rw [List.drop_append_of_le_length (by omega), List.take_append_of_le_length, hi]
      rw [List.length_drop]
      omega
    have hne' : ∀ more : Bytes, path ++ more ≠ [] := fun more hnil => hne (List.append_eq_nil_iff.1 hnil).1
    exact ⟨fun _ => ⟨hne' _, Or.inr (hsome _)⟩, hne' _, Or.inr (hsome _)⟩

/-- a rooted current directory gives a rooted path -/
theorem rootLength_combine {cwd : Bytes} (file : Bytes) (h : rootLength cwd ≠ 0) :
    rootLength (combine cwd [file]) ≠ 0 := by
  have hcwd := rootLength_normalizeSlashes h
  show rootLength (combineStep (normalizeSlashes cwd) file) ≠ 0
  unfold combineStep
  split
  · exact hcwd
  · dsimp only
    split
    next hfile =>
      refine hfile.resolve_left fun hnil => hcwd ?_
      rw [hnil]
      rfl
    next =>
      split
      next hlast => exact (rootLength_append hcwd _).1 hlast
      next => exact (rootLength_append hcwd _).2

theorem combine_normal (cwd file : Bytes) : 0x5C ∉ combine cwd [file] := by
  have hcwd := not_mem_normalizeSlashes cwd
  have hfile := not_mem_normalizeSlashes file
  show 0x5C ∉ combineStep (normalizeSlashes cwd) file
  unfold combineStep
  split
  · exact hcwd
  · dsimp only
    split
    · exact hfile
    · split
      · rw [List.mem_append, not_or]
        exact ⟨hcwd, hfile⟩
      · rw [List.mem_append, List.mem_cons, not_or, not_or]
        exact ⟨hcwd, by decide, hfile⟩

end Tsr.Tspath
