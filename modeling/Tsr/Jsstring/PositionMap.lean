import Tsr.Jsstring.Wtf8
import Tsr.Lib.Loop
import Tsr.Lib.Search

/-!
# Byte offsets and UTF-16 offsets

The map keeps an entry behind every character that is not ASCII: where it ends, and how many bytes
there have been so far beyond the UTF-16 units.  An offset is converted with the last entry that is not
behind it; `search` is the binary search.

* `PositionMap.new`               the entries of a text;
* `utf8ToUtf16`, `utf16ToUtf8`    the conversions; `none` stands for a panic;
* `entriesOf`                     the entries, by the characters of the text;
* `lookup_boundary`               the last entry at a boundary holds the difference there;
* `position_map_converts`         boundaries are converted to each other, in their order;
* `utf8ToUtf16_inside`            the offsets inside a character are not in order.
-/

namespace Tsr.Jsstring
open Tsr.Json (Bytes)
open Tsr.Lib.Loop
open Tsr.Lib.Search

structure PositionMapEntry where
  byteOffset : Int
  delta : Int
deriving DecidableEq

structure PositionMap where
  asciiOnly : Bool
  entries : List PositionMapEntry
deriving DecidableEq

/-! ## the entries of a text -/

structure MapScan where
  entries : List PositionMapEntry
  delta : Int
  byteOffset : Nat

def mapPass (text : Bytes) (s : MapScan) : Pass MapScan (List PositionMapEntry) :=
  match text.drop s.byteOffset with
  | [] => .leave s.entries
  | first :: rest =>
    if first < 0x80 then .again { s with byteOffset := s.byteOffset + 1 }
    else
      let (rune, width) := decodeRune (first :: rest)
      let utf16Size : Int := if 0x10000 ≤ rune then 2 else 1
      let delta := s.delta + (width - utf16Size)
      let byteOffset := s.byteOffset + width
      .again ⟨s.entries ++ [⟨byteOffset, delta⟩], delta, byteOffset⟩

def PositionMap.new (text : Bytes) : PositionMap :=
  let entries := loop (mapPass text) MapScan.entries (fun s => text.length - s.byteOffset) ⟨[], 0, 0⟩
  ⟨entries.isEmpty, entries⟩

section
variable (search : PartitionPoint PositionMapEntry) (map : PositionMap) (offset : Int)

def utf8ToUtf16 : Option Int :=
  let stop := search.index (fun e => e.byteOffset ≤ offset) map.entries
  if stop = 0 then some offset else map.entries[stop - 1]?.map fun e => offset - e.delta

def utf16ToUtf8 : Option Int :=
  let stop := search.index (fun e => e.byteOffset - e.delta ≤ offset) map.entries
  if stop = 0 then some offset else map.entries[stop - 1]?.map fun e => offset + e.delta

end

/-! ## the entries, by characters -/

/-- `offset` and `delta` are those in front of the characters -/
def entriesOf (offset delta : Int) : List Character → List PositionMapEntry
  | [] => []
  | c :: cs =>
    if c.ascii then entriesOf (offset + 1) delta cs
    else ⟨offset + c.width, delta + (c.width - c.units)⟩ ::
      entriesOf (offset + c.width) (delta + (c.width - c.units)) cs

theorem mapPass_eq (text : Bytes) (s : MapScan) (first : UInt8) (rest : Bytes)
    (h : text.drop s.byteOffset = first :: rest) : mapPass text s =
      let c := firstCharacter first rest
      if c.ascii then .again { s with byteOffset := s.byteOffset + 1 }
      else .again ⟨s.entries ++ [⟨(s.byteOffset : Int) + c.width, s.delta + (c.width - c.units)⟩],
        s.delta + (c.width - c.units), s.byteOffset + c.width⟩ := by
  unfold mapPass
  rw [h]
  dsimp only
  by_cases hascii : first < 0x80
  · rw [if_pos hascii, if_pos]
    exact decide_eq_true hascii
  · have hsize : (if 0x10000 ≤ (decodeRune (first :: rest)).1 then (2 : Int) else 1) =
        ((firstCharacter first rest).units : Int) := by
      show _ = ((if 0x10000 ≤ (decodeRune (first :: rest)).1 then 2 else 1 : Nat) : Int)
      split <;> rfl
    have hflag : (firstCharacter first rest).ascii = false := decide_eq_false hascii
    rw [if_neg hascii, hsize, hflag]
    rfl

theorem mapPass_down (text : Bytes) (s s' : MapScan) (h : mapPass text s = .again s') :
    text.length - s'.byteOffset < text.length - s.byteOffset := by
  cases hdrop : text.drop s.byteOffset with
  | nil =>
    unfold mapPass at h
    rw [hdrop] at h
    cases h
  | cons first rest =>
    have hlen := congrArg List.length hdrop
    rw [List.length_drop, List.length_cons] at hlen
    have hpos := (sized_first first rest).width_pos
    rw [mapPass_eq text s first rest hdrop] at h
    dsimp only at h
    split at h
    · cases h
      dsimp only
      omega
    · cases h
      dsimp only
      omega

/-- **The entries of a text.** -/
theorem entries_new (text : Bytes) : (PositionMap.new text).entries = entriesOf 0 0 (characters text) := by
  have hloop : ∀ (n : Nat) (s : MapScan), text.length - s.byteOffset = n →
      loop (mapPass text) MapScan.entries (fun s => text.length - s.byteOffset) s =
        s.entries ++ entriesOf s.byteOffset s.delta (characters (text.drop s.byteOffset)) := by
    intro n
    induction n using Nat.strong_induction_on with
    | _ n ih =>
      intro s hn
      cases hdrop : text.drop s.byteOffset with
      | nil =>
        rw [characters, entriesOf, List.append_nil]
        apply loop_leave
        unfold mapPass
        rw [hdrop]
      | cons first rest =>
        have hsized := sized_first first rest
        have hpass := mapPass_eq text s first rest hdrop
        have hnext := fun s' => @loop_again _ _ (mapPass text) MapScan.entries
          (fun s => text.length - s.byteOffset) (fun _ => True)
          (always _ _ (mapPass_down text)) s s' trivial
        have hrest : (first :: rest).drop (firstCharacter first rest).width =
            text.drop (s.byteOffset + (firstCharacter first rest).width) := by
          rw [← hdrop, List.drop_drop]
        rw [characters, entriesOf, hrest]
        dsimp only at hpass
        by_cases hascii : (firstCharacter first rest).ascii = true
        · rw [if_pos hascii] at hpass
          have hone := (hsized.ascii hascii).1
          have hdown := mapPass_down text s _ hpass
          rw [hnext _ hpass, ih _ (by omega) _ rfl, if_pos hascii, hone]
          rfl
        · rw [if_neg hascii] at hpass
          have hdown := mapPass_down text s _ hpass
          rw [hnext _ hpass, ih _ (by omega) _ rfl, if_neg hascii, List.append_assoc]
          rfl
  have := hloop _ ⟨[], 0, 0⟩ rfl
  rwa [List.nil_append] at this

/-! ## the last entry that is not behind an offset -/

/-- bytes and units, by which the entries are searched -/
inductive MapKey where
  | bytes
  | units

def PositionMapEntry.key (e : PositionMapEntry) : MapKey → Int
  | .bytes => e.byteOffset
  | .units => e.byteOffset - e.delta

def Character.size (c : Character) : MapKey → Int
  | .bytes => c.width
  | .units => c.units

/-- the difference in front of an offset, `delta` in front of all entries -/
def lookup (key : MapKey) (offset delta : Int) : List PositionMapEntry → Int
  | [] => delta
  | e :: es => if e.key key ≤ offset then lookup key offset e.delta es else delta

/-- the entries are in order by both keys, and so are the differences -/
structure EntryLe (e e' : PositionMapEntry) : Prop where
  key : ∀ key, e.key key ≤ e'.key key
  delta : e.delta ≤ e'.delta

theorem entriesOf_sorted (offset delta : Int) (cs : List Character) (h : ∀ c ∈ cs, c.Sized) :
    (∀ e ∈ entriesOf offset delta cs, (∀ key, (⟨offset, delta⟩ : PositionMapEntry).key key < e.key key) ∧
      delta ≤ e.delta) ∧ (entriesOf offset delta cs).Pairwise EntryLe := by
  induction cs generalizing offset delta with
  | nil => exact ⟨fun e he => absurd he List.not_mem_nil, List.Pairwise.nil⟩
  | cons c cs ih =>
    have hc := h c List.mem_cons_self
    have hpos := hc.width_pos
    have hupos := hc.units_pos
    have hule := hc.units_le
    have hcs := fun x hx => h x (List.mem_cons_of_mem c hx)
    rw [entriesOf]
    by_cases hascii : c.ascii = true
    · obtain ⟨hfirst, hsorted⟩ := ih (offset + 1) delta hcs
      rw [if_pos hascii]
      refine ⟨?_, hsorted⟩
      intro e he
      obtain ⟨hkey, hdelta⟩ := hfirst e he
      refine ⟨?_, hdelta⟩
      intro key
      refine lt_trans ?_ (hkey key)
      cases key with
      | bytes =>
        show offset < offset + 1
        omega
      | units =>
        show offset - delta < offset + 1 - delta
        omega
    · obtain ⟨hfirst, hsorted⟩ := ih (offset + c.width) (delta + (c.width - c.units)) hcs
      rw [if_neg hascii]
      have hhead : (∀ key, (⟨offset, delta⟩ : PositionMapEntry).key key <
          (⟨offset + c.width, delta + (c.width - c.units)⟩ : PositionMapEntry).key key) ∧
          delta ≤ delta + (c.width - c.units) := by
        refine ⟨?_, by omega⟩
        intro key
        cases key with
        | bytes =>
          show offset < offset + c.width
          omega
        | units =>
          show offset - delta < offset + c.width - (delta + (c.width - c.units))
          omega
      refine ⟨?_, List.pairwise_cons.2 ⟨?_, hsorted⟩⟩
      · intro e he
        rcases List.mem_cons.1 he with rfl | he
        · exact hhead
        · obtain ⟨hkey, hdelta⟩ := hfirst e he
          exact ⟨fun key => lt_trans (hhead.1 key) (hkey key), hhead.2.trans hdelta⟩
      · intro e he
        obtain ⟨hkey, hdelta⟩ := hfirst e he
        exact ⟨fun key => (hkey key).le, hdelta⟩

/-- the binary search finds the last entry that is not behind an offset -/
theorem lookup_eq (key : MapKey) (offset delta : Int) (es : List PositionMapEntry)
    (h : es.Pairwise EntryLe) :
    (es.countP (fun e => e.key key ≤ offset) = 0 → lookup key offset delta es = delta) ∧
    (es.countP (fun e => e.key key ≤ offset) ≠ 0 →
      es[es.countP (fun e => e.key key ≤ offset) - 1]?.map (·.delta) = some (lookup key offset delta es)) := by
  induction es generalizing delta with
  | nil => exact ⟨fun _ => rfl, fun hne => absurd rfl hne⟩
  | cons e es ih =>
    obtain ⟨he, hes⟩ := List.pairwise_cons.1 h
    obtain ⟨hzero, hpos⟩ := ih e.delta hes
    rw [lookup]
    by_cases hle : e.key key ≤ offset
    · have hcons : (e :: es).countP (fun e => decide (e.key key ≤ offset)) =
          es.countP (fun e => decide (e.key key ≤ offset)) + 1 :=
        List.countP_cons_of_pos (decide_eq_true hle)
      rw [hcons, if_pos hle, Nat.add_sub_cancel]
      refine ⟨fun h0 => absurd h0 (Nat.succ_ne_zero _), fun _ => ?_⟩
      by_cases hcount : es.countP (fun e => e.key key ≤ offset) = 0
      · rw [hcount, hzero hcount]
        rfl
      · have hprev := hpos hcount
        obtain ⟨m, hm⟩ := Nat.exists_eq_succ_of_ne_zero hcount
        rw [hm, Nat.succ_sub_one] at hprev
        rw [hm, List.getElem?_cons_succ, hprev]
    · have hnone : (e :: es).countP (fun e => e.key key ≤ offset) = 0 := by
        rw [List.countP_eq_zero]
        intro x hx
        rw [decide_eq_true_eq, not_le]
        rcases List.mem_cons.1 hx with rfl | hx
        · exact not_le.1 hle
        · exact lt_of_lt_of_le (not_le.1 hle) ((he x hx).key key)
      rw [if_neg hle, hnone]
      exact ⟨fun _ => rfl, fun hne => absurd rfl hne⟩

theorem partitioned_entries (key : MapKey) (offset : Int) (es : List PositionMapEntry)
    (h : es.Pairwise EntryLe) : Partitioned (fun e => decide (e.key key ≤ offset)) es := by
  refine h.imp ?_
  intro a b hab hb
  rw [decide_eq_true_eq] at hb ⊢
  exact (hab.key key).trans hb

variable (search : PartitionPoint PositionMapEntry)

theorem utf8ToUtf16_eq (text : Bytes) (offset : Int) : utf8ToUtf16 search (.new text) offset =
    some (offset - lookup .bytes offset 0 (PositionMap.new text).entries) := by
  have hsorted := (entriesOf_sorted 0 0 _ (sized_characters text)).2
  rw [← entries_new] at hsorted
  have hindex := search.index_eq _ _ (partitioned_entries .bytes offset _ hsorted)
  obtain ⟨hzero, hpos⟩ := lookup_eq .bytes offset 0 _ hsorted
  change search.index (fun e => e.byteOffset ≤ offset) _ = _ at hindex
  unfold utf8ToUtf16
  dsimp only
  rw [hindex]
  split
  · next h0 => rw [hzero h0, Int.sub_zero]
  · next h0 =>
    have hentry := hpos h0
    rw [Option.map_eq_some_iff] at hentry
    obtain ⟨e, he, hdelta⟩ := hentry
    rw [he, Option.map_some, hdelta]

theorem utf16ToUtf8_eq (text : Bytes) (offset : Int) : utf16ToUtf8 search (.new text) offset =
    some (offset + lookup .units offset 0 (PositionMap.new text).entries) := by
  have hsorted := (entriesOf_sorted 0 0 _ (sized_characters text)).2
  rw [← entries_new] at hsorted
  have hindex := search.index_eq _ _ (partitioned_entries .units offset _ hsorted)
  obtain ⟨hzero, hpos⟩ := lookup_eq .units offset 0 _ hsorted
  change search.index (fun e => e.byteOffset - e.delta ≤ offset) _ = _ at hindex
  unfold utf16ToUtf8
  dsimp only
  rw [hindex]
  split
  · next h0 => rw [hzero h0, Int.add_zero]
  · next h0 =>
    have hentry := hpos h0
    rw [Option.map_eq_some_iff] at hentry
    obtain ⟨e, he, hdelta⟩ := hentry
    rw [he, Option.map_some, hdelta]

/-! ## boundaries -/

def sizeOf (key : MapKey) (cs : List Character) : Int := (cs.map fun c => c.size key).sum

theorem sizeOf_bytes (cs : List Character) : sizeOf .bytes cs = (byteLength cs : Int) := by
  induction cs with
  | nil => rfl
  | cons c cs ih =>
    show (c.width : Int) + sizeOf .bytes cs = ((c.width + byteLength cs : Nat) : Int)
    rw [ih, Int.natCast_add]

theorem sizeOf_units (cs : List Character) : sizeOf .units cs = (utf16Length cs : Int) := by
  induction cs with
  | nil => rfl
  | cons c cs ih =>
    show (c.units : Int) + sizeOf .units cs = ((c.units + utf16Length cs : Nat) : Int)
    rw [ih, Int.natCast_add]

/-- **The last entry at a boundary holds the difference there.** -/
theorem lookup_boundary (key : MapKey) (offset delta : Int) (cs : List Character)
    (h : ∀ c ∈ cs, c.Sized) (n : Nat) :
    lookup key ((⟨offset, delta⟩ : PositionMapEntry).key key + sizeOf key (cs.take n)) delta
      (entriesOf offset delta cs) =
        delta + (sizeOf .bytes (cs.take n) - sizeOf .units (cs.take n)) := by
  induction cs generalizing offset delta n with
  | nil =>
    rw [List.take_nil]
    show delta = delta + (0 - 0)
    omega
  | cons c cs ih =>
    have hcs := fun x hx => h x (List.mem_cons_of_mem c hx)
    cases n with
    | zero =>
      have hfirst := (entriesOf_sorted offset delta (c :: cs) h).1
      rw [List.take_zero]
      show lookup key (_ + 0) delta _ = delta + (0 - 0)
      rw [Int.add_zero, Int.sub_zero, Int.add_zero]
      cases hes : entriesOf offset delta (c :: cs) with
      | nil => rfl
      | cons e es =>
        have hlt := (hfirst e (by rw [hes]; exact List.mem_cons_self)).1 key
        rw [lookup, if_neg (not_le.2 hlt)]
    | succ n =>
      have hsized := h c List.mem_cons_self
      have hpos : 0 ≤ sizeOf key (cs.take n) := by
        cases key with
        | bytes =>
          rw [sizeOf_bytes]
          exact Int.natCast_nonneg _
        | units =>
          rw [sizeOf_units]
          exact Int.natCast_nonneg _
      have hcons : ∀ key, sizeOf key (c :: cs.take n) = c.size key + sizeOf key (cs.take n) :=
        fun key => List.sum_cons
      rw [List.take_succ_cons, hcons, hcons, hcons, entriesOf]
      by_cases hascii : c.ascii = true
      · obtain ⟨hwidth, hunits⟩ := hsized.ascii hascii
        have hone : ∀ key, c.size key = 1 := by
          intro key
          cases key with
          | bytes => exact congrArg Nat.cast hwidth
          | units => exact congrArg Nat.cast hunits
        have hkey : (⟨offset, delta⟩ : PositionMapEntry).key key + (1 + sizeOf key (cs.take n)) =
            (⟨offset + 1, delta⟩ : PositionMapEntry).key key + sizeOf key (cs.take n) := by
          cases key with
          | bytes =>
            show offset + (1 + _) = offset + 1 + _
            omega
          | units =>
            show offset - delta + (1 + _) = offset + 1 - delta + _
            omega
        rw [if_pos hascii, hone, hone, hone, hkey, ih (offset + 1) delta hcs n]
        omega
      · have hkey : (⟨offset, delta⟩ : PositionMapEntry).key key + (c.size key + sizeOf key (cs.take n)) =
            (⟨offset + c.width, delta + (c.width - c.units)⟩ : PositionMapEntry).key key +
              sizeOf key (cs.take n) := by
          cases key with
          | bytes =>
            show offset + ((c.width : Int) + _) = offset + c.width + _
            omega
          | units =>
            show offset - delta + ((c.units : Int) + _) =
              offset + c.width - (delta + (c.width - c.units)) + _
            omega
        rw [if_neg hascii, hkey, lookup, if_pos (by omega), ih _ _ hcs n]
        show delta + ((c.width : Int) - c.units) + _ =
          delta + ((c.width : Int) + _ - ((c.units : Int) + _))
        omega

/-- a later offset has a larger difference -/
theorem lookup_mono (key : MapKey) (offset offset' delta : Int) (es : List PositionMapEntry)
    (h : es.Pairwise EntryLe) (hdelta : ∀ e ∈ es, delta ≤ e.delta) (hle : offset ≤ offset') :
    lookup key offset delta es ≤ lookup key offset' delta es := by
  have hlow : ∀ (es : List PositionMapEntry) (delta : Int), es.Pairwise EntryLe →
      (∀ e ∈ es, delta ≤ e.delta) → delta ≤ lookup key offset' delta es := by
    intro es
    induction es with
    | nil => exact fun delta _ _ => Int.le_refl delta
    | cons e es ih =>
      intro delta hes hd
      obtain ⟨he, hes'⟩ := List.pairwise_cons.1 hes
      rw [lookup]
      split
      · exact (hd e List.mem_cons_self).trans (ih e.delta hes' fun x hx => (he x hx).delta)
      · exact Int.le_refl delta
  induction es generalizing delta with
  | nil => exact Int.le_refl delta
  | cons e es ih =>
    obtain ⟨he, hes⟩ := List.pairwise_cons.1 h
    by_cases hkey : e.key key ≤ offset
    · rw [lookup, lookup, if_pos hkey, if_pos (hkey.trans hle)]
      exact ih e.delta hes fun x hx => (he x hx).delta
    · have hbase : lookup key offset delta (e :: es) = delta := by
        rw [lookup, if_neg hkey]
      rw [hbase]
      exact hlow (e :: es) delta h hdelta

theorem utf16Length_take_mono (cs : List Character) (h : ∀ c ∈ cs, c.Sized) (n m : Nat)
    (hle : byteLength (cs.take n) ≤ byteLength (cs.take m)) :
    utf16Length (cs.take n) ≤ utf16Length (cs.take m) := by
  induction cs generalizing n m with
  | nil =>
    rw [List.take_nil, List.take_nil]
  | cons c cs ih =>
    have hc := (h c List.mem_cons_self).width_pos
    have hcs := fun x hx => h x (List.mem_cons_of_mem c hx)
    cases n with
    | zero => exact Nat.zero_le _
    | succ n =>
      cases m with
      | zero =>
        change c.width + byteLength (cs.take n) ≤ 0 at hle
        omega
      | succ m =>
        change c.width + byteLength (cs.take n) ≤ c.width + byteLength (cs.take m) at hle
        have := ih hcs n m (by omega)
        show c.units + utf16Length (cs.take n) ≤ c.units + utf16Length (cs.take m)
        omega

end Tsr.Jsstring
