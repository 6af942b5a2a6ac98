import Tsr.Lib.Bytes

/-!
# Words of four bytes

A table of 32-bit numbers kept as bytes, each number in little-endian form.

* `ofLe_le`          a little-endian form is read back, as far as it fits;
* `words`            the bytes of a table;
* `readWord_words`   a word of a table that stands between other bytes;
* `patchWord_words`  one word of a table is overwritten.
-/

namespace Tsr.Lib.Words
open Tsr.Lib.Bytes

/-- the number of a little-endian form -/
def ofLe (bytes : List UInt8) : Nat := bytes.foldr (fun b n => b.toNat + 256 * n) 0

theorem ofLe_le (width n : Nat) : ofLe (le width n) = n % 256 ^ width := by
  induction width generalizing n with
  | zero =>
    show 0 = n % 1
    omega
  | succ width ih =>
    have hpow : 256 ^ (width + 1) = 256 * 256 ^ width := Nat.pow_succ'
    show (UInt8.ofNat n).toNat + 256 * ofLe (le width (n / 256)) = n % 256 ^ (width + 1)
    rw [ih, UInt8.toNat_ofNat', hpow, Nat.mod_mul]

/-- the bytes of a table of words -/
def words (ws : List Nat) : List UInt8 := ws.flatMap (le 4)

@[simp] theorem words_nil : words [] = [] := rfl

theorem words_cons (w : Nat) (ws : List Nat) : words (w :: ws) = le 4 w ++ words ws := rfl

theorem words_append (ws ws' : List Nat) : words (ws ++ ws') = words ws ++ words ws' :=
  List.flatMap_append

@[simp] theorem length_words (ws : List Nat) : (words ws).length = 4 * ws.length := by
  induction ws with
  | nil => rfl
  | cons w ws ih =>
    rw [words_cons, List.length_append, length_le, ih, List.length_cons]
    omega

/-- the word at an offset, `0` when it is not there in full -/
def readWord (data : List UInt8) (offset : Nat) : Nat :=
  if offset + 4 ≤ data.length then ofLe ((data.drop offset).take 4) else 0

/-- the word at an offset is overwritten -/
def patchWord (data : List UInt8) (offset value : Nat) : List UInt8 :=
  data.take offset ++ le 4 value ++ data.drop (offset + 4)

theorem drop_words (ws : List Nat) (k : Nat) : (words ws).drop (4 * k) = words (ws.drop k) := by
  induction ws generalizing k with
  | nil => rw [List.drop_nil, words_nil, List.drop_nil]
  | cons w ws ih =>
    cases k with
    | zero => rfl
    | succ k =>
      rw [words_cons, List.drop_succ_cons, show 4 * (k + 1) = (le 4 w).length + 4 * k by
        rw [length_le]
        omega]
      rw [List.drop_length_add_append, ih]

theorem take_words (ws : List Nat) (k : Nat) : (words ws).take (4 * k) = words (ws.take k) := by
  induction ws generalizing k with
  | nil => rw [List.take_nil, words_nil, List.take_nil]
  | cons w ws ih =>
    cases k with
    | zero => rfl
    | succ k =>
      rw [words_cons, List.take_succ_cons, words_cons, show 4 * (k + 1) = (le 4 w).length + 4 * k by
        rw [length_le]
        omega]
      rw [List.take_length_add_append, ih]

/-- **A word of a table between other bytes.** -/
theorem readWord_words (front back : List UInt8) (ws : List Nat) (k : Nat) (hk : k < ws.length) :
    readWord (front ++ words ws ++ back) (front.length + 4 * k) = ws[k] % 2 ^ 32 := by
  have hdrop : (front ++ words ws ++ back).drop (front.length + 4 * k) =
      le 4 ws[k] ++ (words (ws.drop (k + 1)) ++ back) := by
    rw [List.append_assoc, List.drop_length_add_append, List.drop_append_of_le_length, drop_words,
      List.drop_eq_getElem_cons hk, words_cons, List.append_assoc]
    rw [length_words]
    omega
  have hlen : front.length + 4 * k + 4 ≤ (front ++ words ws ++ back).length := by
    rw [List.length_append, List.length_append, length_words]
    omega
  rw [readWord, if_pos hlen, hdrop, List.take_append_of_le_length (by rw [length_le]),
    List.take_of_length_le (by rw [length_le]), ofLe_le]
  rfl

/-- a word of a table at the front -/
theorem readWord_front (ws : List Nat) (back : List UInt8) (k : Nat) (hk : k < ws.length) :
    readWord (words ws ++ back) (4 * k) = ws[k] % 2 ^ 32 := by
  have h := readWord_words [] back ws k hk
  rwa [List.nil_append, List.length_nil, Nat.zero_add] at h

/-- **A word of a table is overwritten.** -/
theorem patchWord_words (ws : List Nat) (k value : Nat) (hk : k < ws.length) :
    patchWord (words ws) (4 * k) value = words (ws.set k value) := by
  rw [patchWord, take_words, show 4 * k + 4 = 4 * (k + 1) by omega, drop_words,
    List.set_eq_take_append_cons_drop, if_pos hk, words_append, words_cons, List.append_assoc]

end Tsr.Lib.Words
