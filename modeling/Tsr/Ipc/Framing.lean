import Tsr.Lib.Stream
import Tsr.Lib.Bytes
import Tsr.Lib.Decimal
import Tsr.Json.Utf8

/-!
# Framing of messages

The two ways in which messages are put on a stream:

* `Msgpack`     a three-element array of type, method and payload, the two as binaries whose length
                takes one, two or four bytes;
* `BaseProto`   a `Content-Length` header, further headers, a blank line and the payload.

`expects_readTuple` and `expects_read` say that one record is read back and that no part of it passes
for a message; `framings_round_trip` is **the result** for whole streams.
-/

namespace Tsr.Ipc
open Tsr.Lib Tsr.Lib.Fallible Tsr.Lib.Stream Tsr.Lib.Decimal
open Tsr.Json (Bytes asBytes fromUtf8Lossy)

variable {ι : Type}

namespace Msgpack

inductive MessageType where
  | request
  | callResponse
  | callError
  | response
  | error
  | call
deriving DecidableEq

namespace MessageType

def toByte : MessageType → UInt8
  | request => 1
  | callResponse => 2
  | callError => 3
  | response => 4
  | error => 5
  | call => 6

def fromByte (value : UInt8) : Option MessageType :=
  if value = 1 then some request
  else if value = 2 then some callResponse
  else if value = 3 then some callError
  else if value = 4 then some response
  else if value = 5 then some error
  else if value = 6 then some call
  else none

end MessageType

def fixedArray3 : UInt8 := 0x93
def bin8 : UInt8 := 0xc4
def bin16 : UInt8 := 0xc5
def bin32 : UInt8 := 0xc6
def u8 : UInt8 := 0xcc

inductive Error (ι : Type) where
  | eof
  | unexpectedEof
  | io (error : ι)
  | message (text : String)
deriving DecidableEq

def invalid (message : String) : Error ι := .message ("api: invalid request: " ++ message)

/-- two hexadecimal digits -/
def hex (b : UInt8) : String := String.ofList [(b.toNat / 16).digitChar, (b.toNat % 16).digitChar]

/-! ## reading -/

def shortError : Short ι → Error ι
  | .atStart => .eof
  | .inside => .unexpectedEof
  | .failed error => .io error

def readFull (size : Nat) : Fallible (Source ι) (Error ι) Bytes :=
  mapError (fun _ => shortError) (Stream.readFull size)

def readByte : Fallible (Source ι) (Error ι) UInt8 := do
  let byte ← readFull 1
  pure (byte.headD 0)

def readSize : Fallible (Source ι) (Error ι) Nat := do
  let marker ← readByte
  if marker = bin8 then do
    let size ← readByte
    pure size.toNat
  else if marker = bin16 then do
    let size ← readFull 2
    pure (Bytes.ofBe size)
  else if marker = bin32 then do
    let size ← readFull 4
    pure (Bytes.ofBe size)
  else fail (invalid ("expected binary data (0xc4-0xc6), received: 0x" ++ hex marker))

def readBin : Fallible (Source ι) (Error ι) Bytes := do
  let size ← readSize
  readFull size

def readType : Fallible (Source ι) (Error ι) UInt8 := do
  let marker ← readByte
  if marker ≤ 0x7f then pure marker
  else if marker = u8 then readByte
  else fail (invalid ("expected positive fixint or uint8 marker, received: 0x" ++ hex marker))

def knownType (rawType : UInt8) : Fallible (Source ι) (Error ι) MessageType :=
  match MessageType.fromByte rawType with
  | some messageType => pure messageType
  | none => fail (invalid ("unknown message type: " ++ toString rawType.toNat))

def readArray : Fallible (Source ι) (Error ι) Unit := do
  let first ← readByte
  if first ≠ fixedArray3 then
    fail (invalid ("expected fixed 3-element array (0x93), received: 0x" ++ hex first))
  else pure ()

def readTuple : Fallible (Source ι) (Error ι) (MessageType × String × Bytes) := do
  readArray
  let rawType ← readType
  let messageType ← knownType rawType
  let method ← readBin
  let payload ← readBin
  pure (messageType, fromUtf8Lossy method, payload)

/-! ## writing -/

def writeAll (bytes : Bytes) : Fallible Bytes (Error ι) Unit := change (· ++ bytes)

def writeBin (data : Bytes) : Fallible Bytes (Error ι) Unit :=
  let length := data.length
  if length < 256 then do
    writeAll [bin8, UInt8.ofNat length]
    writeAll data
  else if length < 2 ^ 16 then do
    writeAll [bin16]
    writeAll (Bytes.be 2 length)
    writeAll data
  else if length < 2 ^ 32 then do
    writeAll [bin32]
    writeAll (Bytes.be 4 length)
    writeAll data
  else fail (.message "binary data exceeds 4 GiB")

def writeTuple (messageType : MessageType) (method : String) (payload : Bytes) :
    Fallible Bytes (Error ι) Unit := do
  writeAll [fixedArray3, messageType.toByte]
  writeBin (asBytes method)
  writeBin payload

/-- a message that the protocol can carry -/
structure Tuple where
  messageType : MessageType
  method : String
  payload : Bytes
  methodFits : (asBytes method).length < 2 ^ 32
  payloadFits : payload.length < 2 ^ 32

def Tuple.value (m : Tuple) : MessageType × String × Bytes := (m.messageType, m.method, m.payload)

def writeTuples : List Tuple → Fallible Bytes (Error ι) Unit
  | [] => pure ()
  | m :: ms => do
    writeTuple m.messageType m.method m.payload
    writeTuples ms

/-! ## a record -/

/-- the length in the shortest of the three forms -/
def sizeBytes (length : Nat) : Bytes :=
  if length < 256 then [bin8, UInt8.ofNat length]
  else if length < 2 ^ 16 then bin16 :: Bytes.be 2 length
  else bin32 :: Bytes.be 4 length

def bin (data : Bytes) : Bytes := sizeBytes data.length ++ data

def Tuple.bytes (m : Tuple) : Bytes :=
  [fixedArray3, m.messageType.toByte] ++ (bin (asBytes m.method) ++ bin m.payload)

theorem writeBin_run {data : Bytes} (h : data.length < 2 ^ 32) (out : Bytes) :
    (writeBin data : Fallible Bytes (Error ι) Unit) out = (.ok (), out ++ bin data) := by
  rw [writeBin, bin, sizeBytes]
  by_cases h8 : data.length < 256
  · simp only [if_pos h8]
    exact Prod.ext rfl (List.append_assoc _ _ _)
  by_cases h16 : data.length < 2 ^ 16
  · simp only [if_neg h8, if_pos h16]
    refine Prod.ext rfl ?_
    show out ++ [bin16] ++ Bytes.be 2 data.length ++ data = _
    simp
  · simp only [if_neg h8, if_neg h16, if_pos h]
    refine Prod.ext rfl ?_
    show out ++ [bin32] ++ Bytes.be 4 data.length ++ data = _
    simp

theorem writeTuples_run (ms : List Tuple) (out : Bytes) :
    (writeTuples ms : Fallible Bytes (Error ι) Unit) out =
      (.ok (), out ++ written Tuple.bytes ms) := by
  induction ms generalizing out with
  | nil => exact Prod.ext rfl (List.append_nil out).symm
  | cons m ms ih =>
    have hm : (writeTuple m.messageType m.method m.payload : Fallible Bytes (Error ι) Unit) out =
        (.ok (), out ++ m.bytes) := by
      rw [writeTuple, bind_run_ok (show writeAll [fixedArray3, m.messageType.toByte] out =
          (.ok (), out ++ [fixedArray3, m.messageType.toByte]) from rfl),
        bind_run_ok (writeBin_run m.methodFits _), writeBin_run m.payloadFits, Tuple.bytes,
        List.append_assoc, List.append_assoc]
    rw [writeTuples, bind_run_ok hm, ih, List.append_assoc]
    rfl

theorem expects_readFull {w : Bytes} {n : Nat} (h : w.length = n) :
    Expects (readFull n : Fallible (Source ι) (Error ι) Bytes) w w :=
  (expects_readFull_of_length h).mapError _

theorem expects_readByte (b : UInt8) :
    Expects (readByte : Fallible (Source ι) (Error ι) UInt8) [b] b :=
  (expects_readFull (w := [b]) rfl).value fun byte => byte.headD 0

theorem expects_readSize {length : Nat} (h : length < 2 ^ 32) :
    Expects (readSize : Fallible (Source ι) (Error ι) Nat) (sizeBytes length) length := by
  rw [sizeBytes]
  by_cases h8 : length < 256
  · have hsize : (UInt8.ofNat length).toNat = length := by
      rw [UInt8.toNat_ofNat']
      exact Nat.mod_eq_of_lt h8
    have hvalue := (expects_readByte (ι := ι) (UInt8.ofNat length)).value fun size => size.toNat
    rw [hsize] at hvalue
    rw [if_pos h8]
    exact (expects_readByte bin8).bind (v := [UInt8.ofNat length]) hvalue
  rw [if_neg h8]
  by_cases h16 : length < 2 ^ 16
  · have hvalue := (expects_readFull (ι := ι) (Bytes.length_be 2 length)).value fun size =>
      Bytes.ofBe size
    rw [Bytes.ofBe_be 2 length h16] at hvalue
    rw [if_pos h16]
    exact (expects_readByte bin16).bind (v := Bytes.be 2 length) hvalue
  · have hvalue := (expects_readFull (ι := ι) (Bytes.length_be 4 length)).value fun size =>
      Bytes.ofBe size
    rw [Bytes.ofBe_be 4 length h] at hvalue
    rw [if_neg h16]
    exact (expects_readByte bin32).bind (v := Bytes.be 4 length) hvalue

theorem expects_readBin {data : Bytes} (h : data.length < 2 ^ 32) :
    Expects (readBin : Fallible (Source ι) (Error ι) Bytes) (bin data) data :=
  (expects_readSize h).bind (expects_readFull rfl)

/-- every type byte is a positive fixint -/
theorem expects_readType (t : MessageType) :
    Expects (readType : Fallible (Source ι) (Error ι) UInt8) [t.toByte] t.toByte := by
  refine (expects_readByte t.toByte).bind (v := []) ?_
  rw [if_pos (by cases t <;> decide)]
  exact expects_pure _

theorem expects_knownType (t : MessageType) :
    Expects (knownType t.toByte : Fallible (Source ι) (Error ι) MessageType) [] t := by
  cases t <;> exact expects_pure _

/-- **one tuple** -/
theorem expects_readTuple (m : Tuple) :
    Expects (readTuple : Fallible (Source ι) (Error ι) _) m.bytes m.value := by
  have harray : Expects (readArray : Fallible (Source ι) (Error ι) Unit) [fixedArray3] () :=
    (expects_readByte fixedArray3).bind (v := []) (expects_pure ())
  have hvalue : m.value = (m.messageType, fromUtf8Lossy (asBytes m.method), m.payload) := by
    rw [Json.fromUtf8Lossy_asBytes]
    rfl
  refine harray.bind (v := [m.messageType.toByte] ++ ([] ++ (bin (asBytes m.method) ++ bin m.payload)))
    ?_
  refine (expects_readType m.messageType).bind ?_
  refine (expects_knownType m.messageType).bind ?_
  refine (expects_readBin m.methodFits).bind ?_
  rw [hvalue]
  exact (expects_readBin m.payloadFits).value fun payload =>
    (m.messageType, fromUtf8Lossy (asBytes m.method), payload)

theorem readTuple_at_end (s : Source ι) (h : s.ahead = []) :
    ∃ e o, readTuple s = (.error e, { s with offers := o }) ∧ (s.ending = none → e = .eof) := by
  obtain ⟨o, ho⟩ := readFullLoop_short 1 s.turns [] s le_rfl (by rw [h]; decide)
  have hbyte : readByte s = (.error (shortError (shortAt s.ahead s.ending)),
      { s with ahead := [], offers := o }) := by
    rw [readByte, bind_run_error]
    rw [readFull, mapError, Stream.readFull, ho]
    rfl
  have harray := bind_run_error (k := fun first => if first ≠ fixedArray3 then
    fail (invalid ("expected fixed 3-element array (0x93), received: 0x" ++ hex first)) else pure ())
    hbyte
  refine ⟨_, o, bind_run_error (harray.trans (by rw [← h])), fun he => ?_⟩
  rw [he, h]
  rfl

end Msgpack

namespace BaseProto

/-! ## reading -/

/-- the text of a `Content-Length` that does not parse, with the reason, or a negative value -/
inductive Detail where
  | parse (text : String) (outOfRange : Bool)
  | negative (value : Int)
deriving DecidableEq

inductive Error (ι : Type) where
  | eof
  | readHeader (error : ι)
  | invalidHeader (line : Bytes)
  | invalidContentLength (detail : Detail)
  | noContentLength
  | readContent (short : Short ι)
deriving DecidableEq

def isAsciiWhitespace (b : UInt8) : Bool := b = 0x20 || b = 0x09 || b = 0x0A || b = 0x0C || b = 0x0D

def trimAscii (bytes : Bytes) : Bytes :=
  ((bytes.dropWhile isAsciiWhitespace).reverse.dropWhile isAsciiWhitespace).reverse

/-- `false` for a character that is no digit, `true` for a value that leaves the 64 bits -/
def parseDigits (negative : Bool) : Int → List Char → Except Bool Int
  | n, [] => .ok n
  | n, c :: cs =>
    if c.isDigit then
      let digit : Int := c.toNat - 48
      let n := if negative then n * 10 - digit else n * 10 + digit
      if n < -(2 ^ 63) ∨ 2 ^ 63 ≤ n then .error true else parseDigits negative n cs
    else .error false

def parseInt (text : String) : Except Bool Int :=
  match text.toList with
  | [] => .error false
  | '-' :: cs => if cs = [] then .error false else parseDigits true 0 cs
  | '+' :: cs => if cs = [] then .error false else parseDigits false 0 cs
  | cs => parseDigits false 0 cs

def contentLengthKey : Bytes := asBytes "Content-Length"

def readLine : Fallible (Source ι) (Error ι) Bytes := do
  let line ← mapError (fun _ => .readHeader) (readUntil 0x0A)
  if line.getLast? = some 0x0A then pure line else fail .eof

/-- the length after one header line -/
def header (line : Bytes) (contentLength : Int) : Except (Error ι) Int :=
  match line.idxOf? 0x3A with
  | none => .error (.invalidHeader line)
  | some colon =>
    let key := line.take colon
    let value := line.drop (colon + 1)
    if key = contentLengthKey then
      let text := fromUtf8Lossy (trimAscii value)
      match parseInt text with
      | .error outOfRange => .error (.invalidContentLength (.parse text outOfRange))
      | .ok contentLength =>
        if contentLength < 0 then .error (.invalidContentLength (.negative contentLength))
        else .ok contentLength
    else .ok contentLength

/-- each turn takes a line off the stream -/
def headers : Nat → Int → Fallible (Source ι) (Error ι) Int
  | 0, contentLength => pure contentLength
  | fuel + 1, contentLength => do
    let line ← readLine
    if line = [0x0D, 0x0A] then pure contentLength
    else
      match header line contentLength with
      | .error e => fail e
      | .ok contentLength => headers fuel contentLength

/-- the payload after the blank line -/
def content (contentLength : Int) : Fallible (Source ι) (Error ι) Bytes :=
  if contentLength ≤ 0 then fail .noContentLength
  else mapError (fun _ => .readContent) (Stream.readFull contentLength.toNat)

def read : Fallible (Source ι) (Error ι) Bytes := fun s => (headers s.turns 0 >>= content) s

/-! ## writing -/

def write (data : Bytes) : Fallible Bytes ι Unit := do
  change (· ++ (asBytes "Content-Length: " ++ decimal data.length ++ [0x0D, 0x0A, 0x0D, 0x0A]))
  change (· ++ data)

def writeMessages : List Bytes → Fallible Bytes ι Unit
  | [] => pure ()
  | data :: rest => do
    write data
    writeMessages rest

/-- a header that is not the length -/
structure Header where
  key : Bytes
  value : Bytes
  keyPlain : 0x3A ∉ key ∧ 0x0A ∉ key
  valuePlain : 0x0A ∉ value
  notLength : key ≠ contentLengthKey

def Header.text (h : Header) : Bytes := h.key ++ 0x3A :: h.value

/-- what the protocol can carry; no vector of the source is longer -/
structure Payload where
  bytes : Bytes
  nonempty : bytes ≠ []
  fits : bytes.length < 2 ^ 63

/-- a message, with the headers before and after its length -/
structure Frame where
  before : List Header
  after : List Header
  payload : Payload

def lines (hs : List Header) : Bytes := hs.flatMap fun h => h.text ++ [0x0A]

def lengthText (n : Nat) : Bytes := contentLengthKey ++ 0x3A :: 0x20 :: (decimal n ++ [0x0D])

def Frame.bytes (f : Frame) : Bytes :=
  lines f.before ++ (lengthText f.payload.bytes.length ++ [0x0A] ++
    (lines f.after ++ ([0x0D, 0x0A] ++ f.payload.bytes)))

/-- as `write` puts it on the stream -/
def Frame.plain (payload : Payload) : Frame := ⟨[], [], payload⟩

/-! ## lines -/

theorem readLine_found {w rest : Bytes} {s : Source ι} (ha : s.ahead = w ++ 0x0A :: rest)
    (hw : 0x0A ∉ w) :
    ∃ o, readLine s = (.ok (w ++ [0x0A]), { s with ahead := rest, offers := o }) := by
  obtain ⟨o, ho⟩ := readUntilLoop_found 0x0A s.turns [] w rest s le_rfl ha hw
  refine ⟨o, ?_⟩
  rw [readLine, bind_run_ok (a := w ++ [0x0A])
    (by rw [mapError, readUntil, ho]; rfl), if_pos (by simp)]
  rfl

theorem readLine_ends {s : Source ι} (hw : 0x0A ∉ s.ahead) :
    ∃ e o, readLine s = (.error e, { s with ahead := [], offers := o }) ∧
      (s.ending = none → e = .eof) := by
  obtain ⟨o, ho⟩ := readUntilLoop_ends 0x0A s.turns [] s le_rfl hw
  cases he : s.ending with
  | some error =>
    rw [he] at ho
    refine ⟨.readHeader error, o, ?_, nofun⟩
    rw [readLine, @bind_run_error _ _ _ _ _ _ s { s with ahead := [], offers := o } (.readHeader error)
      (by rw [mapError, readUntil, ho, he]), he]
  | none =>
    rw [he] at ho
    refine ⟨.eof, o, ?_, fun _ => rfl⟩
    rw [readLine, @bind_run_ok _ _ _ _ _ _ s { s with ahead := [], offers := o } s.ahead
      (by rw [mapError, readUntil, ho, he]; rfl), if_neg fun hl => hw (List.mem_of_getLast? hl), he]
    rfl

theorem expects_readLine {w : Bytes} (hw : 0x0A ∉ w) :
    Expects (readLine : Fallible (Source ι) (Error ι) Bytes) (w ++ [0x0A]) (w ++ [0x0A]) where
  whole := by
    intro s rest h
    exact readLine_found (by rw [h, List.append_assoc]; rfl) hw
  short := by
    intro s hp hne
    have hpre : s.ahead <+: w := by
      rcases List.prefix_concat_iff.1 hp with h | h
      · exact absurd h hne
      · exact h
    obtain ⟨e, o, ho, -⟩ := readLine_ends (s := s) fun hm => hw (hpre.subset hm)
    exact ⟨e, o, ho⟩

/-- a line takes at least its end off the stream -/
theorem readLine_shorter {s t : Source ι} {line : Bytes} (h : readLine s = (.ok line, t)) :
    t.ahead.length < s.ahead.length := by
  by_cases hm : 0x0A ∈ s.ahead
  · obtain ⟨w, rest, ha, hw⟩ := List.eq_append_cons_of_mem hm
    obtain ⟨o, ho⟩ := readLine_found ha hw
    cases (h.symm.trans ho)
    rw [ha, List.length_append, List.length_cons]
    dsimp only
    omega
  · obtain ⟨e, o, ho, -⟩ := readLine_ends hm
    exact nomatch (h.symm.trans ho)

/-- enough turns are enough -/
theorem headers_fuel (fuel fuel' : Nat) (n : Int) (s : Source ι) (h : s.ahead.length < fuel)
    (h' : s.ahead.length < fuel') : headers fuel n s = headers fuel' n s := by
  induction fuel generalizing fuel' n s with
  | zero => omega
  | succ fuel ih =>
    obtain ⟨fuel', rfl⟩ : ∃ k, fuel' = k + 1 := ⟨fuel' - 1, by omega⟩
    rw [headers, headers]
    rcases ends readLine s with ⟨line, t, hl⟩ | ⟨e, t, hl⟩
    · rw [bind_run_ok hl, bind_run_ok hl]
      have hshort := readLine_shorter hl
      by_cases hb : line = [0x0D, 0x0A]
      · rw [if_pos hb, if_pos hb]
      · rw [if_neg hb, if_neg hb]
        cases header line n with
        | error e => rfl
        | ok m => exact ih fuel' m t (by omega) (by omega)
    · rw [bind_run_error hl, bind_run_error hl]

/-! ## the length -/

theorem digit_of_mem {n : Nat} {c : Char} (hc : c ∈ Nat.toDigits 10 n) :
    c.isDigit = true ∧ 48 ≤ c.toNat ∧ c.toNat ≤ 57 := by
  have hd := Nat.isDigit_of_mem_toDigits (by decide) (by decide) hc
  refine ⟨hd, ?_⟩
  simp only [Char.isDigit, Bool.and_eq_true, decide_eq_true_eq] at hd
  exact ⟨UInt32.le_iff_toNat_le.1 hd.1, UInt32.le_iff_toNat_le.1 hd.2⟩

theorem decimal_eq_asBytes (n : Nat) : decimal n = asBytes (String.ofList (Nat.toDigits 10 n)) := by
  have hflat : ∀ l : List Char, (∀ c ∈ l, c.toNat ≤ 57) →
      l.map (fun c => c.toNat.toUInt8) = l.flatMap fun c => Json.encodeUtf8 c.toNat := by
    intro l hl
    induction l with
    | nil => rfl
    | cons c l ih =>
      have hc := hl c List.mem_cons_self
      rw [List.map_cons, List.flatMap_cons, ih fun d hd => hl d (List.mem_cons_of_mem _ hd),
        Json.encodeUtf8, if_pos (by omega)]
      rfl
  rw [asBytes, String.toList_ofList]
  exact hflat _ fun c hc => (digit_of_mem hc).2.2

theorem not_whitespace_of_mem {n : Nat} {b : UInt8} (hb : b ∈ decimal n) :
    isAsciiWhitespace b = false ∧ b ≠ 0x0A := by
  obtain ⟨hlow, hhigh⟩ := decimal_bounds hb
  simp only [isAsciiWhitespace, ← UInt8.toNat_inj, UInt8.reduceToNat, ne_eq, Bool.or_eq_false_iff,
    decide_eq_false_iff_not]
  omega

theorem trimAscii_length (n : Nat) :
    trimAscii (0x20 :: (decimal n ++ [0x0D] ++ [0x0A])) = decimal n := by
  -- a byte that is no white space stops the trimming
  have hkeep : ∀ l : Bytes, l ≠ [] → (∀ b ∈ l, isAsciiWhitespace b = false) → ∀ r,
      (l ++ r).dropWhile isAsciiWhitespace = l ++ r := by
    intro l hl hw r
    obtain ⟨b, l, rfl⟩ := List.exists_cons_of_ne_nil hl
    rw [List.cons_append, List.dropWhile_cons_of_neg]
    rw [hw b List.mem_cons_self]
    decide
  have hall : ∀ b ∈ decimal n, isAsciiWhitespace b = false := fun b hb => (not_whitespace_of_mem hb).1
  rw [trimAscii, List.dropWhile_cons_of_pos (by decide), List.append_assoc,
    hkeep _ (decimal_ne_nil n) hall, List.reverse_append]
  show ((0x0A :: 0x0D :: (decimal n).reverse).dropWhile isAsciiWhitespace).reverse = _
  rw [List.dropWhile_cons_of_pos (by decide), List.dropWhile_cons_of_pos (by decide)]
  have := hkeep (decimal n).reverse (by simpa using decimal_ne_nil n)
    (fun b hb => hall b (List.mem_reverse.1 hb)) []
  rw [List.append_nil] at this
  rw [this, List.reverse_reverse]

theorem parseDigits_ok (ds : List Char) (n : Nat) (hd : ∀ c ∈ ds, c.isDigit = true ∧ 48 ≤ c.toNat)
    (h : Nat.ofDigitChars 10 ds n < 2 ^ 63) :
    parseDigits false n ds = .ok (Nat.ofDigitChars 10 ds n : Nat) := by
  induction ds generalizing n with
  | nil => rfl
  | cons c ds ih =>
    obtain ⟨hdigit, hge⟩ := hd c List.mem_cons_self
    rw [Nat.ofDigitChars_cons] at h ⊢
    have hle : 10 * n + (c.toNat - 48) ≤ Nat.ofDigitChars 10 ds (10 * n + (c.toNat - 48)) := by
      rw [Nat.ofDigitChars_eq_ofDigitChars_zero]
      exact le_trans (Nat.le_mul_of_pos_left _ (Nat.pow_pos (by decide))) (Nat.le_add_right _ _)
    have hlt := lt_of_le_of_lt hle h
    have hvalue : (n : Int) * 10 + ((c.toNat : Int) - 48) = ((10 * n + (c.toNat - 48) : Nat) : Int) := by
      omega
    rw [parseDigits, if_pos hdigit]
    simp only [Bool.false_eq_true, if_false, hvalue]
    rw [if_neg (by omega)]
    exact ih _ (fun d hd' => hd d (List.mem_cons_of_mem _ hd')) h

theorem parseInt_decimal {n : Nat} (h : n < 2 ^ 63) :
    parseInt (fromUtf8Lossy (decimal n)) = .ok (n : Int) := by
  rw [decimal_eq_asBytes, Json.fromUtf8Lossy_asBytes, parseInt, String.toList_ofList]
  have hdigits := parseDigits_ok (Nat.toDigits 10 n) 0
    (fun c hc => ⟨(digit_of_mem hc).1, (digit_of_mem hc).2.1⟩)
    (by rw [Nat.ofDigitChars_toDigits (by decide) (by decide)]; exact h)
  rw [Nat.ofDigitChars_toDigits (by decide) (by decide)] at hdigits
  have hsigns : ∀ c ∈ Nat.toDigits 10 n, c ≠ '-' ∧ c ≠ '+' := by
    intro c hc
    obtain ⟨-, h1, -⟩ := digit_of_mem hc
    constructor
    · rintro rfl
      exact absurd h1 (by decide)
    · rintro rfl
      exact absurd h1 (by decide)
  rcases hds : Nat.toDigits 10 n with _ | ⟨c, cs⟩
  · exact absurd hds Nat.toDigits_ne_nil
  · rw [hds] at hdigits hsigns
    obtain ⟨hminus, hplus⟩ := hsigns c List.mem_cons_self
    split
    next h0 => exact nomatch h0
    next h0 => exact absurd (List.cons.inj h0).1 hminus
    next h0 => exact absurd (List.cons.inj h0).1 hplus
    next => exact hdigits

theorem header_length {n : Nat} (h : n < 2 ^ 63) (contentLength : Int) :
    header (lengthText n ++ [0x0A]) contentLength = (.ok (n : Int) : Except (Error ι) Int) := by
  have hline : lengthText n ++ [0x0A] =
      contentLengthKey ++ 0x3A :: (0x20 :: (decimal n ++ [0x0D] ++ [0x0A])) := by
    rw [lengthText, List.append_assoc]
    rfl
  rw [header, hline, idxOf_first (by decide)]
  simp only [List.take_left]
  rw [if_pos trivial, List.drop_append, List.drop_of_length_le (by omega), List.nil_append,
    show contentLengthKey.length + 1 - contentLengthKey.length = 1 from by omega, List.drop_succ_cons,
    List.drop_zero, trimAscii_length, parseInt_decimal h]
  simp only
  rw [if_neg (by omega)]

theorem header_other (h : Header) (contentLength : Int) :
    header (h.text ++ [0x0A]) contentLength = (.ok contentLength : Except (Error ι) Int) := by
  rw [header, Header.text, List.append_assoc, List.cons_append, idxOf_first h.keyPlain.1]
  simp only [List.take_left]
  rw [if_neg h.notLength]

/-! ## a record -/

theorem text_plain (h : Header) : 0x0A ∉ h.text := by
  rw [Header.text, List.mem_append, List.mem_cons]
  rintro (hk | he | hv)
  · exact h.keyPlain.2 hk
  · exact absurd he (by decide)
  · exact h.valuePlain hv

theorem lengthText_plain (n : Nat) : 0x0A ∉ lengthText n := by
  simp only [lengthText, List.mem_append, List.mem_cons, List.not_mem_nil, or_false]
  rintro (hk | he | he | hd | he)
  · exact absurd hk (by decide)
  · exact absurd he (by decide)
  · exact absurd he (by decide)
  · exact (not_whitespace_of_mem hd).2 rfl
  · exact absurd he (by decide)

/-- one header line in front of the others -/
theorem expects_header {text w : Bytes} {fuel : Nat} {n m r : Int} (htext : 0x0A ∉ text)
    (hcolon : 0x3A ∈ text) (hm : ∀ ε, header (ι := ε) (text ++ [0x0A]) n = .ok m)
    (hw : Expects (headers fuel m : Fallible (Source ι) (Error ι) Int) w r) :
    Expects (headers (fuel + 1) n : Fallible (Source ι) (Error ι) Int) (text ++ [0x0A] ++ w) r := by
  refine (expects_readLine htext).bind ?_
  have hne : text ++ [0x0A] ≠ [0x0D, 0x0A] := by
    intro h
    have : text = [0x0D] := List.append_inj_left' h rfl
    rw [this] at hcolon
    exact absurd hcolon (by decide)
  rw [if_neg hne, hm ι]
  exact hw

theorem expects_lines (hs : List Header) {w : Bytes} {fuel : Nat} {n r : Int}
    (hw : Expects (headers fuel n : Fallible (Source ι) (Error ι) Int) w r) :
    Expects (headers (fuel + hs.length) n : Fallible (Source ι) (Error ι) Int) (lines hs ++ w) r := by
  induction hs with
  | nil => exact hw
  | cons h hs ih =>
    rw [lines, List.flatMap_cons, List.append_assoc]
    exact expects_header (text_plain h) (by simp [Header.text]) (fun _ => header_other h n) ih

/-- all headers of a frame, for any larger number of turns -/
theorem expects_headers (f : Frame) (extra : Nat) :
    Expects (headers (extra + 1 + f.after.length + 1 + f.before.length) 0 :
        Fallible (Source ι) (Error ι) Int)
      (lines f.before ++
        (lengthText f.payload.bytes.length ++ [0x0A] ++ (lines f.after ++ [0x0D, 0x0A])))
      (f.payload.bytes.length : Int) := by
  have hblank : ∀ n, Expects (headers (extra + 1) n : Fallible (Source ι) (Error ι) Int)
      [0x0D, 0x0A] n := by
    intro n
    refine (expects_readLine (w := [0x0D]) (by decide)).bind (v := []) ?_
    rw [if_pos (by rfl)]
    exact expects_pure n
  refine expects_lines f.before ?_
  refine expects_header (lengthText_plain _) (by simp [lengthText])
    (fun _ => header_length f.payload.fits 0) ?_
  exact expects_lines f.after (hblank _)

theorem expects_content (p : Payload) :
    Expects (content (p.bytes.length : Int) : Fallible (Source ι) (Error ι) Bytes) p.bytes p.bytes := by
  have hpos := List.length_pos_iff.2 p.nonempty
  rw [content, if_neg (by omega)]
  exact (expects_readFull_of_length (by simp)).mapError _

/-- **one message**, whatever headers stand around its length -/
theorem expects_read (f : Frame) :
    Expects (read : Fallible (Source ι) (Error ι) Bytes) f.bytes f.payload.bytes := by
  have hbody : ∀ extra, Expects
      (headers (extra + 1 + f.after.length + 1 + f.before.length) 0 >>= content :
        Fallible (Source ι) (Error ι) Bytes) f.bytes f.payload.bytes := by
    intro extra
    have hbytes : f.bytes = lines f.before ++ (lengthText f.payload.bytes.length ++ [0x0A] ++
        (lines f.after ++ [0x0D, 0x0A])) ++ f.payload.bytes := by
      simp only [Frame.bytes, List.append_assoc]
    rw [hbytes]
    exact (expects_headers f extra).bind (expects_content f.payload)
  -- the number of turns that `read` allows does as well as any larger one
  have hread : ∀ s : Source ι, read s =
      (headers (s.turns + 1 + f.after.length + 1 + f.before.length) 0 >>= content) s := by
    intro s
    show (headers s.turns 0 >>= content) s = _
    have hfuel := headers_fuel s.turns (s.turns + 1 + f.after.length + 1 + f.before.length) 0 s
      (by rw [Source.turns]; omega) (by rw [Source.turns]; omega)
    rcases ends (headers s.turns 0) s with ⟨n, t, h⟩ | ⟨e, t, h⟩
    · rw [bind_run_ok h, bind_run_ok (hfuel ▸ h)]
    · rw [bind_run_error h, bind_run_error (hfuel ▸ h)]
  exact ⟨fun s rest h => hread s ▸ (hbody s.turns).whole s rest h,
    fun s hp hne => hread s ▸ (hbody s.turns).short s hp hne⟩

theorem read_at_end (s : Source ι) (h : s.ahead = []) :
    ∃ e o, read s = (.error e, { s with offers := o }) ∧ (s.ending = none → e = .eof) := by
  obtain ⟨e, o, ho, he⟩ := readLine_ends (s := s) (by rw [h]; exact List.not_mem_nil)
  refine ⟨e, o, ?_, he⟩
  rw [read, @bind_run_error _ _ _ _ _ _ s { s with ahead := [], offers := o } e, ← h]
  rw [show s.turns = s.offers.length + s.ahead.length + 1 from rfl, headers, bind_run_error ho]

theorem writeMessages_run (ps : List Payload) (out : Bytes) :
    (writeMessages (ps.map Payload.bytes) : Fallible Bytes ι Unit) out =
      (.ok (), out ++ written Frame.bytes (ps.map Frame.plain)) := by
  induction ps generalizing out with
  | nil => exact Prod.ext rfl (List.append_nil out).symm
  | cons p ps ih =>
    have hp : (write p.bytes : Fallible Bytes ι Unit) out = (.ok (), out ++ (Frame.plain p).bytes) := by
      refine Prod.ext rfl ?_
      show out ++ (asBytes "Content-Length: " ++ decimal p.bytes.length ++ [0x0D, 0x0A, 0x0D, 0x0A]) ++
        p.bytes = _
      rw [show asBytes "Content-Length: " = contentLengthKey ++ [0x3A, 0x20] from by decide]
      simp only [Frame.plain, Frame.bytes, lines, lengthText, List.flatMap_nil, List.nil_append,
        List.append_assoc, List.cons_append]
    rw [List.map_cons, writeMessages, bind_run_ok hp, ih, List.append_assoc]
    rfl

end BaseProto

/-! ## whole streams -/

section
variable {ρ ε α : Type} {record : ρ → Bytes} {x : Fallible (Source ι) ε α} {value : ρ → α} {eof : ε}

/-- reading `out` gives the values of `rs` and then the end; cut anywhere, it gives those that the
cut left whole, an error, and nothing more -/
def ReadsBack (record : ρ → Bytes) (x : Fallible (Source ι) ε α) (value : ρ → α) (eof : ε)
    (rs : List ρ) (out : Bytes) : Prop :=
  (∀ offers, ∃ t, drain x (out.length + 1) ⟨out, offers, none⟩ = (rs.map value, some eof, t)) ∧
  ∀ k offers ending, ∃ e t, t.ahead = [] ∧
    drain x (out.length + 1) ⟨out.take k, offers, ending⟩ =
      ((complete record k rs).map value, some e, t)

theorem readsBack_written (hx : ∀ r, Expects x (record r) (value r)) (hpos : ∀ r, record r ≠ [])
    (hend : ∀ s : Source ι, s.ahead = [] →
      ∃ e o, x s = (.error e, { s with offers := o }) ∧ (s.ending = none → e = eof))
    (rs : List ρ) : ReadsBack record x value eof rs (written record rs) := by
  constructor
  · intro offers
    obtain ⟨e, o, h, he⟩ := drain_expects record hx hpos hend rs (written record rs).length _
      ⟨written record rs, offers, none⟩ (List.take_length).symm (Nat.lt_succ_self _)
    rw [complete_written record le_rfl, he le_rfl rfl] at h
    exact ⟨_, h⟩
  · intro k offers ending
    obtain ⟨e, o, h, -⟩ := drain_expects record hx hpos hend rs k ((written record rs).length + 1)
      ⟨(written record rs).take k, offers, ending⟩ rfl
      (by rw [List.length_take]; omega)
    exact ⟨e, _, rfl, h⟩

end

open Msgpack BaseProto in
/-- **what is written is read back, and nothing else**, in both framings -/
theorem framings_round_trip {ι : Type} :
    (∀ ms : List Tuple, ∃ out,
      (writeTuples ms : Fallible Bytes (Msgpack.Error ι) Unit) [] = (.ok (), out) ∧
      ReadsBack (ι := ι) Tuple.bytes readTuple Tuple.value .eof ms out) ∧
    (∀ ps : List Payload, (writeMessages (ps.map Payload.bytes) : Fallible Bytes ι Unit) [] =
      (.ok (), written Frame.bytes (ps.map Frame.plain))) ∧
    ∀ fs : List Frame, ReadsBack (ι := ι) Frame.bytes BaseProto.read (fun f => f.payload.bytes) .eof fs
      (written Frame.bytes fs) := by
  refine ⟨fun ms => ⟨written Tuple.bytes ms, writeTuples_run ms [], ?_⟩,
    fun ps => writeMessages_run ps [], fun fs => ?_⟩
  · exact readsBack_written expects_readTuple (fun m => by simp [Tuple.bytes]) readTuple_at_end ms
  · refine readsBack_written expects_read (fun f h => ?_) read_at_end fs
    have := congrArg List.length h
    simp [Frame.bytes, lengthText] at this

end Tsr.Ipc
