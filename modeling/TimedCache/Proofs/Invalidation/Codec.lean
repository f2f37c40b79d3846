import Mathlib.Data.List.DropRight
import TimedCache.Invalidation.Datagram

/-!
# The datagram codec

A datagram can carry ASCII text that is not empty and does not end in a terminator. The text travels
as its own bytes, and a payload is read as the bytes that are left of it without the terminators at
its end. So writing and reading undo each other: a text that fits is read back from its payload, and
whatever is read from a payload is written as the bytes that were left of it.
-/

namespace TimedCache.Datagram

section Strip

variable (payload : List UInt8)

/-- A payload is what is left of it, followed by terminators. -/
theorem exists_strip_append :
    ∃ tail, payload = strip payload ++ tail ∧ ∀ b ∈ tail, isTerminator b :=
  ⟨payload.rtakeWhile isTerminator, List.rdropWhile_append_rtakeWhile.symm,
    fun _ => List.mem_rtakeWhile_imp⟩

/-- What is left does not end in a terminator. -/
theorem getLast?_strip : ∀ b ∈ (strip payload).getLast?, isTerminator b = false := by
  intro b hb
  obtain ⟨hne, rfl⟩ := List.mem_getLast?_eq_getLast hb
  exact Bool.not_eq_true _ ▸ List.rdropWhile_last_not isTerminator payload hne

/-- Terminators at the end do not count. -/
theorem strip_append {tail : List UInt8} (h : ∀ b ∈ tail, isTerminator b) :
    strip (payload ++ tail) = strip payload := by
  rw [strip, strip, List.reverse_append, List.dropWhile_append_of_pos]
  simpa using h

/-- Bytes that do not end in a terminator are left as they are. -/
theorem strip_eq_self {bytes : List UInt8} (h : ∀ b ∈ bytes.getLast?, isTerminator b = false) :
    strip bytes = bytes := by
  refine List.rdropWhile_eq_self_iff.mpr fun hne => ?_
  simp [h _ (List.getLast?_eq_some_getLast hne)]

/-- Nothing is left exactly of terminators. -/
theorem strip_eq_nil_iff : strip payload = [] ↔ ∀ b ∈ payload, isTerminator b :=
  List.rdropWhile_eq_nil_iff

end Strip

section Text

variable {s : String}

/-- A byte is the code point of the character that it is read as. -/
theorem toNat_ofNat_toNat (b : UInt8) : (Char.ofNat b.toNat).toNat = b.toNat := by
  have hvalid : b.toNat.isValidChar := Or.inl (Nat.lt_trans b.toNat_lt (by decide))
  exact congrArg Char.toNat (dif_pos hvalid)

/-- The text of some bytes has them as its code points. -/
theorem asciiBytes_asciiText (bytes : List UInt8) : asciiBytes (asciiText bytes) = bytes := by
  simp [asciiBytes, asciiText, Function.comp_def, toNat_ofNat_toNat]

/-- ASCII text is the text of its code points. -/
theorem asciiText_asciiBytes (h : ∀ c ∈ s.toList, c.toNat ≤ 127) : asciiText (asciiBytes s) = s := by
  rw [asciiText, asciiBytes, List.map_map, ← String.toList_inj, String.toList_ofList]
  refine (List.map_congr_left fun c hc => ?_).trans (List.map_id _)
  have hbyte : c.toNat < 256 := Nat.lt_of_le_of_lt (h c hc) (by decide)
  simp [Nat.mod_eq_of_lt hbyte, Char.ofNat_toNat]

/-- ASCII text has one byte for each code point. -/
theorem toUTF8_of_ascii (h : ∀ c ∈ s.toList, c.toNat ≤ 127) :
    s.toUTF8 = (asciiBytes s).toByteArray := by
  have hbytes : s.toList.flatMap String.utf8EncodeChar
      = s.toList.flatMap fun c => [UInt8.ofNat c.toNat] :=
    List.flatMap_congr fun c hc => if_pos (h c hc)
  rw [String.toUTF8_eq_toByteArray, ← String.utf8Encode_toList, List.utf8Encode, hbytes, asciiBytes,
    ← List.map_eq_flatMap]

/-- ASCII text has as many bytes as characters. -/
theorem utf8ByteSize_of_ascii (h : ∀ c ∈ s.toList, c.toNat ≤ 127) :
    s.utf8ByteSize = s.toList.length := by
  rw [← String.size_toByteArray, ← String.toUTF8_eq_toByteArray, toUTF8_of_ascii h]
  simp [asciiBytes]

/-- Of the ASCII characters, the terminators are the carriage return, the line feed and zero. -/
theorem isTerminator_ofNat_toNat {c : Char} (hc : c.toNat ≤ 127) :
    isTerminator (UInt8.ofNat c.toNat) = false ↔ c ≠ '\r' ∧ c ≠ '\n' ∧ c ≠ '\x00' := by
  have hchar (d : Char) (hd : d.toNat ≤ 127) :
      UInt8.ofNat c.toNat = UInt8.ofNat d.toNat ↔ c = d := by
    rw [← UInt8.toNat_inj, ← Char.toNat_inj, UInt8.toNat_ofNat', UInt8.toNat_ofNat']
    omega
  have hreturn := hchar '\r' (by decide)
  have hfeed := hchar '\n' (by decide)
  have hzero := hchar '\x00' (by decide)
  simp only [isTerminator, Bool.or_eq_false_iff, beq_eq_false_iff_ne, and_assoc]
  exact and_congr (not_congr hreturn) (and_congr (not_congr hfeed) (not_congr hzero))

end Text

/-- The text can travel in a datagram: it is ASCII, not empty, and does not end in a carriage return,
a line feed or a zero character. -/
structure Portable (s : String) : Prop where
  nonempty : s ≠ ""
  ascii : ∀ c ∈ s.toList, c.toNat ≤ 127
  unterminated : ∀ c ∈ s.toList.getLast?, c ≠ '\r' ∧ c ≠ '\n' ∧ c ≠ '\x00'

/-- A text can be sent exactly if it can travel and fits. -/
theorem unsendable?_eq_none_iff (s : String) :
    unsendable? s = none ↔ Portable s ∧ s.utf8ByteSize ≤ capacity := by
  have hreasons : unsendable? s = none ↔ s.toList ≠ [] ∧ (∀ c ∈ s.toList, c.toNat ≤ 127)
      ∧ (asciiBytes s).getLast?.any isTerminator = false ∧ s.toList.length ≤ capacity := by
    grind [unsendable?]
  have hlast (hascii : ∀ c ∈ s.toList, c.toNat ≤ 127) :
      (asciiBytes s).getLast?.any isTerminator = false
        ↔ ∀ c ∈ s.toList.getLast?, c ≠ '\r' ∧ c ≠ '\n' ∧ c ≠ '\x00' := by
    rw [asciiBytes, List.getLast?_map]
    cases hchar : s.toList.getLast? with
    | none => simp
    | some c => simpa using isTerminator_ofNat_toNat (hascii c (List.mem_of_getLast? hchar))
  rw [hreasons]
  constructor
  · rintro ⟨hempty, hascii, hunterminated, hfits⟩
    refine ⟨⟨?_, hascii, (hlast hascii).mp hunterminated⟩, ?_⟩
    · simpa using hempty
    · rwa [utf8ByteSize_of_ascii hascii]
  · rintro ⟨⟨hempty, hascii, hunterminated⟩, hfits⟩
    rw [utf8ByteSize_of_ascii hascii] at hfits
    exact ⟨by simpa using hempty, hascii, (hlast hascii).mpr hunterminated, hfits⟩

/-- The payload of a text that can be sent are its code points. -/
theorem encode_eq_ok_iff (s : String) (payload : List UInt8) :
    encode s = .ok payload ↔ Portable s ∧ s.utf8ByteSize ≤ capacity ∧ payload = asciiBytes s := by
  rw [encode, ← and_assoc, ← unsendable?_eq_none_iff]
  cases unsendable? s <;> simp [eq_comm]

/-- The one fault with which a payload is not read. -/
def notAscii : Fault := .invalidRequest "invalidation payload is not ASCII"

/-- Bytes beyond the ASCII range are those above 127. -/
theorem isAscii_eq_false_iff (b : UInt8) : isAscii b = false ↔ 127 < b := by
  rw [isAscii, decide_eq_false_iff_not, UInt8.lt_iff_toNat_lt, UInt8.lt_iff_toNat_lt]
  exact Nat.not_lt

section Decode

variable (payload : List UInt8)

/-- A payload is refused exactly if a byte that is left of it is not ASCII. -/
theorem decode_eq_error_iff (fault : Fault) :
    decode payload = .error fault ↔ (∃ b ∈ strip payload, 127 < b) ∧ fault = notAscii := by
  have hall : (strip payload).all isAscii = false ↔ ∃ b ∈ strip payload, 127 < b := by
    simp [isAscii_eq_false_iff]
  rw [← hall, decode]
  cases (strip payload).all isAscii <;> cases (strip payload).isEmpty <;> simp [notAscii, eq_comm]

/-- A payload is empty exactly if nothing is left of it. -/
theorem decode_eq_ok_none_iff : decode payload = .ok none ↔ ∀ b ∈ payload, isTerminator b := by
  rw [← strip_eq_nil_iff, decode]
  cases strip payload with
  | nil => simp
  | cons b rest => cases (b :: rest).all isAscii <;> simp

/-- What is read from a payload is the text of the bytes that are left of it, which are ASCII. -/
theorem decode_eq_ok_some_iff (s : String) : decode payload = .ok (some s)
    ↔ strip payload ≠ [] ∧ (∀ b ∈ strip payload, b ≤ 127) ∧ s = asciiText (strip payload) := by
  have hall : (strip payload).all isAscii = true ↔ ∀ b ∈ strip payload, b ≤ 127 := by
    simp [← UInt8.not_lt, ← isAscii_eq_false_iff]
  rw [← hall, decode]
  cases hbytes : strip payload with
  | nil => simp
  | cons b rest => cases (b :: rest).all isAscii <;> simp [eq_comm]

end Decode

/-- The text of ASCII bytes is ASCII. -/
theorem ascii_asciiText {bytes : List UInt8} (h : ∀ b ∈ bytes, b ≤ 127) :
    ∀ c ∈ (asciiText bytes).toList, c.toNat ≤ 127 := by
  intro c hc
  rw [asciiText, String.toList_ofList] at hc
  obtain ⟨b, hb, rfl⟩ := List.mem_map.mp hc
  rw [toNat_ofNat_toNat]
  exact UInt8.le_iff_toNat_le.mp (h b hb)

/-- What is read from a payload can travel, and its bytes are those that are left of the payload. -/
theorem portable_of_decode {payload : List UInt8} {s : String} (h : decode payload = .ok (some s)) :
    Portable s ∧ asciiBytes s = strip payload := by
  obtain ⟨hleft, hbytes, rfl⟩ := (decode_eq_ok_some_iff payload s).mp h
  have hascii := ascii_asciiText hbytes
  have hsame := asciiBytes_asciiText (strip payload)
  refine ⟨⟨?_, hascii, ?_⟩, hsame⟩
  · rintro hempty
    rw [hempty] at hsame
    exact hleft hsame.symm
  · intro c hc
    rw [← isTerminator_ofNat_toNat (hascii c (List.mem_of_getLast? hc))]
    apply getLast?_strip payload
    rw [← hsame, asciiBytes, List.getLast?_map, Option.mem_def.mp hc]
    rfl

/-- A text that can travel is read back from its bytes. -/
theorem decode_asciiBytes {s : String} (h : Portable s) : decode (asciiBytes s) = .ok (some s) := by
  have hstrip : strip (asciiBytes s) = asciiBytes s := by
    apply strip_eq_self
    intro b hb
    rw [asciiBytes, List.getLast?_map] at hb
    obtain ⟨c, hc, rfl⟩ := Option.map_eq_some_iff.mp hb
    exact (isTerminator_ofNat_toNat (h.ascii c (List.mem_of_getLast? hc))).mpr (h.unterminated c hc)
  rw [decode_eq_ok_some_iff, hstrip, asciiText_asciiBytes h.ascii]
  refine ⟨?_, ?_, rfl⟩
  · simpa [asciiBytes] using h.nonempty
  · intro b hb
    obtain ⟨c, hc, rfl⟩ := List.mem_map.mp hb
    have hcode := h.ascii c hc
    rw [UInt8.le_iff_toNat_le, UInt8.toNat_ofNat', Nat.mod_eq_of_lt (by omega)]
    exact hcode

/-- Bytes that are written for a text are read as that text. -/
theorem fromUTF8?_toUTF8 (s : String) : String.fromUTF8? s.toUTF8 = some s := by
  have hvalid : s.toUTF8.IsValidUTF8 := s.isValidUTF8
  rw [String.fromUTF8?, dif_pos hvalid]
  rfl

/-- How a payload is read: some bytes are left of it without the terminators at its end, and it is
these that are refused or read, as the text that has them as its own bytes. -/
structure ReadBy (payload bytes : List UInt8) : Prop where
  split : ∃ tail, payload = bytes ++ tail ∧ ∀ b ∈ tail, isTerminator b
  unterminated : ∀ b ∈ bytes.getLast?, isTerminator b = false
  text : ∀ s, decode payload = .ok (some s) →
    s.toUTF8 = bytes.toByteArray ∧ Portable s ∧ (s.utf8ByteSize ≤ capacity → encode s = .ok bytes)
  empty : decode payload = .ok none ↔ ∀ b ∈ payload, isTerminator b
  refused : ∀ fault, decode payload = .error fault ↔ (∃ b ∈ bytes, 127 < b) ∧ fault = notAscii
  readable : (∀ b ∈ bytes, b ≤ 127) → ∃ s, String.fromUTF8? bytes.toByteArray = some s
  padded : ∀ tail, (∀ b ∈ tail, isTerminator b) → decode (payload ++ tail) = decode payload

/-- Writing and reading are exact. A text can be written exactly if it can travel and fits, its
payload are its own bytes, and it is read back from them; every payload is read by the bytes that are
left of it. -/
theorem codec_exact :
    (∀ s : String, ((∃ payload, encode s = .ok payload) ↔ Portable s ∧ s.utf8ByteSize ≤ capacity)
      ∧ ∀ payload, encode s = .ok payload →
        payload.toByteArray = s.toUTF8 ∧ decode payload = .ok (some s))
    ∧ ∀ payload : List UInt8, ∃ bytes, ReadBy payload bytes := by
  refine ⟨fun s => ⟨?_, fun payload hencode => ?_⟩, fun payload => ⟨strip payload, ?_⟩⟩
  · simp [encode_eq_ok_iff]
  · obtain ⟨hportable, -, rfl⟩ := (encode_eq_ok_iff s payload).mp hencode
    exact ⟨(toUTF8_of_ascii hportable.ascii).symm, decode_asciiBytes hportable⟩
  · refine
      { split := exists_strip_append payload
        unterminated := getLast?_strip payload
        text := fun s hdecode => ?_
        empty := decode_eq_ok_none_iff payload
        refused := decode_eq_error_iff payload
        readable := fun hascii => ?_
        padded := fun tail htail => by rw [decode, decode, strip_append payload htail] }
    · obtain ⟨hportable, hbytes⟩ := portable_of_decode hdecode
      refine ⟨hbytes ▸ toUTF8_of_ascii hportable.ascii, hportable, fun hfits => ?_⟩
      exact (encode_eq_ok_iff s _).mpr ⟨hportable, hfits, hbytes.symm⟩
    · have hwritten := toUTF8_of_ascii (ascii_asciiText hascii)
      rw [asciiBytes_asciiText] at hwritten
      exact ⟨_, hwritten ▸ fromUTF8?_toUTF8 _⟩

end TimedCache.Datagram
