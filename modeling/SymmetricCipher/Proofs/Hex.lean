import Mathlib.Data.List.Forall2
import Mathlib.Tactic.Lemma
import SymmetricCipher.Text.Hex

/-!
# What hexadecimal text is read as

Text spells bytes if, without its blanks, it consists of their digits, two for each byte and each in
either case (`Spells`). Exactly such text is read. Of other text the length is to blame if its bytes
in UTF-8 cannot be paired, and else the first of these bytes that is no digit (`FirstForeign`).

A character of ASCII is one byte, which is its code. Every other one begins with a byte that is no
code of ASCII, and so no digit (`utf8EncodeChar_cases`). This is why digits can be told from the
bytes: `forall₂_isDigit_iff` takes the characters one by one, and the other inductions here are on
pairs of bytes, as they are read.
-/

namespace SymmetricCipher.Hex

/-! ## Digits -/

/-- The digits of either case, with their values. -/
def digitTable : List (Char × Nat) :=
  ['0', '1', '2', '3', '4', '5', '6', '7', '8', '9'].zipIdx ++
    ['a', 'b', 'c', 'd', 'e', 'f'].zipIdx 10 ++ ['A', 'B', 'C', 'D', 'E', 'F'].zipIdx 10

/-- A character is a digit for the value. -/
def IsDigit (c : Char) (value : UInt8) : Prop := (c, value.toNat) ∈ digitTable

instance (c : Char) (value : UInt8) : Decidable (IsDigit c value) :=
  inferInstanceAs (Decidable (_ ∈ _))

/-- A hexadecimal digit is an ASCII character, and its value is a nibble. -/
lemma IsDigit.bounds {c : Char} {value : UInt8} (h : IsDigit c value) :
    c.toNat < 128 ∧ value.toNat < 16 := by
  have htable : ∀ entry ∈ digitTable, entry.1.toNat < 128 ∧ entry.2 < 16 := by decide
  exact htable _ h

/-- The code of a byte as a character is the byte. -/
lemma toNat_ofNat_byte (byte : UInt8) : (Char.ofNat byte.toNat).toNat = byte.toNat := by
  have hcodes : ∀ n : Fin 256, (Char.ofNat n).toNat = n := by decide +kernel
  exact hcodes ⟨byte.toNat, byte.toNat_lt⟩

/-- A byte has a value exactly if it is the code of a digit. -/
lemma value?_eq_some_iff {byte value : UInt8} :
    value? byte = some value ↔ IsDigit (Char.ofNat byte.toNat) value := by
  constructor
  · have hbytes : ∀ n : Fin 256, ∀ value ∈ value? (UInt8.ofNat n),
        IsDigit (Char.ofNat n) value := by
      decide +kernel
    intro h
    refine hbytes ⟨byte.toNat, byte.toNat_lt⟩ value ?_
    rw [UInt8.ofNat_toNat]
    exact h
  · have htable : ∀ entry ∈ digitTable,
        value? (UInt8.ofNat entry.1.toNat) = some (UInt8.ofNat entry.2) := by
      decide
    intro h
    have hentry := htable _ h
    rw [toNat_ofNat_byte, UInt8.ofNat_toNat, UInt8.ofNat_toNat] at hentry
    exact hentry

/-- A character is a single byte, its code, or it begins with a byte that is no code of ASCII. -/
lemma utf8EncodeChar_cases (c : Char) :
    (c.toNat < 128 ∧ String.utf8EncodeChar c = [UInt8.ofNat c.toNat]) ∨
      (128 ≤ c.toNat ∧ ∃ byte rest, String.utf8EncodeChar c = byte :: rest ∧ 128 ≤ byte.toNat) := by
  have hcode : c.toNat = c.val.toNat := rfl
  unfold String.utf8EncodeChar
  dsimp only
  split
  · exact .inl ⟨by omega, rfl⟩
  · refine .inr ⟨by omega, ?_⟩
    -- sequences of two, three and four bytes
    split
    on_goal 2 => split
    all_goals
      refine ⟨_, _, rfl, ?_⟩
      rw [UInt8.toNat_ofNat']
      omega

/-- A byte beyond ASCII is no digit. -/
lemma value?_of_le {byte : UInt8} (h : 128 ≤ byte.toNat) : value? byte = none := by
  cases hv : value? byte with
  | none => rfl
  | some value =>
    have hlt := (value?_eq_some_iff.1 hv).bounds.1
    rw [toNat_ofNat_byte] at hlt
    omega

/-- Characters are digits for certain values exactly if their bytes have these values. -/
lemma forall₂_isDigit_iff {text : List Char} {values : List UInt8} :
    List.Forall₂ IsDigit text values ↔
      (text.flatMap String.utf8EncodeChar).map value? = values.map some := by
  induction text generalizing values with
  | nil =>
    rw [List.forall₂_nil_left_iff, List.flatMap_nil, List.map_nil]
    cases values with
    | nil => exact ⟨fun _ => rfl, fun _ => rfl⟩
    | cons value values => exact ⟨nofun, nofun⟩
  | cons c text ih =>
    cases values with
    | nil =>
      have hne := String.utf8EncodeChar_ne_nil (c := c)
      rw [List.forall₂_nil_right_iff, List.flatMap_cons, List.map_append, List.map_nil,
        List.append_eq_nil_iff, List.map_eq_nil_iff]
      exact ⟨nofun, fun h => absurd h.1 hne⟩
    | cons value values =>
      rw [List.forall₂_cons, List.flatMap_cons, List.map_cons, ih]
      rcases utf8EncodeChar_cases c with ⟨hc, hencoded⟩ | ⟨hc, byte, rest, hencoded, hbyte⟩
      · -- the character is the one that its byte is the code of
        have hcode : (UInt8.ofNat c.toNat).toNat = c.toNat := UInt8.toNat_ofNat_of_lt' (by
          show c.toNat < 256
          omega)
        rw [hencoded, List.map_append, List.map_singleton, List.singleton_append, List.cons.injEq,
          value?_eq_some_iff, hcode, Char.ofNat_toNat]
      · -- neither the character nor its first byte is a digit
        rw [hencoded, List.map_append, List.map_cons, List.cons_append, List.cons.injEq,
          value?_of_le hbyte]
        refine ⟨fun h => ?_, fun h => nomatch h.1⟩
        have hlt := h.1.bounds.1
        omega

/-! ## Pairs of digits -/

/-- The values of the digits of bytes, two for each byte, the high one first. -/
def halves (data : Bytes) : List UInt8 := data.flatMap fun byte => [byte / 16, byte % 16]

/-- Every byte has two halves. -/
lemma length_halves (data : Bytes) : (halves data).length = 2 * data.length := by
  induction data with
  | nil => rfl
  | cons byte data ih =>
    have hcons : halves (byte :: data) = byte / 16 :: byte % 16 :: halves data := rfl
    rw [hcons, List.length_cons, List.length_cons, ih, List.length_cons, Nat.mul_succ]

/-- Only no bytes have no halves. -/
lemma nil_eq_halves_iff {data : Bytes} : [] = (halves data).map some ↔ data = [] := by
  cases data with
  | nil => exact ⟨fun _ => rfl, fun _ => rfl⟩
  | cons byte data => exact ⟨nofun, nofun⟩

/-- Values are the halves of bytes exactly if the first two are those of the first byte, and the
others those of the rest. -/
lemma pair_eq_halves_iff {high low : Option UInt8} {values : List (Option UInt8)} {data : Bytes} :
    high :: low :: values = (halves data).map some ↔
      ∃ byte rest, data = byte :: rest ∧ high = some (byte / 16) ∧ low = some (byte % 16) ∧
        values = (halves rest).map some := by
  cases data with
  | nil => exact ⟨nofun, fun ⟨_, _, h, _⟩ => nomatch h⟩
  | cons byte rest =>
    have hcons : (halves (byte :: rest)).map some =
        some (byte / 16) :: some (byte % 16) :: (halves rest).map some := rfl
    rw [hcons, List.cons.injEq, List.cons.injEq]
    constructor
    · rintro ⟨hhigh, hlow, hvalues⟩
      exact ⟨byte, rest, rfl, hhigh, hlow, hvalues⟩
    · rintro ⟨_, _, ⟨⟩, hhigh, hlow, hvalues⟩
      exact ⟨hhigh, hlow, hvalues⟩

/-- Two digits make the byte that they are the halves of. -/
lemma join_eq_iff {high low byte : UInt8} (hhigh : high.toNat < 16) (hlow : low.toNat < 16) :
    high * 16 + low = byte ↔ high = byte / 16 ∧ low = byte % 16 := by
  have hlt := byte.toNat_lt
  simp only [← UInt8.toNat_inj, UInt8.toNat_add, UInt8.toNat_mul, UInt8.toNat_div, UInt8.toNat_mod]
  show (high.toNat * 16 % 256 + low.toNat) % 256 = byte.toNat ↔
    high.toNat = byte.toNat / 16 ∧ low.toNat = byte.toNat % 16
  omega

/-- Bytes are read in pairs if they have values, namely those of the digits of what they give. -/
lemma decodePairs_eq_ok_iff {position : Nat} {bytes : List UInt8} {data : Bytes} :
    decodePairs position bytes = .ok data ↔ bytes.map value? = (halves data).map some := by
  fun_induction decodePairs position bytes generalizing data with
  | case1 position =>
    rw [List.map_nil, nil_eq_halves_iff]
    exact ⟨fun h => (Except.ok.inj h).symm, fun h => congrArg _ h.symm⟩
  | case2 position byte =>
    refine ⟨nofun, fun h => ?_⟩
    have hlength := congrArg List.length h
    rw [List.length_map, List.length_map, length_halves, List.length_singleton] at hlength
    omega
  | case3 position high low rest hhigh =>
    rw [List.map_cons, List.map_cons, hhigh, pair_eq_halves_iff]
    exact ⟨nofun, fun ⟨_, _, _, h, _⟩ => nomatch h⟩
  | case4 position high low rest value hlow hhigh =>
    rw [List.map_cons, List.map_cons, hlow, pair_eq_halves_iff]
    exact ⟨nofun, fun ⟨_, _, _, _, h, _⟩ => nomatch h⟩
  | case5 position high low rest highValue lowValue hlow hhigh e hrest ih =>
    rw [List.map_cons, List.map_cons, pair_eq_halves_iff]
    refine ⟨nofun, fun ⟨_, data, _, _, _, h⟩ => ?_⟩
    cases hrest.symm.trans (ih.2 h)
  | case6 position high low rest highValue lowValue hlow hhigh back hrest ih =>
    have hjoin {byte : UInt8} : highValue * 16 + lowValue = byte ↔
        highValue = byte / 16 ∧ lowValue = byte % 16 :=
      join_eq_iff (value?_eq_some_iff.1 hhigh).bounds.2 (value?_eq_some_iff.1 hlow).bounds.2
    rw [List.map_cons, List.map_cons, hhigh, hlow, pair_eq_halves_iff]
    constructor
    · rintro ⟨⟩
      obtain ⟨hh, hl⟩ := hjoin.1 rfl
      exact ⟨_, back, rfl, congrArg some hh, congrArg some hl, ih.1 hrest⟩
    · rintro ⟨byte, data, rfl, hh, hl, hvalues⟩
      cases hrest.symm.trans (ih.2 hvalues)
      rw [hjoin.2 ⟨Option.some.inj hh, Option.some.inj hl⟩]

/-! ## Bytes that are no digits -/

/-- A byte that is the code of a digit. -/
def IsDigitCode (byte : UInt8) : Prop := ∃ value, IsDigit (Char.ofNat byte.toNat) value

/-- The first byte that is no digit, with its place. -/
structure FirstForeign (bytes : List UInt8) (byte : UInt8) (position : Nat) : Prop where
  found : bytes[position]? = some byte
  foreign : ¬IsDigitCode byte
  before : ∀ k < position, ∀ other, bytes[k]? = some other → IsDigitCode other

/-- A byte is the code of a digit exactly if it has a value. -/
lemma isDigitCode_iff {byte : UInt8} : IsDigitCode byte ↔ ∃ value, value? byte = some value :=
  exists_congr fun _ => value?_eq_some_iff.symm

/-- A first byte that is no digit is the first foreign one. -/
lemma firstForeign_cons_of_eq_none {first byte : UInt8} {bytes : List UInt8} {position : Nat}
    (h : value? first = none) :
    FirstForeign (first :: bytes) byte position ↔ byte = first ∧ position = 0 := by
  have hforeign : ¬IsDigitCode first := by
    rw [isDigitCode_iff, h]
    exact nofun
  constructor
  · intro hfirst
    cases position with
    | zero => exact ⟨(Option.some.inj hfirst.found).symm, rfl⟩
    | succ k => exact absurd (hfirst.before 0 k.succ_pos first rfl) hforeign
  · rintro ⟨rfl, rfl⟩
    exact ⟨rfl, hforeign, nofun⟩

/-- Behind a digit the first foreign byte is that of the rest, one further on. -/
lemma firstForeign_cons_of_eq_some {first byte value : UInt8} {bytes : List UInt8} {position : Nat}
    (h : value? first = some value) :
    FirstForeign (first :: bytes) byte position ↔
      ∃ k, position = k + 1 ∧ FirstForeign bytes byte k := by
  have hdigit : IsDigitCode first := isDigitCode_iff.2 ⟨value, h⟩
  constructor
  · intro hfirst
    cases position with
    | zero =>
      obtain rfl := Option.some.inj hfirst.found
      exact absurd hdigit hfirst.foreign
    | succ k =>
      exact ⟨k, rfl, hfirst.found, hfirst.foreign,
        fun i hi => hfirst.before (i + 1) (Nat.succ_lt_succ hi)⟩
  · rintro ⟨k, rfl, hrest⟩
    refine ⟨hrest.found, hrest.foreign, fun i hi other hother => ?_⟩
    cases i with
    | zero =>
      obtain rfl := Option.some.inj hother
      exact hdigit
    | succ i => exact hrest.before i (Nat.lt_of_succ_lt_succ hi) other hother

/-- Behind two digits it is two further on, in the error as well. -/
lemma firstForeign_pair_iff {high low highValue lowValue : UInt8} {rest : List UInt8}
    {position : Nat} {e : HexError} (hhigh : value? high = some highValue)
    (hlow : value? low = some lowValue) :
    (∃ byte k, e = .invalidDigit byte (position + k) ∧
        FirstForeign (high :: low :: rest) byte k) ↔
      ∃ byte k, e = .invalidDigit byte (position + 2 + k) ∧ FirstForeign rest byte k := by
  simp only [firstForeign_cons_of_eq_some hhigh, firstForeign_cons_of_eq_some hlow]
  constructor
  · rintro ⟨byte, _, rfl, _, rfl, k, rfl, hfirst⟩
    exact ⟨byte, k, congrArg _ (by omega), hfirst⟩
  · rintro ⟨byte, k, rfl, hfirst⟩
    exact ⟨byte, k + 1 + 1, congrArg _ (by omega), k + 1, rfl, k, rfl, hfirst⟩

/-- Bytes in pairs are refused if one of them is no digit, and the first such byte is named. -/
lemma decodePairs_eq_error_iff {position : Nat} {bytes : List UInt8} {e : HexError}
    (heven : bytes.length % 2 = 0) :
    decodePairs position bytes = .error e ↔
      ∃ byte k, e = .invalidDigit byte (position + k) ∧ FirstForeign bytes byte k := by
  fun_induction decodePairs position bytes with
  | case1 position => exact ⟨nofun, fun ⟨_, _, _, h⟩ => nomatch h.found⟩
  | case2 position byte => cases heven
  | case3 position high low rest hhigh =>
    simp only [firstForeign_cons_of_eq_none hhigh]
    constructor
    · rintro ⟨⟩
      exact ⟨high, 0, rfl, rfl, rfl⟩
    · rintro ⟨_, _, rfl, rfl, rfl⟩
      rfl
  | case4 position high low rest value hlow hhigh =>
    simp only [firstForeign_cons_of_eq_some hhigh, firstForeign_cons_of_eq_none hlow]
    constructor
    · rintro ⟨⟩
      exact ⟨low, 1, rfl, 0, rfl, rfl, rfl⟩
    · rintro ⟨_, _, rfl, _, rfl, rfl, rfl⟩
      rfl
  | case5 position high low rest highValue lowValue hlow hhigh e' hrest ih =>
    have heven' : rest.length % 2 = 0 := (Nat.add_mod_right rest.length 2).symm.trans heven
    rw [firstForeign_pair_iff hhigh hlow, ← ih heven', hrest]
  | case6 position high low rest highValue lowValue hlow hhigh back hrest ih =>
    have heven' : rest.length % 2 = 0 := (Nat.add_mod_right rest.length 2).symm.trans heven
    rw [firstForeign_pair_iff hhigh hlow, ← ih heven', hrest]
    exact ⟨nofun, nofun⟩

/-! ## Text without its blanks -/

/-- Text without its blanks. -/
def stripped (text : String) : String := String.ofList (text.toList.filter (!isBlank ·))

/-- The bytes of text in UTF-8. -/
def utf8 (text : String) : List UInt8 := text.toUTF8.data.toList

/-- The bytes that count are those of the text without its blanks. -/
lemma significantBytes_eq (text : String) : significantBytes text = utf8 (stripped text) := by
  rw [utf8, stripped, String.toUTF8_eq_toByteArray, String.toByteArray_ofList, List.utf8Encode,
    List.data_toByteArray, List.toList_toArray]
  rfl

/-- A text has as many bytes as its size in UTF-8 says. -/
lemma length_utf8 (text : String) : (utf8 text).length = text.utf8ByteSize := by
  rw [utf8, Array.length_toList]
  rfl

/-- Text spells bytes if it consists of their digits, each in either case. -/
def Spells (text : List Char) (data : Bytes) : Prop := List.Forall₂ IsDigit text (halves data)

/-- A text spells data exactly if the values of its bytes are the halves of the data. -/
lemma spells_iff {text : String} {data : Bytes} :
    Spells (stripped text).toList data ↔
      (significantBytes text).map value? = (halves data).map some := by
  rw [Spells, forall₂_isDigit_iff, stripped, String.toList_ofList, significantBytes]

/-- Text is read as bytes exactly if, without its blanks, it spells them. -/
lemma decode_eq_ok_iff {text : String} {data : Bytes} :
    decode text = .ok data ↔ Spells (stripped text).toList data := by
  rw [spells_iff, decode]
  split
  · rename_i hodd
    refine ⟨nofun, fun h => ?_⟩
    have hlength := congrArg List.length h
    rw [List.length_map, List.length_map, length_halves] at hlength
    omega
  · exact decodePairs_eq_ok_iff

/-- A text of an even number of bytes is read pair by pair. -/
lemma decode_of_even {text : String} (h : (significantBytes text).length % 2 = 0) :
    decode text = decodePairs 0 (significantBytes text) := by
  rw [decode, h]
  rfl

/-- The length is to blame exactly if the bytes cannot be paired. -/
lemma decode_eq_oddLength_iff {text : String} :
    decode text = .error .oddLength ↔ (stripped text).utf8ByteSize % 2 = 1 := by
  rw [← length_utf8, ← significantBytes_eq]
  refine ⟨fun h => ?_, fun h => if_pos h⟩
  rcases Nat.mod_two_eq_zero_or_one (significantBytes text).length with heven | hodd
  · rw [decode_of_even heven, decodePairs_eq_error_iff heven] at h
    obtain ⟨_, _, h, -⟩ := h
    cases h
  · exact hodd

/-- A byte is to blame exactly if the bytes can be paired, and it is the first that is no digit. -/
lemma decode_eq_invalidDigit_iff {text : String} {byte : UInt8} {position : Nat} :
    decode text = .error (.invalidDigit byte position) ↔
      (stripped text).utf8ByteSize % 2 = 0 ∧ FirstForeign (utf8 (stripped text)) byte position := by
  rw [← length_utf8, ← significantBytes_eq]
  rcases Nat.mod_two_eq_zero_or_one (significantBytes text).length with heven | hodd
  · rw [decode_of_even heven, decodePairs_eq_error_iff heven, and_iff_right heven]
    constructor
    · rintro ⟨_, k, h, hfirst⟩
      rw [Nat.zero_add] at h
      cases h
      exact hfirst
    · exact fun hfirst => ⟨byte, position, by rw [Nat.zero_add], hfirst⟩
  · rw [decode, if_pos hodd, hodd]
    exact ⟨nofun, fun h => absurd h.1 Nat.one_ne_zero⟩

/-! ## Written text -/

/-- A digit as it is written is no blank, and is a digit for its value. -/
lemma digit_spec {value : UInt8} (h : value.toNat < 16) :
    isBlank (digit value) = false ∧ IsDigit (digit value) value := by
  have hdigits : ∀ n : Fin 16, isBlank (digit (UInt8.ofNat n)) = false ∧
      IsDigit (digit (UInt8.ofNat n)) (UInt8.ofNat n) := by
    decide +kernel
  have hvalue := hdigits ⟨value.toNat, h⟩
  rw [UInt8.ofNat_toNat] at hvalue
  exact hvalue

/-- The high half of a byte is a nibble. -/
lemma toNat_high (byte : UInt8) : (byte / 16).toNat < 16 := by
  rw [UInt8.toNat_div]
  exact Nat.div_lt_of_lt_mul byte.toNat_lt

/-- The low half of a byte is a nibble. -/
lemma toNat_low (byte : UInt8) : (byte % 16).toNat < 16 := by
  rw [UInt8.toNat_mod]
  exact Nat.mod_lt _ (by decide)

/-- No digit is a blank. -/
lemma filter_digits (byte : UInt8) : (digits byte).filter (!isBlank ·) = digits byte := by
  refine List.filter_eq_self.2 fun c hc => ?_
  rw [digits] at hc
  rcases List.mem_cons.1 hc with rfl | hc
  · rw [(digit_spec (toNat_high byte)).1]
    rfl
  · rw [List.mem_singleton.1 hc, (digit_spec (toNat_low byte)).1]
    rfl

/-- Without the blanks, the text of bytes is their digits. -/
lemma filter_intercalate (data : Bytes) :
    (List.intercalate [' '] (data.map digits)).filter (!isBlank ·) = data.flatMap digits := by
  induction data with
  | nil => rfl
  | cons byte data ih =>
    cases data with
    | nil =>
      have hlast : List.intercalate [' '] ([byte].map digits) = digits byte := rfl
      rw [hlast, filter_digits]
      rfl
    | cons next data =>
      have hcut : List.intercalate [' '] ((byte :: next :: data).map digits) =
          digits byte ++ ' ' :: List.intercalate [' '] ((next :: data).map digits) := rfl
      rw [hcut, List.filter_append, filter_digits, List.filter_cons_of_neg (by decide), ih]
      rfl

/-- The digits of data spell it. -/
lemma spells_digits (data : Bytes) : Spells (data.flatMap digits) data := by
  induction data with
  | nil => exact .nil
  | cons byte data ih =>
    exact .cons (digit_spec (toNat_high byte)).2 (.cons (digit_spec (toNat_low byte)).2 ih)

/-- Text with blanks put in anywhere. -/
inductive Respaced : List Char → List Char → Prop where
  | nil : Respaced [] []
  | keep {text spaced : List Char} (c : Char) :
    Respaced text spaced → Respaced (c :: text) (c :: spaced)
  | blank {text spaced : List Char} {c : Char} :
    isBlank c = true → Respaced text spaced → Respaced text (c :: spaced)

/-- A text is a respaced form of itself. -/
lemma Respaced.refl (text : List Char) : Respaced text text := by
  induction text with
  | nil => exact .nil
  | cons c text ih => exact .keep c ih

/-- Texts that differ in their blanks are the same without them. -/
lemma Respaced.filter_eq {text spaced : List Char} (h : Respaced text spaced) :
    spaced.filter (!isBlank ·) = text.filter (!isBlank ·) := by
  induction h with
  | nil => rfl
  | keep c _ ih => rw [List.filter_cons, List.filter_cons, ih]
  | blank hblank _ ih => rw [List.filter_cons_of_neg (by rw [hblank]; decide), ih]

/-- The text of bytes is read as those bytes, wherever blanks are put in. -/
lemma decode_of_respaced {text : String} {data : Bytes}
    (h : Respaced (encode data).toList text.toList) : decode text = .ok data := by
  rw [decode_eq_ok_iff, stripped, String.toList_ofList, h.filter_eq, encode, String.toList_ofList,
    filter_intercalate]
  exact spells_digits data

/-- Data that is written is read again. -/
theorem decode_encode (data : Bytes) : decode (encode data) = .ok data :=
  decode_of_respaced (.refl _)

/-! ## Main result -/

/-- Text is read as bytes exactly if, without its blanks, it spells them. Otherwise its length in
UTF-8 is refused if it is odd, and else the first byte that is no digit, with its place among the
bytes without the blanks. What is written for bytes is read as these bytes, wherever blanks are put
in. -/
theorem decode_outcomes (text : String) :
    (∀ data, decode text = .ok data ↔ Spells (stripped text).toList data) ∧
    (decode text = .error .oddLength ↔ (stripped text).utf8ByteSize % 2 = 1) ∧
    (∀ byte position, decode text = .error (.invalidDigit byte position) ↔
      (stripped text).utf8ByteSize % 2 = 0 ∧ FirstForeign (utf8 (stripped text)) byte position) ∧
    ∀ data, decode (encode data) = .ok data ∧
      (Respaced (encode data).toList text.toList → decode text = .ok data) :=
  ⟨fun _ => decode_eq_ok_iff, decode_eq_oddLength_iff, fun _ _ => decode_eq_invalidDigit_iff,
    fun data => ⟨decode_encode data, decode_of_respaced⟩⟩

/-- Blanks stand between the two digits of a byte; the digits are of either case; and a character of
two bytes makes the length odd, or is blamed by the first of its bytes. -/
theorem decode_outcomes_mixed :
    Respaced (encode [0x0a, 0xbc]).toList ['0', '\u3000', 'a', ' ', 'b', '\n', 'c'] ∧
    decode (String.ofList ['0', '\u3000', 'a', ' ', 'b', '\n', 'c']) = .ok [0x0a, 0xbc] ∧
    decode (String.ofList ['0', 'A', 'b', '\u00a0', 'C']) = .ok [0x0a, 0xbc] ∧
    decode (String.ofList ['z', 'é']) = .error .oddLength ∧
    decode (String.ofList ['0', ' ', 'é', 'z']) = .error (.invalidDigit 0xc3 1) := by
  have hspaced : Respaced (encode [0x0a, 0xbc]).toList
      ['0', '\u3000', 'a', ' ', 'b', '\n', 'c'] := by
    rw [encode, String.toList_ofList]
    exact .keep '0' (.blank rfl (.keep 'a' (.keep ' ' (.keep 'b' (.blank rfl (.keep 'c' .nil))))))
  refine ⟨hspaced, ?_, ?_, ?_, ?_⟩
  · refine ((decode_outcomes _).2.2.2 _).2 ?_
    rw [String.toList_ofList]
    exact hspaced
  · refine ((decode_outcomes _).1 _).2 ?_
    rw [stripped, String.toList_ofList, String.toList_ofList]
    exact .cons (by decide) (.cons (by decide) (.cons (by decide) (.cons (by decide) .nil)))
  · exact (decode_outcomes _).2.1.2 (by decide +kernel)
  · refine ((decode_outcomes _).2.2.1 _ _).2 ⟨by decide +kernel, ⟨by decide +kernel, ?_, ?_⟩⟩
    · exact fun ⟨_, hdigit⟩ => absurd hdigit.bounds.1 (by decide)
    · intro k hk other hother
      obtain rfl : k = 0 := by omega
      have hzero : (utf8 (stripped (String.ofList ['0', ' ', 'é', 'z'])))[0]? = some 48 := by
        decide +kernel
      obtain rfl := Option.some.inj (hzero.symm.trans hother)
      exact ⟨0, by decide⟩

end SymmetricCipher.Hex
