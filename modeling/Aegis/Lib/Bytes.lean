import Aegis.Lib.Text

/-! Octet strings: UTF-8, hexadecimal text, and ASCII case. -/
namespace Text

abbrev Bytes := List UInt8

def utf8 (cs : List Char) : Bytes := cs.flatMap String.utf8EncodeChar

/-- The text that octets encode, if they do. -/
def utf8Decode (bs : Bytes) : Option (List Char) :=
  bs.toByteArray.utf8Decode?.map Array.toList

theorem utf8Decode_utf8 (cs : List Char) : utf8Decode (utf8 cs) = some cs := by
  have h : (utf8 cs).toByteArray.utf8Decode? = some cs.toArray := List.utf8Decode?_utf8Encode
  rw [utf8Decode, h]
  rfl

/-- A zero is a character of its own. -/
theorem utf8Decode_zero (bs : Bytes) :
    utf8Decode (0 :: bs) = (utf8Decode bs).map (Char.ofNat 0 :: ·) := by
  have hzero : (0 :: bs).toByteArray = [Char.ofNat 0].utf8Encode ++ bs.toByteArray := by
    rw [List.utf8Encode_singleton, ← List.toByteArray_append]
    rfl
  rw [utf8Decode, hzero, ByteArray.utf8Decode?_utf8Encode_singleton_append, utf8Decode,
    Option.map_map, Option.map_map]
  congr 1
  funext cs
  simp

theorem newline_of_mem_utf8EncodeChar {c : Char} (h : (10 : UInt8) ∈ String.utf8EncodeChar c) :
    c = '\n' := by
  have hval : c.val.toNat = 10 := by
    unfold String.utf8EncodeChar at h
    dsimp only at h
    split_ifs at h
    all_goals
      simp only [List.mem_cons, List.not_mem_nil, or_false, ← UInt8.toNat_inj,
        UInt8.toNat_ofNat', UInt8.reduceToNat] at h
      omega
  apply Char.ext
  exact UInt32.toNat_inj.mp hval

/-- A newline octet is a newline. -/
theorem newline_of_mem_utf8 {cs : List Char} (h : (10 : UInt8) ∈ utf8 cs) : '\n' ∈ cs := by
  obtain ⟨c, hc, hb⟩ := List.mem_flatMap.mp h
  exact newline_of_mem_utf8EncodeChar hb ▸ hc

theorem utf8_injective : Function.Injective utf8 := by
  intro cs ds h
  have hcs := utf8Decode_utf8 cs
  rw [h, utf8Decode_utf8] at hcs
  exact (Option.some.inj hcs).symm

/-- Two lowercase digits for each octet. -/
def hexEncode (bs : Bytes) : List Char :=
  bs.flatMap fun b => [Nat.digitChar (b.toNat / 16), Nat.digitChar (b.toNat % 16)]

/-- The value of a hexadecimal digit of either case. -/
def hexDigit (c : Char) : Option ℕ :=
  if '0' ≤ c ∧ c ≤ '9' then some (c.toNat - '0'.toNat)
  else if 'a' ≤ c ∧ c ≤ 'f' then some (c.toNat - 'a'.toNat + 10)
  else if 'A' ≤ c ∧ c ≤ 'F' then some (c.toNat - 'A'.toNat + 10)
  else none

def hexDecode : List Char → Option Bytes
  | [] => some []
  | [_] => none
  | a :: b :: cs => do
    let high ← hexDigit a
    let low ← hexDigit b
    let bs ← hexDecode cs
    return UInt8.ofNat (16 * high + low) :: bs

theorem hexDigit_digitChar {n : ℕ} (h : n < 16) : hexDigit (Nat.digitChar n) = some n := by
  have hall : ∀ n : Fin 16, hexDigit (Nat.digitChar n) = some n.val := by decide
  exact hall ⟨n, h⟩

theorem isWhitespace_digitChar {n : ℕ} (h : n < 16) : isWhitespace (Nat.digitChar n) = false := by
  have hall : ∀ n : Fin 16, isWhitespace (Nat.digitChar n) = false := by decide
  exact hall ⟨n, h⟩

theorem hexDecode_hexEncode (bs : Bytes) : hexDecode (hexEncode bs) = some bs := by
  induction bs with
  | nil => rfl
  | cons b bs ih =>
    have hb := b.toNat_lt
    have hbyte : UInt8.ofNat (16 * (b.toNat / 16) + b.toNat % 16) = b := by
      rw [show 16 * (b.toNat / 16) + b.toNat % 16 = b.toNat by omega, UInt8.ofNat_toNat]
    have hrec : hexEncode (b :: bs) =
        Nat.digitChar (b.toNat / 16) :: Nat.digitChar (b.toNat % 16) :: hexEncode bs := rfl
    rw [hrec, hexDecode, hexDigit_digitChar (by omega), hexDigit_digitChar (by omega), ih]
    exact congrArg (fun b => some (b :: bs)) hbyte

/-- A digit of either case has the value of the lowercase digit it becomes. -/
theorem hexDigit_eq_some {c : Char} {n : ℕ} :
    hexDigit c = some n ↔ n < 16 ∧ Nat.digitChar n = c.toLower := by
  have hascii : ∀ k : Fin 103, ∀ n : Fin 16,
      hexDigit (Char.ofNat k) = some n.val ↔ Nat.digitChar n = (Char.ofNat k).toLower := by
    decide +kernel
  have hbound : ∀ k : Fin 103, (hexDigit (Char.ofNat k)).all (· < 16) = true := by decide +kernel
  by_cases hc : c.toNat < 103
  · have hn := hbound ⟨c.toNat, hc⟩
    rw [Char.ofNat_toNat] at hn
    constructor
    · intro h
      rw [h] at hn
      have hlt : n < 16 := by simpa using hn
      have heq := hascii ⟨c.toNat, hc⟩ ⟨n, hlt⟩
      rw [Char.ofNat_toNat] at heq
      exact ⟨hlt, heq.mp h⟩
    · rintro ⟨hlt, h⟩
      have heq := hascii ⟨c.toNat, hc⟩ ⟨n, hlt⟩
      rw [Char.ofNat_toNat] at heq
      exact heq.mpr h
  · have habove {d : Char} (hd : d.toNat < 103) : ¬ c ≤ d := fun hle =>
      hc (Nat.lt_of_le_of_lt (UInt32.le_iff_toNat_le.mp hle) hd)
    have hnone : hexDigit c = none := by
      unfold hexDigit
      rw [if_neg fun h => habove (by decide) h.2, if_neg fun h => habove (by decide) h.2,
        if_neg fun h => habove (by decide) h.2]
    have hlower : c.toLower = c := dif_neg fun h => habove (d := 'Z') (by decide) h.2
    have hdigit : ∀ n : Fin 16, (Nat.digitChar n).toNat < 103 := by decide
    rw [hnone, hlower]
    constructor
    · intro h
      cases h
    · rintro ⟨hlt, rfl⟩
      exact absurd (hdigit ⟨n, hlt⟩) hc

/-- Hexadecimal text of either case denotes the octets whose digits it becomes in lowercase. -/
theorem hexDecode_eq_some {cs : List Char} {bs : Bytes} :
    hexDecode cs = some bs ↔ hexEncode bs = cs.map Char.toLower := by
  induction cs using hexDecode.induct generalizing bs with
  | case1 =>
    cases bs with
    | nil => simp [hexDecode, hexEncode]
    | cons b bs => simp [hexDecode, hexEncode]
  | case2 c =>
    cases bs with
    | nil => simp [hexDecode, hexEncode]
    | cons b bs => simp [hexDecode, hexEncode]
  | case3 a b cs ih =>
    rw [hexDecode]
    simp only [Option.bind_eq_bind, Option.bind_eq_some_iff, hexDigit_eq_some, Option.pure_def,
      Option.some.injEq, ih]
    constructor
    · rintro ⟨high, ⟨hhigh, ha⟩, low, ⟨hlow, hb⟩, rest, hrest, rfl⟩
      have hbyte : (UInt8.ofNat (16 * high + low)).toNat = 16 * high + low := by
        rw [UInt8.toNat_ofNat']
        omega
      show [Nat.digitChar _, Nat.digitChar _] ++ hexEncode rest = _
      rw [hbyte, hrest, show (16 * high + low) / 16 = high by omega,
        show (16 * high + low) % 16 = low by omega, ha, hb]
      rfl
    · intro h
      cases bs with
      | nil => cases h
      | cons c bs =>
        obtain ⟨ha, h⟩ := List.cons.inj h
        obtain ⟨hb, h⟩ := List.cons.inj h
        have hc := c.toNat_lt
        refine ⟨c.toNat / 16, ⟨by omega, ha⟩, c.toNat % 16, ⟨by omega, hb⟩, bs, h, ?_⟩
        rw [show 16 * (c.toNat / 16) + c.toNat % 16 = c.toNat by omega, UInt8.ofNat_toNat]

/-- Hexadecimal text has nothing to trim. -/
theorem trim_hexEncode (bs : Bytes) :
    trim (String.ofList (hexEncode bs)) = String.ofList (hexEncode bs) := by
  apply trim_of_forall
  intro c hc
  rw [String.toList_ofList] at hc
  obtain ⟨b, -, hb⟩ := List.mem_flatMap.mp hc
  have hlt := b.toNat_lt
  rcases List.mem_cons.mp hb with rfl | hb
  · exact isWhitespace_digitChar (by omega)
  · rw [List.mem_singleton.mp hb]
    exact isWhitespace_digitChar (by omega)

def asciiLowercase (s : String) : String := String.ofList (s.toList.map Char.toLower)

theorem utf8_append (cs ds : List Char) : utf8 (cs ++ ds) = utf8 cs ++ utf8 ds :=
  List.flatMap_append

end Text
