import SabApp.Decimal
import SabApp.Md5

/-!
# Texts made of a digest

A login shows its digest as text: 32 hexadecimal digits for the servers, eight digits and letters
for the XM devices. Hexadecimal text reads back as the bytes (`str2byte_byte2str`); of a digest it has
one length, and no character in it ends a text or a JSON string (`login_texts`).
-/

namespace SabApp

namespace Md5

open CText

/-! ## Hexadecimal text -/

/-- A character of `szTable`. -/
def hexChar (k : UInt8) : UInt8 := (ascii "0123456789abcdef").getD k.toNat 0

/-- `tool_str_byte2str`, before the terminator. -/
def byte2str (byte : List UInt8) : List UInt8 := byte.flatMap fun b : UInt8 => [hexChar (b >>> 4), hexChar (b &&& 0x0f)]

/-- The value of a digit in either case; any other character is left as it is. -/
def hexVal (c : UInt8) : UInt8 :=
  if 97 ≤ c ∧ c ≤ 102 then c - 97 + 10 else if 65 ≤ c ∧ c ≤ 70 then c - 65 + 10
  else if 48 ≤ c ∧ c ≤ 57 then c - 48 else c

/-- At most `n` bytes, from two characters each, up to the terminator. -/
def hexPairs : ℕ → List UInt8 → List UInt8
  | n + 1, h :: l :: str => if h = 0 ∨ l = 0 then [] else (hexVal h * 16 + hexVal l) :: hexPairs n str
  | _, _ => []

/-- `tool_str_str2byte` counts characters. -/
def str2byte (str : List UInt8) (strLen : ℕ) : List UInt8 := hexPairs ((strLen + 1) / 2) str

/-- `tool_str_str2num` counts bytes. -/
def str2num (str : List UInt8) (len : ℕ) : List UInt8 := hexPairs len str

theorem byte2str_cons (b : UInt8) (bs : List UInt8) :
    byte2str (b :: bs) = hexChar (b >>> 4) :: hexChar (b &&& 0x0f) :: byte2str bs := rfl

theorem byte2str_length (bs : List UInt8) : (byte2str bs).length = 2 * bs.length := by
  induction bs with
  | nil => rfl
  | cons b bs ih => rw [byte2str_cons, List.length_cons, List.length_cons, ih, List.length_cons, Nat.mul_add_one]

/-- What the sixteen digits are. -/
structure HexDigit (k c : UInt8) : Prop where
  val : hexVal c = k
  digit : 48 ≤ c ∧ c ≤ 57 ∨ 97 ≤ c ∧ c ≤ 102

theorem hexChar_lt {k : UInt8} (h : k < 16) : HexDigit k (hexChar k) := by
  have hall : ∀ n : Fin 16, hexVal (hexChar (UInt8.ofNat n)) = UInt8.ofNat n ∧
      (48 ≤ hexChar (UInt8.ofNat n) ∧ hexChar (UInt8.ofNat n) ≤ 57 ∨
        97 ≤ hexChar (UInt8.ofNat n) ∧ hexChar (UInt8.ofNat n) ≤ 102) := by decide
  have hk := hall ⟨k.toNat, UInt8.lt_iff_toNat_lt.mp h⟩
  rw [UInt8.ofNat_toNat] at hk
  exact ⟨hk.1, hk.2⟩

theorem high_eq (b : UInt8) : (b >>> 4).toNat = b.toNat / 16 := by
  rw [UInt8.toNat_shiftRight, Nat.shiftRight_eq_div_pow]
  rfl

theorem low_eq (b : UInt8) : (b &&& 0x0f).toNat = b.toNat % 16 := by
  rw [UInt8.toNat_and]
  exact Nat.and_two_pow_sub_one_eq_mod b.toNat 4

theorem toNat_16 : (16 : UInt8).toNat = 16 := rfl

theorem high_lt (b : UInt8) : b >>> 4 < 16 := by
  have hb := b.toNat_lt
  rw [UInt8.lt_iff_toNat_lt, high_eq, toNat_16]
  omega

theorem low_lt (b : UInt8) : b &&& 0x0f < 16 := by
  rw [UInt8.lt_iff_toNat_lt, low_eq]
  exact Nat.mod_lt _ (by decide)

theorem high_low (b : UInt8) : (b >>> 4) * 16 + (b &&& 0x0f) = b := by
  have hb := b.toNat_lt
  apply UInt8.toNat_inj.mp
  rw [UInt8.toNat_add, UInt8.toNat_mul, low_eq, high_eq, toNat_16]
  omega

theorem HexDigit.ne_zero {k c : UInt8} (h : HexDigit k c) : c ≠ 0 := by
  rintro rfl
  exact absurd h.digit (by decide)

/-- Text of bytes reads back as the bytes, whatever stands behind it. -/
theorem hexPairs_byte2str (bs rest : List UInt8) : hexPairs bs.length (byte2str bs ++ rest) = bs := by
  induction bs with
  | nil => cases rest <;> rfl
  | cons b bs ih =>
    have hh := hexChar_lt (high_lt b)
    have hl := hexChar_lt (low_lt b)
    rw [List.length_cons, byte2str_cons, List.cons_append, List.cons_append, hexPairs,
      if_neg (not_or.mpr ⟨hh.ne_zero, hl.ne_zero⟩), hh.val, hl.val, high_low, ih]

theorem str2byte_byte2str (bs rest : List UInt8) : str2byte (byte2str bs ++ rest) (2 * bs.length) = bs := by
  have hn : (2 * bs.length + 1) / 2 = bs.length := by omega
  rw [str2byte, hn, hexPairs_byte2str]

theorem byte2str_digit {bs : List UInt8} {c : UInt8} (h : c ∈ byte2str bs) : 48 ≤ c ∧ c ≤ 57 ∨ 97 ≤ c ∧ c ≤ 102 := by
  induction bs with
  | nil => cases h
  | cons b bs ih =>
    rw [byte2str_cons, List.mem_cons, List.mem_cons] at h
    rcases h with rfl | rfl | h
    · exact (hexChar_lt (high_lt b)).digit
    · exact (hexChar_lt (low_lt b)).digit
    · exact ih h

/-! ## Digests as text -/

theorem md5_length (xs : List UInt8) : (md5 xs).length = 16 := rfl

/-- `nonce_str`: it fits, whatever the number. -/
def nonceStr (nonce : ℤ) : List UInt8 := ascii "hdcctv7com_" ++ Decimal.decimal nonce

def encodeNonce (stContext : Ctx) (nonce : ℤ) : Option (List UInt8) :=
  (md5Calc stContext ((nonceStr nonce).take 63 ++ [0]) (UInt32.ofNat (nonceStr nonce).length)).map byte2str

/-- `password_str`, as each cloud request makes it of the password. -/
def passwordStr (stContext : Ctx) (password : List UInt8) : Option (List UInt8) :=
  (md5Calc stContext password (UInt32.ofNat (cstr password).length)).map byte2str

/-- The text is the digest's: 32 digits, which read back as the digest. -/
structure ShowsDigest (t xs : List UInt8) : Prop where
  length : t.length = 32
  digits : ∀ c ∈ t, 48 ≤ c ∧ c ≤ 57 ∨ 97 ≤ c ∧ c ≤ 102
  reads : ∀ rest, str2byte (t ++ rest) 32 = md5 xs

theorem showsDigest_byte2str (xs : List UInt8) : ShowsDigest (byte2str (md5 xs)) xs where
  length := by rw [byte2str_length, md5_length]
  digits _ hc := byte2str_digit hc
  reads rest := str2byte_byte2str (md5 xs) rest

/-- A text is a piece of its own length. -/
theorem piece_cstr {s : List UInt8} (hl : s.length < 2 ^ 32) (rest : List UInt8) :
    Piece (s ++ 0 :: rest) (UInt32.ofNat s.length) s := by
  have hlen : (UInt32.ofNat s.length).toNat = s.length := by rw [UInt32.toNat_ofNat', Nat.mod_eq_of_lt hl]
  exact ⟨by rw [hlen, List.take_left], hlen.symm⟩

theorem passwordStr_shows (stContext : Ctx) {s rest : List UInt8} (hs : 0 ∉ s) (hl : s.length < 2 ^ 32) :
    ∃ t, passwordStr stContext (s ++ 0 :: rest) = some t ∧ ShowsDigest t s := by
  refine ⟨_, ?_, showsDigest_byte2str s⟩
  rw [passwordStr, cstr_append_zero hs, md5Calc_eq stContext (piece_cstr hl rest), Option.map_some]

theorem nonceStr_length {nonce : ℤ} (h₁ : -2 ^ 31 ≤ nonce) (h₂ : nonce < 2 ^ 31) : (nonceStr nonce).length ≤ 22 := by
  have hd := Decimal.length_decimal_le h₁ h₂
  have ha : (ascii "hdcctv7com_").length = 11 := rfl
  rw [nonceStr, List.length_append, ha]
  omega

theorem encodeNonce_shows (stContext : Ctx) {nonce : ℤ} (h₁ : -2 ^ 31 ≤ nonce) (h₂ : nonce < 2 ^ 31) :
    ∃ t, encodeNonce stContext nonce = some t ∧ ShowsDigest t (nonceStr nonce) := by
  have hl := nonceStr_length h₁ h₂
  have hlen : (UInt32.ofNat (nonceStr nonce).length).toNat = (nonceStr nonce).length := by
    rw [UInt32.toNat_ofNat', Nat.mod_eq_of_lt (by omega)]
  have hpiece : Piece ((nonceStr nonce).take 63 ++ [0]) (UInt32.ofNat (nonceStr nonce).length) (nonceStr nonce) := by
    rw [List.take_of_length_le (by omega)]
    exact ⟨by rw [hlen, List.take_left], hlen.symm⟩
  refine ⟨_, ?_, showsDigest_byte2str (nonceStr nonce)⟩
  rw [encodeNonce, md5Calc_eq stContext hpiece, Option.map_some]

theorem xmChar_alnum {n : ℕ} (h : n < 62) :
    48 ≤ xmChar n ∧ xmChar n ≤ 57 ∨ 65 ≤ xmChar n ∧ xmChar n ≤ 90 ∨ 97 ≤ xmChar n ∧ xmChar n ≤ 122 := by
  revert n
  decide

/-- The XM devices' text: eight digits and letters. -/
theorem calcXm_text (stContext : Ctx) {input xs : List UInt8} {len : UInt32} (h : Piece input len xs) :
    ∃ t, calcXm stContext input len = some t ∧ t.length = 8 ∧
      ∀ c ∈ t, 48 ≤ c ∧ c ≤ 57 ∨ 65 ≤ c ∧ c ≤ 90 ∨ 97 ≤ c ∧ c ≤ 122 := by
  refine ⟨xmText (md5 xs), by rw [calcXm, md5Calc_eq stContext h, Option.map_some], rfl, ?_⟩
  intro c hc
  obtain ⟨i, _, rfl⟩ := List.mem_map.mp hc
  exact xmChar_alnum (Nat.mod_lt _ (by decide))

/-- **What a login shows of its digests**: whatever the password and the nonce, the texts for the servers have 32 digits
and read back as the digests, and the text for the XM devices has eight digits and letters. -/
theorem login_texts (stContext : Ctx) {password rest : List UInt8} {nonce : ℤ} (hs : 0 ∉ password)
    (hl : password.length < 2 ^ 32) (h₁ : -2 ^ 31 ≤ nonce) (h₂ : nonce < 2 ^ 31) :
    (∃ t, passwordStr stContext (password ++ 0 :: rest) = some t ∧ ShowsDigest t password) ∧
      (∃ t, encodeNonce stContext nonce = some t ∧ ShowsDigest t (nonceStr nonce)) ∧
      ∃ t, calcXm stContext (password ++ 0 :: rest) (UInt32.ofNat password.length) = some t ∧ t.length = 8 ∧
        ∀ c ∈ t, 48 ≤ c ∧ c ≤ 57 ∨ 65 ≤ c ∧ c ≤ 90 ∨ 97 ≤ c ∧ c ≤ 122 :=
  ⟨passwordStr_shows stContext hs hl, encodeNonce_shows stContext h₁ h₂, calcXm_text stContext (piece_cstr hl rest)⟩

theorem login_texts_admin :
    (∃ t, passwordStr someCtx (ascii "admin" ++ 0 :: [9]) = some t ∧ ShowsDigest t (ascii "admin")) ∧
      (∃ t, encodeNonce someCtx (-7) = some t ∧ ShowsDigest t (nonceStr (-7))) ∧
      ∃ t, calcXm someCtx (ascii "admin" ++ 0 :: [9]) (UInt32.ofNat (ascii "admin").length) = some t ∧ t.length = 8 ∧
        ∀ c ∈ t, 48 ≤ c ∧ c ≤ 57 ∨ 65 ≤ c ∧ c ≤ 90 ∨ 97 ≤ c ∧ c ≤ 122 :=
  login_texts someCtx (by decide) (by decide) (by decide) (by decide)

end Md5

end SabApp
