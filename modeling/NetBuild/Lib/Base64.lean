import Mathlib.Data.List.Basic
import Mathlib.Data.List.Nodup

/-!
# URL-safe Base64

Three bytes are four characters of six bits, and `=` fills up the last four. The decoder is the
lenient one: it takes the characters of both alphabets, passes over every other character, and stops
at a `=` that completes four characters. What it makes of an encoding are the bytes encoded.
-/

namespace Base64

/-! ## The alphabet -/

/-- The URL-safe alphabet, in the order of the values. -/
def alphabet : List Char :=
  "ABCDEFGHIJKLMNOPQRSTUVWXYZabcdefghijklmnopqrstuvwxyz0123456789-_".toList

/-- The character of a six-bit value. -/
def char (v : ℕ) : Char := alphabet.getD v '='

/-- The value of a character, in either alphabet. -/
def value? (c : Char) : Option ℕ :=
  if c = '+' then some 62
  else if c = '/' then some 63
  else if c ∈ alphabet then some (alphabet.idxOf c)
  else none

theorem alphabet_eq : alphabet = [
    'A', 'B', 'C', 'D', 'E', 'F', 'G', 'H', 'I', 'J', 'K', 'L', 'M', 'N', 'O', 'P',
    'Q', 'R', 'S', 'T', 'U', 'V', 'W', 'X', 'Y', 'Z', 'a', 'b', 'c', 'd', 'e', 'f',
    'g', 'h', 'i', 'j', 'k', 'l', 'm', 'n', 'o', 'p', 'q', 'r', 's', 't', 'u', 'v',
    'w', 'x', 'y', 'z', '0', '1', '2', '3', '4', '5', '6', '7', '8', '9', '-', '_'] :=
  String.toList_ofList

theorem length_alphabet : alphabet.length = 64 := by
  rw [alphabet_eq]
  rfl

theorem mem_alphabet {c : Char} (h : c ∈ alphabet) :
    c.toNat < 128 ∧ c ≠ '=' ∧ c ≠ '+' ∧ c ≠ '/' := by
  have hall : alphabet.all fun c => c.toNat < 128 ∧ c ≠ '=' ∧ c ≠ '+' ∧ c ≠ '/' := by
    rw [alphabet_eq]
    decide +kernel
  exact of_decide_eq_true (List.all_eq_true.1 hall c h)

theorem nodup_alphabet : alphabet.Nodup := by
  refine List.Nodup.of_map Char.toNat ?_
  rw [alphabet_eq]
  decide +kernel

theorem char_eq_getElem {v : ℕ} (h : v < alphabet.length) : char v = alphabet[v] := by
  unfold char
  rw [List.getD_eq_getElem?_getD, List.getElem?_eq_getElem h, Option.getD_some]

theorem char_mem_alphabet {v : ℕ} (h : v < 64) : char v ∈ alphabet := by
  rw [char_eq_getElem (by rwa [length_alphabet])]
  exact List.getElem_mem _

/-- The character `c` is that of the value `v`. -/
def Codes (v : ℕ) (c : Char) : Prop := c ≠ '=' ∧ value? c = some v

theorem codes_char {v : ℕ} (h : v < 64) : Codes v (char v) := by
  have hmem := char_mem_alphabet h
  obtain ⟨-, hpad, hplus, hslash⟩ := mem_alphabet hmem
  refine ⟨hpad, ?_⟩
  unfold value?
  rw [if_neg hplus, if_neg hslash, if_pos hmem, char_eq_getElem (by rwa [length_alphabet]),
    nodup_alphabet.idxOf_getElem]

/-! ## Encoding -/

/-- `urlsafe_b64encode(data)`. -/
def encode : List UInt8 → List Char
  | [] => []
  | [a] => [char (a.toNat / 4), char (a.toNat % 4 * 16), '=', '=']
  | [a, b] =>
    [char (a.toNat / 4), char (a.toNat % 4 * 16 + b.toNat / 16), char (b.toNat % 16 * 4), '=']
  | a :: b :: c :: rest =>
    char (a.toNat / 4) :: char (a.toNat % 4 * 16 + b.toNat / 16)
      :: char (b.toNat % 16 * 4 + c.toNat / 64) :: char (c.toNat % 64) :: encode rest

/-! ## Decoding -/

/-- The decoder after `pos` characters of a group of four: `left` are the bits that make no byte
yet, and `pads` counts the `=` since the last character. It is `none` where it raises. -/
@[simp]
def decodeFrom (pos left pads : ℕ) : List Char → Option (List UInt8)
  | [] => if pos = 0 then some [] else none
  | c :: cs =>
    if c = '=' then
      if 2 ≤ pos then
        if 4 ≤ pos + (pads + 1) then some [] else decodeFrom pos left (pads + 1) cs
      else decodeFrom pos left pads cs
    else
      match value? c with
      | none => decodeFrom pos left pads cs
      | some v =>
        match pos with
        | 0 => decodeFrom 1 v 0 cs
        | 1 => (decodeFrom 2 (v % 16) 0 cs).map (UInt8.ofNat (left * 4 + v / 16) :: ·)
        | 2 => (decodeFrom 3 (v % 4) 0 cs).map (UInt8.ofNat (left * 16 + v / 4) :: ·)
        | _ => (decodeFrom 0 0 0 cs).map (UInt8.ofNat (left * 64 + v) :: ·)

/-- `urlsafe_b64decode(text)`. -/
def decode (text : List Char) : Option (List UInt8) := decodeFrom 0 0 0 text

section
variable {left pads v : ℕ} {c : Char} {cs : List Char}

theorem decodeFrom_zero (h : Codes v c) :
    decodeFrom 0 left pads (c :: cs) = decodeFrom 1 v 0 cs := by
  simp [h.1, h.2]

theorem decodeFrom_one (h : Codes v c) : decodeFrom 1 left pads (c :: cs)
    = (decodeFrom 2 (v % 16) 0 cs).map (UInt8.ofNat (left * 4 + v / 16) :: ·) := by
  simp [h.1, h.2]

theorem decodeFrom_two (h : Codes v c) : decodeFrom 2 left pads (c :: cs)
    = (decodeFrom 3 (v % 4) 0 cs).map (UInt8.ofNat (left * 16 + v / 4) :: ·) := by
  simp [h.1, h.2]

theorem decodeFrom_three (h : Codes v c) : decodeFrom 3 left pads (c :: cs)
    = (decodeFrom 0 0 0 cs).map (UInt8.ofNat (left * 64 + v) :: ·) := by
  simp [h.1, h.2]

/-- One `=` ends a group of three characters. -/
theorem decodeFrom_pad : decodeFrom 3 left 0 ('=' :: cs) = some [] := by
  rw [decodeFrom, if_pos rfl, if_pos (by decide), if_pos (by decide)]

/-- Two end a group of two. -/
theorem decodeFrom_pads : decodeFrom 2 left 0 ('=' :: '=' :: cs) = some [] := by
  rw [decodeFrom, if_pos rfl, if_pos (by decide), if_neg (by decide)]
  rw [decodeFrom, if_pos rfl, if_pos (by decide), if_pos (by decide)]

end

/-- The bits of a byte, put together again. -/
theorem ofNat_eq {n : ℕ} {a : UInt8} (h : n = a.toNat) : UInt8.ofNat n = a := by
  rw [h, UInt8.ofNat_toNat]

theorem decode_encode (data : List UInt8) : decode (encode data) = some data := by
  unfold decode
  fun_induction encode data with
  | case1 => rfl
  | case2 a =>
    have ha := a.toNat_lt
    rw [decodeFrom_zero (codes_char (by omega)), decodeFrom_one (codes_char (by omega)),
      decodeFrom_pads, Option.map_some, ofNat_eq (a := a) (by omega)]
  | case3 a b =>
    have ha := a.toNat_lt
    have hb := b.toNat_lt
    rw [decodeFrom_zero (codes_char (by omega)), decodeFrom_one (codes_char (by omega)),
      decodeFrom_two (codes_char (by omega)), decodeFrom_pad, Option.map_some, Option.map_some,
      ofNat_eq (a := a) (by omega), ofNat_eq (a := b) (by omega)]
  | case4 a b c rest ih =>
    have ha := a.toNat_lt
    have hb := b.toNat_lt
    have hc := c.toNat_lt
    rw [decodeFrom_zero (codes_char (by omega)), decodeFrom_one (codes_char (by omega)),
      decodeFrom_two (codes_char (by omega)), decodeFrom_three (codes_char (by omega)), ih,
      Option.map_some, Option.map_some, Option.map_some, ofNat_eq (a := a) (by omega),
      ofNat_eq (a := b) (by omega), ofNat_eq (a := c) (by omega)]

theorem encode_ne_nil {data : List UInt8} (h : data ≠ []) : encode data ≠ [] := by
  fun_cases encode data with
  | case1 => exact absurd rfl h
  | case2 a => exact List.cons_ne_nil _ _
  | case3 a b => exact List.cons_ne_nil _ _
  | case4 a b c rest => exact List.cons_ne_nil _ _

theorem char_ascii (v : ℕ) : (char v).toNat < 128 := by
  rcases Nat.lt_or_ge v 64 with hv | hv
  · exact (mem_alphabet (char_mem_alphabet hv)).1
  · unfold char
    rw [List.getD_eq_getElem?_getD, List.getElem?_eq_none (by rwa [length_alphabet])]
    decide

/-- An encoding is made of ASCII characters. -/
theorem encode_ascii {data : List UInt8} {c : Char} (h : c ∈ encode data) : c.toNat < 128 := by
  have hpad : '='.toNat < 128 := by decide
  fun_induction encode data with
  | case1 => exact absurd h List.not_mem_nil
  | case2 a =>
    simp only [List.mem_cons, List.not_mem_nil, or_false] at h
    rcases h with rfl | rfl | rfl | rfl
    · exact char_ascii _
    · exact char_ascii _
    · exact hpad
    · exact hpad
  | case3 a b =>
    simp only [List.mem_cons, List.not_mem_nil, or_false] at h
    rcases h with rfl | rfl | rfl | rfl
    · exact char_ascii _
    · exact char_ascii _
    · exact char_ascii _
    · exact hpad
  | case4 a b c rest ih =>
    simp only [List.mem_cons] at h
    rcases h with rfl | rfl | rfl | rfl | h
    · exact char_ascii _
    · exact char_ascii _
    · exact char_ascii _
    · exact char_ascii _
    · exact ih h

end Base64
