import NetBuild.Frame

/-!
# Ids as text

The flat table carries its ids as zero-padded text and the writer reads them back with `int`:
the value survives.
-/

namespace NetBuild

theorem decimal?_of_isDigit {c : Char} (h : c.isDigit = true) :
    decimal? c = some (c.toNat - 48) := by
  have hc : 48 ≤ c.toNat ∧ c.toNat ≤ 57 := by
    unfold Char.isDigit at h
    simp only [Bool.and_eq_true, decide_eq_true_eq] at h
    exact ⟨h.1, h.2⟩
  have hzeros : decimalZeros = 48 :: decimalZeros.tail := rfl
  have hfirst : decide (48 ≤ c.toNat ∧ c.toNat < 48 + 10) = true :=
    decide_eq_true ⟨hc.1, by omega⟩
  unfold decimal?
  rw [hzeros, List.find?_cons, hfirst]
  rfl

theorem digitsVal_of_isDigit {l : Text} (h : ∀ c ∈ l, c.isDigit = true) (n : ℕ) (b : Bool)
    (hb : b = true ∨ l ≠ []) : digitsVal n b l = some (Nat.ofDigitChars 10 l n) := by
  induction l generalizing n b with
  | nil =>
    obtain rfl : b = true := hb.resolve_right fun h => h rfl
    rfl
  | cons c l ih =>
    unfold digitsVal
    rw [decimal?_of_isDigit (h c List.mem_cons_self), Nat.ofDigitChars_cons, Nat.mul_comm 10 n]
    exact ih (fun d hd => h d (List.mem_cons_of_mem _ hd)) _ _ (.inl rfl)

theorem strip_of_not_isSpace {s : Text} (h : ∀ c ∈ s, isSpace c = false) : strip s = s := by
  have hd : ∀ l : Text, (∀ c ∈ l, isSpace c = false) → l.dropWhile isSpace = l := by
    intro l hl
    rcases l with _ | ⟨c, l⟩
    · rfl
    · rw [List.dropWhile_cons_of_neg]
      rw [hl c List.mem_cons_self]
      exact Bool.false_ne_true
  unfold strip
  rw [hd s h, hd _ fun c hc => h c (List.mem_reverse.mp hc), List.reverse_reverse]

theorem isSpace_of_isDigit {c : Char} (h : c.isDigit = true) : isSpace c = false := by
  have hc : 48 ≤ c.toNat ∧ c.toNat ≤ 57 := by
    unfold Char.isDigit at h
    simp only [Bool.and_eq_true, decide_eq_true_eq] at h
    exact ⟨h.1, h.2⟩
  unfold isSpace
  simp only [List.mem_cons, List.not_mem_nil, or_false, decide_eq_false_iff_not, not_or]
  omega

theorem isDigit_zeros_toDigits (k n : ℕ) :
    ∀ c ∈ List.replicate k '0' ++ Nat.toDigits 10 n, c.isDigit = true := by
  intro c hc
  rcases List.mem_append.mp hc with hc | hc
  · rw [List.eq_of_mem_replicate hc]
    rfl
  · exact Nat.isDigit_of_mem_toDigits (by norm_num) (by norm_num) hc

theorem digitsVal_zeros_toDigits (k n : ℕ) :
    digitsVal 0 false (List.replicate k '0' ++ Nat.toDigits 10 n) = some n := by
  have hne : List.replicate k '0' ++ Nat.toDigits 10 n ≠ [] := by
    rw [Ne, List.append_eq_nil_iff, not_and]
    exact fun _ => Nat.toDigits_ne_nil
  rw [digitsVal_of_isDigit (isDigit_zeros_toDigits k n) _ _ (.inr hne), Nat.ofDigitChars_append,
    Nat.ofDigitChars_replicate_zero, Nat.mul_zero,
    Nat.ofDigitChars_toDigits (by norm_num) (by norm_num)]

theorem splitSign_of_isDigit {s : Text} (h : ∀ c ∈ s, c.isDigit = true) :
    splitSign s = (false, s) := by
  rcases s with _ | ⟨c, s⟩
  · rfl
  · have hc := h c List.mem_cons_self
    unfold splitSign
    split
    · next he => simp_all
    · next he => simp_all
    · rfl

theorem zfill_of_isDigit {s : Text} (w : ℕ) (h : ∀ c ∈ s, c.isDigit = true) :
    zfill w s = List.replicate (w - s.length) '0' ++ s := by
  unfold zfill
  split
  · next s' => exact absurd (h '-' List.mem_cons_self) (by decide)
  · next s' => exact absurd (h '+' List.mem_cons_self) (by decide)
  · rfl

theorem intValue_of_digits {k n : ℕ} :
    intValue (List.replicate k '0' ++ Nat.toDigits 10 n) = some (n : ℤ) := by
  have hd := isDigit_zeros_toDigits k n
  unfold intValue
  rw [strip_of_not_isSpace fun c hc => isSpace_of_isDigit (hd c hc), splitSign_of_isDigit hd]
  show (digitsVal 0 false _).map _ = _
  rw [digitsVal_zeros_toDigits]
  rfl

theorem intValue_of_neg_digits {k n : ℕ} :
    intValue ('-' :: (List.replicate k '0' ++ Nat.toDigits 10 n)) = some (-(n : ℤ)) := by
  have hd := isDigit_zeros_toDigits k n
  have hs : ∀ c ∈ '-' :: (List.replicate k '0' ++ Nat.toDigits 10 n), isSpace c = false := by
    intro c hc
    rcases List.mem_cons.mp hc with rfl | hc
    · decide
    · exact isSpace_of_isDigit (hd c hc)
  unfold intValue
  rw [strip_of_not_isSpace hs]
  show (digitsVal 0 false (List.replicate k '0' ++ Nat.toDigits 10 n)).map _ = _
  rw [digitsVal_zeros_toDigits]
  rfl

/-- An id keeps its value through its zero-padded text. -/
theorem intValue_zfill (w : ℕ) (n : ℤ) : intValue (zfill w (fmtInt n)) = some n := by
  unfold fmtInt
  by_cases hn : n < 0
  · rw [if_pos hn]
    show intValue ('-' :: (List.replicate _ '0' ++ Nat.toDigits 10 n.natAbs)) = some n
    rw [intValue_of_neg_digits]
    congr 1
    omega
  · rw [if_neg hn, zfill_of_isDigit w fun c hc =>
      Nat.isDigit_of_mem_toDigits (by norm_num) (by norm_num) hc, intValue_of_digits]
    congr 1
    omega

/-- What `int` makes of a text is what it says. -/
theorem intValue_of_intText {s : Text} {n : ℤ} (h : intText s = some n) : intValue s = some n := by
  unfold intText at h
  split at h
  · exact nomatch h
  · exact h

/-- A text with no more characters than `int` takes digits is read. -/
theorem intText_of_length_le {s : Text} (h : s.length ≤ 4300) : intText s = intValue s := by
  have hle := List.length_filter_le (fun c => (decimal? c).isSome) s
  unfold intText
  rw [if_neg (by omega)]

/-- `float` of text that is an optional sign and digits. -/
theorem floatText_of_digits (neg : Bool) {s d : Text} {n : ℕ}
    (hs : splitSign (strip s) = (neg, d)) (hd : ∀ c ∈ d, c.isDigit = true)
    (hn : digitsVal 0 false d = some n) :
    floatText s = some (some (if neg then -(n : ℚ) else n)) := by
  have hne : d ≠ [] := by
    intro h
    rw [h] at hn
    exact nomatch hn
  -- a digit is no letter and no point
  have hplain : ∀ c ∈ d, c ≠ 'e' ∧ c ≠ 'E' ∧ c ≠ '.' ∧ c ≠ '_' := by
    intro c hc
    have hdig := hd c hc
    refine ⟨?_, ?_, ?_, ?_⟩ <;> intro h <;> rw [h] at hdig <;> exact absurd hdig (by decide)
  have hnan : d.map Char.toLower ≠ ['n', 'a', 'n'] := by
    intro h
    rcases d with _ | ⟨c, d⟩
    · exact hne rfl
    · have hc := hd c List.mem_cons_self
      have hlow : c.toLower = 'n' := (List.cons.inj h).1
      have hle : c.val ≤ '9'.val := by
        unfold Char.isDigit at hc
        rw [Bool.and_eq_true, decide_eq_true_iff, decide_eq_true_iff] at hc
        exact hc.2
      -- a digit is below the capital letters, so it stays as it is
      have hlow' : c.toLower = c := by
        have hnot : ¬ (c.val ≥ 'A'.val ∧ c.val ≤ 'Z'.val) := by
          intro h
          have hbad : 'A'.val ≤ '9'.val := UInt32.le_trans h.1 hle
          exact absurd hbad (by decide)
        exact dif_neg hnot
      rw [hlow'] at hlow
      rw [hlow] at hc
      exact absurd hc (by decide)
  have hall : ∀ p : Char → Bool, (∀ c ∈ d, p c = true) → d.takeWhile p = d := by
    intro p hp
    have happ : (d ++ []).takeWhile p = d ++ [].takeWhile p := List.takeWhile_append_of_pos hp
    rwa [List.append_nil, List.takeWhile_nil, List.append_nil] at happ
  have hmant : d.takeWhile (fun c => c ≠ 'e' ∧ c ≠ 'E') = d := by
    apply hall
    intro c hc
    simpa using ⟨(hplain c hc).1, (hplain c hc).2.1⟩
  have hwhole : d.takeWhile (fun c => c ≠ '.') = d := by
    apply hall
    intro c hc
    simpa using (hplain c hc).2.2.1
  have hdrop : d.drop (d.length + 1) = [] := List.drop_eq_nil_of_le (Nat.le_succ _)
  unfold floatText
  rw [hs]
  dsimp only
  rw [if_neg hnan, hmant, hwhole, hdrop]
  simp [hne, fracVal, hn]

/-- An id keeps its value through the float its text reads as. -/
theorem floatText_zfill (w : ℕ) (n : ℤ) :
    floatText (zfill w (fmtInt n)) = some (some (n : ℚ)) := by
  unfold fmtInt
  by_cases hn : n < 0
  · rw [if_pos hn]
    have hneg : ∀ k, floatText ('-' :: (List.replicate k '0' ++ Nat.toDigits 10 n.natAbs))
        = some (some (n : ℚ)) := by
      intro k
      have hd := isDigit_zeros_toDigits k n.natAbs
      rw [floatText_of_digits true ?_ hd (digitsVal_zeros_toDigits _ _)]
      · have hn' : (n : ℤ) = -(n.natAbs : ℤ) := by omega
        have hq := congrArg (Int.cast : ℤ → ℚ) hn'
        rw [Int.cast_neg, Int.cast_natCast] at hq
        rw [if_pos rfl, ← hq]
      · rw [strip_of_not_isSpace]
        · rfl
        · intro c hc
          rcases List.mem_cons.mp hc with rfl | hc
          · decide
          · exact isSpace_of_isDigit (hd c hc)
    exact hneg _
  · rw [if_neg hn, zfill_of_isDigit w fun c hc =>
      Nat.isDigit_of_mem_toDigits (by norm_num) (by norm_num) hc]
    have hd := isDigit_zeros_toDigits (w - (Nat.toDigits 10 n.toNat).length) n.toNat
    rw [floatText_of_digits false ?_ hd (digitsVal_zeros_toDigits _ _)]
    · have hn' : (n : ℤ) = (n.toNat : ℤ) := by omega
      have hq := congrArg (Int.cast : ℤ → ℚ) hn'
      rw [Int.cast_natCast] at hq
      rw [if_neg Bool.false_ne_true, ← hq]
    · rw [strip_of_not_isSpace fun c hc => isSpace_of_isDigit (hd c hc), splitSign_of_isDigit hd]

/-! ## Dtypes -/

/-- The dtype of a column does not depend on the order of its cells. -/
theorem inferDtype_perm {l l' : List Cell} (h : l.Perm l') : inferDtype l = inferDtype l' := by
  unfold inferDtype
  simp only [h.any_eq, h.all_eq]

/-- A column of objects stays one. -/
theorem concat_object (e : Dtype) : Dtype.object.concat e = .object := by
  cases e <;> rfl

/-- A column is one of times only if it is made of two such columns. -/
theorem concat_eq_datetime64_iff {d e : Dtype} :
    d.concat e = .datetime64 ↔ d = .datetime64 ∧ e = .datetime64 := by
  cases d <;> cases e <;> decide

end NetBuild
