import NetBuild.NetMerging
import NetBuild.TimestampTheorems

/-!
# The accepted input formats

`matchFormat` takes as many digits as it can, and the two pipelines try the same six formats in
different orders. Neither matters. An exact match, with one or two digits left open where the
format leaves them open, is a relation here; `matchFormat` computes it, because no two numbers of
a format touch; and the characters of a text that are no digits are the literals of any format it
matches, which tell the six formats apart.
-/

namespace NetBuild

deriving instance DecidableEq for Directive

/-! ## An exact match -/

/-- The text is digits only, and in decimal they spell `n`. -/
def Spells (w : Text) (n : ℕ) : Prop :=
  ∃ ds : List ℕ, w.map digit? = ds.map some ∧ n = ds.foldl (fun a d => 10 * a + d) 0

namespace Directive

/-- The component a directive of one or two digits sets. -/
def short? : Directive → Option (ℕ → Clock → Clock)
  | d => some fun n k => { k with day := n }
  | m => some fun n k => { k with month := n }
  | H => some fun n k => { k with hour := n }
  | M => some fun n k => { k with minute := n }
  | S => some fun n k => { k with second := n }
  | Y | lit _ => none

/-- The character a literal stands for. -/
def literal? : Directive → Option Char
  | lit c => some c
  | _ => none

/-- A piece of text that a directive accepts, and what it does to the components. -/
inductive Reads : Directive → Text → Clock → Clock → Prop
  | literal (c : Char) (k : Clock) : Reads (lit c) [c] k k
  | year {w : Text} {n : ℕ} (k : Clock) (hw : w.length = 4) (hn : Spells w n) :
      Reads Y w k { k with year := n }
  | short {dir : Directive} {f : ℕ → Clock → Clock} {w : Text} {n : ℕ} (k : Clock)
      (hdir : dir.short? = some f) (hw : w.length = 1 ∨ w.length = 2) (hn : Spells w n) :
      Reads dir w k (f n k)

end Directive

/-- The text is pieces that the directives of the format accept, in order and with nothing
left over. -/
inductive Matches : List Directive → Text → Clock → Clock → Prop
  | nil (k : Clock) : Matches [] [] k k
  | cons {dir : Directive} {fmt : List Directive} {w s : Text} {k k₁ k₂ : Clock}
      (hw : dir.Reads w k k₁) (hs : Matches fmt s k₁ k₂) : Matches (dir :: fmt) (w ++ s) k k₂

/-! ## Numbers -/

/-- No digit comes first. -/
def NoDigitFirst (s : Text) : Prop := ∀ c ∈ s.head?, digit? c = none

theorem spells_singleton_iff {c : Char} {n : ℕ} : Spells [c] n ↔ digit? c = some n := by
  unfold Spells
  refine ⟨fun ⟨ds, hds, hn⟩ => ?_, fun h => ⟨[n], by simp [h], by simp⟩⟩
  rcases ds with _ | ⟨a, _ | ⟨b, ds⟩⟩ <;> simp at hds
  rw [hn, hds]
  simp

theorem spells_pair_iff {c c' : Char} {n : ℕ} :
    Spells [c, c'] n ↔ ∃ a b, digit? c = some a ∧ digit? c' = some b ∧ n = 10 * a + b := by
  unfold Spells
  refine ⟨fun ⟨ds, hds, hn⟩ => ?_, fun ⟨a, b, ha, hb, hn⟩ => ⟨[a, b], by simp [ha, hb], by simpa⟩⟩
  rcases ds with _ | ⟨a, _ | ⟨b, _ | ⟨e, ds⟩⟩⟩ <;> simp at hds
  exact ⟨a, b, hds.1, hds.2, by simpa using hn⟩

/-- What `twoDigits` takes is a number of one or two digits. -/
theorem spells_of_twoDigits {s r : Text} {n : ℕ} (h : twoDigits s = some (n, r)) :
    ∃ w, s = w ++ r ∧ (w.length = 1 ∨ w.length = 2) ∧ Spells w n := by
  unfold twoDigits at h
  split at h
  · exact nomatch h
  · next c rest =>
    split at h
    · exact nomatch h
    · next a ha =>
      obtain ⟨rfl, rfl⟩ := Prod.mk.inj (Option.some.inj h)
      exact ⟨[c], rfl, .inl rfl, spells_singleton_iff.mpr ha⟩
    · next a c' rest' ha =>
      split at h
      · obtain ⟨rfl, rfl⟩ := Prod.mk.inj (Option.some.inj h)
        exact ⟨[c], rfl, .inl rfl, spells_singleton_iff.mpr ha⟩
      · next b hb =>
        obtain ⟨rfl, rfl⟩ := Prod.mk.inj (Option.some.inj h)
        exact ⟨[c, c'], rfl, .inr rfl, spells_pair_iff.mpr ⟨a, b, ha, hb, rfl⟩⟩

/-- A number of one or two digits is taken whole when no digit comes after it. -/
theorem twoDigits_of_spells {w r : Text} {n : ℕ} (hw : w.length = 1 ∨ w.length = 2)
    (hn : Spells w n) (hr : NoDigitFirst r) : twoDigits (w ++ r) = some (n, r) := by
  rcases hw with hw | hw
  · obtain ⟨c, rfl⟩ := List.length_eq_one_iff.mp hw
    have hc := spells_singleton_iff.mp hn
    rcases r with _ | ⟨c', r⟩
    · simp [twoDigits, hc]
    · have hc' : digit? c' = none := hr c' rfl
      simp [twoDigits, hc, hc']
  · obtain ⟨c, c', rfl⟩ := List.length_eq_two.mp hw
    obtain ⟨a, b, ha, hb, rfl⟩ := spells_pair_iff.mp hn
    simp [twoDigits, ha, hb]

/-- What `fourDigits` takes is a number of four digits. -/
theorem spells_of_fourDigits {s r : Text} {n : ℕ} (h : fourDigits s = some (n, r)) :
    ∃ w, s = w ++ r ∧ w.length = 4 ∧ Spells w n := by
  unfold fourDigits at h
  split at h
  · next c₁ c₂ c₃ c₄ rest =>
    split at h
    · next a b c d h1 h2 h3 h4 =>
      obtain ⟨rfl, rfl⟩ := Prod.mk.inj (Option.some.inj h)
      refine ⟨[c₁, c₂, c₃, c₄], rfl, rfl, [a, b, c, d], by simp [h1, h2, h3, h4], ?_⟩
      simp only [List.foldl_cons, List.foldl_nil]
      omega
    · exact nomatch h
  · exact nomatch h

/-- A number of four digits is taken whole, whatever comes after it. -/
theorem fourDigits_of_spells {w r : Text} {n : ℕ} (hw : w.length = 4) (hn : Spells w n) :
    fourDigits (w ++ r) = some (n, r) := by
  obtain ⟨ds, hds, rfl⟩ := hn
  have hlen : ds.length = 4 := by
    have := congrArg List.length hds
    rwa [List.length_map, List.length_map, hw, eq_comm] at this
  obtain ⟨c₁, c₂, c₃, c₄, rfl⟩ : ∃ c₁ c₂ c₃ c₄, w = [c₁, c₂, c₃, c₄] := by
    rcases w with _ | ⟨c₁, _ | ⟨c₂, _ | ⟨c₃, _ | ⟨c₄, _ | ⟨c₅, w⟩⟩⟩⟩⟩ <;> simp at hw ⊢
  obtain ⟨a, b, c, d, rfl⟩ : ∃ a b c d, ds = [a, b, c, d] := by
    rcases ds with _ | ⟨a, _ | ⟨b, _ | ⟨c, _ | ⟨d, _ | ⟨e, ds⟩⟩⟩⟩⟩ <;> simp at hlen ⊢
  simp only [List.map_cons, List.map_nil, List.cons.injEq, and_true] at hds
  obtain ⟨h1, h2, h3, h4⟩ := hds
  simp only [List.cons_append, List.nil_append, fourDigits, h1, h2, h3, h4, List.foldl_cons,
    List.foldl_nil, Option.some.injEq, Prod.mk.injEq, and_true]
  omega

/-- No character of a number is anything but a digit. -/
theorem digit?_ne_none_of_spells {w : Text} {n : ℕ} (hn : Spells w n) {c : Char} (hc : c ∈ w) :
    digit? c ≠ none := by
  obtain ⟨ds, hds, -⟩ := hn
  have hmem : digit? c ∈ ds.map some := hds ▸ List.mem_map_of_mem hc
  obtain ⟨d, -, hd⟩ := List.mem_map.mp hmem
  rw [← hd]
  exact Option.some_ne_none d

/-! ## `matchFormat` computes the exact match -/

theorem Directive.eq_of_short?_eq_none {dir : Directive} (h : dir.short? = none) :
    dir = .Y ∨ ∃ c, dir = .lit c := by
  rcases dir with _ | _ | _ | _ | _ | _ | c <;> simp [short?] at h ⊢

theorem matchFormat_short {dir : Directive} {f : ℕ → Clock → Clock} (h : dir.short? = some f)
    (fmt : List Directive) (s : Text) (k : Clock) :
    matchFormat (dir :: fmt) s k = (twoDigits s).bind fun p => matchFormat fmt p.2 (f p.1 k) := by
  rcases dir with _ | _ | _ | _ | _ | _ | c <;> simp only [Directive.short?, Option.some.injEq,
    reduceCtorEq] at h <;> rw [← h] <;> rfl

/-- What `matchFormat` finds is an exact match. -/
theorem matches_of_matchFormat {fmt : List Directive} {s : Text} {k k' : Clock}
    (h : matchFormat fmt s k = some k') : Matches fmt s k k' := by
  induction fmt generalizing s k with
  | nil =>
    rcases s with _ | ⟨c, s⟩
    · obtain rfl := Option.some.inj h
      exact .nil k
    · exact absurd h.symm (Option.some_ne_none k')
  | cons dir fmt ih =>
    rcases hf : dir.short? with _ | f
    · obtain rfl | ⟨c, rfl⟩ := Directive.eq_of_short?_eq_none hf
      · obtain ⟨⟨n, r⟩, hn, hr⟩ := Option.bind_eq_some_iff.mp h
        obtain ⟨w, rfl, hw, hsp⟩ := spells_of_fourDigits hn
        exact .cons (.year k hw hsp) (ih hr)
      · rcases s with _ | ⟨x, s⟩
        · exact absurd h.symm (Option.some_ne_none k')
        · rw [matchFormat] at h
          split at h
          · next hx =>
            subst hx
            exact .cons (.literal x k) (ih h)
          · exact absurd h.symm (Option.some_ne_none k')
    · rw [matchFormat_short hf] at h
      obtain ⟨⟨n, r⟩, hn, hr⟩ := Option.bind_eq_some_iff.mp h
      obtain ⟨w, rfl, hw, hsp⟩ := spells_of_twoDigits hn
      exact .cons (.short k hf hw hsp) (ih hr)

/-- The literals of a format, in order. -/
def literals (fmt : List Directive) : List Char := fmt.filterMap Directive.literal?

/-- The literals are no digits, and of two neighbours one is a literal: where a number of the
format ends does not depend on how it is read. -/
def Delimited (fmt : List Directive) : Prop :=
  (∀ c ∈ literals fmt, digit? c = none) ∧
    fmt.IsChain fun a b => a.literal? ≠ none ∨ b.literal? ≠ none

theorem literals_cons (dir : Directive) (fmt : List Directive) :
    literals (dir :: fmt) = dir.literal?.toList ++ literals fmt := by
  unfold literals
  rcases h : dir.literal? with _ | c
  · rw [List.filterMap_cons_none h]; rfl
  · rw [List.filterMap_cons_some h]; rfl

theorem Delimited.tail {dir : Directive} {fmt : List Directive} (h : Delimited (dir :: fmt)) :
    Delimited fmt := by
  refine ⟨fun c hc => h.1 c ?_, h.2.of_cons⟩
  rw [literals_cons]
  exact List.mem_append_right _ hc

theorem Directive.literal?_eq_none_of_short? {dir : Directive} {f : ℕ → Clock → Clock}
    (h : dir.short? = some f) : dir.literal? = none := by
  rcases dir with _ | _ | _ | _ | _ | _ | c <;> first | rfl | exact nomatch h

/-- The text for a format that starts with a literal, or ends, starts with no digit. -/
theorem noDigitFirst_of_matches {fmt : List Directive} {s : Text} {k k' : Clock}
    (h : Matches fmt s k k') (hfmt : Delimited fmt)
    (hfirst : ∀ dir ∈ fmt.head?, dir.literal? ≠ none) : NoDigitFirst s := by
  rcases h with _ | ⟨hw, hs⟩
  · exact nofun
  · next dir fmt w s k₁ =>
    have hdir : dir.literal? ≠ none := hfirst dir rfl
    rcases hw with c | _ | ⟨_, hf, _, _⟩
    · intro x hx
      obtain rfl := Option.some.inj hx
      exact hfmt.1 c List.mem_cons_self
    · exact absurd rfl hdir
    · exact absurd (Directive.literal?_eq_none_of_short? hf) hdir

/-- `matchFormat` finds every exact match of a delimited format. -/
theorem matchFormat_of_matches {fmt : List Directive} {s : Text} {k k' : Clock}
    (h : Matches fmt s k k') (hfmt : Delimited fmt) : matchFormat fmt s k = some k' := by
  induction h with
  | nil k => rfl
  | @cons dir fmt w s k k₁ k₂ hw hs ih =>
    have hrest := ih hfmt.tail
    rcases hw with c | ⟨_, hlen, hn⟩ | ⟨_, hf, hlen, hn⟩
    · rw [List.singleton_append, matchFormat, if_pos rfl, hrest]
    · rw [matchFormat, fourDigits_of_spells hlen hn, Option.bind_some]
      exact hrest
    · -- a number of one or two digits: the next directive, if there is one, is a literal
      have hs' : NoDigitFirst s := by
        refine noDigitFirst_of_matches hs hfmt.tail fun e he => ?_
        rcases fmt with _ | ⟨e', fmt⟩
        · exact absurd he (Option.not_mem_none e)
        · obtain rfl := Option.some.inj he
          refine (List.isChain_cons_cons.mp hfmt.2).1.resolve_left (not_not_intro ?_)
          exact Directive.literal?_eq_none_of_short? hf
      rw [matchFormat_short hf, twoDigits_of_spells hlen hn hs', Option.bind_some, hrest]

theorem matchFormat_eq_some_iff {fmt : List Directive} (hfmt : Delimited fmt) {s : Text}
    {k k' : Clock} : matchFormat fmt s k = some k' ↔ Matches fmt s k k' :=
  ⟨matches_of_matchFormat, fun h => matchFormat_of_matches h hfmt⟩

/-! ## What tells the formats apart -/

/-- The characters of a text that are no digits. -/
def nonDigits (s : Text) : Text := s.filter fun c => (digit? c).isNone

theorem nonDigits_of_spells {w : Text} {n : ℕ} (hn : Spells w n) : nonDigits w = [] := by
  refine List.filter_eq_nil_iff.mpr fun c hc => ?_
  rw [Option.isNone_iff_eq_none]
  exact digit?_ne_none_of_spells hn hc

/-- The characters of a matching text that are no digits are the literals of the format. -/
theorem nonDigits_of_matches {fmt : List Directive} {s : Text} {k k' : Clock}
    (h : Matches fmt s k k') (hfmt : Delimited fmt) : nonDigits s = literals fmt := by
  induction h with
  | nil k => rfl
  | @cons dir fmt w s k k₁ k₂ hw hs ih =>
    have happ : nonDigits (w ++ s) = nonDigits w ++ nonDigits s := List.filter_append w s
    rw [happ, ih hfmt.tail, literals_cons]
    congr 1
    rcases hw with c | ⟨_, _, hn⟩ | ⟨_, hf, _, hn⟩
    · have hc : digit? c = none := hfmt.1 c List.mem_cons_self
      simp [nonDigits, hc, Directive.literal?]
    · exact nonDigits_of_spells hn
    · rw [nonDigits_of_spells hn, Directive.literal?_eq_none_of_short? hf]
      rfl

/-- The formats either pipeline accepts. -/
def acceptedFmts : List (List Directive) := inFmts ++ NetMerging.inFmts

theorem mem_inFmts_iff (fmt : List Directive) : fmt ∈ inFmts ↔ fmt ∈ NetMerging.inFmts := by
  simp only [inFmts, NetMerging.inFmts, List.mem_cons, List.not_mem_nil, or_false]
  tauto

/-- Each accepted format has a separator that is no digit. -/
theorem eq_dmyFormat_of_mem {fmt : List Directive} (h : fmt ∈ acceptedFmts) :
    ∃ sep b, digit? sep = none ∧ fmt = dmyFormat sep b := by
  have hall : fmt ∈ inFmts := (List.mem_append.mp h).elim id (mem_inFmts_iff fmt).mpr
  simp only [inFmts, List.mem_cons, List.not_mem_nil, or_false] at hall
  rcases hall with rfl | rfl | rfl | rfl | rfl | rfl
  · exact ⟨':', true, by decide, rfl⟩
  · exact ⟨':', false, by decide, rfl⟩
  · exact ⟨'-', true, by decide, rfl⟩
  · exact ⟨'-', false, by decide, rfl⟩
  · exact ⟨'/', true, by decide, rfl⟩
  · exact ⟨'/', false, by decide, rfl⟩

theorem literals_dmyFormat (sep : Char) (b : Bool) :
    literals (dmyFormat sep b) = sep :: sep :: ' ' :: ':' :: if b then [':'] else [] := by
  cases b <;> rfl

theorem delimited_of_mem {fmt : List Directive} (h : fmt ∈ acceptedFmts) : Delimited fmt := by
  obtain ⟨sep, b, hsep, rfl⟩ := eq_dmyFormat_of_mem h
  refine ⟨fun c hc => ?_, ?_⟩
  · have hcases : c = sep ∨ c = ' ' ∨ c = ':' := by
      rw [literals_dmyFormat] at hc
      rcases b <;> simp at hc <;> tauto
    rcases hcases with rfl | rfl | rfl
    · exact hsep
    · decide
    · decide
  · rcases b <;> simp [dmyFormat, Directive.literal?]

theorem literals_inj {f g : List Directive} (hf : f ∈ acceptedFmts) (hg : g ∈ acceptedFmts)
    (h : literals f = literals g) : f = g := by
  obtain ⟨sep, b, -, rfl⟩ := eq_dmyFormat_of_mem hf
  obtain ⟨sep', b', -, rfl⟩ := eq_dmyFormat_of_mem hg
  rw [literals_dmyFormat, literals_dmyFormat] at h
  obtain ⟨rfl, h⟩ := List.cons.inj h
  rcases b <;> rcases b' <;> first | rfl | exact absurd h (by simp)

/-- A text is an exact match of at most one accepted format, in one way. -/
theorem matches_unique {f g : List Directive} (hf : f ∈ acceptedFmts) (hg : g ∈ acceptedFmts)
    {s : Text} {k₁ k₂ : Clock} (h₁ : Matches f s {} k₁) (h₂ : Matches g s {} k₂) :
    f = g ∧ k₁ = k₂ := by
  have hlit : literals f = literals g := by
    rw [← nonDigits_of_matches h₁ (delimited_of_mem hf),
      ← nonDigits_of_matches h₂ (delimited_of_mem hg)]
  obtain rfl := literals_inj hf hg hlit
  have h₁' := matchFormat_of_matches h₁ (delimited_of_mem hf)
  have h₂' := matchFormat_of_matches h₂ (delimited_of_mem hf)
  exact ⟨rfl, Option.some.inj (h₁'.symm.trans h₂')⟩

/-! ## The two parsers -/

theorem strptime_eq_some_iff {fmt : List Directive} (hfmt : fmt ∈ acceptedFmts) {s : Text}
    {t : Timestamp} :
    strptime fmt s = some t ↔ ∃ k, Matches fmt s {} k ∧ k.timestamp = some t := by
  unfold strptime
  rw [Option.bind_eq_some_iff]
  refine exists_congr fun k => ?_
  rw [matchFormat_eq_some_iff (delimited_of_mem hfmt)]

/-- What a list of accepted formats makes of a text does not depend on the order they are
tried in. -/
theorem parseText_eq_some_iff {fmts : List (List Directive)}
    (hfmts : ∀ f ∈ fmts, f ∈ acceptedFmts) {s : Text} {t : Timestamp} :
    parseText fmts s = some t ↔
      ∃ f ∈ fmts, ∃ k, Matches f (strip s) {} k ∧ k.timestamp = some t := by
  unfold parseText
  split
  · -- an empty text matches no format, since each has literals
    next hs =>
    refine ⟨nofun, fun ⟨f, hf, k, hk, _⟩ => ?_⟩
    have hnil := nonDigits_of_matches (hs ▸ hk) (delimited_of_mem (hfmts f hf))
    obtain ⟨sep, b, -, rfl⟩ := eq_dmyFormat_of_mem (hfmts f hf)
    rw [literals_dmyFormat] at hnil
    exact nomatch hnil
  · refine ⟨fun h => ?_, fun ⟨f, hf, k, hk, ht⟩ => ?_⟩
    · obtain ⟨f, hf, hft⟩ := List.exists_of_findSome?_eq_some h
      exact ⟨f, hf, (strptime_eq_some_iff (hfmts f hf)).mp hft⟩
    · rcases h : fmts.findSome? fun fmt => strptime fmt (strip s) with _ | t'
      · have hnone := List.findSome?_eq_none_iff.mp h f hf
        rw [(strptime_eq_some_iff (hfmts f hf)).mpr ⟨k, hk, ht⟩] at hnone
        exact nomatch hnone
      · -- another format read the text first: it is this one
        obtain ⟨g, hg, hgt⟩ := List.exists_of_findSome?_eq_some h
        obtain ⟨k', hk', ht'⟩ := (strptime_eq_some_iff (hfmts g hg)).mp hgt
        obtain ⟨-, rfl⟩ := matches_unique (hfmts f hf) (hfmts g hg) hk hk'
        exact ht'.symm.trans ht

/-- The two orders of the formats read every text alike. -/
theorem parseText_inFmts (s : Text) : parseText inFmts s = parseText NetMerging.inFmts s := by
  refine Option.ext fun t => ?_
  rw [parseText_eq_some_iff fun f hf => List.mem_append_left _ hf,
    parseText_eq_some_iff fun f hf => List.mem_append_right _ hf]
  simp only [mem_inFmts_iff]

/-- Every text is an exact match of at most one accepted format, in one way, so the two copies of
`_to_dt` agree on all text, and both read back what `strftime` writes of the years that have four
digits, and of no other year. -/
theorem dt_parsers_agree :
    (∀ f ∈ acceptedFmts, ∀ g ∈ acceptedFmts, ∀ (s : Text) (k₁ k₂ : Clock),
        Matches f s {} k₁ → Matches g s {} k₂ → f = g ∧ k₁ = k₂) ∧
      (∀ f ∈ acceptedFmts, ∀ (s : Text) (t : Timestamp),
        strptime f s = some t ↔ ∃ k, Matches f s {} k ∧ k.timestamp = some t) ∧
      (∀ s : Text, (Cell.str s).toDt = NetMerging.toDt (.str s)) ∧
      ∀ t : Timestamp, t.WholeSecond →
        ((Cell.str t.strftime).toDt = some t ↔ t.FourDigit) ∧
          (NetMerging.toDt (.str t.strftime) = some t ↔ t.FourDigit) := by
  refine ⟨fun f hf g hg s k₁ k₂ => matches_unique hf hg,
    fun f hf s t => strptime_eq_some_iff hf, parseText_inFmts, fun t ht => ?_⟩
  have hback : (Cell.str t.strftime).toDt = some t ↔ t.FourDigit := by
    refine ⟨fun h => ?_, parseText_strftime ht⟩
    by_contra hy
    exact nomatch (parseText_strftime_of_short hy).symm.trans h
  refine ⟨hback, ?_⟩
  rw [← hback]
  exact Eq.congr_left (parseText_inFmts t.strftime).symm

/-- A text with single digits, which no dashed format matches, and the first of March 2024. -/
theorem dt_parsers_agree_march :
    (¬ ∃ k, Matches (dmyFormat '-' true) "5:5:2024 2:13:36".toList {} k) ∧
      (Cell.str (Timestamp.ofDate (.of2024 3 1 (by decide))).strftime).toDt
        = some (.ofDate (.of2024 3 1 (by decide))) := by
  have hmatch : Matches (dmyFormat ':' true) "5:5:2024 2:13:36".toList {} ⟨2024, 5, 5, 2, 13, 36⟩ :=
    matches_of_matchFormat rfl
  refine ⟨fun ⟨k, hk⟩ => ?_, 
    (dt_parsers_agree.2.2.2 _ (Timestamp.wholeSecond_ofDate _)).1.mpr (by decide)⟩
  have heq := (dt_parsers_agree.1 _ (by decide) _ (by decide) _ _ _ hmatch hk).1
  exact absurd heq (by decide)

end NetBuild
