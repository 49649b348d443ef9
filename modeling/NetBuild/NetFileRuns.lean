import NetBuild.NetFile
import NetBuild.WorkbookRuns

/-!
# The net workbook is always whole

Runs of `process_reports` in any interleaving, on one net workbook or on several, any of them
stopped anywhere. A net workbook is never seen in part: it is as it was at first, or as one run
wrote it, from the nets and the log of workbooks it was before. A run that has ended has left no
temporary file, unless closing or removing it failed.
-/

namespace NetBuild

namespace NetFile

open Prog (request lift Pact Upholds upholds_ret upholds_attempt_lift_bind)

variable {ι : Type}

/-! ## What a net workbook has been -/

/-- What a path has held, the present file first. -/
def Dir.versions (s : Dir ι) (f : Text) : List (Option File) := s.now f :: (s.past f).map Prod.snd

/-- The runs that have replaced the file. -/
def Dir.writers (s : Dir ι) (f : Text) : List ι := (s.past f).map Prod.fst

/-- The workbook a file is. -/
def bookOf : Option File → Option Workbook
  | some (.workbook wb) => some wb
  | _ => none

/-- The file has been `v₀` and then what runs made of it, each of them once: of the nets of a
version and of the log of one that is no earlier. -/
inductive History (call : ι → ReportsCall) (f : Text) (v₀ : Option File) :
    Option File → List (ι × Option File) → Prop
  | start : History call f v₀ v₀ []
  | replaced {v nets prevLog : Option File} {past : List (ι × Option File)} {i : ι}
      {older : List (Option File)} {newDf : Frame} {wb : Workbook} {out : List Result × ℕ}
      (before : History call f v₀ v past) (once : i ∉ past.map Prod.fst)
      (netFile : (call i).netFile = f) (source : (call i).source = .ok newDf)
      (log : prevLog :: older <:+ v :: past.map Prod.snd) (loaded : nets ∈ prevLog :: older)
      (ok : processFrom (call i).sortValues (call i).cfg (bookOf nets) (bookOf prevLog) newDf
        = .ok (wb, out)) :
      History call f v₀ (some (.workbook wb)) ((i, v) :: past)

/-- No file there, or a workbook. -/
def IsBook (x : Option File) : Prop := x = none ∨ ∃ wb, x = some (.workbook wb)

theorem History.isBook {call : ι → ReportsCall} {f : Text} {v₀ v : Option File}
    {past : List (ι × Option File)} (h : History call f v₀ v past) (h₀ : IsBook v₀) : IsBook v := by
  cases h with
  | start => exact h₀
  | replaced => exact .inr ⟨_, rfl⟩

theorem isBook_readExcel {x : Option File} (h : IsBook x) {caught : FileError → Bool}
    {wb : Option Workbook} (hr : orEmpty caught (readExcel x) = .ok wb) : wb = bookOf x := by
  rcases h with rfl | ⟨wb', rfl⟩
  · by_cases hc : caught .fileNotFound = true
    · exact (Except.ok.inj ((if_pos hc).symm.trans hr)).symm
    · exact nomatch (if_neg hc).symm.trans hr
  · exact (Except.ok.inj hr).symm

/-- How the runs are called: no net workbook and no log is named like a temporary file, no log is
written over a net workbook, and what is there at first of the net workbooks are workbooks. -/
structure Orderly (call : ι → ReportsCall) (files : Text → Option File) : Prop where
  netFile : ∀ i, ¬ IsTemp (call i).netFile
  logCsv : ∀ i f, (call i).logCsv = some f → ¬ IsTemp f
  apart : ∀ i j f, (call j).logCsv = some f → f ≠ (call i).netFile
  initial : ∀ i, IsBook (files (call i).netFile)

/-! ## What the runs rely on -/

/-- The net workbooks have their histories, temporary files are named as such, and any other file
that is no log is as it was. -/
structure Sound (call : ι → ReportsCall) (files : Text → Option File) (s : Dir ι) : Prop where
  history : ∀ i, History call (call i).netFile (files (call i).netFile)
    (s.now (call i).netFile) (s.past (call i).netFile)
  temp : ∀ f, s.owner f ≠ none → IsTemp f ∧ files f = none
  others : ∀ f, s.owner f = none → (∀ i, f ≠ (call i).netFile) →
    (∀ i, (call i).logCsv ≠ some f) → s.now f = files f

/-- Net workbooks only grow by versions, nobody writes for another run, a temporary file is its
run's own, and what has failed has failed. -/
structure Keeps (call : ι → ReportsCall) (i : ι) (s t : Dir ι) : Prop where
  versions : ∀ j, s.versions (call j).netFile <:+ t.versions (call j).netFile
  writers : ∀ f, i ∈ t.writers f ↔ i ∈ s.writers f
  owner : ∀ f, t.owner f = some i ↔ s.owner f = some i
  own : ∀ f, s.owner f = some i → t.now f = s.now f
  stuck : ∀ f, s.stuck f = true → t.stuck f = true

def pact (call : ι → ReportsCall) (files : Text → Option File) : Pact (Dir ι) ι where
  inv := Sound call files
  rely := Keeps call
  refl _ _ :=
    ⟨fun _ => List.suffix_refl _, fun _ => .rfl, fun _ => .rfl, fun _ _ => rfl, fun _ => id⟩
  trans _ _ _ _ h h' := ⟨fun j => (h.versions j).trans (h'.versions j),
    fun f => (h'.writers f).trans (h.writers f), fun f => (h'.owner f).trans (h.owner f),
    fun f hf => (h'.own f ((h.owner f).mpr hf)).trans (h.own f hf),
    fun f hf => h'.stuck f (h.stuck f hf)⟩

section
variable {call : ι → ReportsCall} {files : Text → Option File} {i j : ι} {s t : Dir ι}
  {f tmp : Text} {x : Option File}

theorem Dir.now_put (s : Dir ι) (f : Text) (x : Option File) : (s.put f x).now f = x :=
  Function.update_self ..

theorem Dir.now_put_of_ne (s : Dir ι) {f f' : Text} (x : Option File) (h : f' ≠ f) :
    (s.put f x).now f' = s.now f' := Function.update_of_ne h ..

theorem Dir.versions_put_of_ne (s : Dir ι) {f f' : Text} (x : Option File) (h : f' ≠ f) :
    (s.put f x).versions f' = s.versions f' := by
  unfold Dir.versions
  rw [s.now_put_of_ne x h]
  rfl

/-- A file that is no net workbook may be written by who it belongs to. -/
theorem keeps_put (hf : ∀ k, f ≠ (call k).netFile) (hown : s.owner f ≠ some j) :
    Keeps call j s (s.put f x) where
  versions k := (s.versions_put_of_ne x (hf k).symm).symm ▸ List.suffix_refl _
  writers _ := .rfl
  owner _ := .rfl
  own _ hf' := s.now_put_of_ne x fun he => hown (he ▸ hf')
  stuck _ := id

/-- Nothing else changes where a command fails. -/
theorem keeps_fail : Keeps call j s (s.fail f) where
  versions _ := List.suffix_refl _
  writers _ := .rfl
  owner _ := .rfl
  own _ _ := rfl
  stuck f' hf' := by
    unfold Dir.fail
    dsimp only
    by_cases he : f' = f
    · rw [he, Function.update_self]
    · rwa [Function.update_of_ne he]

theorem Sound.fail (h : Sound call files s) : Sound call files (s.fail f) :=
  ⟨h.history, h.temp, h.others⟩

theorem Dir.stuck_fail (s : Dir ι) (f : Text) : (s.fail f).stuck f = true := Function.update_self ..

theorem Sound.put (h : Sound call files s) (hf : ∀ k, f ≠ (call k).netFile)
    (hmay : s.owner f ≠ none ∨ ∃ k, (call k).logCsv = some f) : Sound call files (s.put f x) where
  history k := by
    rw [s.now_put_of_ne x (hf k).symm]
    exact h.history k
  temp := h.temp
  others f' hfree hnet hlog := by
    have hne : f' ≠ f := fun he => hmay.elim (fun hown => hown (he ▸ hfree))
      fun ⟨k, hk⟩ => hlog k (he ▸ hk)
    rw [s.now_put_of_ne x hne]
    exact h.others f' hfree hnet hlog

/-- A temporary file is no net workbook. -/
theorem Orderly.ne_netFile (ho : Orderly call files) (hf : IsTemp f) (k : ι) :
    f ≠ (call k).netFile := fun he => ho.netFile k (he ▸ hf)

theorem keeps_make (ho : Orderly call files) (hf : IsTemp f) (hfree : s.owner f = none)
    (hj : j ≠ i) : Keeps call j s (s.make i f) where
  versions k := by
    show s.versions _ <:+ (s.put f (some (.fragment false))).versions _
    exact (keeps_put (j := j) (ho.ne_netFile hf) (by rw [hfree]; exact nofun)).versions k
  writers _ := .rfl
  owner f' := by
    unfold Dir.make
    dsimp only
    by_cases he : f' = f
    · subst he
      rw [Function.update_self, hfree]
      simp [hj.symm]
    · rw [Function.update_of_ne he]
  own f' hf' := s.now_put_of_ne _ fun he => by simp [he ▸ hf'] at hfree
  stuck _ := id

theorem Sound.make (h : Sound call files s) (ho : Orderly call files) (hf : IsTemp f)
    (hnone : s.now f = none) (hfree : s.owner f = none) : Sound call files (s.make i f) where
  history k := by
    show History call _ _ ((s.put f (some (.fragment false))).now _) _
    rw [s.now_put_of_ne _ (ho.ne_netFile hf k).symm]
    exact h.history k
  temp f' hf' := by
    unfold Dir.make at hf'
    dsimp only at hf'
    by_cases he : f' = f
    · refine he ▸ ⟨hf, ?_⟩
      rw [← hnone, h.others f hfree (ho.ne_netFile hf) fun k hk => ho.logCsv k f hk hf]
    · rw [Function.update_of_ne he] at hf'
      exact h.temp f' hf'
  others f' hfree' hnet hlog := by
    unfold Dir.make at hfree'
    dsimp only at hfree'
    by_cases he : f' = f
    · subst he
      rw [Function.update_self] at hfree'
      exact nomatch hfree'
    · rw [Function.update_of_ne he] at hfree'
      exact (s.now_put_of_ne _ he).trans (h.others f' hfree' hnet hlog)

/-- What a replacement does to a path. -/
theorem Dir.versions_move_of_ne {dst f : Text} {y : File} (hd : f ≠ dst) (hs : f ≠ tmp) :
    (s.move i tmp dst y).versions f = s.versions f := by
  unfold Dir.versions Dir.move Dir.put
  dsimp only
  rw [Function.update_of_ne hs, Function.update_of_ne hd, Function.update_of_ne hd]

theorem Dir.versions_move {dst : Text} {y : File} (hd : dst ≠ tmp) :
    (s.move i tmp dst y).versions dst = some y :: s.versions dst := by
  unfold Dir.versions Dir.move Dir.put
  dsimp only
  rw [Function.update_of_ne hd, Function.update_self, Function.update_self]
  rfl

theorem Dir.writers_move {dst f : Text} {y : File} :
    (s.move i tmp dst y).writers f = if f = dst then i :: s.writers f else s.writers f := by
  unfold Dir.writers Dir.move
  dsimp only
  by_cases hf : f = dst
  · subst hf
    rw [Function.update_self, if_pos rfl]
    rfl
  · rw [Function.update_of_ne hf, if_neg hf]

theorem keeps_move (ho : Orderly call files) (hs : Sound call files s)
    (hown : s.owner tmp = some i) (hj : j ≠ i) {y : File} :
    Keeps call j s (s.move i tmp (call i).netFile y) := by
  have htmp := ho.ne_netFile (hs.temp tmp (by rw [hown]; exact nofun)).1
  refine ⟨fun k => ?_, fun f => ?_, fun _ => .rfl, fun f hf => ?_, fun _ => id⟩
  · by_cases hk : (call k).netFile = (call i).netFile
    · rw [hk, Dir.versions_move (htmp i).symm]
      exact List.suffix_cons _ _
    · exact (Dir.versions_move_of_ne hk (htmp k).symm).symm ▸ List.suffix_refl _
  · rw [Dir.writers_move]
    split
    · simp [hj]
    · exact .rfl
  · -- the file of another run is neither the temporary file nor the net workbook
    have hf' : f ≠ tmp := fun he => hj (Option.some.inj ((he ▸ hf).symm.trans hown))
    have hne := ho.ne_netFile (hs.temp f (by rw [hf]; exact nofun)).1 i
    exact (Function.update_of_ne hf' ..).trans (Function.update_of_ne hne ..)

theorem Sound.move (h : Sound call files s) (ho : Orderly call files)
    (hown : s.owner tmp = some i) {wb : Workbook}
    (hnew : History call (call i).netFile (files (call i).netFile) (some (.workbook wb))
      ((i, s.now (call i).netFile) :: s.past (call i).netFile)) :
    Sound call files (s.move i tmp (call i).netFile (.workbook wb)) := by
  have htemp := (h.temp tmp (by rw [hown]; exact nofun)).1
  have htmp := ho.ne_netFile htemp
  refine ⟨fun k => ?_, h.temp, fun f hfree hnet hlog => ?_⟩
  · unfold Dir.move Dir.put
    dsimp only
    rw [Function.update_of_ne (htmp k).symm]
    by_cases hk : (call k).netFile = (call i).netFile
    · rw [hk, Function.update_self, Function.update_self]
      exact hnew
    · rw [Function.update_of_ne hk, Function.update_of_ne hk]
      exact h.history k
  · have hne : f ≠ tmp := fun he => by
      rw [he] at hfree
      exact nomatch hown.symm.trans hfree
    refine ((Function.update_of_ne hne ..).trans (Function.update_of_ne (hnet i) ..)).trans ?_
    exact h.others f hfree hnet hlog

/-! ## Reading the net workbook -/

/-- What the run knows goes on holding. -/
def Stable (call : ι → ReportsCall) (i : ι) (L : Dir ι → Prop) : Prop :=
  ∀ s t, Keeps call i s t → L s → L t

/-- What is read is the workbook at some time since. -/
theorem upholds_readSheet (ho : Orderly call files) {L : Dir ι → Prop} (hL : Stable call i L)
    (h : L s) (caught : FileError → Bool) :
    (readSheet caught (call i).netFile).attempt.Upholds exec (pact call files) i
      (fun o t => ∃ u, Keeps call i u t ∧ L u
        ∧ ∀ wb, o = .ok wb → bookOf (u.now (call i).netFile) = wb)
      s := by
  intro s₁ h₁ hinv₁ x s₂ hex
  obtain ⟨hx, rfl⟩ : x = (s₁.now (call i).netFile).isSome ∧ s₂ = s₁ := hex
  refine ⟨hinv₁, fun j _ => (pact call files).refl j _, ?_⟩
  have hL₁ : L s₂ := hL s s₂ h₁ h
  rcases x with _ | _
  · refine upholds_ret fun t ht _ => ⟨s₂, ht, hL₁, fun wb hwb => ?_⟩
    rw [Option.not_isSome_iff_eq_none.mp (Bool.eq_false_iff.mp hx.symm)]
    exact Except.ok.inj hwb
  · intro s₃ h₃ hinv₃ x s₄ hex
    obtain ⟨rfl, rfl⟩ : x = s₃.now (call i).netFile ∧ s₄ = s₃ := hex
    refine ⟨hinv₃, fun j _ => (pact call files).refl j _, ?_⟩
    have hL₃ : L s₄ := hL s₂ s₄ h₃ hL₁
    have hbook : IsBook (s₄.now (call i).netFile) := (hinv₃.history i).isBook (ho.initial i)
    show (lift (orEmpty caught (readExcel (s₄.now (call i).netFile)))).attempt.Upholds exec _ i _ s₄
    rcases hr : orEmpty caught (readExcel (s₄.now (call i).netFile)) with e | wb
    · exact fun t ht _ => ⟨s₄, ht, hL₃, fun _ hwb => nomatch hwb⟩
    · refine fun t ht _ => ⟨s₄, ht, hL₃, fun wb' hwb => ?_⟩
      rw [← Except.ok.inj hwb]
      exact (isBook_readExcel hbook hr).symm

/-! ## Writing it -/

/-- The run has no temporary file and has not replaced the net workbook. -/
structure Idle (i : ι) (s : Dir ι) : Prop where
  owner : ∀ f, s.owner f ≠ some i
  writers : ∀ f, i ∉ s.writers f

/-- The run has made this temporary file and no other. -/
def Holds (i : ι) (tmp : Text) (s : Dir ι) : Prop := ∀ f, s.owner f = some i ↔ f = tmp

theorem stable_idle : Stable call i (Idle i) := fun _ _ hk h =>
  ⟨fun f hf => h.owner f ((hk.owner f).mp hf), fun f hf => h.writers f ((hk.writers f).mp hf)⟩

theorem stable_holds : Stable call i (Holds i tmp) := fun _ _ hk h f => (hk.owner f).trans (h f)

/-- A file of the run's own, or its log, is written: `L` is known meanwhile, and `M` at the end. -/
theorem upholds_writeFile {L M : Dir ι → Prop} (hL : Stable call i L) (hM : Stable call i M)
    {before after : File} (hf : ∀ k, f ≠ (call k).netFile)
    (hmay : ∀ t, Sound call files t → L t →
      (∀ j, j ≠ i → t.owner f ≠ some j) ∧ (t.owner f ≠ none ∨ ∃ k, (call k).logCsv = some f))
    (hput : ∀ t x, Sound call files t → L t → L (t.put f x))
    (hdone : ∀ t, Sound call files t → L t → M (t.put f (some after))) (h : L s) :
    (writeFile f before after : FileProg ι Unit).attempt.Upholds exec (pact call files) i
      (fun o t => L t ∧ (o = .ok () → M t)) s := by
  intro s₁ h₁ hinv₁ ok s₂ hex
  have hL₁ := hL s s₁ h₁ h
  obtain ⟨hown₁, hmay₁⟩ := hmay s₁ hinv₁ hL₁
  rcases hex with ⟨rfl, rfl⟩ | ⟨rfl, rfl⟩
  · refine ⟨Sound.put hinv₁ hf hmay₁, fun j hj => keeps_put hf (hown₁ j hj), ?_⟩
    intro s₃ h₃ hinv₃ ok s₄ hex
    have hL₃ := hL _ s₃ h₃ (hput s₁ _ hinv₁ hL₁)
    obtain ⟨hown₃, hmay₃⟩ := hmay s₃ hinv₃ hL₃
    rcases hex with ⟨rfl, rfl⟩ | ⟨rfl, rfl⟩
    · exact ⟨Sound.put hinv₃ hf hmay₃, fun j hj => keeps_put hf (hown₃ j hj), fun t ht _ =>
        ⟨hL _ t ht (hput s₃ _ hinv₃ hL₃), fun _ => hM _ t ht (hdone s₃ hinv₃ hL₃)⟩⟩
    · exact ⟨hinv₃, fun j _ => (pact call files).refl j _, fun t ht _ =>
        ⟨hL _ t ht hL₃, nofun⟩⟩
  · exact ⟨hinv₁, fun j _ => (pact call files).refl j _, fun t ht _ => ⟨hL _ t ht hL₁, nofun⟩⟩

/-- The run knows of versions that the nets and the log it read come from. -/
def HasRead (call : ι → ReportsCall) (i : ι) (nets prevLog : Option Workbook) (s : Dir ι) : Prop :=
  ∃ v w older, w :: older <:+ s.versions (call i).netFile ∧ v ∈ w :: older ∧ bookOf v = nets ∧
    bookOf w = prevLog

theorem stable_hasRead {nets prevLog : Option Workbook} :
    Stable call i (HasRead call i nets prevLog) := fun s t hk h => by
  obtain ⟨v, w, older, hsuffix, hv, hn, hp⟩ := h
  exact ⟨v, w, older, hsuffix.trans (hk.versions i), hv, hn, hp⟩

/-- What the run knows when its temporary file is to take the place of the net workbook. -/
structure Ready (call : ι → ReportsCall) (i : ι) (tmp : Text) (nets prevLog : Option Workbook)
    (s : Dir ι) : Prop where
  holds : Holds i tmp s
  writers : ∀ f, i ∉ s.writers f
  read : HasRead call i nets prevLog s

theorem stable_ready {nets prevLog : Option Workbook} :
    Stable call i (Ready call i tmp nets prevLog) := fun s t hk h =>
  ⟨stable_holds s t hk h.holds, fun f hf => h.writers f ((hk.writers f).mp hf),
    stable_hasRead s t hk h.read⟩

/-- The run has its temporary file, and the net workbook is as the run is said to have left it. -/
def Written (call : ι → ReportsCall) (i : ι) (s : Dir ι) : Prop :=
  i ∈ s.writers (call i).netFile

/-- The new workbook takes the place of the old one. -/
theorem upholds_replace (ho : Orderly call files) {nets prevLog : Option Workbook} {newDf : Frame}
    {wb : Workbook} {out : List Result × ℕ} (hs : (call i).source = .ok newDf)
    (hp : processFrom (call i).sortValues (call i).cfg nets prevLog newDf = .ok (wb, out))
    (hr : Ready call i tmp nets prevLog s)
    (htmp : s.now tmp = some (.workbook wb)) :
    (request (Req.replace i tmp (call i).netFile) >>= fun ok => lift (check ok) :
      FileProg ι Unit).attempt.Upholds exec (pact call files) i
      (fun o t => Holds i tmp t ∧ (o = .ok () → Written call i t)) s := by
  intro t ht hinv ok t' hex
  have hready := stable_ready s t ht hr
  have hown : t.owner tmp = some i := (hready.holds tmp).mpr rfl
  have hsame : t.now tmp = some (.workbook wb) := (ht.own tmp ((hr.holds tmp).mpr rfl)).trans htmp
  rcases hex with ⟨x, hx, rfl, rfl⟩ | ⟨rfl, rfl⟩
  · obtain rfl := Option.some.inj (hsame.symm.trans hx)
    obtain ⟨v, w, older, hsuffix, hv, rfl, rfl⟩ := hready.read
    refine ⟨Sound.move hinv ho hown ?_, fun j hj => keeps_move ho hinv hown hj,
      fun u hu _ => ⟨?_, fun _ => ?_⟩⟩
    · exact .replaced (hinv.history i) (hready.writers _) rfl hs hsuffix hv hp
    · exact stable_holds _ u hu hready.holds
    · refine (hu.writers _).mpr ?_
      rw [Dir.writers_move, if_pos rfl]
      exact List.mem_cons_self
  · exact ⟨hinv, fun j _ => (pact call files).refl j _, fun u hu _ =>
      ⟨stable_holds _ u hu hready.holds, nofun⟩⟩

/-- The run has no temporary file left, or raises because closing or removing one failed. -/
def Cleared {α : Type} (i : ι) (o : Except FileError α) (s : Dir ι) : Prop :=
  ∀ f, s.owner f = some i → s.now f = none ∨ s.stuck f = true ∧ o = .error .osError

theorem stable_cleared {α : Type} (o : Except FileError α) : Stable call i (Cleared i o) :=
  fun _ _ hk h f hf => (h f ((hk.owner f).mp hf)).imp
    ((hk.own f ((hk.owner f).mp hf)).trans ·) fun hstuck => ⟨hk.stuck f hstuck.1, hstuck.2⟩

theorem Cleared.of_ok {α β : Type} {a : α} (h : Cleared i (.ok a) s) (o : Except FileError β) :
    Cleared i o s := fun f hf => (h f hf).imp_right fun hstuck => nomatch hstuck.2

theorem stable_written : Stable call i (Written call i) := fun _ _ hk h => (hk.writers _).mpr h

/-- The temporary file is removed, if it is still there. -/
theorem upholds_cleanUp (ho : Orderly call files) {L : Dir ι → Prop} (hL : Stable call i L)
    (hput : ∀ t x, L t → L (t.put tmp x)) (hfail : ∀ t, L t → L (t.fail tmp))
    (hs : Holds i tmp s ∧ L s) :
    (request (Req.exists tmp) >>= fun there =>
      if there = false then .ret ()
      else request (Req.remove tmp) >>= fun ok => lift (check ok) :
        FileProg ι Unit).attempt.Upholds exec (pact call files) i
      (fun o t => (o = .ok () ∨ o = .error .osError) ∧ Cleared i o t ∧ L t) s := by
  intro s₁ h₁ hinv₁ x s₂ hex
  obtain ⟨hx, rfl⟩ : x = (s₁.now tmp).isSome ∧ s₂ = s₁ := hex
  refine ⟨hinv₁, fun j _ => (pact call files).refl j _, ?_⟩
  have hholds := stable_holds s s₂ h₁ hs.1
  have hL₂ := hL s s₂ h₁ hs.2
  rcases x with _ | _
  · have hcleared : Cleared i (.ok ()) s₂ := fun f hf => by
      rw [(hholds f).mp hf]
      exact .inl (Option.not_isSome_iff_eq_none.mp (Bool.eq_false_iff.mp hx.symm))
    exact fun t ht _ => ⟨.inl rfl, stable_cleared _ s₂ t ht hcleared, hL s₂ t ht hL₂⟩
  · intro s₃ h₃ hinv₃ ok s₄ hex
    have hholds₃ := stable_holds s₂ s₃ h₃ hholds
    have hL₃ := hL s₂ s₃ h₃ hL₂
    have hown : s₃.owner tmp = some i := (hholds₃ tmp).mpr rfl
    rcases hex with ⟨rfl, rfl⟩ | ⟨rfl, rfl⟩
    · have htemp := (hinv₃.temp tmp (by rw [hown]; exact nofun)).1
      have hcleared : Cleared i (.ok ()) (s₃.put tmp none) := fun f hf => by
        rw [(hholds₃ f).mp hf]
        exact .inl (s₃.now_put tmp none)
      refine ⟨Sound.put hinv₃ (ho.ne_netFile htemp) (.inl (by rw [hown]; exact nofun)), fun j hj =>
        keeps_put (ho.ne_netFile htemp) fun hj' => hj (Option.some.inj (hj'.symm.trans hown)), ?_⟩
      exact fun t ht _ => ⟨.inl rfl, stable_cleared _ _ t ht hcleared,
        hL _ t ht (hput s₃ none hL₃)⟩
    · have hcleared : Cleared i (.error .osError : Except FileError Unit) (s₃.fail tmp) :=
        fun f hf => by
          rw [(hholds₃ f).mp hf]
          exact .inr ⟨s₃.stuck_fail tmp, rfl⟩
      exact ⟨Sound.fail hinv₃, fun j _ => keeps_fail, fun t ht _ => ⟨.inr rfl,
        stable_cleared _ _ t ht hcleared, hL _ t ht (hfail s₃ hL₃)⟩⟩

/-- The net workbook is written, and no temporary file is left whatever comes of it, if it can be
closed and removed. -/
theorem upholds_atomicWriteWorkbook (ho : Orderly call files) {nets prevLog : Option Workbook}
    {newDf : Frame} {wb : Workbook} {out : List Result × ℕ} (hs : (call i).source = .ok newDf)
    (hp : processFrom (call i).sortValues (call i).cfg nets prevLog newDf = .ok (wb, out))
    (hidle : Idle i s) (hread : HasRead call i nets prevLog s) :
    (atomicWriteWorkbook i (call i).netFile wb).attempt.Upholds exec (pact call files) i
      (fun o t => Cleared i o t ∧ (o = .ok () → Written call i t)) s := by
  intro s₁ h₁ hinv₁ x s₂ hex
  have hidle₁ := stable_idle s s₁ h₁ hidle
  rcases hex with ⟨tmp, rfl, htemp, hnone, hfree, rfl⟩ | ⟨rfl, rfl⟩
  swap
  · exact ⟨hinv₁, fun j _ => (pact call files).refl j _, fun t ht _ =>
      ⟨stable_cleared _ _ t ht fun f hf => absurd hf (hidle₁.owner f), nofun⟩⟩
  refine ⟨Sound.make hinv₁ ho htemp hnone hfree, fun j hj => keeps_make ho htemp hfree hj, ?_⟩
  have hready : Ready call i tmp nets prevLog (s₁.make i tmp) := by
    refine ⟨fun f => ?_, hidle₁.writers, ?_⟩
    · show Function.update s₁.owner tmp (some i) f = some i ↔ f = tmp
      by_cases hf : f = tmp
      · simp [hf]
      · rw [Function.update_of_ne hf]
        exact iff_of_false (hidle₁.owner f) hf
    · obtain ⟨v, w, older, hsuffix, hv⟩ := stable_hasRead s s₁ h₁ hread
      refine ⟨v, w, older, ?_, hv⟩
      show w :: older <:+ (s₁.put tmp (some (.fragment false))).versions _
      rw [s₁.versions_put_of_ne _ (ho.ne_netFile htemp i).symm]
      exact hsuffix
  intro s₃ h₃ hinv₃ ok s₄ hex
  have hready₃ := stable_ready _ s₃ h₃ hready
  rcases hex with ⟨rfl, rfl⟩ | ⟨rfl, rfl⟩
  swap
  · -- the file that was not closed stays
    have hcleared : Cleared i (.error .osError : Except FileError Unit) (s₃.fail tmp) :=
      fun f hf => by
        rw [(hready₃.holds f).mp hf]
        exact .inr ⟨s₃.stuck_fail tmp, rfl⟩
    exact ⟨Sound.fail hinv₃, fun j _ => keeps_fail, fun t ht _ =>
      ⟨stable_cleared _ _ t ht hcleared, nofun⟩⟩
  refine ⟨hinv₃, fun j _ => (pact call files).refl j _, ?_⟩
  -- the file is the run's own, whatever it holds
  have hput : ∀ t x, Ready call i tmp nets prevLog t →
      Ready call i tmp nets prevLog (t.put tmp x) := by
    rintro t x ⟨hholds, hwriters, v, w, older, hsuffix, hv⟩
    refine ⟨hholds, hwriters, v, w, older, ?_, hv⟩
    rw [t.versions_put_of_ne _ (ho.ne_netFile htemp i).symm]
    exact hsuffix
  have hown : ∀ t, Ready call i tmp nets prevLog t → t.owner tmp = some i :=
    fun t ht => (ht.holds tmp).mpr rfl
  have hwhole : Stable call i fun t => t.owner tmp = some i ∧ t.now tmp = some (.workbook wb) :=
    fun t u hk h => ⟨(hk.owner tmp).mpr h.1, (hk.own tmp h.1).trans h.2⟩
  refine Prog.upholds_andFinally
    (Q := fun o t => Holds i tmp t ∧ (o = .ok () → Written call i t)) ?_
    hinv₃ fun o t hinv ht => ?_
  · refine (upholds_writeFile stable_ready hwhole (ho.ne_netFile htemp)
      (fun t _ ht => ⟨fun j hj hj' => hj (Option.some.inj (hj'.symm.trans (hown t ht))),
        .inl (by rw [hown t ht]; exact nofun)⟩)
      (fun t x _ => hput t x) (fun t _ ht => ⟨hown t ht, t.now_put tmp _⟩) hready₃).attempt_bind
      hinv₃ (fun _ t _ ht => ?_) fun e t u ht hu _ => ?_
    · exact upholds_replace ho hs hp ht.1 (ht.2 rfl).2
    · exact ⟨stable_holds t u hu ht.1.holds, nofun⟩
  · refine (upholds_cleanUp ho (L := fun u => o = .ok () → Written call i u)
      (fun u v hk h ho => stable_written u v hk (h ho)) (fun _ _ h => h) (fun _ h => h) ht).mono ?_
    rintro r u - ⟨rfl | rfl, hcleared, hwritten⟩
    · exact ⟨hcleared.of_ok _, hwritten⟩
    · exact ⟨hcleared, nofun⟩

/-! ## A run -/

/-- The log is written, or not. -/
theorem upholds_writeCsv (ho : Orderly call files) (wb : Workbook) (hcleared : Cleared i (.ok ()) s)
    (hwritten : Written call i s) :
    ((call i).writeCsv wb).attempt.Upholds exec (pact call files) i
      (fun _ t => Cleared i (.ok ()) t ∧ Written call i t) s := by
  have hstay : Stable call i fun t => Cleared i (.ok ()) t ∧ Written call i t := fun t u hk h =>
    ⟨stable_cleared _ t u hk h.1, stable_written t u hk h.2⟩
  unfold ReportsCall.writeCsv
  rcases hcsv : (call i).logCsv with _ | f
  · exact fun t ht _ => hstay s t ht ⟨hcleared, hwritten⟩
  have hfree : ∀ t, Sound call files t → t.owner f = none := fun t ht =>
    not_not.mp fun hne => ho.logCsv i f hcsv (ht.temp f hne).1
  have hput : ∀ t x, Sound call files t → Cleared i (.ok ()) t ∧ Written call i t →
      Cleared i (.ok ()) (t.put f x) ∧ Written call i (t.put f x) := by
    intro t x ht h
    refine ⟨fun f' hf' => ?_, h.2⟩
    have hown : t.owner f' = some i := hf'
    have hne : f' ≠ f := fun he => by rw [he, hfree t ht] at hown; exact nomatch hown
    rw [t.now_put_of_ne x hne]
    exact h.1 f' hown
  have hmay : ∀ t, Sound call files t → Cleared i (.ok ()) t ∧ Written call i t →
      (∀ j, j ≠ i → t.owner f ≠ some j) ∧ (t.owner f ≠ none ∨ ∃ k, (call k).logCsv = some f) :=
    fun t ht _ => ⟨fun j _ => by rw [hfree t ht]; exact nofun, .inr ⟨i, hcsv⟩⟩
  exact (upholds_writeFile hstay hstay (fun k => ho.apart k i f hcsv) hmay hput
    (fun t => hput t _) ⟨hcleared, hwritten⟩).mono fun _ _ _ h => h.1

/-- What a run leaves when it has ended. -/
structure Ended (call : ι → ReportsCall) (i : ι) (o : Except FileError (List Result × ℕ))
    (s : Dir ι) : Prop where
  cleared : Cleared i o s
  written : ∀ out, o = .ok out → (call i).dryRun = false → Written call i s

theorem upholds_processReports (ho : Orderly call files) (hs : Sound call files s)
    (hidle : Idle i s) :
    (processReports i (call i)).attempt.Upholds exec (pact call files) i (Ended call i) s := by
  -- a run that raises before it writes has no temporary file
  have hraise : ∀ (e : FileError) t u, Idle i t → Keeps call i t u → Ended call i (.error e) u :=
    fun e t u ht hk => ⟨fun f hf => absurd hf ((stable_idle t u hk ht).owner f), nofun⟩
  refine (upholds_readSheet ho stable_idle hidle _).attempt_bind hs ?_ ?_
  swap
  · rintro e t u ⟨r, hr, hidle, -⟩ hu -
    exact hraise e t u (stable_idle r t hr hidle) hu
  rintro nets s₁ hinv₁ ⟨r₁, hr₁, hidle₁, hnets⟩
  -- what was read of the nets is a version then
  have hstable : Stable call i fun t =>
      Idle i t ∧ ∃ v ∈ t.versions (call i).netFile, bookOf v = nets := fun t u hk h =>
    ⟨stable_idle t u hk h.1, h.2.imp fun _ hv => ⟨(hk.versions i).mem hv.1, hv.2⟩⟩
  have hloaded : Idle i s₁ ∧ ∃ v ∈ s₁.versions (call i).netFile, bookOf v = nets :=
    hstable r₁ s₁ hr₁ ⟨hidle₁, _, List.mem_cons_self, hnets nets rfl⟩
  refine (upholds_readSheet ho hstable hloaded _).attempt_bind hinv₁ ?_ ?_
  swap
  · rintro e t u ⟨r, hr, hL, -⟩ hu -
    exact hraise e t u (hstable r t hr hL).1 hu
  rintro prevLog s₂ hinv₂ ⟨r₂, hr₂, ⟨hidle₂, v, hv, hv'⟩, hlog⟩
  have hread : HasRead call i nets prevLog s₂ :=
    stable_hasRead r₂ s₂ hr₂ ⟨v, _, _, List.suffix_refl _, hv, hv', hlog prevLog rfl⟩
  have hidle₂ := stable_idle r₂ s₂ hr₂ hidle₂
  refine upholds_attempt_lift_bind (fun newDf hsource => ?_)
    fun e _ t ht _ => hraise e s₂ t hidle₂ ht
  refine upholds_attempt_lift_bind (fun made hmade => ?_) fun e _ t ht _ => hraise e s₂ t hidle₂ ht
  have hp : processFrom (call i).sortValues (call i).cfg nets prevLog newDf = .ok made := by
    rcases hr : processFrom (call i).sortValues (call i).cfg nets prevLog newDf with e | a
    · rw [hr] at hmade
      exact nomatch hmade
    · rw [hr] at hmade
      exact congrArg _ (Except.ok.inj hmade)
  show (if (call i).dryRun = true then .ret made.2 else _ : FileProg ι _).attempt.Upholds
    exec _ i _ s₂
  rcases hdry : (call i).dryRun with _ | _
  swap
  · rw [if_pos rfl]
    exact fun t ht _ => ⟨fun f hf => absurd hf ((stable_idle s₂ t ht hidle₂).owner f),
      fun _ _ hno => nomatch hdry.symm.trans hno⟩
  rw [if_neg Bool.false_ne_true]
  refine (upholds_atomicWriteWorkbook ho hsource hp hidle₂ hread).attempt_bind hinv₂ ?_ ?_
  swap
  · exact fun e t u ht hu _ => ⟨fun f hf => (stable_cleared _ t u hu ht.1 f hf).imp_right fun h =>
      ⟨h.1, congrArg _ (Except.error.inj h.2)⟩, nofun⟩
  rintro _ s₃ hinv₃ ⟨hcleared, hwritten⟩
  have hend : ∀ t u o, Cleared i (.ok ()) t ∧ Written call i t → Keeps call i t u →
      Ended call i o u := fun t u o h hk =>
    ⟨(stable_cleared _ t u hk h.1).of_ok o, fun _ _ _ => stable_written t u hk h.2⟩
  refine (upholds_writeCsv ho made.1 hcleared (hwritten rfl)).attempt_bind hinv₃
    (fun _ t _ ht => ?_)
    fun e t u ht hu _ => hend t u _ ht hu
  exact fun u hu _ => hend t u _ ht hu

end

/-! ## Any interleaving -/

section
variable {call : ι → ReportsCall} {files : Text → Option File}

/-- Every run, about to start. -/
def started (call : ι → ReportsCall) (files : Text → Option File) :
    Sys (Dir ι) ι (FileProg ι (Except FileError (List Result × ℕ))) :=
  ⟨.of files, fun i => (processReports i (call i)).attempt⟩

theorem sound_of (call : ι → ReportsCall) (files : Text → Option File) :
    Sound call files (.of files) where
  history _ := .start
  temp _ h := absurd rfl h
  others _ _ _ _ := rfl

theorem idle_of (files : Text → Option File) (i : ι) : Idle i (.of files) :=
  ⟨fun _ => nofun, fun _ => List.not_mem_nil⟩

theorem upholds_started (ho : Orderly call files) :
    (started call files).Upholds exec (pact call files) (Ended call) :=
  ⟨sound_of call files, fun i => upholds_processReports ho (sound_of call files) (idle_of files i)⟩

variable [DecidableEq ι] {σ : Sys (Dir ι) ι (FileProg ι (Except FileError (List Result × ℕ)))}

/-- In every interleaving, with every run stopped anywhere, a net workbook is there in full, if it
is there: it is as it was, or as the last of the runs that have replaced it made it. Each of these
has done so once, and every run that has returned is one of them, unless it was a dry one. -/
theorem net_file_versions (ho : Orderly call files)
    (h : Sys.Reaches exec (fun _ _ => True) (started call files) σ) (i : ι) :
    History call (call i).netFile (files (call i).netFile) (σ.store.now (call i).netFile)
        (σ.store.past (call i).netFile) ∧
      IsBook (σ.store.now (call i).netFile) ∧
      ∀ out, σ.client i = .ret (.ok out) → (call i).dryRun = false →
        i ∈ σ.store.writers (call i).netFile := by
  have hup := h.upholds (upholds_started ho)
  have hhist := hup.1.history i
  exact ⟨hhist, hhist.isBook (ho.initial i), fun out hi => (hup.done hi).written out rfl⟩

/-- Of what the runs write beside the net workbooks and the logs, only temporary files are there: of
runs that have not ended, and those that could not be closed or removed, which their runs have
reported. -/
theorem ended_runs_clean_up (ho : Orderly call files)
    (h : Sys.Reaches exec (fun _ _ => True) (started call files) σ) (f : Text)
    (hnet : ∀ i, f ≠ (call i).netFile) (hlog : ∀ i, (call i).logCsv ≠ some f) :
    σ.store.now f = files f ∨
      IsTemp f ∧ ∃ i, σ.store.owner f = some i ∧ ((∀ o, σ.client i ≠ .ret o) ∨
        σ.store.stuck f = true ∧ σ.client i = .ret (.error .osError)) := by
  have hup := h.upholds (upholds_started ho)
  rcases hown : σ.store.owner f with _ | i
  · exact .inl (hup.1.others f hown hnet hlog)
  obtain ⟨htemp, hnone⟩ := hup.1.temp f (by rw [hown]; exact nofun)
  by_cases hend : ∃ o, σ.client i = .ret o
  · obtain ⟨o, ho⟩ := hend
    rcases (hup.done ho).cleared f hown with hgone | ⟨hstuck, rfl⟩
    · exact .inl (hgone.trans hnone.symm)
    · exact .inr ⟨htemp, i, rfl, .inr ⟨hstuck, ho⟩⟩
  · exact .inr ⟨htemp, i, rfl, .inl fun o ho => hend ⟨o, ho⟩⟩

end

/-! ## A run that nothing disturbs -/

section
variable {s : Dir ι} {netFile tmp : Text} {wb : Option Workbook}

theorem run_readSheet (caught : FileError → Bool) (h : s.now netFile = wb.map File.workbook) :
    Prog.Run exec s (readSheet caught netFile) s (.ok wb) := by
  cases wb with
  | none => exact .call (x := false) ⟨by rw [h]; rfl, rfl⟩ (.ret _ _)
  | some wb =>
    have hread : exec s (.readExcel netFile) (some (.workbook wb)) s := ⟨h.symm, rfl⟩
    refine .call (x := true) ⟨by rw [h]; rfl, rfl⟩ ?_
    show Prog.Run exec s (request (Req.readExcel netFile) >>= fun file =>
      lift (orEmpty caught (readExcel file))) s _
    exact .call hread (.ret _ _)

/-- What a run still has to do when the new workbook is made. -/
def ReportsCall.write (c : ReportsCall) (run : ι) (made : Workbook × List Result × ℕ) :
    FileProg ι (List Result × ℕ) := do
  atomicWriteWorkbook run c.netFile made.1
  c.writeCsv made.1
  return made.2

variable {c : ReportsCall} {newDf : Frame} {made : Workbook × List Result × ℕ} (i : ι)

/-- Undisturbed, a run makes the workbook that `process_reports` does. -/
theorem steps_read (hfile : s.now c.netFile = wb.map File.workbook) (hs : c.source = .ok newDf)
    (hp : NetBuild.processReports c.sortValues c.cfg wb newDf = .ok made)
    (hdry : c.dryRun = false) : Prog.Steps exec s (processReports i c) s (c.write i made) := by
  refine ((run_readSheet FileError.isValueError hfile).steps.bind _).trans ?_
  refine ((run_readSheet _ hfile).steps.bind _).trans ?_
  rw [Prog.lift_ok, Prog.ret_bind, hs, Prog.lift_ok, Prog.ret_bind, processFrom_self, hp]
  show Prog.Steps exec s (if c.dryRun = true then .ret made.2 else _) s _
  rw [hdry, if_neg Bool.false_ne_true]
  exact .refl _ _

section
variable (htemp : IsTemp tmp) (hnone : s.now tmp = none) (hfree : s.owner tmp = none)
include htemp hnone hfree

omit htemp hnone hfree in
/-- Beside its temporary file, all is as it was. -/
theorem Dir.now_make_put {f f' : Text} (x : Option File) (h : f' ≠ f) :
    ((s.make i f).put f x).now f' = s.now f' :=
  (Dir.now_put_of_ne _ x h).trans (s.now_put_of_ne _ h)

/-- A run that is stopped while it writes leaves its temporary file. -/
theorem steps_write_stopped : ∃ q, Prog.Steps exec s (c.write i made)
    ((s.make i tmp).put tmp (some (.fragment true))) q ∧ ∀ o, q.attempt ≠ .ret o := by
  have hmake : exec s (.mkstemp i) (some tmp) (s.make i tmp) :=
    .inl ⟨tmp, rfl, htemp, hnone, hfree, rfl⟩
  have hclose : exec (s.make i tmp) (.close tmp) true (s.make i tmp) := .inl ⟨rfl, rfl⟩
  have hwrite : exec (s.make i tmp) (.write tmp (.fragment true)) true
      ((s.make i tmp).put tmp (some (.fragment true))) := .inl ⟨rfl, rfl⟩
  exact ⟨_, .call hmake (.call hclose (.call hwrite (.refl _ _))), fun _ => nofun⟩

/-- A run that cannot write removes its temporary file. -/
theorem steps_write_failed : Prog.Steps exec s (c.write i made) ((s.make i tmp).put tmp none)
    (.raise .osError) := by
  have hmake : exec s (.mkstemp i) (some tmp) (s.make i tmp) :=
    .inl ⟨tmp, rfl, htemp, hnone, hfree, rfl⟩
  have hclose : exec (s.make i tmp) (.close tmp) true (s.make i tmp) := .inl ⟨rfl, rfl⟩
  have hwrite : exec (s.make i tmp) (.write tmp (.fragment true)) false (s.make i tmp) :=
    .inr ⟨rfl, rfl⟩
  have hthere : (s.make i tmp).now tmp = some (.fragment false) := s.now_put tmp _
  have hexists : exec (s.make i tmp) (.exists tmp) true (s.make i tmp) :=
    ⟨by rw [hthere]; rfl, rfl⟩
  have hremove : exec (s.make i tmp) (.remove tmp) true ((s.make i tmp).put tmp none) :=
    .inl ⟨rfl, rfl⟩
  exact .call hmake (.call hclose (.call hwrite (.call hexists (.call hremove (.refl _ _)))))

/-- The temporary file is made, written, and moved. -/
theorem steps_write_replaced (hne : c.netFile ≠ tmp) : ∃ t q,
    Prog.Steps exec s (c.write i made) t q ∧ (∀ o, q.attempt ≠ .ret o) ∧
      (c.logCsv = none → Prog.Steps exec t q t (.ret made.2)) ∧
      t.now c.netFile = some (.workbook made.1) ∧ (∀ f, f ≠ c.netFile → t.now f = s.now f) ∧
      (∀ f, f ≠ tmp → t.owner f = s.owner f) ∧ t.stuck = s.stuck ∧
        t.writers c.netFile = i :: s.writers c.netFile := by
  set s₁ := s.make i tmp
  set s₂ := s₁.put tmp (some (.fragment true))
  set s₃ := s₂.put tmp (some (.workbook made.1)) with hs₃
  set s₄ := s₃.move i tmp c.netFile (.workbook made.1) with hs₄
  have hthere : s₃.now tmp = some (.workbook made.1) := s₂.now_put tmp _
  have hgone : s₄.now tmp = none := Dir.now_put ..
  have hnow : s₄.now c.netFile = some (.workbook made.1) :=
    (Dir.now_put_of_ne _ none hne).trans (Dir.now_put ..)
  have hothers : ∀ f, f ≠ c.netFile → s₄.now f = s.now f := by
    intro f hf
    by_cases he : f = tmp
    · rw [he, hgone, hnone]
    · calc s₄.now f
        _ = s₃.now f := (Dir.now_put_of_ne _ none he).trans (Dir.now_put_of_ne _ _ hf)
        _ = s₂.now f := Dir.now_put_of_ne _ _ he
        _ = s₁.now f := Dir.now_put_of_ne _ _ he
        _ = s.now f := Dir.now_put_of_ne _ _ he
  refine ⟨s₄, _, .call (.inl ⟨tmp, rfl, htemp, hnone, hfree, rfl⟩) (.call (.inl ⟨rfl, rfl⟩)
    (.call (.inl ⟨rfl, rfl⟩) (.call (.inl ⟨rfl, rfl⟩) (.call (.inl ⟨_, hthere, rfl, rfl⟩)
      (.refl _ _))))), fun _ => nofun, fun hcsv => ?_, hnow, hothers,
    fun f hf => Function.update_of_ne hf .., rfl, ?_⟩
  · refine .call (x := false) ⟨by rw [hgone]; rfl, rfl⟩ ?_
    show Prog.Steps exec s₄ (c.writeCsv made.1 >>= fun _ => .ret made.2) s₄ _
    rw [ReportsCall.writeCsv, hcsv]
    exact .refl _ _
  · exact Dir.writers_move.trans (if_pos rfl)

end

end

/-! ## Runs that overlap -/

/-- A first run, on the report of one station. -/
def firstCall : ReportsCall where
  netFile := "nets.xlsx".toList
  source := .ok (heardBatch [("A", 1)])
  sortValues := .stable
  cfg := {}
  logCsv := none
  dryRun := false

/-- The temporary file made for a run. -/
def firstTmp (run : Fin 4) : Text :=
  "/tmp".toList ++ "abcd_12".toList ++ [Nat.digitChar run] ++ ".xlsx".toList

theorem isTemp_firstTmp (run : Fin 4) : IsTemp (firstTmp run) :=
  ⟨[], "abcd_12".toList ++ [Nat.digitChar run], rfl, rfl⟩

theorem IsTemp.length_le {f : Text} (h : IsTemp f) : 17 ≤ f.length := by
  obtain ⟨destDir, random, hr, rfl⟩ := h
  simp only [List.length_append, hr]
  have h₁ : "/tmp".toList.length = 4 := by decide
  have h₂ : ".xlsx".toList.length = 5 := by decide
  omega

theorem orderly_first {ι : Type} : Orderly (fun _ : ι => firstCall) fun _ => none where
  netFile _ h := absurd h.length_le (by decide)
  logCsv _ _ h := nomatch h
  apart _ _ _ h := nomatch h
  initial _ := .inl rfl

/-- The report is processed where there is no net workbook. -/
theorem exists_made_first : ∃ made,
    NetBuild.processReports .stable {} none (heardBatch [("A", 1)]) = .ok made := by
  have hok : (NetBuild.processReports .stable {} none (heardBatch [("A", 1)])).map (fun _ => ())
      = .ok () := by decide +kernel
  obtain ⟨made, hp, -⟩ := Except.map_eq_ok_iff.mp hok
  exact ⟨made, hp⟩

/-- Four runs: the first reads before the second has written, and writes after it; the third is
stopped while it writes, and the fourth cannot write. -/
theorem reaches_overlapping : ∃ σ : Sys (Dir (Fin 4)) (Fin 4) _, ∃ out,
    Sys.Reaches exec (fun _ _ => True) (started (fun _ : Fin 4 => firstCall) fun _ => none) σ ∧
      σ.client 0 = .ret (.ok out) ∧ σ.client 1 = .ret (.ok out) ∧
      (∀ o, σ.client 2 ≠ .ret o) ∧ σ.client 3 = .ret (.error .osError) ∧
      σ.store.writers firstCall.netFile = [0, 1] ∧ σ.store.now (firstTmp 2) ≠ none ∧
      ∀ f, σ.store.stuck f = false := by
  obtain ⟨made, hp⟩ := exists_made_first
  have hread (s : Dir (Fin 4)) (i : Fin 4) (h : s.now firstCall.netFile = none) :
      Prog.Steps exec s (processReports i firstCall) s (firstCall.write i made) :=
    @steps_read _ s none firstCall _ made i h rfl hp rfl
  have hne (i : Fin 4) : firstCall.netFile ≠ firstTmp i := orderly_first.ne_netFile
    (isTemp_firstTmp i) () |>.symm
  set s₀ : Dir (Fin 4) := .of fun _ => none
  -- the third run is stopped while it writes
  obtain ⟨q, hstop, hq⟩ := @steps_write_stopped _ s₀ (firstTmp 2) firstCall made 2
    (isTemp_firstTmp 2) rfl rfl
  set s₁ := (s₀.make 2 (firstTmp 2)).put (firstTmp 2) (some (.fragment true))
  have hother₁ (f : Text) (hf : f ≠ firstTmp 2) : s₁.now f = none := Dir.now_make_put 2 _ hf
  have howner₁ (f : Text) (hf : f ≠ firstTmp 2) : s₁.owner f = none :=
    Function.update_of_ne hf ..
  have h₁ := hother₁ _ (hne 2)
  -- the fourth cannot write
  have hfail := @steps_write_failed _ s₁ (firstTmp 3) firstCall made 3 (isTemp_firstTmp 3)
    (hother₁ _ (by decide)) (howner₁ _ (by decide))
  set s₂ := (s₁.make 3 (firstTmp 3)).put (firstTmp 3) none
  have hother₂ (f : Text) (hf : f ≠ firstTmp 3) : s₂.now f = s₁.now f := Dir.now_make_put 3 _ hf
  have hfree₂ (f : Text) (h2 : f ≠ firstTmp 2) (h3 : f ≠ firstTmp 3) :
      s₂.now f = none ∧ s₂.owner f = none :=
    ⟨(hother₂ f h3).trans (hother₁ f h2), (Function.update_of_ne h3 ..).trans (howner₁ f h2)⟩
  have h₂ : s₂.now firstCall.netFile = none := (hother₂ _ (hne 3)).trans h₁
  -- the second is left alone, and the first goes on then
  have hfree := hfree₂ (firstTmp 1) (by decide) (by decide)
  obtain ⟨s₃, q₁, hsteps₁, -, hend₁, -, hnow₃, howner₃, hstuck₃, hwriters₃⟩ :=
    @steps_write_replaced _ s₂ (firstTmp 1) firstCall made 1 (isTemp_firstTmp 1) hfree.1 hfree.2
      (hne 1)
  have hfree := hfree₂ (firstTmp 0) (by decide) (by decide)
  obtain ⟨s₄, q₀, hsteps₀, -, hend₀, -, hnow₄, -, hstuck₄, hwriters₄⟩ :=
    @steps_write_replaced _ s₃ (firstTmp 0) firstCall made 0 (isTemp_firstTmp 0)
      ((hnow₃ _ (hne 0).symm).trans hfree.1) ((howner₃ _ (by decide)).trans hfree.2) (hne 0)
  have hreach : Sys.Reaches exec (fun _ _ => True)
      (started (fun _ : Fin 4 => firstCall) fun _ => none) ⟨s₁, _⟩ :=
    Sys.Reaches.steps .refl 2 ((hread s₀ 2 rfl).trans hstop).attempt
  have hreach := hreach.steps 3 ((hread s₁ 3 h₁).trans hfail).attempt
  have hreach := hreach.steps 0 (hread s₂ 0 h₂).attempt
  have hreach := hreach.steps 1 ((hread s₂ 1 h₂).trans (hsteps₁.trans (hend₁ rfl))).attempt
  have hreach := hreach.steps 0 (hsteps₀.trans (hend₀ rfl)).attempt
  refine ⟨_, made.2, hreach, rfl, rfl, hq, rfl, ?_, ?_, fun f => ?_⟩
  · show s₄.writers firstCall.netFile = _
    rw [hwriters₄, hwriters₃]
    rfl
  · show s₄.now (firstTmp 2) ≠ none
    rw [hnow₄ _ (hne 2).symm, hnow₃ _ (hne 2).symm, hother₂ _ (by decide)]
    show ((s₀.make 2 _).put (firstTmp 2) _).now _ ≠ none
    rw [Dir.now_put]
    exact nofun
  · exact congrFun (hstuck₄.trans hstuck₃) f

/-- The net workbook is as the first of them made it, of the version that the second replaced. -/
theorem net_file_versions_overlapping : ∃ σ : Sys (Dir (Fin 4)) (Fin 4) _,
    Sys.Reaches exec (fun _ _ => True) (started (fun _ : Fin 4 => firstCall) fun _ => none) σ ∧
      (∀ o, σ.client 2 ≠ .ret o) ∧ σ.client 3 = .ret (.error .osError) ∧
      σ.store.writers firstCall.netFile = [0, 1] ∧
      History (fun _ => firstCall) firstCall.netFile none (σ.store.now firstCall.netFile)
        (σ.store.past firstCall.netFile) ∧
      IsBook (σ.store.now firstCall.netFile) := by
  obtain ⟨σ, out, hσ, -, -, hstopped, hfailed, hwriters, -, -⟩ := reaches_overlapping
  obtain ⟨hhist, hbook, -⟩ := net_file_versions orderly_first hσ 0
  exact ⟨σ, hσ, hstopped, hfailed, hwriters, hhist, hbook⟩

/-- The temporary file of the third is there, and no other. -/
theorem ended_runs_clean_up_overlapping : ∃ σ : Sys (Dir (Fin 4)) (Fin 4) _,
    Sys.Reaches exec (fun _ _ => True) (started (fun _ : Fin 4 => firstCall) fun _ => none) σ ∧
      σ.store.now (firstTmp 2) ≠ none ∧ σ.client 3 = .ret (.error .osError) ∧
      ∀ f, f ≠ firstCall.netFile → σ.store.owner f ≠ some 2 → σ.store.now f = none := by
  obtain ⟨σ, out, hσ, h0, h1, -, h3, -, hthere, hstuck⟩ := reaches_overlapping
  refine ⟨σ, hσ, hthere, h3, fun f hf howner => ?_⟩
  rcases ended_runs_clean_up orderly_first hσ f (fun _ => hf) (fun _ => nofun) with
    h | ⟨-, i, hi, hgoing | ⟨hfailed, -⟩⟩
  · exact h
  · match i with
    | 0 => exact absurd h0 (hgoing _)
    | 1 => exact absurd h1 (hgoing _)
    | 2 => exact absurd hi howner
    | 3 => exact absurd h3 (hgoing _)
  · rw [hstuck f] at hfailed
    exact nomatch hfailed

end NetFile

end NetBuild
