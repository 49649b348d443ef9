import NetBuild.CheckpointRuns
import NetBuild.Lib.Fold

/-!
# A complete tag was exported in full

Runs of `checkpoint.sh` and `consolidate-checkpoint.sh` in any interleaving, any of them stopped
anywhere, and several for one node and one tag. What the manifest of a directory has as complete has
been there: for every node expected, the whole tarball that a run exported of that node under that
tag. The node's own snapshot is what keeps two exports of a tag apart, and the hash what tells a
whole tarball from any other.
-/

namespace NetBuild

namespace Backup

open Prog (request lift Pact Upholds upholds_raise upholds_ret upholds_lift_bind upholds_forM
  upholds_foldlM)

/-! ## Names of files -/

theorem eq_of_append_dash {n t n' t' : Text} (ht : '-' ∉ t) (ht' : '-' ∉ t')
    (h : n ++ '-' :: t = n' ++ '-' :: t') : n = n' ∧ t = t' := by
  have key : ∀ {n t n' t' as : Text}, '-' ∉ t → n' = n ++ as → '-' :: t = as ++ '-' :: t' →
      n = n' ∧ t = t' := by
    intro n t n' t' as ht hn hd
    rcases as with _ | ⟨a, as⟩
    · exact ⟨by rw [hn, List.append_nil], (List.cons.inj hd).2⟩
    · refine absurd ?_ ht
      rw [(List.cons.inj hd).2]
      exact List.mem_append_right as List.mem_cons_self
  rcases List.append_eq_append_iff.mp h with ⟨as, hn, hd⟩ | ⟨as, hn, hd⟩
  · exact key ht hn hd
  · obtain ⟨h₁, h₂⟩ := key ht' hn hd
    exact ⟨h₁.symm, h₂.symm⟩

theorem fileName_inj {n n' : Text} {t t' : Tag} {suffix : Text} (ht : '-' ∉ t.1) (ht' : '-' ∉ t'.1)
    (h : fileName n t suffix = fileName n' t' suffix) : n = n' ∧ t = t' := by
  obtain ⟨hn, htag⟩ := eq_of_append_dash ht ht' (List.append_cancel_right h)
  exact ⟨hn, Subtype.ext htag⟩

/-- A watermark file is listed under its own tag only. -/
theorem tag_of_suffix {n : Text} {t t' : Tag} (ht : '-' ∉ t.1) (ht' : '-' ∉ t'.1)
    (h : '-' :: t'.1 ++ ".json".toList <:+ watermarkOf n t) : t' = t := by
  obtain ⟨pre, hpre⟩ := h
  rw [← List.append_assoc] at hpre
  exact Subtype.ext (eq_of_append_dash ht' ht (List.append_cancel_right hpre)).2

/-! ## The scripts that run -/

variable {ι A : Type}

/-- A script somebody runs. -/
inductive Job (A : Type)
  | checkpoint (c : CheckpointCall A)
  | consolidate (p : Place) (arg : Option Text) (now : Tag → Text)

def Job.prog (sha256sum : A → Text) (run : ι) : Job A → Script ι A (Option Tag)
  | .checkpoint c => do
    Backup.checkpoint sha256sum run c
    return none
  | .consolidate p arg now => consolidateCheckpoint sha256sum p arg now

/-- All that a tarball holds at any time. -/
def contents (job : ι → Job A) : Set A :=
  {a | ∃ i c, job i = .checkpoint c ∧ (a ∈ c.exportParts ∨ a = c.whole ∨ a ∈ c.sentParts)}

/-- How the scripts are run: the tags have no dash, no directory that is exported to is copied to,
and no two of the tarballs have one hash. -/
structure Orderly (sha256sum : A → Text) (job : ι → Job A) : Prop where
  tags : ∀ i c, job i = .checkpoint c → '-' ∉ c.tag.1
  dirs : ∀ i j c c' remote, job i = .checkpoint c → job j = .checkpoint c' →
    c'.remote = some remote → c.dir ≠ remote
  hashes : Set.InjOn sha256sum (contents job)

/-! ## What holds of the files -/

namespace Store

/-- The watermark is of a run that exported its node: with the names of its files and the hash of
the whole tarball. -/
structure Certified (sha256sum : A → Text) (s : Store ι A) (f : Text) (w : Watermark) : Prop where
  tag : '-' ∉ w.tag.1
  name : f = watermarkOf w.node w.tag
  tarball : w.tarball = tarballOf w.node w.tag
  hash : ∃ e, (w.node, w.tag, e) ∈ s.exported ∧ w.sha256 = sha256sum e

/-- The directory has held the whole tarball of the node. -/
def Backed (s : Store ι A) (p : Place) (t : Tag) (n : Text) : Prop :=
  ∃ e, (n, t, e) ∈ s.exported ∧ e ∈ s.tarball p (tarballOf n t)

/-- Of every node that a complete entry expects the directory has held the tarball. -/
def Justifies (s : Store ι A) (p : Place) (m : List Checkpoint) : Prop :=
  ∀ c ∈ m, c.complete = true → ∀ n ∈ c.nodesExpected, n ≠ [] → s.Backed p c.tag n

structure Sound (sha256sum : A → Text) (job : ι → Job A) (s : Store ι A) : Prop where
  contents : ∀ p f, ∀ a ∈ s.tarball p f, a ∈ contents job
  exports : ∀ x ∈ s.exported, x.2.2 ∈ Backup.contents job
  watermark : ∀ p f w, s.watermark p f = some (.whole w) → s.Certified sha256sum f w
  manifest : ∀ p m, s.manifest p = some m ∨ s.manifestTmp p = some m → s.Justifies p m

/-- Nothing of what was exported or held is forgotten. -/
structure Grows (s t : Store ι A) : Prop where
  exported : ∀ x ∈ s.exported, x ∈ t.exported
  tarball : ∀ p f, ∀ a ∈ s.tarball p f, a ∈ t.tarball p f

theorem Grows.refl (s : Store ι A) : s.Grows s := ⟨fun _ h => h, fun _ _ _ h => h⟩

theorem Grows.trans {s t u : Store ι A} (h : s.Grows t) (h' : t.Grows u) : s.Grows u :=
  ⟨fun x hx => h'.exported x (h.exported x hx),
    fun p f a ha => h'.tarball p f a (h.tarball p f a ha)⟩

variable {sha256sum : A → Text} {job : ι → Job A} {s t : Store ι A}

theorem Certified.grows {f : Text} {w : Watermark} (h : s.Certified sha256sum f w)
    (hg : s.Grows t) : t.Certified sha256sum f w :=
  ⟨h.tag, h.name, h.tarball, h.hash.imp fun _ he => ⟨hg.exported _ he.1, he.2⟩⟩

theorem Backed.grows {p : Place} {t' : Tag} {n : Text} (h : s.Backed p t' n) (hg : s.Grows t) :
    t.Backed p t' n :=
  h.imp fun _ he => ⟨hg.exported _ he.1, hg.tarball _ _ _ he.2⟩

theorem Justifies.grows {p : Place} {m : List Checkpoint} (h : s.Justifies p m) (hg : s.Grows t) :
    t.Justifies p m := fun c hc hcomp n hn hne => (h c hc hcomp n hn hne).grows hg

theorem mem_putTarball {p p' : Place} {f f' : Text} {a b : A} :
    b ∈ (s.putTarball p f a).tarball p' f' ↔
      (p' = p ∧ f' = f ∧ b = a) ∨ b ∈ s.tarball p' f' := by
  unfold putTarball
  by_cases hp : p' = p
  · subst hp
    by_cases hf : f' = f
    · subst hf
      simp
    · simp [hf]
  · simp [hp]

theorem grows_putTarball (s : Store ι A) (p : Place) (f : Text) (a : A) :
    s.Grows (s.putTarball p f a) :=
  ⟨fun _ h => h, fun _ _ _ h => mem_putTarball.mpr (.inr h)⟩

theorem tarball_putTarball_of_ne {p p' : Place} {f f' : Text} (a : A) (h : p' = p → f' ≠ f) :
    (s.putTarball p f a).tarball p' f' = s.tarball p' f' := by
  unfold putTarball
  by_cases hp : p' = p
  · subst hp
    simp [h rfl]
  · simp [hp]

/-- Tarballs may be written, and exported, without touching the watermarks and the manifests. -/
theorem Sound.of_grows (h : s.Sound sha256sum job) (hg : s.Grows t)
    (hw : t.watermark = s.watermark) (hm : t.manifest = s.manifest)
    (htmp : t.manifestTmp = s.manifestTmp)
    (hc : ∀ p f, ∀ a ∈ t.tarball p f, a ∈ Backup.contents job)
    (he : ∀ x ∈ t.exported, x.2.2 ∈ Backup.contents job) : t.Sound sha256sum job where
  contents := hc
  exports := he
  watermark p f w hfile := (h.watermark p f w (hw ▸ hfile)).grows hg
  manifest p m hm' := (h.manifest p m (by rwa [hm, htmp] at hm')).grows hg

theorem Sound.putTarball (h : s.Sound sha256sum job) (p : Place) (f : Text) {a : A}
    (ha : a ∈ Backup.contents job) : (s.putTarball p f a).Sound sha256sum job :=
  h.of_grows (s.grows_putTarball p f a) rfl rfl rfl
    (fun p' f' b hb => (mem_putTarball.mp hb).elim (fun hb => hb.2.2 ▸ ha) (h.contents p' f' b))
    h.exports

theorem Sound.putSnapshot (h : s.Sound sha256sum job) (node : Text) (tag : Tag) (run : Option ι) :
    (s.putSnapshot node tag run).Sound sha256sum job :=
  h.of_grows ⟨fun _ h => h, fun _ _ _ h => h⟩ rfl rfl rfl h.contents h.exports

theorem Sound.putWatermark (h : s.Sound sha256sum job) (p : Place) (f : Text)
    {json : Json} (hj : ∀ w, json = .whole w → s.Certified sha256sum f w) :
    (s.putWatermark p f json).Sound sha256sum job where
  contents := h.contents
  exports := h.exports
  watermark p' f' w hw := by
    have hold : s.Certified sha256sum f' w → (s.putWatermark p f json).Certified sha256sum f' w :=
      fun h => h.grows ⟨fun _ h => h, fun _ _ _ h => h⟩
    unfold Store.putWatermark at hw
    dsimp only at hw
    by_cases hp : p' = p
    · subst hp
      rw [Function.update_self, Table.upsert_apply] at hw
      split at hw
      · next hf =>
        subst hf
        exact hold (hj w (Option.some.inj hw))
      · exact hold (h.watermark p' f' w hw)
    · rw [Function.update_of_ne hp] at hw
      exact hold (h.watermark p' f' w hw)
  manifest := h.manifest

theorem Sound.putManifest (h : s.Sound sha256sum job) (p : Place) {m : List Checkpoint}
    (hm : s.Justifies p m) : (s.putManifest p m).Sound sha256sum job where
  contents := h.contents
  exports := h.exports
  watermark p f w hw := (h.watermark p f w hw).grows ⟨fun _ h => h, fun _ _ _ h => h⟩
  manifest p' m' hm' := by
    rcases hm' with hm' | hm'
    · unfold Store.putManifest at hm'
      dsimp only at hm'
      by_cases hp : p' = p
      · subst hp
        rw [Function.update_self] at hm'
        obtain rfl := Option.some.inj hm'
        exact hm
      · rw [Function.update_of_ne hp] at hm'
        exact h.manifest p' m' (.inl hm')
    · exact h.manifest p' m' (.inr hm')

theorem Sound.putManifestTmp (h : s.Sound sha256sum job) (p : Place)
    {tmp : Option (List Checkpoint)}
    (hm : ∀ m, tmp = some m → s.Justifies p m) : (s.putManifestTmp p tmp).Sound sha256sum job where
  contents := h.contents
  exports := h.exports
  watermark p f w hw := (h.watermark p f w hw).grows ⟨fun _ h => h, fun _ _ _ h => h⟩
  manifest p' m' hm' := by
    rcases hm' with hm' | hm'
    · exact h.manifest p' m' (.inl hm')
    · unfold Store.putManifestTmp at hm'
      dsimp only at hm'
      by_cases hp : p' = p
      · subst hp
        rw [Function.update_self] at hm'
        exact hm m' hm'
      · rw [Function.update_of_ne hp] at hm'
        exact h.manifest p' m' (.inr hm')

end Store

/-! ## What the runs rely on -/

/-- The run holds the snapshot of its node. -/
def Holds (c : CheckpointCall A) (run : ι) (s : Store ι A) : Prop :=
  s.snapshot c.node c.tag = some run

/-- Nothing that was exported or held is forgotten, and nobody else exports a node while its
snapshot is held. -/
def pact (sha256sum : A → Text) (job : ι → Job A) : Pact (Store ι A) ι where
  inv s := s.Sound sha256sum job
  rely i s t := s.Grows t ∧ ∀ c, job i = .checkpoint c → Holds c i s →
    Holds c i t ∧
      t.tarball c.dir (tarballOf c.node c.tag) = s.tarball c.dir (tarballOf c.node c.tag)
  refl _ s := ⟨.refl s, fun _ _ h => ⟨h, rfl⟩⟩
  trans _ _ _ _ h h' := ⟨h.1.trans h'.1, fun c hc hs =>
    have ht := h.2 c hc hs
    have hu := h'.2 c hc ht.1
    ⟨hu.1, hu.2.trans ht.2⟩⟩

section
variable {sha256sum : A → Text} {job : ι → Job A} {i j : ι} {s t : Store ι A}

/-- A command that leaves snapshots and tarballs as they are is within what all rely on. -/
theorem rely_of_eq (hs : t.snapshot = s.snapshot) (he : t.exported = s.exported)
    (ht : t.tarball = s.tarball) : (pact sha256sum job).rely j s t := by
  refine ⟨⟨fun x hx => he ▸ hx, fun p f a ha => ht ▸ ha⟩, fun c _ hc => ⟨?_, by rw [ht]⟩⟩
  unfold Holds
  rw [hs]
  exact hc

/-- The holder of a snapshot writes its tarball, and takes nothing from another holder. -/
theorem rely_of_export (ho : Orderly sha256sum job) {c : CheckpointCall A}
    (hi : job i = .checkpoint c) (hold : Holds c i s) (hj : j ≠ i) (hsnap : t.snapshot = s.snapshot)
    (hg : s.Grows t)
    (ht : ∀ p f, (p = c.dir → f ≠ tarballOf c.node c.tag) → t.tarball p f = s.tarball p f) :
    (pact sha256sum job).rely j s t := by
  refine ⟨hg, fun c' hc' hold' => ⟨?_, ht _ _ fun _ hf => ?_⟩⟩
  · unfold Holds
    rw [hsnap]
    exact hold'
  · -- one name is one node and one tag, whose snapshot has one holder
    obtain ⟨hn, htag⟩ := fileName_inj (ho.tags j c' hc') (ho.tags i c hi) hf
    unfold Holds at hold hold'
    rw [hn, htag, hold] at hold'
    exact hj (Option.some.inj hold').symm

/-- A copy goes to a directory nobody exports to. -/
theorem rely_of_copy (ho : Orderly sha256sum job) {c : CheckpointCall A} {remote : Place}
    (hi : job i = .checkpoint c) (hr : c.remote = some remote) (f : Text) (a : A) :
    (pact sha256sum job).rely j s (s.putTarball remote f a) :=
  ⟨s.grows_putTarball remote f a, fun c' hc' hold => ⟨hold,
    Store.tarball_putTarball_of_ne a fun hp => absurd hp (ho.dirs j i c' c remote hc' hi hr)⟩⟩

/-- The holder of a snapshot clears it. -/
theorem rely_of_clear {c : CheckpointCall A} (hold : Holds c i s) (hj : j ≠ i) :
    (pact sha256sum job).rely j s (s.putSnapshot c.node c.tag none) := by
  refine ⟨⟨fun _ h => h, fun _ _ _ h => h⟩, fun c' _ hold' => ⟨?_, rfl⟩⟩
  unfold Holds Store.putSnapshot at *
  dsimp only
  by_cases hn : c'.node = c.node
  · by_cases ht : c'.tag = c.tag
    · rw [hn, ht, hold] at hold'
      exact absurd (Option.some.inj hold').symm hj
    · rw [hn, Function.update_self, Function.update_of_ne ht, ← hn]
      exact hold'
  · rw [Function.update_of_ne hn]
    exact hold'

/-- A snapshot is taken where there is none. -/
theorem rely_of_snapshot {c : CheckpointCall A} (hnone : s.snapshot c.node c.tag = none) :
    (pact sha256sum job).rely j s (s.putSnapshot c.node c.tag (some i)) := by
  refine ⟨⟨fun _ h => h, fun _ _ _ h => h⟩, fun c' _ hold' => ⟨?_, rfl⟩⟩
  unfold Holds Store.putSnapshot at *
  dsimp only
  by_cases hn : c'.node = c.node
  · by_cases ht : c'.tag = c.tag
    · rw [hn, ht, hnone] at hold'
      exact nomatch hold'
    · rw [hn, Function.update_self, Function.update_of_ne ht, ← hn]
      exact hold'
  · rw [Function.update_of_ne hn]
    exact hold'

/-! ## Single commands -/

section
variable {β : Type} {Q : β → Store ι A → Prop}

theorem upholds_readTarball {P : Pact (Store ι A) ι} {p : Place} {f : Text}
    {k : Option A → Script ι A β}
    (hk : ∀ t, P.rely i s t → P.inv t → (k (t.tarball p f).head?).Upholds exec P i Q t) :
    (request (Req.readTarball p f) >>= k).Upholds exec P i Q s := by
  intro t ht hinv x t' hex
  obtain ⟨rfl, rfl⟩ : x = (t.tarball p f).head? ∧ t' = t := hex
  exact ⟨hinv, fun j _ => P.refl j _, hk _ ht hinv⟩

theorem upholds_readWatermark {P : Pact (Store ι A) ι} {p : Place} {f : Text}
    {k : Option Json → Script ι A β}
    (hk : ∀ t, P.rely i s t → P.inv t → (k (t.watermark p f)).Upholds exec P i Q t) :
    (request (Req.readWatermark p f) >>= k).Upholds exec P i Q s := by
  intro t ht hinv x t' hex
  obtain ⟨rfl, rfl⟩ : x = t.watermark p f ∧ t' = t := hex
  exact ⟨hinv, fun j _ => P.refl j _, hk _ ht hinv⟩

theorem upholds_writeWatermark {p : Place} {f : Text} {json : Json}
    {k : Unit → Script ι A β}
    (hj : ∀ t, s.Grows t → ∀ w, json = .whole w → t.Certified sha256sum f w)
    (hk : ∀ t, (pact sha256sum job).rely i s t →
      (k ()).Upholds exec (pact sha256sum job) i Q (t.putWatermark p f json)) :
    (request (Req.writeWatermark p f json) >>= k).Upholds exec (pact sha256sum job) i Q s := by
  intro t ht hinv x t' hex
  obtain rfl : t' = t.putWatermark p f json := hex
  exact ⟨Store.Sound.putWatermark hinv p f (hj t ht.1), fun j _ => rely_of_eq rfl rfl rfl, hk t ht⟩

end

/-! ## `checkpoint.sh` -/

/-- The copies that are made of a run's files. -/
theorem upholds_scp (ho : Orderly sha256sum job) {c : CheckpointCall A} {remote : Place}
    (hi : job i = .checkpoint c) (hr : c.remote = some remote) (s : Store ι A) :
    (scp c remote).Upholds exec (pact sha256sum job) i (fun _ _ => True) s := by
  have hwrite : ∀ a ∈ contents job, ∀ s : Store ι A,
      (request (Req.writeTarball remote (tarballOf c.node c.tag) a) : Script ι A Unit).Upholds exec
        (pact sha256sum job) i (fun _ _ => True) s := by
    intro a ha s t ht hinv x t' hex
    obtain rfl : t' = t.putTarball remote (tarballOf c.node c.tag) a := hex
    exact ⟨Store.Sound.putTarball hinv _ _ ha, fun j _ => rely_of_copy ho hi hr _ a,
      fun _ _ _ => trivial⟩
  refine upholds_readTarball fun t ht hinv => upholds_lift_bind fun bytes hb => ?_
  have hbytes : bytes ∈ contents job :=
    hinv.contents _ _ bytes (List.mem_of_head? (orFail_eq_ok_iff.mp hb))
  refine (upholds_forM (fun _ _ _ _ => trivial) (fun a ha s _ _ => ?_) hinv
    trivial).bind hinv fun _ u hu _ => (hwrite bytes hbytes u).bind hu fun _ v hv _ => ?_
  · exact hwrite a ⟨i, c, hi, .inr (.inr ha)⟩ s
  -- the watermark is one of this node and tag, whichever run wrote it
  refine upholds_readWatermark fun w hw hinvw => upholds_lift_bind fun json hjson => ?_
  have hcert : ∀ u, w.Grows u → ∀ wm, json = .whole wm →
      u.Certified sha256sum (watermarkOf c.node c.tag) wm := fun u hu wm hwm =>
    (hinvw.watermark _ _ wm (hwm ▸ orFail_eq_ok_iff.mp hjson)).grows hu
  refine upholds_writeWatermark (fun _ _ wm hwm => nomatch hwm) fun u hu => ?_
  have hgrows : w.Grows (u.putWatermark remote (watermarkOf c.node c.tag) .empty) :=
    hu.1.trans ⟨fun _ h => h, fun _ _ _ h => h⟩
  refine upholds_writeWatermark (fun _ _ wm hwm => nomatch hwm) fun v hv => ?_
  have hgrows : w.Grows (v.putWatermark remote (watermarkOf c.node c.tag) .part) :=
    (hgrows.trans hv.1).trans ⟨fun _ h => h, fun _ _ _ h => h⟩
  exact upholds_writeWatermark (k := fun _ => .ret ()) (fun t ht => hcert t (hgrows.trans ht))
    fun t ht => fun _ _ _ => trivial

/-- A run of `checkpoint.sh`: from its snapshot to the clearing of it, nobody else writes the
tarball that the watermark is made of. -/
theorem upholds_checkpoint (ho : Orderly sha256sum job) {c : CheckpointCall A}
    (hi : job i = .checkpoint c) (s : Store ι A) :
    (checkpoint sha256sum i c).Upholds exec (pact sha256sum job) i (fun _ _ => True) s := by
  have hexported : c.whole ∈ contents job := ⟨i, c, hi, .inr (.inl rfl)⟩
  intro s₀ hs₀ hinv₀ ok s₁ hex
  rcases hex with ⟨rfl, hnone, rfl⟩ | ⟨rfl, rfl⟩
  swap
  · exact ⟨hinv₀, fun j _ => (pact sha256sum job).refl j _, trivial⟩
  refine ⟨Store.Sound.putSnapshot hinv₀ _ _ _, fun j _ => rely_of_snapshot hnone, ?_⟩
  have hold : Holds c i (s₀.apply (.snapshot c.node c.tag i)) := by
    simp [Holds, Store.apply, Store.putSnapshot]
  -- the export
  refine (upholds_forM (L := Holds c i) (fun u v huv hu => (huv.2 c hi hu).1)
    (fun a ha u _ hu => ?_) (Store.Sound.putSnapshot hinv₀ _ _ _) hold).bind
    (Store.Sound.putSnapshot hinv₀ _ _ _) fun _ s₂ hinv₂ hold₂ => ?_
  · intro t ht hinv x t' hex
    obtain rfl : t' = t.putTarball c.dir (tarballOf c.node c.tag) a := hex
    have holdt := (ht.2 c hi hu).1
    refine ⟨Store.Sound.putTarball hinv _ _ ⟨i, c, hi, .inl ha⟩, fun j hj => ?_,
      fun t'' ht'' _ => ?_⟩
    · exact rely_of_export ho hi holdt hj rfl (t.grows_putTarball _ _ _)
        fun p f h => Store.tarball_putTarball_of_ne a h
    · exact (ht''.2 c hi holdt).1
  intro s₃ hs₃ hinv₃ _ s₄ hex
  obtain rfl : s₄ = s₃.apply (.exportTarball c.dir c.node c.tag c.whole) := hex
  have hold₃ := (hs₃.2 c hi hold₂).1
  set s₄ := s₃.apply (.exportTarball c.dir c.node c.tag c.whole) with hs₄
  have hgrows : s₃.Grows s₄ :=
    ⟨fun x hx => List.mem_cons_of_mem _ hx, (s₃.grows_putTarball _ _ _).tarball⟩
  have hinv₄ : s₄.Sound sha256sum job := by
    have hput : (s₃.putTarball c.dir (tarballOf c.node c.tag) c.whole).Sound sha256sum job :=
      Store.Sound.putTarball hinv₃ _ _ hexported
    exact Store.Sound.of_grows hinv₃ hgrows rfl rfl rfl hput.contents
      (List.forall_mem_cons.mpr ⟨hexported, hinv₃.exports⟩)
  have hold₄ : Holds c i s₄ := hold₃
  have hwhole : (c.node, c.tag, c.whole) ∈ s₄.exported := List.mem_cons_self
  have hhead : (s₄.tarball c.dir (tarballOf c.node c.tag)).head? = some c.whole := by
    simp [hs₄, Store.apply, Store.putTarball]
  refine ⟨hinv₄, fun j hj => rely_of_export ho hi hold₃ hj rfl hgrows
    fun p f h => Store.tarball_putTarball_of_ne c.whole h, ?_⟩
  -- what is hashed is what was exported
  refine upholds_readTarball fun s₅ hs₅ hinv₅ => upholds_lift_bind fun bytes hb => ?_
  obtain ⟨hold₅, hsame⟩ := hs₅.2 c hi hold₄
  rw [orFail_eq_ok_iff, hsame, hhead] at hb
  obtain rfl := Option.some.inj hb
  refine upholds_writeWatermark (fun _ _ w hw => nomatch hw) fun s₆ hs₆ => ?_
  have hold₆ : Holds c i (s₆.putWatermark c.dir (watermarkOf c.node c.tag) .empty) :=
    (hs₆.2 c hi hold₅).1
  have hgrows₆ : s₄.Grows (s₆.putWatermark c.dir (watermarkOf c.node c.tag) .empty) :=
    (hs₅.1.trans hs₆.1).trans ⟨fun _ h => h, fun _ _ _ h => h⟩
  refine upholds_writeWatermark (fun _ _ w hw => nomatch hw) fun s₇ hs₇ => ?_
  have hold₇ : Holds c i (s₇.putWatermark c.dir (watermarkOf c.node c.tag) .part) :=
    (hs₇.2 c hi hold₆).1
  have hgrows₇ : s₄.Grows (s₇.putWatermark c.dir (watermarkOf c.node c.tag) .part) :=
    (hgrows₆.trans hs₇.1).trans ⟨fun _ h => h, fun _ _ _ h => h⟩
  refine upholds_writeWatermark (fun t ht w hw => ?_) fun s₈ hs₈ => ?_
  · rw [← Json.whole.inj hw]
    exact ⟨ho.tags i c hi, rfl, rfl, c.whole, (hgrows₇.trans ht).exported _ hwhole, rfl⟩
  have hold₈ : Holds c i (s₈.putWatermark c.dir (watermarkOf c.node c.tag)
      (.whole (c.watermark (sha256sum c.whole)))) := (hs₈.2 c hi hold₇).1
  intro s₉ hs₉ hinv₉ _ s₁₀ hex
  obtain rfl : s₁₀ = s₉.putSnapshot c.node c.tag none := hex
  refine ⟨Store.Sound.putSnapshot hinv₉ _ _ _,
    fun j hj => rely_of_clear (hs₉.2 c hi hold₈).1 hj, ?_⟩
  show (c.send : Script ι A Unit).Upholds exec _ i _ _
  unfold CheckpointCall.send
  rcases hr : c.remote with _ | remote
  · exact fun _ _ _ => trivial
  · exact upholds_scp ho hi hr _

/-! ## `consolidate-checkpoint.sh` -/

theorem upholds_jqField {β : Type} {Q : β → Store ι A → Prop} {p : Place} {f : Text}
    {field : Watermark → Text} {k : Option Text → Script ι A β}
    (hk : ∀ t x, (pact sha256sum job).rely i s t → t.Sound sha256sum job →
      (∀ w, x = some w → t.Certified sha256sum f w) →
      (k (x.map field)).Upholds exec (pact sha256sum job) i Q t) :
    (jqField p f field >>= k).Upholds exec (pact sha256sum job) i Q s := by
  unfold jqField
  rw [Prog.bind_assoc']
  refine upholds_readWatermark fun t ht hinv => ?_
  rw [Prog.bind_assoc']
  refine upholds_lift_bind fun json hjson => ?_
  rw [Prog.bind_assoc']
  refine upholds_lift_bind fun x hx => hk t x ht hinv fun w hw => ?_
  rw [orFail_eq_ok_iff] at hjson
  exact hinv.watermark p f w (hjson.trans (congrArg some (Json.jq_eq_some_iff.mp (hw ▸ hx))))

/-- The nodes scanned so far are backed, but for the empty name of a file that was empty. -/
def Scanned (p : Place) (t : Tag) (scanned : Text × Bool) (s : Store ι A) : Prop :=
  ∃ nodes : List Text, scanned.1 = nodes.foldl addNode [] ∧
    ∀ n ∈ nodes, ',' ∉ n ∧ (n ≠ [] → s.Backed p t n)

theorem Scanned.grows {p : Place} {t' : Tag} {scanned : Text × Bool} (h : Scanned p t' scanned s)
    (hg : s.Grows t) : Scanned p t' scanned t :=
  h.imp fun _ hn => ⟨hn.1, fun n hm => ⟨(hn.2 n hm).1, fun hne => ((hn.2 n hm).2 hne).grows hg⟩⟩

/-- A round counts a node whose tarball it has found whole. -/
theorem upholds_scanFile (ho : Orderly sha256sum job) {p : Place} {t' : Tag} {f : Text}
    (ht' : '-' ∉ t'.1) (hf : '-' :: t'.1 ++ ".json".toList <:+ f) (scanned : Text × Bool)
    (hs : Scanned p t' scanned s) :
    (scanFile sha256sum p scanned f).Upholds exec (pact sha256sum job) i (Scanned p t') s := by
  refine upholds_jqField fun s₁ x₁ h₁ _ hc₁ => upholds_jqField fun s₂ x₂ h₂ _ hc₂ =>
    upholds_jqField fun s₃ x₃ h₃ hinv₃ hc₃ => ?_
  have hs₃ := ((hs.grows h₁.1).grows h₂.1).grows h₃.1
  have hstay : ∀ (u : Store ι A) acc, Scanned p t' acc u →
      (.ret acc : Script ι A _).Upholds exec (pact sha256sum job) i (Scanned p t') u :=
    fun _ acc h => upholds_ret fun u hu _ => h.grows hu.1
  rcases x₂ with _ | w₂
  · exact hstay s₃ (scanned.1, false) hs₃
  refine upholds_readTarball fun s₄ h₄ hinv₄ => ?_
  have hs₄ := hs₃.grows h₄.1
  rcases hread : (s₄.tarball p w₂.tarball).head? with _ | bytes
  · exact hstay s₄ (scanned.1, false) hs₄
  dsimp only
  split
  swap
  · exact hstay s₄ (scanned.1, false) hs₄
  next hsum =>
    refine hstay s₄ _ ?_
    obtain ⟨w₃, rfl, hhash₃⟩ := Option.map_eq_some_iff.mp hsum
    obtain ⟨nodes, hfold, hnodes⟩ := hs₄
    rcases x₁ with _ | w₁
    · refine ⟨nodes ++ [[]], ?_, List.forall_mem_append.mpr ⟨hnodes, fun n hn => ?_⟩⟩
      · rw [List.foldl_append, ← hfold]
        rfl
      · rw [List.mem_singleton.mp hn]
        exact ⟨List.not_mem_nil, fun h => absurd rfl h⟩
    -- the file was that of one node and one tag each time it was read
    have hc₁ := hc₁ w₁ rfl
    have hc₂ := hc₂ w₂ rfl
    have hc₃ := hc₃ w₃ rfl
    obtain ⟨hn₂, htag₂⟩ := fileName_inj hc₂.tag hc₁.tag (hc₂.name.symm.trans hc₁.name)
    obtain ⟨hn₃, htag₃⟩ := fileName_inj hc₃.tag hc₁.tag (hc₃.name.symm.trans hc₁.name)
    have htag₁ : t' = w₁.tag := tag_of_suffix hc₁.tag ht' (hc₁.name ▸ hf)
    obtain ⟨e, he, hhash⟩ := hc₃.hash
    have hmem := List.mem_of_head? hread
    have hbytes : bytes = e := ho.hashes (hinv₄.contents _ _ _ hmem) (hinv₃.exports _ he)
      (hhash₃.symm.trans hhash)
    rw [hbytes, hc₂.tarball, hn₂, htag₂, ← htag₁] at hmem
    rw [hn₃, htag₃, ← htag₁] at he
    refine ⟨nodes ++ [w₁.node], ?_, List.forall_mem_append.mpr ⟨hnodes, fun n hn => ?_⟩⟩
    · rw [List.foldl_append, ← hfold]
      rfl
    · rw [List.mem_singleton.mp hn]
      exact ⟨w₁.node_comma, fun _ => ⟨e, h₄.1.exported _ he, hmem⟩⟩

theorem mem_readArray {s n : Text} (h : n ∈ s.splitOn ',') (hne : n ≠ []) : n ∈ readArray s := by
  unfold readArray
  dsimp only
  split
  · next hlast =>
    rw [← List.dropLast_append_getLast? _ hlast] at h
    exact (List.mem_append.mp h).resolve_right fun h => hne (List.mem_singleton.mp h)
  · exact h

/-- The entry written for a tag is complete only where the nodes expected are backed. -/
theorem backed_of_entryOf {p : Place} {t' : Tag} {scanned : Text × Bool} {expected now : Text}
    (hs : Scanned p t' scanned s) (hc : (entryOf expected now t' scanned).complete = true)
    {n : Text}
    (hn : n ∈ (entryOf expected now t' scanned).nodesExpected) (hne : n ≠ []) :
    s.Backed p t' n := by
  obtain ⟨nodes, hfold, hnodes⟩ := hs
  have hmem := mem_readArray hn hne
  have hpresent := List.all_eq_true.mp (Bool.and_eq_true_iff.mp hc).1 n hmem
  rw [isPresent_iff (comma_notMem_of_mem_readArray hmem), hfold,
    mem_splitOn_foldl_addNode fun m hm => (hnodes m hm).1] at hpresent
  rcases hpresent with hdrop | ⟨hnil, -⟩
  · exact (hnodes n (List.dropWhile_subset _ hdrop)).2 hne
  · exact absurd hnil hne

/-- What is moved has been written by a consolidation of the directory, whichever it was. -/
theorem upholds_moveManifestTmp {p : Place} (s : Store ι A) :
    (request (Req.moveManifestTmp p) >>= fun (ok : Bool) =>
      if ok = false then .raise .noSuchFile else return () : Script ι A Unit).Upholds exec
        (pact sha256sum job) i (fun _ _ => True) s := by
  intro t _ hinv ok t' hex
  rcases hex with ⟨m, rfl, hm, rfl⟩ | ⟨rfl, -, rfl⟩
  · refine ⟨?_, fun j _ => rely_of_eq rfl rfl rfl, fun _ _ _ => trivial⟩
    have hjust : t.Justifies p m := hinv.manifest p m (.inr hm)
    have hnone : (t.putManifestTmp p none).Sound sha256sum job :=
      Store.Sound.putManifestTmp hinv p fun _ => nofun
    exact hnone.putManifest p (hjust.grows ⟨fun _ h => h, fun _ _ _ h => h⟩)
  · exact ⟨hinv, fun j _ => (pact sha256sum job).refl j _, trivial⟩

theorem upholds_consolidateTag (ho : Orderly sha256sum job) {p : Place} {t' : Tag}
    (ht' : '-' ∉ t'.1) (expected now : Text) (s : Store ι A) :
    (consolidateTag sha256sum p expected now t').Upholds exec (pact sha256sum job) i
      (fun _ _ => True) s := by
  intro s₁ _ hinv₁ files s₂ hex
  obtain ⟨-, -, rfl⟩ := hex
  refine ⟨hinv₁, fun j _ => (pact sha256sum job).refl j _, ?_⟩
  have hgrows : ∀ acc (u v : Store ι A), (pact sha256sum job).rely i u v → Scanned p t' acc u →
      Scanned p t' acc v := fun _ _ _ h hL => hL.grows h.1
  refine (upholds_foldlM hgrows (fun f hf acc u _ hL => upholds_scanFile ho ht' ?_ acc hL) hinv₁
    ⟨[], rfl, nofun⟩).bind hinv₁ fun scanned s₃ hinv₃ hscan => ?_
  · exact of_decide_eq_true (List.mem_filter.mp hf).2
  intro s₄ hs₄ hinv₄ manifest s₅ hex
  obtain ⟨rfl, rfl⟩ : manifest = s₄.manifest p ∧ s₅ = s₄ := hex
  refine ⟨hinv₄, fun j _ => (pact sha256sum job).refl j _, upholds_lift_bind fun m hm => ?_⟩
  rw [orFail_eq_ok_iff] at hm
  intro s₆ hs₆ hinv₆ _ s₇ hex
  obtain rfl : s₇ = s₆.putManifestTmp p _ := hex
  refine ⟨Store.Sound.putManifestTmp hinv₆ p fun m' hm' c hc hcomp n hn hne => ?_,
    fun j _ => rely_of_eq rfl rfl rfl, upholds_moveManifestTmp _⟩
  obtain rfl := Option.some.inj hm'
  rcases List.mem_append.mp hc with hold | hnew
  · exact (hinv₄.manifest p m (.inl hm) c (List.mem_of_mem_filter hold) hcomp n hn hne).grows hs₆.1
  · obtain rfl := List.mem_singleton.mp hnew
    exact backed_of_entryOf ((hscan.grows hs₄.1).grows hs₆.1) hcomp hn hne

/-- The tags gone through are those of watermarks, or that of the manifest. -/
theorem tags_dashless {p : Place} {files : List (Text × Json)} {tags : List Tag}
    (hs : s.Sound sha256sum job) (hfiles : Table.Enumerates files (s.watermark p))
    (h : tagsOf files = .ok tags) : ∀ t ∈ tags, '-' ∉ t.1 := by
  obtain ⟨wms, hwms, h⟩ := Except.bind_eq_ok_iff.mp h
  obtain rfl := Except.ok.inj h
  intro t ht
  rw [(List.perm_insertionSort _ _).mem_iff, List.mem_dedup, List.mem_cons] at ht
  rcases ht with rfl | ht
  · decide
  · obtain ⟨w, hm, rfl⟩ := List.mem_map.mp ht
    obtain ⟨⟨f, json⟩, hfile, hr⟩ :=
      (Except.mapM_eq_ok_iff.mp hwms).exists_of_mem_right (List.reduceOption_mem_iff.mp hm)
    obtain rfl := Json.jq_eq_some_iff.mp hr
    exact (hs.watermark p f w ((hfiles.mem_iff f _).mp hfile)).tag

theorem upholds_createManifest (p : Place) (s : Store ι A) :
    (createManifest p).Upholds exec (pact sha256sum job) i (fun _ _ => True) s := by
  intro s₁ _ hinv₁ manifest s₂ hex
  obtain ⟨rfl, rfl⟩ : manifest = s₁.manifest p ∧ s₂ = s₁ := hex
  refine ⟨hinv₁, fun j _ => (pact sha256sum job).refl j _, ?_⟩
  show (if s₂.manifest p = none then request (Req.writeManifest p [])
    else return () : Script ι A Unit).Upholds exec _ i _ s₂
  split
  · intro t _ hinv _ t' hex
    obtain rfl : t' = t.putManifest p [] := hex
    exact ⟨Store.Sound.putManifest hinv p nofun, fun j _ => rely_of_eq rfl rfl rfl,
      fun _ _ _ => trivial⟩
  · exact fun _ _ _ => trivial

theorem upholds_consolidateCheckpoint (ho : Orderly sha256sum job) (p : Place)
    (arg : Option Text) (now : Tag → Text) (hs : s.Sound sha256sum job) :
    (consolidateCheckpoint sha256sum p arg now).Upholds exec (pact sha256sum job) i
      (fun _ _ => True) s := by
  refine (upholds_createManifest p s).bind hs fun _ s₁ _ _ => ?_
  intro s₂ _ hinv₂ files s₃ hex
  obtain ⟨hfiles, -, rfl⟩ := hex
  refine ⟨hinv₂, fun j _ => (pact sha256sum job).refl j _, upholds_lift_bind fun tags htags => ?_⟩
  refine (upholds_forM (L := fun _ => True) (fun _ _ _ _ => trivial) (fun t ht u _ _ => ?_) hinv₂
    trivial).bind hinv₂ fun _ s₄ _ _ => ?_
  · exact upholds_consolidateTag ho (tags_dashless hinv₂ hfiles htags t ht) _ _ u
  intro s₅ _ hinv₅ manifest s₆ hex
  obtain ⟨rfl, rfl⟩ : manifest = s₅.manifest p ∧ s₆ = s₅ := hex
  exact ⟨hinv₅, fun j _ => (pact sha256sum job).refl j _,
    upholds_lift_bind fun _ _ => fun _ _ _ => trivial⟩

/-! ## Any interleaving -/

/-- The hosts before anything was backed up. -/
def Store.blank : Store ι A where
  snapshot _ _ := none
  exported := []
  tarball _ _ := []
  watermark _ := Table.empty
  manifest _ := none
  manifestTmp _ := none

theorem sound_blank : (Store.blank : Store ι A).Sound sha256sum job where
  contents _ _ _ h := absurd h List.not_mem_nil
  exports _ h := absurd h List.not_mem_nil
  watermark _ _ _ h := nomatch h
  manifest _ _ h := h.elim nofun nofun

/-- Every script, about to start. -/
def started (sha256sum : A → Text) (job : ι → Job A) :
    Sys (Store ι A) ι (Script ι A (Option Tag)) :=
  ⟨.blank, fun i => (job i).prog sha256sum i⟩

theorem upholds_started (ho : Orderly sha256sum job) :
    (started sha256sum job).Upholds exec (pact sha256sum job) fun _ _ _ => True := by
  refine ⟨sound_blank, fun i => ?_⟩
  show ((job i).prog sha256sum i).Upholds exec _ i _ Store.blank
  rcases hi : job i with c | ⟨p, arg, now⟩
  · exact (upholds_checkpoint ho hi _).bind sound_blank fun _ _ _ _ => fun _ _ _ => trivial
  · exact upholds_consolidateCheckpoint ho p arg now sound_blank

/-- In every interleaving, with every script stopped anywhere: where a directory has a tag as
complete, it has held, of every node expected, a tarball that was exported in full of that node
under that tag. -/
theorem complete_was_exported [DecidableEq ι] (ho : Orderly sha256sum job)
    {σ : Sys (Store ι A) ι (Script ι A (Option Tag))}
    (h : Sys.Reaches exec (fun _ _ => True) (started sha256sum job) σ) (p : Place)
    (m : List Checkpoint) (hm : σ.store.manifest p = some m) :
    ∀ c ∈ m, c.complete = true → ∀ n ∈ c.nodesExpected, n ≠ [] → σ.store.Backed p c.tag n :=
  (h.upholds (upholds_started ho)).1.manifest p m (.inl hm)

end

end Backup

end NetBuild
