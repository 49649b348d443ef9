import NetBuild.CheckpointSafety
import NetBuild.VerifyRestore

/-!
# A tag that has arrived is found complete

`consolidate-checkpoint.sh` alone on a directory, command by command, is `consolidate`. Where every
run for a tag has come to its end, whatever else went on meanwhile, it finds the tag complete.
-/

namespace NetBuild

namespace Backup

open Prog (request lift Run Pact Upholds upholds_lift_bind upholds_forM run_bind_iff run_ret_iff
  run_call_iff)

variable {ι A : Type} {sha256sum : A → Text} {s s' : Store ι A} {p : Place}

/-! ## The script alone -/

theorem run_readWatermark_iff {α : Type} {f : Text} {k : Option Json → Script ι A α}
    {o : Except ScriptError α} :
    Run exec s (request (Req.readWatermark p f) >>= k) s' o ↔
      Run exec s (k (s.watermark p f)) s' o := by
  refine run_call_iff.trans ⟨fun ⟨x, t, hex, hk⟩ => ?_, fun h => ⟨_, s, ⟨rfl, rfl⟩, h⟩⟩
  obtain ⟨rfl, rfl⟩ : x = s.watermark p f ∧ t = s := hex
  exact hk

theorem run_readTarball_iff {α : Type} {f : Text} {k : Option A → Script ι A α}
    {o : Except ScriptError α} :
    Run exec s (request (Req.readTarball p f) >>= k) s' o ↔
      Run exec s (k (s.tarball p f).head?) s' o := by
  refine run_call_iff.trans ⟨fun ⟨x, t, hex, hk⟩ => ?_, fun h => ⟨_, s, ⟨rfl, rfl⟩, h⟩⟩
  obtain ⟨rfl, rfl⟩ : x = (s.tarball p f).head? ∧ t = s := hex
  exact hk

theorem run_readManifest_iff {α : Type} {k : Option (List Checkpoint) → Script ι A α}
    {o : Except ScriptError α} :
    Run exec s (request (Req.readManifest p) >>= k) s' o ↔ Run exec s (k (s.manifest p)) s' o := by
  refine run_call_iff.trans ⟨fun ⟨x, t, hex, hk⟩ => ?_, fun h => ⟨_, s, ⟨rfl, rfl⟩, h⟩⟩
  obtain ⟨rfl, rfl⟩ : x = s.manifest p ∧ t = s := hex
  exact hk

theorem run_writeManifest_iff {α : Type} {m : List Checkpoint} {k : Unit → Script ι A α}
    {o : Except ScriptError α} :
    Run exec s (request (Req.writeManifest p m) >>= k) s' o ↔
      Run exec (s.putManifest p m) (k ()) s' o := by
  refine run_call_iff.trans ⟨fun ⟨x, t, hex, hk⟩ => ?_, fun h => ⟨(), _, rfl, h⟩⟩
  obtain rfl : t = s.putManifest p m := hex
  exact hk

/-- The manifest of a directory, put in place of the one there. -/
def Store.publish (s : Store ι A) (p : Place) (m : List Checkpoint) : Store ι A :=
  (s.putManifestTmp p none).putManifest p m

@[simp] theorem manifest_putManifest (s : Store ι A) (p : Place) (m : List Checkpoint) :
    (s.putManifest p m).manifest p = some m := by
  simp [Store.putManifest]

@[simp] theorem manifest_publish (s : Store ι A) (p : Place) (m : List Checkpoint) :
    (s.publish p m).manifest p = some m := manifest_putManifest _ _ _

@[simp] theorem publish_putManifest (s : Store ι A) (p : Place) (m m' : List Checkpoint) :
    (s.putManifest p m).publish p m' = s.publish p m' := by
  simp [Store.publish, Store.putManifest, Store.putManifestTmp]

@[simp] theorem publish_publish (s : Store ι A) (p : Place) (m m' : List Checkpoint) :
    (s.publish p m).publish p m' = s.publish p m' := by
  simp [Store.publish, Store.putManifest, Store.putManifestTmp]

/-- A manifest that is written beside the one there, and moved over it. -/
theorem run_replaceManifest_iff {m : List Checkpoint} {o : Except ScriptError Unit} :
    Run exec s (request (Req.writeManifestTmp p m) >>= fun _ =>
        request (Req.moveManifestTmp p) >>= fun (ok : Bool) =>
          if ok = false then .raise .noSuchFile else (.ret () : Script ι A Unit)) s' o ↔
      s' = s.publish p m ∧ o = .ok () := by
  have hpublish : ((s.putManifestTmp p (some m)).putManifestTmp p none).putManifest p m
      = s.publish p m := by
    simp [Store.publish, Store.putManifest, Store.putManifestTmp]
  have hmade : (s.putManifestTmp p (some m)).manifestTmp p = some m := by
    simp [Store.putManifestTmp]
  refine run_call_iff.trans ⟨fun ⟨_, t, hex, hk⟩ => ?_, fun ⟨hs, ho⟩ => ⟨(), _, rfl, ?_⟩⟩
  · obtain rfl : t = s.putManifestTmp p (some m) := hex
    obtain ⟨ok, u, hmove, hret⟩ := run_call_iff.mp hk
    rcases hmove with ⟨m', rfl, hm', rfl⟩ | ⟨-, hnone, -⟩
    · obtain rfl := Option.some.inj (hmade.symm.trans hm')
      obtain ⟨hs, ho⟩ := run_ret_iff.mp hret
      exact ⟨hs.trans hpublish, ho⟩
    · exact nomatch hmade.symm.trans hnone
  · exact run_call_iff.mpr ⟨true, s.publish p m, .inl ⟨m, rfl, hmade, hpublish.symm⟩,
      run_ret_iff.mpr ⟨hs, ho⟩⟩

/-- The files of a directory where every watermark is written to its end. -/
structure Reads (s : Store ι A) (p : Place) (files : List (Text × Watermark)) : Prop where
  enumerates : Table.Enumerates (files.map fun x => (x.1, Json.whole x.2)) (s.watermark p)
  ordered : (files.map Prod.fst).Pairwise (· ≤ ·)

/-- The directory that `consolidate` is given. -/
def dirOf (sha256sum : A → Text) (s : Store ι A) (p : Place) (files : List (Text × Watermark)) :
    BackupDir where
  watermarks := files
  sha256sum f := (s.tarball p f).head?.map sha256sum

variable {files : List (Text × Watermark)}

theorem run_listWatermarks_iff {α : Type} {k : List (Text × Json) → Script ι A α}
    {o : Except ScriptError α} (h : Reads s p files) :
    Run exec s (request (Req.listWatermarks p) >>= k) s' o ↔
      Run exec s (k (files.map fun x => (x.1, Json.whole x.2))) s' o := by
  have hkeys : (files.map fun x => (x.1, Json.whole x.2)).map Prod.fst = files.map Prod.fst := by
    rw [List.map_map]
    rfl
  refine run_call_iff.trans ⟨fun ⟨x, t, hex, hk⟩ => ?_,
    fun hk => ⟨_, s, ⟨h.enumerates, ?_, rfl⟩, hk⟩⟩
  · obtain ⟨hx, hsorted, rfl⟩ := hex
    have hperm : x.Perm (files.map fun x => (x.1, Json.whole x.2)) := hx.perm h.enumerates
    have hsorted' : (files.map fun x => (x.1, Json.whole x.2)).Pairwise fun a b => a.1 ≤ b.1 := by
      rw [← List.pairwise_map, hkeys]
      exact h.ordered
    obtain rfl := hperm.eq_of_pairwise
      (fun a b ha hb hab hba =>
        List.inj_on_of_nodup_map hx.nodup ha (hperm.mem_iff.mpr hb) (le_antisymm hab hba))
      (List.pairwise_map.mp hsorted) hsorted'
    exact hk
  · rw [hkeys]
    exact h.ordered

theorem Reads.watermark (h : Reads s p files) {x : Text × Watermark} (hx : x ∈ files) :
    s.watermark p x.1 = some (.whole x.2) :=
  (h.enumerates.mem_iff _ _).mp (List.mem_map_of_mem hx)

theorem run_jqField_iff {α : Type} {f : Text} {w : Watermark}
    (hf : s.watermark p f = some (.whole w)) {field : Watermark → Text}
    {k : Option Text → Script ι A α} {o : Except ScriptError α} :
    Run exec s (jqField p f field >>= k) s' o ↔ Run exec s (k (some (field w))) s' o := by
  unfold jqField
  rw [Prog.bind_assoc', run_readWatermark_iff, hf]
  exact Iff.rfl

/-- What a round of the scan makes of a watermark. -/
def countNode (dir : BackupDir) (scanned : Text × Bool) (w : Watermark) : Text × Bool :=
  if dir.verifies w then (addNode scanned.1 w.node, scanned.2) else (scanned.1, false)

theorem run_scanFile_iff (h : Reads s p files) {x : Text × Watermark} (hx : x ∈ files)
    (scanned : Text × Bool) {o : Except ScriptError (Text × Bool)} :
    Run exec s (scanFile sha256sum p scanned x.1) s' o ↔
      s' = s ∧ o = .ok (countNode (dirOf sha256sum s p files) scanned x.2) := by
  have hw := h.watermark hx
  unfold scanFile
  rw [run_jqField_iff hw, run_jqField_iff hw, run_jqField_iff hw]
  refine run_readTarball_iff.trans ?_
  have hver : (dirOf sha256sum s p files).verifies x.2
      = decide ((s.tarball p x.2.tarball).head?.map sha256sum = some x.2.sha256) := rfl
  unfold countNode
  rw [hver]
  rcases (s.tarball p x.2.tarball).head? with _ | bytes
  · exact run_ret_iff
  · by_cases hsum : sha256sum bytes = x.2.sha256
    · simp [hsum]
    · simp [hsum, Ne.symm hsum]

theorem namedFiles_map (t : Tag) (files : List (Text × Watermark)) :
    namedFiles t (files.map fun x => (x.1, Json.whole x.2)) =
      (files.filter fun x => '-' :: t.1 ++ ".json".toList <:+ x.1).map Prod.fst := by
  unfold namedFiles
  rw [List.map_map, List.filter_map]
  rfl

theorem run_scan_iff (h : Reads s p files) (t : Tag) {o : Except ScriptError (Text × Bool)} :
    Run exec s
      ((namedFiles t (files.map fun x => (x.1, Json.whole x.2))).foldlM (scanFile sha256sum p)
        ([], true)) s' o ↔
      s' = s ∧ o = .ok ((dirOf sha256sum s p files).scan t) := by
  rw [namedFiles_map, List.foldlM_map]
  have hround : ∀ x ∈ files.filter fun x => '-' :: t.1 ++ ".json".toList <:+ x.1,
      ∀ (scanned : Text × Bool) s' o, Run exec s (scanFile sha256sum p scanned x.1) s' o ↔
        s' = s ∧ o = .ok (countNode (dirOf sha256sum s p files) scanned x.2) :=
    fun x hx scanned s' o => run_scanFile_iff h (List.mem_of_mem_filter hx) scanned
  rw [Prog.run_foldlM_iff (g := fun scanned x => countNode (dirOf sha256sum s p files) scanned x.2)
    hround]
  unfold BackupDir.scan BackupDir.named
  rw [List.foldl_map]
  exact Iff.rfl

/-- A manifest does not change what is read of the other files. -/
theorem Reads.putManifest (h : Reads s p files) (m : List Checkpoint) :
    Reads (s.putManifest p m) p files := ⟨h.enumerates, h.ordered⟩

theorem Reads.publish (h : Reads s p files) (m : List Checkpoint) :
    Reads (s.publish p m) p files := ⟨h.enumerates, h.ordered⟩

theorem run_consolidateTag_iff (h : Reads s p files) {m : List Checkpoint}
    (hm : s.manifest p = some m) (expected now : Text) (t : Tag) {o : Except ScriptError Unit} :
    Run exec s (consolidateTag sha256sum p expected now t) s' o ↔
      s' = s.publish p (updateManifest m
          ((dirOf sha256sum s p files).checkpoint expected now t)) ∧ o = .ok () := by
  unfold consolidateTag
  rw [run_listWatermarks_iff h, run_bind_iff]
  simp only [run_scan_iff h]
  have hrest := @run_replaceManifest_iff ι A s s' p (updateManifest m
    (entryOf expected now t ((dirOf sha256sum s p files).scan t))) o
  refine ⟨fun hr => ?_, fun hr => .inr ⟨_, _, ⟨rfl, rfl⟩, ?_⟩⟩
  · rcases hr with ⟨e, ⟨-, he⟩, -⟩ | ⟨scanned, u, ⟨rfl, hscan⟩, hr⟩
    · exact nomatch he
    · obtain rfl := Except.ok.inj hscan
      rw [run_readManifest_iff, hm] at hr
      exact hrest.mp hr
  · rw [run_readManifest_iff, hm]
    exact hrest.mpr hr

/-- The rounds of the script. -/
theorem run_rounds_iff (h : Reads s p files) (expected : Text) (now : Tag → Text) (tags : List Tag)
    {m : List Checkpoint} (hm : s.manifest p = some m) {o : Except ScriptError Unit} :
    Run exec s (tags.forM fun t => consolidateTag sha256sum p expected (now t) t) s' o ↔
      s' = (if tags = [] then s else s.publish p (tags.foldl (fun m t => updateManifest m
          ((dirOf sha256sum s p files).checkpoint expected (now t) t)) m)) ∧ o = .ok () := by
  induction tags generalizing s m with
  | nil => exact run_ret_iff
  | cons t tags ih =>
    show Run exec _ (consolidateTag sha256sum p expected (now t) t >>= fun _ =>
      tags.forM fun t => consolidateTag sha256sum p expected (now t) t) s' o ↔ _
    set entry := (dirOf sha256sum s p files).checkpoint expected (now t) t
    have hrest : Run exec (s.publish p (updateManifest m entry))
        (tags.forM fun t => consolidateTag sha256sum p expected (now t) t) s' o ↔
          s' = (if t :: tags = [] then s else s.publish p ((t :: tags).foldl (fun m t =>
            updateManifest m ((dirOf sha256sum s p files).checkpoint expected (now t) t)) m)) ∧
          o = .ok () := by
      refine (ih (h.publish _) (manifest_publish _ _ _)).trans ?_
      rw [publish_publish, if_neg (List.cons_ne_nil t tags), List.foldl_cons]
      rcases tags with _ | ⟨t₂, tags⟩
      · exact Iff.rfl
      · exact Iff.rfl
    rw [run_bind_iff]
    simp only [run_consolidateTag_iff h hm]
    refine ⟨fun hr => ?_, fun hr => .inr ⟨(), _, ⟨rfl, trivial⟩, hrest.mpr hr⟩⟩
    rcases hr with ⟨e, ⟨-, he⟩, -⟩ | ⟨_, u, ⟨rfl, -⟩, hr⟩
    · exact nomatch he
    · exact hrest.mp hr

theorem tagsOf_map (files : List (Text × Watermark)) :
    tagsOf (files.map fun x => (x.1, Json.whole x.2)) =
      .ok ((nullTag :: files.map (·.2.tag)).dedup.insertionSort (· ≤ ·)) := by
  have hmap : (files.map fun x => (x.1, Json.whole x.2)).mapM (fun file => file.2.jq)
      = .ok (files.map fun x => some x.2) := by
    rw [Except.mapM_eq_ok_iff, List.forall₂_map_left_iff, List.forall₂_map_right_iff]
    exact List.forall₂_same.mpr fun _ _ => rfl
  have hread : (files.map fun x => some x.2).reduceOption = files.map (·.2) := by
    rw [List.reduceOption, List.filterMap_map, ← List.filterMap_eq_map]
    rfl
  have htags : tagsOf (files.map fun x => (x.1, Json.whole x.2)) =
      .ok ((nullTag :: (files.map fun x => some x.2).reduceOption.map (·.tag)).dedup.insertionSort
        (· ≤ ·)) := by
    unfold tagsOf
    rw [hmap]
    rfl
  rw [htags, hread, List.map_map]
  rfl

theorem tags_ne_nil (dir : BackupDir) : dir.tags ≠ [] := by
  intro h
  have hmem : nullTag ∈ dir.tags := mem_tags.mpr (.inl rfl)
  rw [h] at hmem
  exact absurd hmem List.not_mem_nil

theorem run_createManifest_iff {o : Except ScriptError Unit} :
    Run exec s (createManifest p) s' o ↔
      s' = s.putManifest p ((s.manifest p).getD []) ∧ o = .ok () := by
  unfold createManifest
  rw [run_readManifest_iff]
  rcases hm : s.manifest p with _ | m
  · exact (run_writeManifest_iff (k := .ret)).trans run_ret_iff
  · have hsame : s.putManifest p m = s := by
      unfold Store.putManifest
      rw [← hm, Function.update_eq_self]
    show Run exec s (.ret ()) s' o ↔ _
    rw [run_ret_iff, Option.getD_some, hsame]

/-- Alone on a directory, the script does what `consolidate` says. -/
theorem run_consolidateCheckpoint_iff (h : Reads s p files) (arg : Option Text) (now : Tag → Text)
    {o : Except ScriptError (Option Tag)} :
    Run exec s (consolidateCheckpoint sha256sum p arg now) s' o ↔
      s' = s.publish p (consolidate (dirOf sha256sum s p files) (s.manifest p) arg now).1 ∧
        o = .ok (consolidate (dirOf sha256sum s p files) (s.manifest p) arg now).2 := by
  unfold consolidateCheckpoint
  rw [run_bind_iff]
  simp only [run_createManifest_iff]
  set s₁ := s.putManifest p ((s.manifest p).getD []) with hs₁
  have h₁ : Reads s₁ p files := ⟨h.enumerates, h.ordered⟩
  have hm₁ : s₁.manifest p = some ((s.manifest p).getD []) := manifest_putManifest _ _ _
  have hlast : ∀ entries : List Checkpoint, Run exec (s₁.publish p entries)
      (request (Req.readManifest p) >>= fun manifest =>
        lift (orFail .noSuchFile manifest) >>= fun entries =>
          .ret ((latestComplete entries).filter fun t => t.1 ≠ "NONE".toList)) s' o ↔
      s' = s.publish p entries ∧
        o = .ok ((latestComplete entries).filter fun t => t.1 ≠ "NONE".toList) := by
    intro entries
    rw [run_readManifest_iff, manifest_publish, hs₁, publish_putManifest]
    exact run_ret_iff
  have hrest : Run exec s₁ (request (Req.listWatermarks p) >>= fun files =>
      lift (tagsOf files) >>= fun tags =>
        (tags.forM fun t => consolidateTag sha256sum p (expectedNodes arg) (now t) t) >>= fun _ =>
          request (Req.readManifest p) >>= fun manifest =>
            lift (orFail .noSuchFile manifest) >>= fun entries =>
              .ret ((latestComplete entries).filter fun t => t.1 ≠ "NONE".toList)) s' o ↔
      s' = s.publish p (consolidate (dirOf sha256sum s p files) (s.manifest p) arg now).1 ∧
        o = .ok (consolidate (dirOf sha256sum s p files) (s.manifest p) arg now).2 := by
    rw [run_listWatermarks_iff h₁, tagsOf_map, Prog.lift_ok, Prog.ret_bind, run_bind_iff]
    simp only [run_rounds_iff h₁ _ _ _ hm₁]
    have hne : (nullTag :: files.map (·.2.tag)).dedup.insertionSort (· ≤ ·) ≠ [] :=
      tags_ne_nil (dirOf sha256sum s p files)
    simp only [if_neg hne]
    refine ⟨fun hr => ?_, fun hr => .inr ⟨(), _, ⟨rfl, trivial⟩, (hlast _).mpr hr⟩⟩
    rcases hr with ⟨e, ⟨-, he⟩, -⟩ | ⟨_, u, ⟨rfl, -⟩, hr⟩
    · exact nomatch he
    · exact (hlast _).mp hr
  refine ⟨fun hr => ?_, fun hr => .inr ⟨(), _, ⟨rfl, trivial⟩, hrest.mpr hr⟩⟩
  rcases hr with ⟨e, ⟨-, he⟩, -⟩ | ⟨_, u, ⟨rfl, -⟩, hr⟩
  · exact nomatch he
  · exact hrest.mp hr

variable (sha256sum) in
theorem run_consolidateCheckpoint (h : Reads s p files) (arg : Option Text) (now : Tag → Text) :
    Run exec s (consolidateCheckpoint sha256sum p arg now)
      (s.publish p (consolidate (dirOf sha256sum s p files) (s.manifest p) arg now).1)
      (.ok (consolidate (dirOf sha256sum s p files) (s.manifest p) arg now).2) :=
  (run_consolidateCheckpoint_iff h arg now).mpr ⟨rfl, rfl⟩

/-! ## Runs that have come to their end -/

section
variable {job : ι → Job A} {i j : ι} {t : Store ι A} {c : CheckpointCall A}

/-- No two runs are of one node and one tag. -/
def Distinct (job : ι → Job A) : Prop :=
  ∀ i j c c', job i = .checkpoint c → job j = .checkpoint c' → c.node = c'.node → c.tag = c'.tag →
    i = j

/-- The run exports or copies to the directory. -/
def CheckpointCall.WritesTo (c : CheckpointCall A) (p : Place) : Prop :=
  p = c.dir ∨ c.remote = some p

/-- The directory has the tarball of the run, whole, and its watermark. -/
structure Arrived (sha256sum : A → Text) (c : CheckpointCall A) (p : Place) (s : Store ι A) :
    Prop where
  tarball : (s.tarball p (tarballOf c.node c.tag)).head? = some c.whole
  watermark : s.watermark p (watermarkOf c.node c.tag)
    = some (.whole (c.watermark (sha256sum c.whole)))

/-- The files of a run are in no other run's way, and every watermark file is of a run. -/
def soloPact (job : ι → Job A) : Pact (Store ι A) ι where
  inv s := ∀ p f json, s.watermark p f = some json →
    ∃ i c, job i = .checkpoint c ∧ f = watermarkOf c.node c.tag ∧ c.WritesTo p
  rely i s t := ∀ c, job i = .checkpoint c → ∀ p,
    t.tarball p (tarballOf c.node c.tag) = s.tarball p (tarballOf c.node c.tag) ∧
      t.watermark p (watermarkOf c.node c.tag) = s.watermark p (watermarkOf c.node c.tag)
  refl _ _ _ _ _ := ⟨rfl, rfl⟩
  trans _ _ _ _ h h' c hc p :=
    ⟨(h' c hc p).1.trans (h c hc p).1, (h' c hc p).2.trans (h c hc p).2⟩

theorem Arrived.rely (h : Arrived sha256sum c p s) (hi : job i = .checkpoint c)
    (hr : (soloPact job).rely i s t) : Arrived sha256sum c p t := by
  obtain ⟨ht, hw⟩ := hr c hi p
  exact ⟨by rw [ht, h.tarball], by rw [hw, h.watermark]⟩

/-- A run that writes its own files only is in nobody's way. -/
theorem rely_of_own (ho : Orderly sha256sum job) (hd : Distinct job) (hi : job i = .checkpoint c)
    (hj : j ≠ i) (ht : ∀ p f, f ≠ tarballOf c.node c.tag → t.tarball p f = s.tarball p f)
    (hw : ∀ p f, f ≠ watermarkOf c.node c.tag → t.watermark p f = s.watermark p f) :
    (soloPact job).rely j s t := by
  intro c' hc' p
  have hother : ∀ suffix, fileName c'.node c'.tag suffix ≠ fileName c.node c.tag suffix := by
    intro suffix he
    obtain ⟨hn, htag⟩ := fileName_inj (ho.tags j c' hc') (ho.tags i c hi) he
    exact hj (hd j i c' c hc' hi hn htag)
  exact ⟨ht p _ (hother _), hw p _ (hother _)⟩

theorem tarball_putTarball_self (s : Store ι A) (p : Place) (f : Text) (a : A) :
    (s.putTarball p f a).tarball p f = a :: s.tarball p f := by
  simp [Store.putTarball]

theorem watermark_putWatermark_self (s : Store ι A) (p : Place) (f : Text)
    (json : Json) : (s.putWatermark p f json).watermark p f = some json := by
  simp [Store.putWatermark]

theorem watermark_putWatermark_of_ne {p' : Place} {f f' : Text} (json : Json)
    (h : p' = p → f' ≠ f) : (s.putWatermark p f json).watermark p' f' = s.watermark p' f' := by
  unfold Store.putWatermark
  by_cases hp : p' = p
  · subst hp
    simp [Table.upsert_apply, h rfl]
  · simp [hp]

variable {β : Type} {Q : β → Store ι A → Prop}

theorem solo_writeTarball (ho : Orderly sha256sum job) (hd : Distinct job)
    (hi : job i = .checkpoint c) {a : A} {k : Unit → Script ι A β}
    (hk : ∀ t, (soloPact job).rely i s t → (soloPact job).inv t →
      (k ()).Upholds exec (soloPact job) i Q (t.putTarball p (tarballOf c.node c.tag) a)) :
    (request (Req.writeTarball p (tarballOf c.node c.tag) a) >>= k).Upholds exec (soloPact job) i Q
      s := by
  intro t ht hinv x t' hex
  obtain rfl : t' = t.putTarball p (tarballOf c.node c.tag) a := hex
  exact ⟨hinv, fun j hj => rely_of_own ho hd hi hj
    (fun p' f' hf => Store.tarball_putTarball_of_ne a fun _ => hf) fun _ _ _ => rfl, hk t ht hinv⟩

theorem solo_writeWatermark (ho : Orderly sha256sum job) (hd : Distinct job)
    (hi : job i = .checkpoint c) (hp : c.WritesTo p) {json : Json}
    {k : Unit → Script ι A β}
    (hk : ∀ t, (soloPact job).rely i s t →
      (k ()).Upholds exec (soloPact job) i Q
        (t.putWatermark p (watermarkOf c.node c.tag) json)) :
    (request (Req.writeWatermark p (watermarkOf c.node c.tag) json) >>= k).Upholds exec
      (soloPact job) i Q s := by
  intro t ht hinv x t' hex
  obtain rfl : t' = t.putWatermark p (watermarkOf c.node c.tag) json := hex
  refine ⟨fun p' f' json' hw => ?_, fun j hj => rely_of_own ho hd hi hj (fun _ _ _ => rfl)
    fun p' f' hf => watermark_putWatermark_of_ne json fun _ => hf, hk t ht⟩
  by_cases hown : p' = p ∧ f' = watermarkOf c.node c.tag
  · exact ⟨i, c, hi, hown.2, hown.1 ▸ hp⟩
  · rw [watermark_putWatermark_of_ne json fun h h' => hown ⟨h, h'⟩] at hw
    exact hinv p' f' json' hw

/-- The copies arrive. -/
theorem solo_scp (ho : Orderly sha256sum job) (hd : Distinct job) (hi : job i = .checkpoint c)
    {remote : Place} (hr : c.remote = some remote) (h : Arrived sha256sum c c.dir s) :
    (scp c remote).Upholds exec (soloPact job) i
      (fun _ t => Arrived sha256sum c c.dir t ∧ Arrived sha256sum c remote t) s := by
  have hne : c.dir ≠ remote := ho.dirs i i c c remote hi hi hr
  refine upholds_readTarball fun s₁ hs₁ hinv₁ => upholds_lift_bind fun bytes hb => ?_
  have h₁ := h.rely hi hs₁
  rw [orFail_eq_ok_iff, h₁.tarball] at hb
  obtain rfl := Option.some.inj hb
  have hkeep : ∀ (t : Store ι A) a, Arrived sha256sum c c.dir t →
      Arrived sha256sum c c.dir (t.putTarball remote (tarballOf c.node c.tag) a) := fun t a ht =>
    ⟨by rw [Store.tarball_putTarball_of_ne a fun h => absurd h hne]; exact ht.tarball, ht.watermark⟩
  refine (upholds_forM (L := Arrived sha256sum c c.dir) (fun _ _ hr hL => hL.rely hi hr)
    (fun a _ u _ hu => ?_) hinv₁ h₁).bind hinv₁ fun _ s₂ hinv₂ h₂ => ?_
  · exact solo_writeTarball (k := .ret) ho hd hi fun t ht _ =>
      Prog.upholds_ret fun v hv _ => (hkeep t a (hu.rely hi ht)).rely hi hv
  refine solo_writeTarball ho hd hi fun s₃ hs₃ hinv₃ => ?_
  have h₃ := hkeep s₃ c.whole (h₂.rely hi hs₃)
  have hbytes : ((s₃.putTarball remote (tarballOf c.node c.tag) c.whole).tarball remote
      (tarballOf c.node c.tag)).head? = some c.whole := by
    rw [tarball_putTarball_self]
    rfl
  refine upholds_readWatermark fun s₄ hs₄ hinv₄ => upholds_lift_bind fun json hjson => ?_
  have h₄ := h₃.rely hi hs₄
  rw [orFail_eq_ok_iff, h₄.watermark] at hjson
  obtain rfl := Option.some.inj hjson
  have hkeepWm : ∀ (t : Store ι A) json, Arrived sha256sum c c.dir t →
      Arrived sha256sum c c.dir (t.putWatermark remote (watermarkOf c.node c.tag) json) :=
    fun t json ht => ⟨ht.tarball,
      by rw [watermark_putWatermark_of_ne json fun h => absurd h hne]; exact ht.watermark⟩
  refine solo_writeWatermark ho hd hi (.inr hr) fun s₅ hs₅ => ?_
  refine solo_writeWatermark ho hd hi (.inr hr) fun s₆ hs₆ => ?_
  refine solo_writeWatermark (k := .ret) ho hd hi (.inr hr) fun s₇ hs₇ => ?_
  have h₆ := (hkeepWm _ .empty (h₄.rely hi hs₅)).rely hi hs₆
  have h₇ := (hkeepWm _ .part h₆).rely hi hs₇
  refine Prog.upholds_ret fun s₈ hs₈ _ => ⟨(hkeepWm _ _ h₇).rely hi hs₈, ?_, ?_⟩
  · rw [(hs₈ c hi remote).1]
    show (s₇.tarball remote _).head? = _
    rw [(hs₇ c hi remote).1]
    show (s₆.tarball remote _).head? = _
    rw [(hs₆ c hi remote).1]
    show (s₅.tarball remote _).head? = _
    rw [(hs₅ c hi remote).1, (hs₄ c hi remote).1, hbytes]
  · rw [(hs₈ c hi remote).2, watermark_putWatermark_self]

/-- A run that has come to its end has its files where it writes to. -/
theorem solo_checkpoint (ho : Orderly sha256sum job) (hd : Distinct job)
    (hi : job i = .checkpoint c) (s : Store ι A) :
    (checkpoint sha256sum i c).Upholds exec (soloPact job) i
      (fun _ t => ∀ p, c.WritesTo p → Arrived sha256sum c p t) s := by
  intro s₀ _ hinv₀ ok s₁ hex
  have hrely : ∀ (t : Store ι A) run j, (soloPact job).rely j t (t.putSnapshot c.node c.tag run) :=
    fun t run j c' hc' p => ⟨rfl, rfl⟩
  rcases hex with ⟨rfl, -, rfl⟩ | ⟨rfl, rfl⟩
  swap
  · exact ⟨hinv₀, fun j _ => (soloPact job).refl j _, trivial⟩
  refine ⟨hinv₀, fun j _ => hrely s₀ (some i) j, ?_⟩
  have hinv₁ : (soloPact job).inv (s₀.apply (.snapshot c.node c.tag i)) := hinv₀
  refine (upholds_forM (L := fun _ => True) (fun _ _ _ _ => trivial) (fun a _ u _ _ => ?_) hinv₁
    trivial).bind hinv₁ fun _ s₂ hinv₂ _ => ?_
  · exact solo_writeTarball (k := .ret) ho hd hi fun _ _ _ => Prog.upholds_ret fun _ _ _ => trivial
  intro s₃ hs₃ hinv₃ _ s₄ hex
  obtain rfl : s₄ = s₃.apply (.exportTarball c.dir c.node c.tag c.whole) := hex
  set s₄ := s₃.apply (.exportTarball c.dir c.node c.tag c.whole) with hs₄
  have hwhole : (s₄.tarball c.dir (tarballOf c.node c.tag)).head? = some c.whole := by
    simp [hs₄, Store.apply, Store.putTarball]
  refine ⟨hinv₃, fun j hj => rely_of_own ho hd hi hj
    (fun p f hf => Store.tarball_putTarball_of_ne c.whole fun _ => hf) fun _ _ _ => rfl, ?_⟩
  refine upholds_readTarball fun s₅ hs₅ hinv₅ => upholds_lift_bind fun bytes hb => ?_
  rw [orFail_eq_ok_iff, (hs₅ c hi c.dir).1, hwhole] at hb
  obtain rfl := Option.some.inj hb
  refine solo_writeWatermark ho hd hi (.inl rfl) fun s₆ hs₆ =>
    solo_writeWatermark ho hd hi (.inl rfl) fun s₇ hs₇ =>
      solo_writeWatermark ho hd hi (.inl rfl) fun s₈ hs₈ => ?_
  intro s₉ hs₉ hinv₉ _ s₁₀ hex
  obtain rfl : s₁₀ = s₉.putSnapshot c.node c.tag none := hex
  refine ⟨hinv₉, fun j _ => hrely s₉ none j, ?_⟩
  have harrived : Arrived sha256sum c c.dir (s₉.putSnapshot c.node c.tag none) := by
    refine ⟨?_, ?_⟩
    · show (s₉.tarball c.dir _).head? = _
      rw [(hs₉ c hi c.dir).1]
      show (s₈.tarball c.dir _).head? = _
      rw [(hs₈ c hi c.dir).1]
      show (s₇.tarball c.dir _).head? = _
      rw [(hs₇ c hi c.dir).1]
      show (s₆.tarball c.dir _).head? = _
      rw [(hs₆ c hi c.dir).1, (hs₅ c hi c.dir).1, hwhole]
    · show s₉.watermark c.dir _ = _
      rw [(hs₉ c hi c.dir).2, watermark_putWatermark_self]
  unfold CheckpointCall.send
  rcases hr : c.remote with _ | remote
  · refine Prog.upholds_ret fun t ht _ p hp => ?_
    rcases hp with rfl | hp
    · exact harrived.rely hi ht
    · exact absurd (hp.symm.trans hr) (Option.some_ne_none p)
  · refine (solo_scp ho hd hi hr harrived).mono fun _ t _ h p hp => ?_
    rcases hp with rfl | hp
    · exact h.1
    · obtain rfl := Option.some.inj (hr.symm.trans hp)
      exact h.2

/-- A command of `consolidate-checkpoint.sh`: it reads, or writes the manifest. -/
def Req.OfConsolidate : Req ι A → Prop
  | .readTarball _ _ | .readWatermark _ _ | .listWatermarks _ => True
  | .readManifest _ | .writeManifest _ _ | .writeManifestTmp _ _ | .moveManifestTmp _ => True
  | _ => False

theorem always_jqField (p : Place) (f : Text) (field : Watermark → Text) :
    (jqField p f field : Script ι A (Option Text)).Always Req.OfConsolidate :=
  ⟨trivial, fun _ =>
    (Prog.always_lift _ _).bind fun _ => (Prog.always_lift _ _).bind fun _ => trivial⟩

theorem always_scanFile (sha256sum : A → Text) (p : Place) (scanned : Text × Bool) (f : Text) :
    (scanFile sha256sum p scanned f : Script ι A _).Always Req.OfConsolidate := by
  have hnamed : ∀ tarball,
      (readTarballNamed p tarball : Script ι A _).Always Req.OfConsolidate := by
    rintro (_ | tarball)
    · trivial
    · exact ⟨trivial, fun _ => trivial⟩
  refine (always_jqField p f _).bind fun _ => (always_jqField p f _).bind fun _ =>
    (always_jqField p f _).bind fun _ => (hnamed _).bind fun file => ?_
  rcases file with _ | bytes
  · trivial
  · show (if _ then _ else _ : Script ι A _).Always _
    split <;> trivial

theorem always_consolidateCheckpoint (sha256sum : A → Text) (p : Place) (arg : Option Text)
    (now : Tag → Text) :
    (consolidateCheckpoint sha256sum p arg now : Script ι A _).Always Req.OfConsolidate := by
  have hcreate : (createManifest p : Script ι A Unit).Always Req.OfConsolidate := by
    refine ⟨trivial, fun manifest => ?_⟩
    show (if _ then _ else _ : Script ι A Unit).Always _
    split
    · exact ⟨trivial, fun _ => trivial⟩
    · trivial
  have hmove : ∀ ok : Bool, (if ok = false then .raise .noSuchFile else return () :
      Script ι A Unit).Always Req.OfConsolidate := by
    rintro (_ | _) <;> trivial
  have hround : ∀ t, (consolidateTag sha256sum p (expectedNodes arg) (now t) t :
      Script ι A Unit).Always Req.OfConsolidate := fun t =>
    ⟨trivial, fun files => (Prog.always_foldlM (fun f _ acc => always_scanFile _ _ _ _) _).bind
      fun _ => ⟨trivial, fun _ => (Prog.always_lift _ _).bind fun _ =>
        ⟨trivial, fun _ => ⟨trivial, fun ok => hmove ok⟩⟩⟩⟩
  refine hcreate.bind fun _ => ⟨trivial, fun files => (Prog.always_lift _ _).bind fun tags => ?_⟩
  exact (Prog.always_forM fun t _ => hround t).bind fun _ =>
    ⟨trivial, fun _ => (Prog.always_lift _ _).bind fun _ => trivial⟩

theorem solo_started (ho : Orderly sha256sum job) (hd : Distinct job) :
    (started sha256sum job).Upholds exec (soloPact job) fun i _ t =>
      ∀ c, job i = .checkpoint c → ∀ p, c.WritesTo p → Arrived sha256sum c p t := by
  have hinv : (soloPact job).inv (Store.blank : Store ι A) := fun _ _ _ h => nomatch h
  refine ⟨hinv, fun i => ?_⟩
  show ((job i).prog sha256sum i).Upholds exec _ i _ Store.blank
  rcases hi : job i with c | ⟨p, arg, now⟩
  · refine (solo_checkpoint ho hd hi _).bind hinv fun _ t _ h => ?_
    refine Prog.upholds_ret fun u hu _ c' hc' p hp => ?_
    obtain rfl := Job.checkpoint.inj (hi.symm.trans hc')
    exact (h p hp).rely hi hu
  · refine (Prog.upholds_of_always (always_consolidateCheckpoint sha256sum p arg now)
      (fun r hr t x t' hinv hex => ?_) _).mono fun _ _ _ _ c hc => nomatch hi.symm.trans hc
    have hsame : t'.tarball = t.tarball ∧ t'.watermark = t.watermark := by
      rcases r with _ | _ | _ | _ | _ | _ | _ | _ | _ | _ | _ | _
      case readTarball => exact hex.2 ▸ ⟨rfl, rfl⟩
      case readWatermark => exact hex.2 ▸ ⟨rfl, rfl⟩
      case listWatermarks => exact hex.2.2 ▸ ⟨rfl, rfl⟩
      case readManifest => exact hex.2 ▸ ⟨rfl, rfl⟩
      case writeManifest =>
        obtain rfl := hex
        exact ⟨rfl, rfl⟩
      case writeManifestTmp =>
        obtain rfl := hex
        exact ⟨rfl, rfl⟩
      case moveManifestTmp =>
        rcases hex with ⟨_, -, -, rfl⟩ | ⟨-, -, rfl⟩ <;> exact ⟨rfl, rfl⟩
      all_goals exact hr.elim
    refine ⟨fun p f json hw => hinv p f json (by rw [← hsame.2]; exact hw), fun j _ c _ p => ?_⟩
    rw [hsame.1, hsame.2]
    exact ⟨rfl, rfl⟩

/-! ## A tag that has arrived -/

/-- Everything of a tag that is written to a directory has been written, and every node expected
there has written. -/
structure Delivered (job : ι → Job A) (σ : Sys (Store ι A) ι (Script ι A (Option Tag))) (p : Place)
    (t : Tag) (expected : Text) : Prop where
  ended : ∀ i c, job i = .checkpoint c → c.tag = t → c.WritesTo p → σ.client i = .ret none
  nodes : ∀ n ∈ expected.splitOn ',', n ≠ [] ∧
    ∃ i c, job i = .checkpoint c ∧ c.node = n ∧ c.tag = t ∧ c.WritesTo p

theorem mem_splitOn_of_mem_readArray {s n : Text} (h : n ∈ readArray s) : n ∈ s.splitOn ',' := by
  unfold readArray at h
  dsimp only at h
  split at h
  · exact List.mem_of_mem_dropLast h
  · exact h

section
variable [DecidableEq ι] {σ : Sys (Store ι A) ι (Script ι A (Option Tag))} {t' : Tag}
  {expected : Text}

/-- The files named after the tag are those of runs that have ended. -/
theorem Delivered.named (h : Delivered job σ p t' expected) (ho : Orderly sha256sum job)
    (hd : Distinct job) (ht : '-' ∉ t'.1)
    (hσ : Sys.Reaches exec (fun _ _ => True) (started sha256sum job) σ)
    (hfiles : Reads σ.store p files) {x : Text × Watermark} (hx : x ∈ files)
    (hsuffix : '-' :: t'.1 ++ ".json".toList <:+ x.1) :
    ∃ i c, job i = .checkpoint c ∧ c.tag = t' ∧ c.WritesTo p ∧
      x = (watermarkOf c.node c.tag, c.watermark (sha256sum c.whole)) ∧
        Arrived sha256sum c p σ.store := by
  have hup := hσ.upholds (solo_started ho hd)
  have hw := hfiles.watermark hx
  obtain ⟨i, c, hi, hname, hp⟩ := hup.1 p x.1 _ hw
  have htag : c.tag = t' := (tag_of_suffix (ho.tags i c hi) ht (hname ▸ hsuffix)).symm
  have harr := hup.done (h.ended i c hi htag hp) c hi p hp
  have hsame := harr.watermark
  rw [← hname, hw] at hsame
  exact ⟨i, c, hi, htag, hp, Prod.ext hname (Json.whole.inj (Option.some.inj hsame)), harr⟩

theorem Delivered.mem_files (h : Delivered job σ p t' expected) (ho : Orderly sha256sum job)
    (hd : Distinct job) (hσ : Sys.Reaches exec (fun _ _ => True) (started sha256sum job) σ)
    (hfiles : Reads σ.store p files) {n : Text} (hn : n ∈ expected.splitOn ',') :
    '-' ∉ t'.1 ∧ ∃ x ∈ files, x.2.node = n ∧ x.2.tag = t' ∧
      '-' :: t'.1 ++ ".json".toList <:+ x.1 := by
  obtain ⟨-, i, c, hi, rfl, rfl, hp⟩ := h.nodes n hn
  have harr := (hσ.upholds (solo_started ho hd)).done (h.ended i c hi rfl hp) c hi p hp
  refine ⟨ho.tags i c hi, (watermarkOf c.node c.tag, c.watermark (sha256sum c.whole)), ?_, rfl, rfl,
    c.node, ?_⟩
  · obtain ⟨x, hx, he⟩ := List.mem_map.mp ((hfiles.enumerates.mem_iff _ _).mpr harr.watermark)
    obtain ⟨hf, hw⟩ := Prod.mk.inj he
    have : x = (watermarkOf c.node c.tag, c.watermark (sha256sum c.whole)) :=
      Prod.ext hf (Json.whole.inj hw)
    rwa [← this]
  · exact (List.append_assoc _ _ _).symm

/-- The script finds the tag complete. -/
theorem Delivered.complete {arg : Option Text} (h : Delivered job σ p t' (expectedNodes arg))
    (ho : Orderly sha256sum job) (hd : Distinct job)
    (hσ : Sys.Reaches exec (fun _ _ => True) (started sha256sum job) σ)
    (hfiles : Reads σ.store p files) :
    t' ∈ (dirOf sha256sum σ.store p files).tags ∧
      (dirOf sha256sum σ.store p files).complete (expectedNodes arg) t' = true := by
  obtain ⟨n, hn⟩ := List.exists_mem_of_ne_nil _ (readArray_expectedNodes_ne_nil arg)
  obtain ⟨ht, x, hx, -, htag, -⟩ := h.mem_files ho hd hσ hfiles (mem_splitOn_of_mem_readArray hn)
  refine ⟨mem_tags.mpr (.inr ⟨x, hx, htag⟩), (complete_iff _).mpr ⟨fun w hw => ?_, fun n hn => ?_⟩⟩
  · obtain ⟨y, hy, rfl⟩ := List.mem_map.mp hw
    obtain ⟨hy, hsuffix⟩ := List.mem_filter.mp hy
    obtain ⟨i, c, -, -, -, rfl, harr⟩ := h.named ho hd ht hσ hfiles hy (of_decide_eq_true hsuffix)
    have hbytes : (σ.store.tarball p (tarballOf c.node c.tag)).head?.map sha256sum
        = some (sha256sum c.whole) := by
      rw [harr.tarball]
      rfl
    exact decide_eq_true hbytes
  · have hn' := mem_splitOn_of_mem_readArray hn
    obtain ⟨-, y, hy, hnode, -, hsuffix⟩ := h.mem_files ho hd hσ hfiles hn'
    have hlisted : y.2 ∈ (dirOf sha256sum σ.store p files).named t' :=
      List.mem_map_of_mem (List.mem_filter.mpr ⟨hy, decide_eq_true hsuffix⟩)
    refine .inl ?_
    -- the empty names that are dropped are not its own
    have hmem : n ∈ ((dirOf sha256sum σ.store p files).named t').map (·.node) :=
      hnode ▸ List.mem_map_of_mem hlisted
    rw [← List.takeWhile_append_dropWhile (p := fun m => decide (m = []))
      (l := ((dirOf sha256sum σ.store p files).named t').map (·.node))] at hmem
    refine (List.mem_append.mp hmem).resolve_left fun hdrop => (h.nodes n hn').1 ?_
    simpa using List.mem_takeWhile_imp hdrop

/-- The directory as the restore drill finds it: `tar` and `sstableverify` are given what a tarball
holds. -/
def restoreOf (sha256sum : A → Text) (tarx : A → Bool) (sstableverify : Text → A → Bool)
    (s : Store ι A) (p : Place) (files : List (Text × Watermark)) : RestoreDir where
  toBackupDir := dirOf sha256sum s p files
  extracts f := (s.tarball p f).head?.any tarx
  sstableverify tag f := (s.tarball p f).head?.any (sstableverify tag)

/-- The drill of such a tag passes, where what was exported can be extracted and verified, and
covers every node expected. -/
theorem delivered_is_restorable (tarx : A → Bool) (sstableverify : Text → A → Bool)
    {arg : Option Text} {now : Tag → Text} {o : Except ScriptError (Option Tag)}
    (ho : Orderly sha256sum job) (hd : Distinct job)
    (hσ : Sys.Reaches exec (fun _ _ => True) (started sha256sum job) σ)
    (h : Delivered job σ p t' (expectedNodes arg)) (hfiles : Reads σ.store p files)
    (hrun : Run exec σ.store (consolidateCheckpoint sha256sum p arg now) s' o)
    (hgood : ∀ i c, job i = .checkpoint c → c.tag = t' →
      tarx c.whole = true ∧ sstableverify t'.1 c.whole = true) :
    ∃ checked, verifyRestore (restoreOf sha256sum tarx sstableverify s' p files) (s'.manifest p)
        (some t'.1) = .result t'.1 checked ∧ failFlag checked = false ∧
      CoversCluster (restoreOf sha256sum tarx sstableverify s' p files).toBackupDir (s'.manifest p)
        t'.1 checked := by
  obtain ⟨rfl, rfl⟩ := (run_consolidateCheckpoint_iff hfiles arg now).mp hrun
  obtain ⟨htag, -⟩ := h.complete ho hd hσ hfiles
  obtain ⟨n, hn⟩ := List.exists_mem_of_ne_nil _ (readArray_expectedNodes_ne_nil arg)
  obtain ⟨ht, x, hx, -, hxt, -⟩ := h.mem_files ho hd hσ hfiles (mem_splitOn_of_mem_readArray hn)
  set m := (consolidate (dirOf sha256sum σ.store p files) (σ.store.manifest p) arg now).1 with hm
  set dir := restoreOf sha256sum tarx sstableverify (σ.store.publish p m) p files with hdir
  rw [manifest_publish]
  have harg : drillTag (some m) (some t'.1) = .ok t'.1 := if_pos t'.2.1
  -- every file named after the tag is of a run that has ended
  have hpass : dir.Passes t'.1 := by
    intro w hw
    obtain ⟨y, hy, rfl⟩ := List.mem_map.mp hw
    obtain ⟨hy, hsuffix⟩ := List.mem_filter.mp hy
    obtain ⟨i, c, hi, hct, -, rfl, harr⟩ := h.named ho hd ht hσ hfiles hy
      (of_decide_eq_true hsuffix)
    obtain ⟨htar, hverify⟩ := hgood i c hi hct
    have hbytes : ((σ.store.publish p m).tarball p (tarballOf c.node c.tag)).head?
        = some c.whole := harr.tarball
    refine ⟨?_, ?_⟩
    · show ((σ.store.publish p m).tarball p (tarballOf c.node c.tag)).head?.any tarx = true
      rw [hbytes]
      exact htar
    · show ((σ.store.publish p m).tarball p (tarballOf c.node c.tag)).head?.any
        (sstableverify t'.1) = true
      rw [hbytes]
      exact hverify
  obtain ⟨hresult, hfail⟩ := verifyRestore_ok_iff.mpr ⟨harg, hpass, rfl⟩
  refine ⟨_, hresult, hfail, coversCluster_iff.mpr ⟨⟨x, hx, by rw [hxt]⟩, fun c hc hct n hn => ?_⟩⟩
  -- the entry of the tag is the one just written
  have hctag : c.tag = t' := Subtype.ext hct
  rcases (mem_consolidate c).mp hc with ⟨-, hold⟩ | ⟨t, -, rfl⟩
  · exact absurd (hctag ▸ htag) hold
  · obtain ⟨-, y, hy, hnode, hyt, hsuffix⟩ := h.mem_files ho hd hσ hfiles hn
    exact ⟨y.2, List.mem_map_of_mem (List.mem_filter.mpr ⟨hy, decide_eq_true hsuffix⟩), hnode,
      congrArg Subtype.val hyt⟩

end

end

/-! ## Two nodes, and a run in progress -/

/-- What a tarball holds before it is whole. -/
theorem run_writeTarballs {f : Text} (l : List A) (s : Store ι A) : ∃ t,
    Run exec s (l.forM fun a => request (Req.writeTarball p f a) : Script ι A Unit) t (.ok ()) ∧
      t.watermark = s.watermark ∧ t.snapshot = s.snapshot := by
  induction l generalizing s with
  | nil => exact ⟨s, .ret _ _, rfl, rfl⟩
  | cons a l ih =>
    obtain ⟨t, hrun, hw, hs⟩ := ih (s.putTarball p f a)
    exact ⟨t, .call (x := ()) rfl hrun, hw, hs⟩

/-- A run of `checkpoint.sh` that nothing disturbs, with its copies. -/
theorem run_checkpoint_sent (sha256sum : A → Text) (run : ι) (c : CheckpointCall A)
    {remote : Place} (hr : c.remote = some remote) (hne : c.dir ≠ remote)
    (hs : s.snapshot c.node c.tag = none) :
    ∃ t, Run exec s (checkpoint sha256sum run c) t (.ok ()) ∧
      t.watermark remote = (s.watermark remote).upsert (watermarkOf c.node c.tag)
        (.whole (c.watermark (sha256sum c.whole))) ∧
      ∀ n g, (n = c.node → g ≠ c.tag) → t.snapshot n g = s.snapshot n g := by
  set f := watermarkOf c.node c.tag with hf
  set w := c.watermark (sha256sum c.whole)
  obtain ⟨s₁, hexport, hw₁, hs₁⟩ := @run_writeTarballs ι A c.dir (tarballOf c.node c.tag)
    c.exportParts (s.putSnapshot c.node c.tag (some run))
  set s₂ := s₁.apply (.exportTarball c.dir c.node c.tag c.whole) with hs₂
  have hhead : (s₂.tarball c.dir (tarballOf c.node c.tag)).head? = some c.whole := by
    simp [hs₂, Store.apply, Store.putTarball]
  set s₃ := ((s₂.putWatermark c.dir f .empty).putWatermark c.dir f .part).putWatermark c.dir f
    (.whole w) with hs₃
  set s₄ := s₃.putSnapshot c.node c.tag none with hs₄
  obtain ⟨s₅, hsend, hw₅, hs₅⟩ := @run_writeTarballs ι A remote (tarballOf c.node c.tag)
    c.sentParts s₄
  set s₆ := s₅.putTarball remote (tarballOf c.node c.tag) c.whole
  have hwm : s₆.watermark c.dir f = some (.whole w) := by
    show s₅.watermark c.dir f = _
    rw [hw₅]
    exact watermark_putWatermark_self _ _ _ _
  set s₇ := ((s₆.putWatermark remote f .empty).putWatermark remote f .part).putWatermark remote f
    (.whole w) with hs₇
  have hscp : Run exec s₄ (scp c remote) s₇ (.ok ()) := by
    refine run_readTarball_iff.mpr ?_
    have hhead₄ : (s₄.tarball c.dir (tarballOf c.node c.tag)).head? = some c.whole := hhead
    rw [hhead₄]
    show Run exec s₄ ((c.sentParts.forM fun a =>
      request (Req.writeTarball remote (tarballOf c.node c.tag) a)) >>= fun _ => _) _ _
    refine Prog.run_bind_ok_iff.mpr ⟨(), s₅, hsend, .call (x := ()) rfl ?_⟩
    refine run_readWatermark_iff.mpr ?_
    show Run exec s₆ (lift (orFail .noSuchFile (s₆.watermark c.dir f)) >>= _) _ _
    rw [hwm]
    exact .call (x := ()) rfl (.call (x := ()) rfl (.call (x := ()) rfl (.ret _ _)))
  refine ⟨s₇, .call (.inl ⟨rfl, hs, rfl⟩) ?_, ?_, fun n g hng => ?_⟩
  · show Run exec (s.putSnapshot c.node c.tag (some run)) ((c.exportParts.forM fun a =>
      request (Req.writeTarball c.dir (tarballOf c.node c.tag) a)) >>= fun _ => _) _ _
    refine Prog.run_bind_ok_iff.mpr ⟨(), s₁, hexport, .call (x := ()) rfl ?_⟩
    refine run_readTarball_iff.mpr ?_
    rw [hhead]
    refine .call (x := ()) rfl (.call (x := ()) rfl (.call (x := ()) rfl (.call (x := ()) rfl ?_)))
    rw [CheckpointCall.send, hr]
    exact hscp
  · have hold : s₅.watermark remote = s.watermark remote := by
      rw [hw₅]
      simp only [hs₄, hs₃, Store.putSnapshot, Store.putWatermark,
        Function.update_of_ne (Ne.symm hne)]
      exact congrFun hw₁ remote
    simp only [hs₇, Store.putWatermark, Function.update_self, Table.upsert, Function.update_idem]
    exact congrArg (Function.update · f _) hold
  · show s₅.snapshot n g = _
    rw [hs₅]
    show (s₁.putSnapshot c.node c.tag none).snapshot n g = _
    unfold Store.putSnapshot
    rw [hs₁]
    by_cases hn : n = c.node
    · subst hn
      simp [Store.putSnapshot, hng rfl]
    · simp [Store.putSnapshot, hn]

def firstTag : Tag := ⟨"20240601T000000Z".toList, isTag_of_all (by decide) (by decide)⟩

def nextTag : Tag := ⟨"20240602T000000Z".toList, isTag_of_all (by decide) (by decide)⟩

def backups : Place := "/backups".toList

def bothNodes : Text := "cassandra-1,cassandra-2".toList

theorem comma_notMem_node : ∀ n ∈ ["cassandra-1".toList, "cassandra-2".toList], ',' ∉ n := by
  decide

/-- A run of `checkpoint.sh` for one of two nodes. -/
def nodeCall (second : Bool) (tag : Tag) (whole : ℕ) : CheckpointCall ℕ where
  node := if second then "cassandra-2".toList else "cassandra-1".toList
  node_comma := comma_notMem_node _ (by cases second <;> decide)
  tag := tag
  dir := "/data".toList
  remote := some backups
  exportParts := [0]
  whole := whole
  sentParts := [1]

/-- The round of two nodes, the next one of the first, and a consolidation. -/
def twoNodes : Fin 4 → Job ℕ
  | 0 => .checkpoint (nodeCall false firstTag 2)
  | 1 => .checkpoint (nodeCall true firstTag 3)
  | 2 => .checkpoint (nodeCall false nextTag 4)
  | 3 => .consolidate backups (some bothNodes) fun _ => []

/-- A hash with no collisions. -/
def tally (n : ℕ) : Text := List.replicate (n + 1) 'f'

theorem twoNodes_eq {i : Fin 4} {c : CheckpointCall ℕ} (h : twoNodes i = .checkpoint c) :
    i = 0 ∧ c = nodeCall false firstTag 2 ∨ i = 1 ∧ c = nodeCall true firstTag 3 ∨
      i = 2 ∧ c = nodeCall false nextTag 4 := by
  match i with
  | 0 => exact .inl ⟨rfl, (Job.checkpoint.inj h).symm⟩
  | 1 => exact .inr (.inl ⟨rfl, (Job.checkpoint.inj h).symm⟩)
  | 2 => exact .inr (.inr ⟨rfl, (Job.checkpoint.inj h).symm⟩)
  | 3 => exact nomatch h

theorem orderly_twoNodes : Orderly tally twoNodes where
  tags i c h := by
    rcases twoNodes_eq h with ⟨-, rfl⟩ | ⟨-, rfl⟩ | ⟨-, rfl⟩ <;> decide
  dirs i j c c' remote h h' hr := by
    have hdir : c.dir = "/data".toList := by
      rcases twoNodes_eq h with ⟨-, rfl⟩ | ⟨-, rfl⟩ | ⟨-, rfl⟩ <;> rfl
    have hremote : c'.remote = some backups := by
      rcases twoNodes_eq h' with ⟨-, rfl⟩ | ⟨-, rfl⟩ | ⟨-, rfl⟩ <;> rfl
    rw [hdir, ← Option.some.inj (hremote.symm.trans hr)]
    decide
  hashes a _ b _ h := by
    have hlength := congrArg List.length h
    simp only [tally, List.length_replicate] at hlength
    omega

theorem distinct_twoNodes : Distinct twoNodes := by
  have hnode : (nodeCall false firstTag 2).node ≠ (nodeCall true firstTag 3).node := by decide
  have htag : firstTag ≠ nextTag := fun h => absurd (congrArg Subtype.val h) (by decide)
  intro i j c c' h h' hn ht
  rcases twoNodes_eq h with ⟨rfl, rfl⟩ | ⟨rfl, rfl⟩ | ⟨rfl, rfl⟩ <;>
    rcases twoNodes_eq h' with ⟨rfl, rfl⟩ | ⟨rfl, rfl⟩ | ⟨rfl, rfl⟩
  · rfl
  · exact absurd hn hnode
  · exact absurd ht htag
  · exact absurd hn.symm hnode
  · rfl
  · exact absurd ht htag
  · exact absurd ht.symm htag
  · exact absurd ht.symm htag
  · rfl

/-- The watermark files of the round. -/
def roundFiles : List (Text × Watermark) :=
  [(nodeCall false firstTag 2, 2), (nodeCall true firstTag 3, 3)].map fun x =>
    (watermarkOf x.1.node x.1.tag, x.1.watermark (tally x.2))

/-- Both nodes have been exported and copied, the next export of the first is in progress, and the
consolidation is to start. -/
theorem reaches_twoNodes : ∃ σ,
    Sys.Reaches exec (fun _ _ => True) (started tally twoNodes) σ ∧
      Reads σ.store backups roundFiles ∧
      Delivered twoNodes σ backups firstTag
        (expectedNodes (some bothNodes)) ∧
      (∀ o, σ.client 2 ≠ .ret o) ∧
      σ.client 3 = consolidateCheckpoint tally backups (some bothNodes)
        fun _ => [] := by
  set s₀ : Store (Fin 4) ℕ := Store.blank
  obtain ⟨s₁, hrun₁, hw₁, hsnap₁⟩ := @run_checkpoint_sent _ _ s₀ tally 0
    (nodeCall false firstTag 2) backups rfl (by decide) rfl
  -- the next run of the first node has begun its export
  have htag : nextTag ≠ firstTag := fun h => absurd (congrArg Subtype.val h) (by decide)
  have hfree₁ : s₁.snapshot (nodeCall false nextTag 4).node nextTag = none :=
    hsnap₁ _ _ fun _ => htag
  set s₂ := (s₁.putSnapshot (nodeCall false nextTag 4).node nextTag (some 2)).putTarball
    "/data".toList (tarballOf (nodeCall false nextTag 4).node nextTag) 0 with hs₂
  have hbegun : ∃ q, Prog.Steps exec s₁ (checkpoint tally 2 (nodeCall false nextTag 4)) s₂ q ∧
      ∀ o, (q >>= fun _ => (.ret none : Script (Fin 4) ℕ (Option Tag))) ≠ .ret o :=
    ⟨_, .call (x := true) (.inl ⟨rfl, hfree₁, rfl⟩) (.call (x := ()) rfl (.refl _ _)),
      fun _ => nofun⟩
  obtain ⟨q, hsteps, hq⟩ := hbegun
  have hfree₂ : s₂.snapshot (nodeCall true firstTag 3).node firstTag = none := by
    have hnode : (nodeCall true firstTag 3).node ≠ (nodeCall false firstTag 2).node := by decide
    have hother : (nodeCall true firstTag 3).node ≠ (nodeCall false nextTag 4).node := by decide
    simp only [hs₂, Store.putTarball, Store.putSnapshot, Function.update_of_ne hother]
    exact hsnap₁ _ _ fun h => absurd h hnode
  obtain ⟨s₃, hrun₃, hw₃, -⟩ := @run_checkpoint_sent _ _ s₂ tally 1
    (nodeCall true firstTag 3) backups rfl (by decide) hfree₂
  have hended : ∀ {s t : Store (Fin 4) ℕ} {i : Fin 4} {c : CheckpointCall ℕ},
      Run exec s (checkpoint tally i c) t (.ok ()) →
        Run exec s ((Job.checkpoint c).prog tally i) t (.ok none) :=
    fun h => Prog.run_bind_ok_iff.mpr ⟨(), _, h, .ret _ _⟩
  have hreach : Sys.Reaches exec (fun _ _ => True) (started tally twoNodes) ⟨s₁, _⟩ :=
    Sys.Reaches.steps (σ := started tally twoNodes) .refl 0 (hended hrun₁).steps
  have hreach := hreach.steps 2 (hsteps.bind fun _ => .ret none)
  have hreach := hreach.steps 1 (hended hrun₃).steps
  refine ⟨_, hreach, ⟨?_, ?_⟩, ⟨fun i c h ht hp => ?_, fun n hn => ?_⟩, hq, rfl⟩
  · show Table.Enumerates _ (s₃.watermark backups)
    rw [hw₃]
    show Table.Enumerates _ (Table.upsert (s₁.watermark backups) _ _)
    rw [hw₁]
    exact Table.enumerates_upsertAll (by decide)
  · decide
  · rcases twoNodes_eq h with ⟨rfl, rfl⟩ | ⟨rfl, rfl⟩ | ⟨rfl, rfl⟩
    · rfl
    · rfl
    · exact absurd ht htag
  · have hnodes : (expectedNodes (some bothNodes)).splitOn ','
        = ["cassandra-1".toList, "cassandra-2".toList] := by decide
    rw [hnodes] at hn
    rcases List.mem_cons.mp hn with rfl | hn
    · exact ⟨by decide, 0, nodeCall false firstTag 2, rfl, rfl, rfl, .inr rfl⟩
    · obtain rfl := List.mem_singleton.mp hn
      exact ⟨by decide, 1, nodeCall true firstTag 3, rfl, rfl, rfl, .inr rfl⟩

/-- What the consolidation finds complete was exported, of both nodes. -/
theorem complete_was_exported_twoNodes : ∃ σ m c,
    Sys.Reaches exec (fun _ _ => True) (started tally twoNodes) σ ∧ (∀ o, σ.client 2 ≠ .ret o) ∧
      σ.store.manifest backups = some m ∧ c ∈ m ∧ c.complete = true ∧ c.tag = firstTag ∧
      σ.store.Backed backups firstTag "cassandra-1".toList ∧
      σ.store.Backed backups firstTag "cassandra-2".toList := by
  obtain ⟨σ, hσ, hfiles, h, hgoing, hclient⟩ := reaches_twoNodes
  obtain ⟨htag, hcomp⟩ := h.complete orderly_twoNodes distinct_twoNodes hσ hfiles
  have hrun := run_consolidateCheckpoint tally hfiles (some bothNodes) fun _ => []
  rw [← hclient] at hrun
  have hmem : (dirOf tally σ.store backups roundFiles).checkpoint (expectedNodes (some bothNodes))
      [] firstTag ∈ (consolidate (dirOf tally σ.store backups roundFiles) (σ.store.manifest backups)
        (some bothNodes) fun _ => []).1 := (mem_consolidate _).mpr (.inr ⟨firstTag, htag, rfl⟩)
  have hreach := Sys.Reaches.steps hσ 3 hrun.steps
  have hnodes : ((dirOf tally σ.store backups roundFiles).checkpoint
      (expectedNodes (some bothNodes)) [] firstTag).nodesExpected
        = ["cassandra-1".toList, "cassandra-2".toList] := by
    show (expectedNodes (some bothNodes)).splitOn ',' = _
    decide
  have hbacked := complete_was_exported orderly_twoNodes hreach backups _ (manifest_publish _ _ _) _
    hmem hcomp
  rw [hnodes] at hbacked
  exact ⟨_, _, _, hreach, hgoing, manifest_publish _ _ _, hmem, hcomp, rfl,
    hbacked _ (by decide) (by decide), hbacked _ (by decide) (by decide)⟩

theorem delivered_is_restorable_twoNodes : ∃ (dir : RestoreDir) (m : Option (List Checkpoint))
    (checked : List (Watermark × Bool)),
    verifyRestore dir m (some firstTag.1) = .result firstTag.1 checked ∧
      failFlag checked = false ∧ CoversCluster dir.toBackupDir m firstTag.1 checked := by
  obtain ⟨σ, hσ, hfiles, h, -, -⟩ := reaches_twoNodes
  have hrun := run_consolidateCheckpoint tally hfiles (some bothNodes) fun _ => []
  obtain ⟨checked, hdrill, hpass, hcovers⟩ := delivered_is_restorable (fun n => decide (1 < n))
    (fun _ n => decide (1 < n)) orderly_twoNodes distinct_twoNodes hσ h hfiles hrun
      fun i c hi _ => by
        rcases twoNodes_eq hi with ⟨-, rfl⟩ | ⟨-, rfl⟩ | ⟨-, rfl⟩ <;> decide
  exact ⟨_, _, checked, hdrill, hpass, hcovers⟩

end Backup

end NetBuild
