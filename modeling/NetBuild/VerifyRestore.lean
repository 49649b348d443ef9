import NetBuild.BackupWatermarkTheorems

/-!
# `verify-restore.sh`

The restore drill: it takes the latest complete tag of `manifest.json`, or the tag it is given,
extracts the tarball of every watermark file named after the tag, and has `sstableverify` read
what is in it.

The verdict is that nothing failed, over the files there are. It covers the cluster exactly where
the files named after the tag are those of every expected node: a file that was pruned after the
manifest was written, or a tag no file is named after, fails nothing.
-/

namespace NetBuild

/-! ## The script -/

/-- A backup directory with the files in it: whether `tar` extracts a file, and whether
`sstableverify` passes the snapshots of a tag in it. -/
structure RestoreDir extends BackupDir where
  extracts : Text → Bool
  sstableverify : Text → Text → Bool

/-- Why there is no tag to verify. -/
inductive NoTag
  | noManifest | noCheckpoint

/-- How a drill ends: with no tag to verify, stopped by `tar`, or with what `sstableverify` said of
each watermark file. -/
inductive Drill
  | noTag (why : NoTag)
  | aborted (tag : Text)
  | result (tag : Text) (checked : List (Watermark × Bool))

/-- `TAG`: the second argument, or the latest complete tag of the manifest. -/
def drillTag (manifest : Option (List Checkpoint)) (arg : Option Text) : Except NoTag Text :=
  if arg.getD [] ≠ [] then .ok (arg.getD [])
  else
    match manifest with
    | none => .error .noManifest
    | some entries =>
      match latestComplete entries with
      | some tag => .ok tag.1
      | none => .error .noCheckpoint

/-- The watermark files `*-"$TAG".json` lists, of a tag that is any text. -/
def BackupDir.matching (dir : BackupDir) (tag : Text) : List Watermark :=
  (dir.watermarks.filter fun p => '-' :: tag ++ ".json".toList <:+ p.1).map (·.2)

/-- The loop over the watermark files, which a `tar` that fails ends, by `set -e`. -/
def RestoreDir.checkNodes (dir : RestoreDir) (tag : Text) :
    List Watermark → Option (List (Watermark × Bool))
  | [] => some []
  | w :: ws =>
    if dir.extracts w.tarball then
      (dir.checkNodes tag ws).map ((w, dir.sstableverify tag w.tarball) :: ·)
    else none

/-- `FAIL` after the loop. -/
def failFlag (checked : List (Watermark × Bool)) : Bool := checked.any fun c => !c.2

/-- The script on a directory, the manifest in it, if there is one, and its second argument, if
there is one. -/
def verifyRestore (dir : RestoreDir) (manifest : Option (List Checkpoint)) (arg : Option Text) :
    Drill :=
  match drillTag manifest arg with
  | .error why => .noTag why
  | .ok tag =>
    match dir.checkNodes tag (dir.matching tag) with
    | some checked => .result tag checked
    | none => .aborted tag

/-! ## What is promised -/

/-- The tag has a watermark, and every node the manifest expects for it has one whose tarball was
extracted and passed. -/
structure CoversCluster (dir : BackupDir) (manifest : Option (List Checkpoint)) (tag : Text)
    (checked : List (Watermark × Bool)) : Prop where
  exists_watermark : ∃ p ∈ dir.watermarks, p.2.tag.1 = tag
  nodes : ∀ c ∈ manifest.getD [], c.tag.1 = tag → ∀ n ∈ c.nodesExpected,
    ∃ p ∈ dir.watermarks, p.2.node = n ∧ p.2.tag.1 = tag ∧ (p.2, true) ∈ checked

/-- What is said by `verified OK on all nodes`. -/
def DrillSound (dir : BackupDir) (manifest : Option (List Checkpoint)) (drill : Drill) : Prop :=
  ∀ tag checked, drill = .result tag checked → failFlag checked = false →
    CoversCluster dir manifest tag checked

/-- The tag has a watermark, and the files named after it include one of the tag for every node the
manifest expects. -/
structure FilesCover (dir : BackupDir) (manifest : Option (List Checkpoint)) (tag : Text) :
    Prop where
  exists_watermark : ∃ p ∈ dir.watermarks, p.2.tag.1 = tag
  nodes : ∀ c ∈ manifest.getD [], c.tag.1 = tag → ∀ n ∈ c.nodesExpected,
    ∃ w ∈ dir.matching tag, w.node = n ∧ w.tag.1 = tag

/-- The tarball of every file named after the tag passes. -/
def RestoreDir.Passes (dir : RestoreDir) (tag : Text) : Prop :=
  ∀ w ∈ dir.matching tag, dir.extracts w.tarball = true ∧ dir.sstableverify tag w.tarball = true

/-! ## The loop -/

section
variable {dir : RestoreDir} {tag : Text} {ws : List Watermark} {checked : List (Watermark × Bool)}

theorem checkNodes_eq_some_iff :
    dir.checkNodes tag ws = some checked ↔
      (∀ w ∈ ws, dir.extracts w.tarball = true) ∧
        checked = ws.map fun w => (w, dir.sstableverify tag w.tarball) := by
  induction ws generalizing checked with
  | nil =>
    refine ⟨fun h => ⟨by simp, (Option.some.inj h).symm⟩, fun h => ?_⟩
    rw [h.2]
    rfl
  | cons w ws ih =>
    unfold RestoreDir.checkNodes
    by_cases hw : dir.extracts w.tarball = true
    · rw [if_pos hw, Option.map_eq_some_iff]
      simp only [ih, List.forall_mem_cons, List.map_cons]
      refine ⟨fun h => ?_, fun h => ?_⟩
      · obtain ⟨_, ⟨hall, rfl⟩, rfl⟩ := h
        exact ⟨⟨hw, hall⟩, rfl⟩
      · exact ⟨_, ⟨h.1.2, rfl⟩, h.2.symm⟩
    · simp [hw]

theorem failFlag_eq_false_iff :
    failFlag checked = false ↔ ∀ c ∈ checked, c.2 = true := by
  unfold failFlag
  simp

/-- A drill that fails nothing is one in which every tarball passes. -/
theorem verifyRestore_ok_iff {manifest : Option (List Checkpoint)} {arg : Option Text} :
    verifyRestore dir manifest arg = .result tag checked ∧ failFlag checked = false ↔
      drillTag manifest arg = .ok tag ∧ dir.Passes tag ∧
        checked = (dir.matching tag).map fun w => (w, true) := by
  have hloop : dir.checkNodes tag (dir.matching tag) = some checked ∧ failFlag checked = false ↔
      dir.Passes tag ∧ checked = (dir.matching tag).map fun w => (w, true) := by
    rw [checkNodes_eq_some_iff, failFlag_eq_false_iff]
    refine ⟨fun h => ?_, fun h => ?_⟩
    · obtain ⟨⟨hall, rfl⟩, hok⟩ := h
      have hverify : ∀ w ∈ dir.matching tag, dir.sstableverify tag w.tarball = true :=
        fun w hw => hok _ (List.mem_map_of_mem hw)
      refine ⟨fun w hw => ⟨hall w hw, hverify w hw⟩, ?_⟩
      exact List.map_congr_left fun w hw => congrArg (Prod.mk w) (hverify w hw)
    · obtain ⟨hpass, rfl⟩ := h
      refine ⟨⟨fun w hw => (hpass w hw).1, ?_⟩, ?_⟩
      · exact List.map_congr_left fun w hw => congrArg (Prod.mk w) (hpass w hw).2.symm
      · intro c hc
        obtain ⟨w, -, rfl⟩ := List.mem_map.mp hc
        rfl
  -- what is left to say is that the tag drilled is the one chosen
  rw [← hloop, ← and_assoc]
  refine and_congr_left fun _ => ?_
  unfold verifyRestore
  rcases drillTag manifest arg with why | tag'
  · simp
  · dsimp only
    refine ⟨fun h => ?_, fun h => ?_⟩
    · rcases hcheck : dir.checkNodes tag' (dir.matching tag') with _ | checked'
      · rw [hcheck] at h
        exact nomatch h
      · rw [hcheck] at h
        obtain ⟨rfl, rfl⟩ := Drill.result.inj h
        exact ⟨rfl, hcheck⟩
    · obtain ⟨htag, hcheck⟩ := h
      obtain rfl := Except.ok.inj htag
      rw [hcheck]

end

/-! ## The verdict -/

/-- What a drill that fails nothing has shown is what the files named after the tag cover. -/
theorem coversCluster_iff {dir : BackupDir} {manifest : Option (List Checkpoint)} {tag : Text} :
    CoversCluster dir manifest tag ((dir.matching tag).map fun w => (w, true)) ↔
      FilesCover dir manifest tag := by
  have hmem : ∀ w, (w, true) ∈ ((dir.matching tag).map fun w => (w, true)) ↔
      w ∈ dir.matching tag := by
    intro w
    simp
  refine ⟨fun h => ⟨h.exists_watermark, fun c hc ht n hn => ?_⟩,
    fun h => ⟨h.exists_watermark, fun c hc ht n hn => ?_⟩⟩
  · obtain ⟨p, -, hnode, htag, hp⟩ := h.nodes c hc ht n hn
    exact ⟨p.2, (hmem _).mp hp, hnode, htag⟩
  · obtain ⟨w, hw, hnode, htag⟩ := h.nodes c hc ht n hn
    obtain ⟨p, hp, rfl⟩ := List.mem_map.mp hw
    exact ⟨p, List.mem_of_mem_filter hp, hnode, htag, (hmem _).mpr hw⟩

/-- A drill is sound whatever `tar` and `sstableverify` say exactly where the files named after its
tag are those of the cluster. -/
theorem drill_sound_iff (dir : BackupDir) (manifest : Option (List Checkpoint))
    (arg : Option Text) :
    (∀ extracts sstableverify, DrillSound dir manifest
        (verifyRestore ⟨dir, extracts, sstableverify⟩ manifest arg)) ↔
      ∀ tag, drillTag manifest arg = .ok tag → FilesCover dir manifest tag := by
  refine ⟨fun h tag htag => ?_, fun h extracts sstableverify tag checked hdrill hok => ?_⟩
  · -- tarballs that all pass
    have hpass : RestoreDir.Passes ⟨dir, fun _ => true, fun _ _ => true⟩ tag :=
      fun _ _ => ⟨rfl, rfl⟩
    obtain ⟨hdrill, hok⟩ := verifyRestore_ok_iff.mpr ⟨htag, hpass, rfl⟩
    exact coversCluster_iff.mp (h _ _ tag _ hdrill hok)
  · obtain ⟨htag, -, rfl⟩ := verifyRestore_ok_iff.mp ⟨hdrill, hok⟩
    exact coversCluster_iff.mpr (h tag htag)

/-- The files of one node are there, those of another are not. -/
def prunedDir : BackupDir where
  watermarks := [nodeFile "cassandra-3".toList (by decide) weekly]
  sha256sum _ := some "0f1e".toList

/-- The manifest from when both nodes had their files there. -/
def bothNodes : List Checkpoint :=
  [⟨weekly, ["cassandra-3".toList, "cassandra-4".toList],
    ["cassandra-3".toList, "cassandra-4".toList], true, "2024-06-01T00:00:00Z".toList⟩]

/-- The drill of a checkpoint that lost a node's files since says that all nodes are verified. -/
theorem drill_prunedDir :
    ¬ ∀ (dir : RestoreDir) (manifest : Option (List Checkpoint)) (arg : Option Text),
      DrillSound dir.toBackupDir manifest (verifyRestore dir manifest arg) := by
  intro hclaim
  have htag : drillTag (some bothNodes) none = .ok weekly.1 := rfl
  have hpass : RestoreDir.Passes ⟨prunedDir, fun _ => true, fun _ _ => true⟩ weekly.1 :=
    fun w _ => ⟨rfl, rfl⟩
  obtain ⟨hdrill, hok⟩ := verifyRestore_ok_iff.mpr ⟨htag, hpass, rfl⟩
  have hcovers := hclaim _ (some bothNodes) none weekly.1 _ hdrill hok
  obtain ⟨p, hp, hnode, -, -⟩ :=
    hcovers.nodes _ List.mem_cons_self rfl "cassandra-4".toList (by decide)
  obtain rfl := List.mem_singleton.mp hp
  exact absurd hnode (by decide)

end NetBuild
