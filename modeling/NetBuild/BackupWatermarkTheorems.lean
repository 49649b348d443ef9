import NetBuild.BackupWatermark
import NetBuild.Lib.Separated

/-!
# What the printed watermark is worth

A complete tag is meant to be one the cluster can be restored to: every expected node has a
watermark file that records it, with a tarball that verifies. The script takes the files of a tag
by their names, and `*-"$TAG".json` lists the files of every longer tag that ends in `-"$TAG"`
too; and it keeps the entries of tags that no file records any more. The watermark is sound,
whatever nodes are expected, exactly where no file stands in for one of another tag and no entry
outlives its tag.
-/

namespace NetBuild

/-! ## What is promised -/

/-- Every node has a watermark file that records the tag, with a tarball that verifies. -/
def BackupDir.Recovers (dir : BackupDir) (nodes : List Text) (t : Tag) : Prop :=
  ∀ n ∈ nodes, ∃ p ∈ dir.watermarks, p.2.node = n ∧ p.2.tag = t ∧ dir.verifies p.2 = true

/-- The cluster can be restored to the tag printed, and to every tag the manifest has as
complete. -/
structure WatermarkSound (dir : BackupDir) (nodes : List Text)
    (out : List Checkpoint × Option Tag) : Prop where
  printed : ∀ t, out.2 = some t → dir.Recovers nodes t
  ledger : ∀ c ∈ out.1, c.complete = true → dir.Recovers nodes c.tag

/-- The node is in a list of nodes. Empty names at its beginning are lost in `PRESENT_NODES`, and
if nothing else is there, it reads as one empty name. -/
def Listed (nodes : List Text) (n : Text) : Prop :=
  n ∈ nodes.dropWhile (· = []) ∨ n = [] ∧ ∀ m ∈ nodes, m = []

/-- The files named after the tag verify and are those of all the nodes, whatever tag they
record. -/
def BackupDir.CompleteByName (dir : BackupDir) (nodes : List Text) (t : Tag) : Prop :=
  (∀ w ∈ dir.named t, dir.verifies w = true) ∧ ∀ n ∈ nodes, Listed ((dir.named t).map (·.node)) n

/-- In every tag that a file records, or `null`, whose files by name all verify, each node that one
of them names has a file that records the tag and verifies. -/
def BackupDir.NodesRecorded (dir : BackupDir) : Prop :=
  ∀ t ∈ dir.tags, (∀ w ∈ dir.named t, dir.verifies w = true) →
    ∀ w ∈ dir.named t, w.node ≠ [] →
      ∃ p ∈ dir.watermarks, p.2.node = w.node ∧ p.2.tag = t ∧ dir.verifies p.2 = true

/-- Every complete entry is of a tag that a file records, or of `null`. -/
def BackupDir.EntriesRecorded (dir : BackupDir) (manifest : List Checkpoint) : Prop :=
  ∀ c ∈ manifest, c.complete = true → c.tag ∈ dir.tags

/-- Every file is named after the node and the tag it records. -/
def BackupDir.NamedAsRecorded (dir : BackupDir) : Prop :=
  ∀ p ∈ dir.watermarks, p.1 = p.2.node ++ '-' :: p.2.tag.1 ++ ".json".toList

/-- No tag ends in a dash and another one. -/
def BackupDir.TagsApart (dir : BackupDir) : Prop :=
  ∀ t ∈ dir.tags, ∀ t' ∈ dir.tags, ¬ '-' :: t.1 <:+ t'.1

/-- The nodes expected have names. -/
def Named (nodes : List Text) : Prop := ∀ n ∈ nodes, n ≠ []

/-! ## The nodes present -/

theorem foldl_addNode {s : Text} (hs : s ≠ []) (nodes : List Text) :
    nodes.foldl addNode s = s ++ nodes.flatMap (',' :: ·) := by
  induction nodes generalizing s with
  | nil => simp
  | cons n nodes ih =>
    have hstep : addNode s n = s ++ ',' :: n := by
      unfold addNode
      rw [if_neg hs]
      simp
    rw [List.foldl_cons, hstep, ih (by simp)]
    simp

/-- The parts of `PRESENT_NODES` between commas. -/
theorem mem_splitOn_foldl_addNode {nodes : List Text} (hnodes : ∀ m ∈ nodes, ',' ∉ m)
    (n : Text) : n ∈ (nodes.foldl addNode []).splitOn ',' ↔ Listed nodes n := by
  unfold Listed
  induction nodes with
  | nil => simp
  | cons m nodes ih =>
    have hfirst : addNode [] m = m := by
      unfold addNode
      simp
    rw [List.foldl_cons, hfirst]
    by_cases hm : m = []
    · rw [hm, ih fun m hm => hnodes m (List.mem_cons_of_mem _ hm)]
      simp
    · -- from the first name on, every name is there
      rw [foldl_addNode hm, ← List.intercalate_cons_eq,
        List.splitOn_intercalate _ hnodes (List.cons_ne_nil _ _),
        List.dropWhile_cons_of_neg (by simpa using hm)]
      simp [hm]

theorem isPresent_iff {presentNodes n : Text} (hn : ',' ∉ n) :
    isPresent presentNodes n = true ↔ n ∈ presentNodes.splitOn ',' := by
  unfold isPresent
  rw [decide_eq_true_iff, List.infix_iff_mem_splitOn hn]

theorem comma_notMem_of_mem_readArray {s n : Text} (h : n ∈ readArray s) : ',' ∉ n := by
  apply List.notMem_of_mem_splitOn (l := s)
  unfold readArray at h
  dsimp only at h
  split at h
  · exact List.mem_of_mem_dropLast h
  · exact h

/-- The script always expects some node. -/
theorem readArray_expectedNodes_ne_nil (arg : Option Text) :
    readArray (expectedNodes arg) ≠ [] := by
  have hne : expectedNodes arg ≠ [] := by
    unfold expectedNodes
    split
    · decide
    · next h => exact h
  unfold readArray
  dsimp only
  split
  · intro hdrop
    -- a single field, and an empty one, is an empty list of nodes
    rcases hs : (expectedNodes arg).splitOn ',' with _ | ⟨l, _ | ⟨l', ls⟩⟩
    · exact List.splitOn_ne_nil _ _ hs
    · next hlast =>
      rw [hs] at hlast
      obtain rfl : l = [] := Option.some.inj hlast
      have hjoin : [','].intercalate ((expectedNodes arg).splitOn ',') = expectedNodes arg :=
        List.intercalate_splitOn ','
      rw [hs] at hjoin
      exact hne hjoin.symm
    · rw [hs] at hdrop
      exact nomatch hdrop
  · exact List.splitOn_ne_nil _ _

/-- A node with a name is listed as it is written. -/
theorem listed_iff {nodes : List Text} {n : Text} (hn : n ≠ []) : Listed nodes n ↔ n ∈ nodes := by
  unfold Listed
  have hnot : ¬ (n = [] ∧ ∀ m ∈ nodes, m = []) := fun h => hn h.1
  rw [or_iff_left hnot]
  refine ⟨fun h => (List.dropWhile_sublist _).mem h, fun h => ?_⟩
  rw [← List.takeWhile_append_dropWhile (p := fun m => decide (m = [])) (l := nodes),
    List.mem_append] at h
  refine h.resolve_left fun h => hn ?_
  simpa using List.mem_takeWhile_imp h

/-- One node. -/
theorem readArray_expectedNodes_some {n : Text} (hn : n ≠ []) (hcomma : ',' ∉ n) :
    readArray (expectedNodes (some n)) = [n] := by
  have hexp : expectedNodes (some n) = n := if_neg hn
  have hsplit : n.splitOn ',' = [n] := by
    have hjoin := List.splitOn_intercalate ',' (by simpa using hcomma) (List.cons_ne_nil n [])
    rwa [List.intercalate_singleton] at hjoin
  unfold readArray
  rw [hexp, hsplit]
  exact if_neg fun h => hn (Option.some.inj h)

/-! ## One tag -/

section
variable {dir : BackupDir} {t : Tag}

theorem foldl_scan (dir : BackupDir) (l : List Watermark) (presentNodes : Text)
    (allVerified : Bool) :
    let scanned := l.foldl
      (fun (presentNodes, allVerified) w =>
        if dir.verifies w then (addNode presentNodes w.node, allVerified)
        else (presentNodes, false)) (presentNodes, allVerified)
    (scanned.2 = true ↔ allVerified = true ∧ ∀ w ∈ l, dir.verifies w = true) ∧
      ((∀ w ∈ l, dir.verifies w = true) →
        scanned.1 = (l.map (·.node)).foldl addNode presentNodes) := by
  induction l generalizing presentNodes allVerified with
  | nil => simp
  | cons w l ih =>
    rw [List.foldl_cons]
    by_cases hw : dir.verifies w = true
    · simpa [hw] using ih (addNode presentNodes w.node) allVerified
    · simpa [hw] using (ih presentNodes false).1

/-- What the script decides of a tag, from the names of the files. -/
theorem complete_iff (expected : Text) :
    dir.complete expected t = true ↔ dir.CompleteByName (readArray expected) t := by
  have hscan := foldl_scan dir (dir.named t) [] true
  have hcomma : ∀ m ∈ (dir.named t).map (·.node), ',' ∉ m := by
    intro m hm
    obtain ⟨w, -, rfl⟩ := List.mem_map.mp hm
    exact w.node_comma
  unfold BackupDir.complete BackupDir.CompleteByName BackupDir.scan
  rw [Bool.and_eq_true, List.all_eq_true, hscan.1, eq_self_iff_true, true_and, and_comm]
  refine and_congr_right fun hv => forall₂_congr fun n hn => ?_
  rw [hscan.2 hv, isPresent_iff (comma_notMem_of_mem_readArray hn),
    mem_splitOn_foldl_addNode hcomma]

end

/-! ## The manifest -/

section
variable {dir : BackupDir} {f : Tag → Checkpoint} {manifest : List Checkpoint}

/-- A round replaces the entry of its tag and keeps the others. -/
theorem mem_foldl_updateManifest (hf : ∀ t, (f t).tag = t) (tags : List Tag) (c : Checkpoint) :
    c ∈ tags.foldl (fun m t => updateManifest m (f t)) manifest ↔
      (c ∈ manifest ∧ c.tag ∉ tags) ∨ ∃ t ∈ tags, c = f t := by
  induction tags generalizing manifest with
  | nil => simp
  | cons t tags ih =>
    have hround : c ∈ updateManifest manifest (f t) ↔ (c ∈ manifest ∧ c.tag ≠ t) ∨ c = f t := by
      unfold updateManifest
      rw [hf]
      simp
    rw [List.foldl_cons, ih, hround]
    have htag : c = f t → c.tag = t := fun h => (congrArg Checkpoint.tag h).trans (hf t)
    simp only [List.mem_cons, exists_eq_or_imp]
    by_cases hc : c = f t
    · refine iff_of_true ?_ (.inr (.inl hc))
      -- a later round of the same tag writes the same entry
      by_cases ht : t ∈ tags
      · exact .inr ⟨t, ht, hc⟩
      · exact .inl ⟨.inr hc, htag hc ▸ ht⟩
    · simp only [hc, or_false, false_or, not_or, and_assoc]

theorem mem_tags {t : Tag} :
    t ∈ dir.tags ↔ t = nullTag ∨ ∃ p ∈ dir.watermarks, p.2.tag = t := by
  unfold BackupDir.tags
  simp

/-- The tag printed is one the manifest has as complete. -/
theorem complete_of_latestComplete {t : Tag} (h : latestComplete manifest = some t) :
    ∃ c ∈ manifest, c.complete = true ∧ c.tag = t := by
  have hm := List.mem_of_getLast? h
  rw [List.mem_insertionSort] at hm
  obtain ⟨c, hc, rfl⟩ := List.mem_map.mp hm
  obtain ⟨hc, hcomplete⟩ := List.mem_filter.mp hc
  exact ⟨c, hc, hcomplete, rfl⟩

/-- The entries the script leaves: those it wrote for the tags there are, and the old ones of other
tags. -/
theorem mem_consolidate {arg : Option Text} {now : Tag → Text} {old : Option (List Checkpoint)}
    (c : Checkpoint) :
    c ∈ (consolidate dir old arg now).1 ↔ (c ∈ old.getD [] ∧ c.tag ∉ dir.tags) ∨
      ∃ t ∈ dir.tags, c = dir.checkpoint (expectedNodes arg) (now t) t :=
  mem_foldl_updateManifest (fun _ => rfl) dir.tags c

/-- With one list of nodes, the watermark is sound where no tag is complete by the names of the
files alone, and no old entry is complete for a tag that no file records. -/
theorem watermarkSound_iff (dir : BackupDir) (manifest : Option (List Checkpoint))
    (arg : Option Text) (now : Tag → Text) :
    WatermarkSound dir (readArray (expectedNodes arg)) (consolidate dir manifest arg now) ↔
      (∀ t ∈ dir.tags, dir.CompleteByName (readArray (expectedNodes arg)) t →
        dir.Recovers (readArray (expectedNodes arg)) t) ∧
      dir.EntriesRecorded (manifest.getD []) := by
  refine ⟨fun h => ⟨fun t ht hc => ?_, fun c hc hcomplete => ?_⟩, fun h => ?_⟩
  · exact h.ledger _ ((mem_consolidate _).mpr (.inr ⟨t, ht, rfl⟩)) ((complete_iff _).mpr hc)
  · by_contra ht
    have hrec := h.ledger c ((mem_consolidate c).mpr (.inl ⟨hc, ht⟩)) hcomplete
    obtain ⟨n, hn⟩ := List.exists_mem_of_ne_nil _ (readArray_expectedNodes_ne_nil arg)
    obtain ⟨p, hp, -, htag, -⟩ := hrec n hn
    exact ht (mem_tags.mpr (.inr ⟨p, hp, htag⟩))
  · have hledger : ∀ c ∈ (consolidate dir manifest arg now).1, c.complete = true →
        dir.Recovers (readArray (expectedNodes arg)) c.tag := by
      intro c hc hcomplete
      rcases (mem_consolidate c).mp hc with ⟨hold, ht⟩ | ⟨t, ht, rfl⟩
      · exact absurd (h.2 c hold hcomplete) ht
      · exact h.1 t ht ((complete_iff _).mp hcomplete)
    refine ⟨fun t ht => ?_, hledger⟩
    obtain ⟨c, hc, hcomplete, rfl⟩ := complete_of_latestComplete (Option.filter_eq_some_iff.mp ht).1
    exact hledger c hc hcomplete

end

/-! ## What the names tell -/

theorem eq_or_suffix {n t t' : Text}
    (h : '-' :: t ++ ".json".toList <:+ n ++ '-' :: t' ++ ".json".toList) :
    t = t' ∨ '-' :: t <:+ t' ∨ '-' :: t' <:+ t := by
  obtain ⟨s, hs⟩ := h
  rw [← List.append_assoc] at hs
  have hsuff : '-' :: t <:+ n ++ '-' :: t' := ⟨s, List.append_cancel_right hs⟩
  rcases List.suffix_or_suffix_of_suffix hsuff (List.suffix_append n _) with h | h
  · rcases List.suffix_cons_iff.mp h with h | h
    · exact .inl (List.cons.inj h).2
    · exact .inr (.inl h)
  · rcases List.suffix_cons_iff.mp h with h | h
    · exact .inl (List.cons.inj h).2.symm
    · exact .inr (.inr h)

section
variable {dir : BackupDir}

/-- Named after what they record, and no tag ending in another one, the files of a tag by name are
those that record it. -/
theorem tag_eq_of_named (hnamed : dir.NamedAsRecorded) (hapart : dir.TagsApart) {t : Tag}
    (ht : t ∈ dir.tags) {p : Text × Watermark} (hp : p ∈ dir.watermarks)
    (h : '-' :: t.1 ++ ".json".toList <:+ p.1) : p.2.tag = t := by
  have hp' : p.2.tag ∈ dir.tags := mem_tags.mpr (.inr ⟨p, hp, rfl⟩)
  rw [hnamed p hp] at h
  rcases eq_or_suffix h with h | h | h
  · exact Subtype.ext h.symm
  · exact absurd h (hapart t ht _ hp')
  · exact absurd h (hapart _ hp' t ht)

theorem nodesRecorded_of_named (hnamed : dir.NamedAsRecorded) (hapart : dir.TagsApart) :
    dir.NodesRecorded := by
  intro t ht hv w hw _
  obtain ⟨p, hp, rfl⟩ := List.mem_map.mp hw
  obtain ⟨hmem, hsuff⟩ := List.mem_filter.mp hp
  exact ⟨p, hmem, rfl, tag_eq_of_named hnamed hapart ht hmem (of_decide_eq_true hsuff), hv _ hw⟩

/-- The nodes of a tag that is complete by name are those of its own files. -/
theorem BackupDir.NodesRecorded.recovers (h : dir.NodesRecorded) {nodes : List Text}
    (hnodes : Named nodes) {t : Tag} (ht : t ∈ dir.tags) (hc : dir.CompleteByName nodes t) :
    dir.Recovers nodes t := by
  intro n hn
  obtain ⟨w, hw, rfl⟩ := List.mem_map.mp ((listed_iff (hnodes n hn)).mp (hc.2 n hn))
  exact h t ht hc.1 w hw (hnodes _ hn)

/-- The watermark is sound for every list of named nodes exactly where, in each tag, the files by
name stand for no file that is not there, and no entry is complete for a tag that no file records.
Files named after what they record stand for themselves, if no tag ends in another one. -/
theorem watermark_sound_iff (dir : BackupDir) (manifest : Option (List Checkpoint)) :
    ((∀ arg (now : Tag → Text), Named (readArray (expectedNodes arg)) →
        WatermarkSound dir (readArray (expectedNodes arg)) (consolidate dir manifest arg now)) ↔
      dir.NodesRecorded ∧ dir.EntriesRecorded (manifest.getD [])) ∧
    (dir.NamedAsRecorded → dir.TagsApart → dir.NodesRecorded) := by
  refine ⟨⟨fun h => ⟨fun t ht hv w hw hn => ?_, ?_⟩, fun h arg now hnodes => ?_⟩,
    nodesRecorded_of_named⟩
  · -- the list of that one node
    have hone := readArray_expectedNodes_some hn w.node_comma
    have hsound := h (some w.node) (fun _ => []) (by rw [hone]; simpa [Named] using hn)
    rw [watermarkSound_iff, hone] at hsound
    refine hsound.1 t ht ⟨hv, fun n hmem => ?_⟩ _ (List.mem_singleton_self _)
    rw [List.mem_singleton.mp hmem]
    exact (listed_iff hn).mpr (List.mem_map_of_mem hw)
  · have hsound := h none (fun _ => []) (by unfold Named; decide +kernel)
    exact ((watermarkSound_iff ..).mp hsound).2
  · exact (watermarkSound_iff ..).mpr ⟨fun t ht hc => h.1.recovers hnodes ht hc, h.2⟩

end

/-- A watermark file of a node, and the tarball it records. -/
def nodeFile (node : Text) (h : ',' ∉ node) (t : Tag) : Text × Watermark :=
  (node ++ '-' :: t.1 ++ ".json".toList,
    ⟨node, t, node ++ '-' :: t.1 ++ ".tar.gz".toList, "0f1e".toList, h⟩)

def biWeekly : Tag := ⟨"bi-weekly".toList, isTag_of_all (by decide) (by decide)⟩

def weekly : Tag := ⟨"weekly".toList, isTag_of_all (by decide) (by decide)⟩

/-- Both nodes with a checkpoint `weekly`. -/
def oneRound : BackupDir where
  watermarks := [nodeFile "cassandra-1".toList (by decide) weekly,
    nodeFile "cassandra-2".toList (by decide) weekly]
  sha256sum _ := some "0f1e".toList

/-- The files are named after what they record, so `weekly` is printed and can be restored. -/
theorem watermark_sound_iff_oneRound :
    (consolidate oneRound none (some "cassandra-1,cassandra-2".toList) fun _ => []).2
      = some weekly ∧
      WatermarkSound oneRound ["cassandra-1".toList, "cassandra-2".toList]
        (consolidate oneRound none (some "cassandra-1,cassandra-2".toList) fun _ => []) := by
  have hsound := watermark_sound_iff oneRound none
  have htags : oneRound.tags = [nullTag, weekly] := by decide +kernel
  have hapart : oneRound.TagsApart := by
    unfold BackupDir.TagsApart
    rw [htags]
    decide
  have hnamed : oneRound.NamedAsRecorded := by
    unfold BackupDir.NamedAsRecorded
    decide
  have hnodes : Named (readArray (expectedNodes (some "cassandra-1,cassandra-2".toList))) := by
    unfold Named
    decide +kernel
  exact ⟨by decide +kernel,
    hsound.1.mpr ⟨hsound.2 hnamed hapart, fun _ hc => nomatch hc⟩ _ _ hnodes⟩

/-- One node with a checkpoint `bi-weekly`, and another one with a checkpoint `weekly`. -/
def twoRounds : BackupDir where
  watermarks := [nodeFile "cassandra-1".toList (by decide) biWeekly,
    nodeFile "cassandra-2".toList (by decide) weekly]
  sha256sum _ := some "0f1e".toList

/-- `weekly` is printed as a checkpoint of the first node, which has none of that tag. -/
theorem watermark_weekly :
    ¬ ∀ (dir : BackupDir) (manifest : Option (List Checkpoint)) (arg : Option Text)
      (now : Tag → Text),
        WatermarkSound dir (readArray (expectedNodes arg)) (consolidate dir manifest arg now) := by
  intro hclaim
  have h := hclaim twoRounds none (some "cassandra-1".toList) fun _ => []
  have hprinted : (consolidate twoRounds none (some "cassandra-1".toList) fun _ => []).2
      = some weekly := by
    decide +kernel
  obtain ⟨p, hp, hnode, htag, -⟩ := h.printed _ hprinted "cassandra-1".toList (by decide +kernel)
  rcases List.mem_cons.mp hp with rfl | hp
  · exact absurd htag (by decide)
  · obtain rfl := List.mem_singleton.mp hp
    exact absurd hnode (by decide)

end NetBuild
