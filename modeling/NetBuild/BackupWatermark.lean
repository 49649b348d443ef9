import NetBuild.Timestamp
import Mathlib.Data.Char
import Mathlib.Data.List.Dedup
import Mathlib.Data.List.Infix
import Mathlib.Data.List.Lex
import Mathlib.Data.List.Sort

/-!
# `consolidate-checkpoint.sh`

The script that decides, on the backup host, which tags are complete checkpoints of the cluster: it
reads the watermark files of the nodes, verifies their tarballs, brings `manifest.json` up to date
and prints the latest complete tag as the recovery point.

Shell variables are `Text`s. What the script reads is taken as its commands give it: a field of a
watermark file is what `jq -r` prints of it, a tarball is known by what `sha256sum` prints of it.
-/

namespace NetBuild

/-! ## The backup directory -/

/-- A tag: not empty, and a single word of the shell that no file name expands. -/
abbrev Tag := { t : Text // t ≠ [] ∧ ∀ c ∈ t, c.isWhitespace = false ∧ c ∉ ['*', '?', '['] }

/-- A text is a tag when all its characters are plain. -/
theorem isTag_of_all {t : Text} (hne : t ≠ [])
    (h : t.all (fun c => !c.isWhitespace && !(['*', '?', '['].contains c)) = true) :
    t ≠ [] ∧ ∀ c ∈ t, c.isWhitespace = false ∧ c ∉ ['*', '?', '['] := by
  refine ⟨hne, fun c hc => ?_⟩
  have hplain := List.all_eq_true.mp h c hc
  simpa using hplain

/-- The fields of a watermark file that the script reads. -/
structure Watermark where
  node : Text
  tag : Tag
  tarball : Text
  sha256 : Text
  node_comma : ',' ∉ node

/-- The files of `BACKUP_DIR`: the ones `*.json` lists, in its order and without the manifest, and
the hash of each regular file under its name. -/
structure BackupDir where
  watermarks : List (Text × Watermark)
  sha256sum : Text → Option Text

/-- An entry of the manifest's `checkpoints`. -/
structure Checkpoint where
  tag : Tag
  nodesExpected : List Text
  nodesPresent : List Text
  complete : Bool
  consolidatedAt : Text

/-! ## One tag -/

/-- What `jq -r '.tag'` prints of the manifest, which has no tag. -/
def nullTag : Tag := ⟨"null".toList, isTag_of_all (by decide) (by decide)⟩

/-- `TAGS`: the manifest is one of the files `*.json` lists. -/
def BackupDir.tags (dir : BackupDir) : List Tag :=
  (nullTag :: dir.watermarks.map (·.2.tag)).dedup.insertionSort (· ≤ ·)

/-- The watermark files `*-"$TAG".json` lists. -/
def BackupDir.named (dir : BackupDir) (t : Tag) : List Watermark :=
  (dir.watermarks.filter fun p => '-' :: t.1 ++ ".json".toList <:+ p.1).map (·.2)

/-- The tarball is there and has the recorded hash. -/
def BackupDir.verifies (dir : BackupDir) (w : Watermark) : Bool :=
  dir.sha256sum w.tarball = some w.sha256

/-- `"${PRESENT_NODES}${PRESENT_NODES:+,}$NODE"`. -/
def addNode (presentNodes node : Text) : Text :=
  presentNodes ++ (if presentNodes = [] then [] else [',']) ++ node

/-- `PRESENT_NODES` and `ALL_VERIFIED` after the loop over the watermark files of a tag. -/
def BackupDir.scan (dir : BackupDir) (t : Tag) : Text × Bool :=
  (dir.named t).foldl
    (fun (presentNodes, allVerified) w =>
      if dir.verifies w then (addNode presentNodes w.node, allVerified) else (presentNodes, false))
    ([], true)

/-- `IFS=',' read -ra`: the fields between commas, but for an empty one at the end. -/
def readArray (s : Text) : List Text :=
  let fields := s.splitOn ','
  if fields.getLast? = some [] then fields.dropLast else fields

/-- `case ",$PRESENT_NODES," in *",$N,"*)`. -/
def isPresent (presentNodes n : Text) : Bool :=
  ',' :: (n ++ [',']) <:+: ',' :: (presentNodes ++ [','])

/-- `COMPLETE` of a tag. -/
def BackupDir.complete (dir : BackupDir) (expectedNodes : Text) (t : Tag) : Bool :=
  (readArray expectedNodes).all (isPresent (dir.scan t).1) && (dir.scan t).2

/-- The entry written for a tag, at the time `now`. -/
def BackupDir.checkpoint (dir : BackupDir) (expectedNodes now : Text) (t : Tag) : Checkpoint where
  tag := t
  nodesExpected := expectedNodes.splitOn ','
  nodesPresent := ((dir.scan t).1.splitOn ',').filter (· ≠ [])
  complete := dir.complete expectedNodes t
  consolidatedAt := now

/-- The manifest after the round of a tag. -/
def updateManifest (manifest : List Checkpoint) (c : Checkpoint) : List Checkpoint :=
  manifest.filter (·.tag ≠ c.tag) ++ [c]

/-! ## The script -/

/-- The nodes expected where the script is given none. -/
def defaultNodes : Text := "cassandra-1,cassandra-2,cassandra-3,cassandra-4,cassandra-5".toList

/-- `${2:-cassandra-1,…}`. -/
def expectedNodes (arg : Option Text) : Text :=
  if arg.getD [] = [] then defaultNodes else arg.getD []

/-- `[.checkpoints[] | select(.complete)] | sort_by(.tag) | last | .tag`. -/
def latestComplete (manifest : List Checkpoint) : Option Tag :=
  (((manifest.filter (·.complete)).map (·.tag)).insertionSort (· ≤ ·)).getLast?

/-- The script on a directory and the manifest in it, if there is one: the manifest it leaves and
the tag it prints as the watermark. The clock is read once for each tag. -/
def consolidate (dir : BackupDir) (manifest : Option (List Checkpoint)) (arg : Option Text)
    (now : Tag → Text) : List Checkpoint × Option Tag :=
  let entries := dir.tags.foldl
    (fun m t => updateManifest m (dir.checkpoint (expectedNodes arg) (now t) t)) (manifest.getD [])
  -- `// "NONE"`, and a tag of that name reads the same
  (entries, (latestComplete entries).filter fun t => t.1 ≠ "NONE".toList)

end NetBuild
