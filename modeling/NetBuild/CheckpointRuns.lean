import NetBuild.BackupWatermarkTheorems
import NetBuild.Lib.Rely
import NetBuild.Lib.Table
import Mathlib.Data.List.ReduceOption

/-!
# `checkpoint.sh` and `consolidate-checkpoint.sh`, command by command

`checkpoint.sh` takes a snapshot of a node, exports it, writes a watermark beside the tarball and
copies both to the backup host; `consolidate-checkpoint.sh` reads what has arrived. Any number of
runs of the two go on at the same time, and any of them can stop anywhere: a file that is being
written or copied can be seen in between.

A command reads or writes a file in one step, but for a file that is written or received over some
time: what a tarball holds until it is complete is given with the run, and a watermark file is empty
at first and then holds a part of its text.
-/

namespace NetBuild

namespace Backup

open Prog (request lift)

/-- A directory of backups, on some host. -/
abbrev Place := Text

/-- `${NODE_NAME}-${TAG}` and a suffix. -/
def fileName (node : Text) (tag : Tag) (suffix : Text) : Text := node ++ '-' :: tag.1 ++ suffix

def tarballOf (node : Text) (tag : Tag) : Text := fileName node tag ".tar.gz".toList

def watermarkOf (node : Text) (tag : Tag) : Text := fileName node tag ".json".toList

/-- What a watermark file holds: nothing yet, a part of its text, or all of it. -/
inductive Json
  | empty
  | part
  | whole (w : Watermark)

/-- What the commands read and write. A snapshot is there with the run that took it, and a tarball
with all it has held, the present contents first. `exported` are the tarballs written to their end.
`manifestTmp` is the file `manifest.json.tmp`, which all consolidations of a directory share. -/
structure Store (ι A : Type) where
  snapshot : Text → Tag → Option ι
  exported : List (Text × Tag × A)
  tarball : Place → Text → List A
  watermark : Place → Table Text Json
  manifest : Place → Option (List Checkpoint)
  manifestTmp : Place → Option (List Checkpoint)

/-- The commands that read or write. -/
inductive Req (ι A : Type)
  | snapshot (node : Text) (tag : Tag) (run : ι)
  | clearsnapshot (node : Text) (tag : Tag)
  | writeTarball (p : Place) (f : Text) (a : A)
  | exportTarball (p : Place) (node : Text) (tag : Tag) (a : A)
  | readTarball (p : Place) (f : Text)
  | writeWatermark (p : Place) (f : Text) (json : Json)
  | readWatermark (p : Place) (f : Text)
  | listWatermarks (p : Place)
  | readManifest (p : Place)
  | writeManifest (p : Place) (m : List Checkpoint)
  | writeManifestTmp (p : Place) (m : List Checkpoint)
  | moveManifestTmp (p : Place)

variable {ι A : Type}

/-- What a command answers: `snapshot` and `mv` whether it succeeded, a read what there is. -/
abbrev Req.Resp : Req ι A → Type
  | .snapshot _ _ _ | .moveManifestTmp _ => Bool
  | .readTarball _ _ => Option A
  | .readWatermark _ _ => Option Json
  | .listWatermarks _ => List (Text × Json)
  | .readManifest _ => Option (List Checkpoint)
  | _ => Unit

/-- Why a script ends: under `set -e` any command that fails ends it. -/
inductive ScriptError
  | snapshot | noSuchFile | notJson
  deriving DecidableEq

abbrev Script (ι A α : Type) := Prog (Req ι A) Req.Resp ScriptError α

namespace Store

def putTarball (s : Store ι A) (p : Place) (f : Text) (a : A) : Store ι A :=
  { s with
    tarball := Function.update s.tarball p
      (Function.update (s.tarball p) f (a :: s.tarball p f)) }

def putWatermark (s : Store ι A) (p : Place) (f : Text) (json : Json) : Store ι A :=
  { s with watermark := Function.update s.watermark p ((s.watermark p).upsert f json) }

def putManifest (s : Store ι A) (p : Place) (m : List Checkpoint) : Store ι A :=
  { s with manifest := Function.update s.manifest p (some m) }

def putManifestTmp (s : Store ι A) (p : Place) (m : Option (List Checkpoint)) : Store ι A :=
  { s with manifestTmp := Function.update s.manifestTmp p m }

def putSnapshot (s : Store ι A) (node : Text) (tag : Tag) (run : Option ι) : Store ι A :=
  { s with snapshot := Function.update s.snapshot node (Function.update (s.snapshot node) tag run) }

/-- The store after a command. -/
def apply (s : Store ι A) : Req ι A → Store ι A
  | .snapshot node tag run => s.putSnapshot node tag (some run)
  | .clearsnapshot node tag => s.putSnapshot node tag none
  | .writeTarball p f a => s.putTarball p f a
  | .exportTarball p node tag a =>
    { (s.putTarball p (tarballOf node tag) a) with exported := (node, tag, a) :: s.exported }
  | .writeWatermark p f json => s.putWatermark p f json
  | .writeManifest p m => s.putManifest p m
  | .writeManifestTmp p m => s.putManifestTmp p (some m)
  | _ => s

end Store

/-- `x` is what the command answers in `s`, and `s'` the store after it. `nodetool snapshot` fails
where there is a snapshot of the tag, and can fail anyway; `mv` fails where there is no file. -/
def exec (s : Store ι A) : (r : Req ι A) → r.Resp → Store ι A → Prop
  | .snapshot node tag run, (ok : Bool), s' =>
    ok = true ∧ s.snapshot node tag = none ∧ s' = s.apply (.snapshot node tag run) ∨
      ok = false ∧ s' = s
  | .readTarball p f, (x : Option A), s' => x = (s.tarball p f).head? ∧ s' = s
  | .readWatermark p f, (x : Option Json), s' => x = s.watermark p f ∧ s' = s
  | .listWatermarks p, (x : List (Text × Json)), s' =>
    Table.Enumerates x (s.watermark p) ∧ (x.map Prod.fst).Pairwise (· ≤ ·) ∧ s' = s
  | .readManifest p, (x : Option (List Checkpoint)), s' => x = s.manifest p ∧ s' = s
  | .moveManifestTmp p, (ok : Bool), s' =>
    (∃ m, ok = true ∧ s.manifestTmp p = some m ∧ s' = (s.putManifestTmp p none).putManifest p m) ∨
      ok = false ∧ s.manifestTmp p = none ∧ s' = s
  | r, _, s' => s' = s.apply r

/-- The result of a command that fails on a missing file. -/
def orFail {α : Type} (e : ScriptError) : Option α → Except ScriptError α
  | some a => .ok a
  | none => .error e

theorem orFail_eq_ok_iff {α : Type} {e : ScriptError} {x : Option α} {a : α} :
    orFail e x = .ok a ↔ x = some a := by
  cases x <;> simp [orFail]

/-! ## `checkpoint.sh` -/

/-- A run of `checkpoint.sh`: its arguments, what the tarball holds while it is written and when it
is complete, and what the copy holds while it is received. -/
structure CheckpointCall (A : Type) where
  node : Text
  node_comma : ',' ∉ node
  tag : Tag
  dir : Place
  remote : Option Place
  exportParts : List A
  whole : A
  sentParts : List A

/-- `scp "$OUT" "$WATERMARK" "$CHECKPOINT_REMOTE"`. -/
def scp (c : CheckpointCall A) (remote : Place) : Script ι A Unit := do
  let out ← request (Req.readTarball c.dir (tarballOf c.node c.tag))
  let bytes ← lift (orFail .noSuchFile out)
  c.sentParts.forM fun a => request (Req.writeTarball remote (tarballOf c.node c.tag) a)
  request (Req.writeTarball remote (tarballOf c.node c.tag) bytes)
  let wm ← request (Req.readWatermark c.dir (watermarkOf c.node c.tag))
  let json ← lift (orFail .noSuchFile wm)
  request (Req.writeWatermark remote (watermarkOf c.node c.tag) .empty)
  request (Req.writeWatermark remote (watermarkOf c.node c.tag) .part)
  request (Req.writeWatermark remote (watermarkOf c.node c.tag) json)

/-- The copy that is made where `CHECKPOINT_REMOTE` is set. -/
def CheckpointCall.send (c : CheckpointCall A) : Script ι A Unit :=
  match c.remote with
  | some remote => scp c remote
  | none => return ()

/-- The watermark written beside a tarball with a given hash. -/
def CheckpointCall.watermark (c : CheckpointCall A) (sha256 : Text) : Watermark where
  node := c.node
  tag := c.tag
  tarball := tarballOf c.node c.tag
  sha256 := sha256
  node_comma := c.node_comma

/-- `checkpoint.sh`, by the run `run`. -/
def checkpoint (sha256sum : A → Text) (run : ι) (c : CheckpointCall A) : Script ι A Unit := do
  let ok ← request (Req.snapshot c.node c.tag run)
  if ok = false then .raise .snapshot
  else do
    c.exportParts.forM fun a => request (Req.writeTarball c.dir (tarballOf c.node c.tag) a)
    request (Req.exportTarball c.dir c.node c.tag c.whole)
    let out ← request (Req.readTarball c.dir (tarballOf c.node c.tag))
    let bytes ← lift (orFail .noSuchFile out)
    request (Req.writeWatermark c.dir (watermarkOf c.node c.tag) .empty)
    request (Req.writeWatermark c.dir (watermarkOf c.node c.tag) .part)
    request (Req.writeWatermark c.dir (watermarkOf c.node c.tag)
      (.whole (c.watermark (sha256sum bytes))))
    request (Req.clearsnapshot c.node c.tag)
    c.send

/-! ## `consolidate-checkpoint.sh` -/

/-- What `jq` reads from a file: nothing from an empty one, and it fails on a part of a text. -/
def Json.jq : Json → Except ScriptError (Option Watermark)
  | .empty => .ok none
  | .part => .error .notJson
  | .whole w => .ok (some w)

theorem Json.jq_eq_some_iff {json : Json} {w : Watermark} :
    json.jq = .ok (some w) ↔ json = .whole w := by
  cases json <;> simp [Json.jq]

/-- `jq -r '.field' "$WM"`: what it prints, if it prints anything. -/
def jqField (p : Place) (f : Text) (field : Watermark → Text) : Script ι A (Option Text) := do
  let file ← request (Req.readWatermark p f)
  let json ← lift (orFail .noSuchFile file)
  let w ← lift json.jq
  return w.map field

/-- `TAGS`: `jq` reads the manifest and every watermark file, and fails on one it cannot read. -/
def tagsOf (files : List (Text × Json)) : Except ScriptError (List Tag) := do
  let watermarks ← files.mapM fun file => file.2.jq
  pure ((nullTag :: watermarks.reduceOption.map (·.tag)).dedup.insertionSort (· ≤ ·))

/-- The names `*-"$TAG".json` lists. -/
def namedFiles (t : Tag) (files : List (Text × Json)) : List Text :=
  (files.map Prod.fst).filter fun f => '-' :: t.1 ++ ".json".toList <:+ f

/-- `[ -f "$TARBALL" ]`, and what is in it: where no name is printed, `TARBALL` is the directory. -/
def readTarballNamed (p : Place) : Option Text → Script ι A (Option A)
  | none => return none
  | some f => request (Req.readTarball p f)

/-- One round of the loop over the watermark files of a tag. No file has an empty hash. -/
def scanFile (sha256sum : A → Text) (p : Place) (scanned : Text × Bool) (f : Text) :
    Script ι A (Text × Bool) := do
  let node ← jqField p f (·.node)
  let tarball ← jqField p f (·.tarball)
  let expectedSha ← jqField p f (·.sha256)
  let file ← readTarballNamed p tarball
  match file with
  | none => return (scanned.1, false)
  | some bytes =>
    if expectedSha = some (sha256sum bytes) then
      return (addNode scanned.1 (node.getD []), scanned.2)
    else return (scanned.1, false)

/-- The entry of a tag after its loop, for the nodes expected. -/
def entryOf (expected now : Text) (t : Tag) (scanned : Text × Bool) : Checkpoint where
  tag := t
  nodesExpected := expected.splitOn ','
  nodesPresent := (scanned.1.splitOn ',').filter (· ≠ [])
  complete := (readArray expected).all (isPresent scanned.1) && scanned.2
  consolidatedAt := now

/-- The round of a tag. -/
def consolidateTag (sha256sum : A → Text) (p : Place) (expected now : Text) (t : Tag) :
    Script ι A Unit := do
  let files ← request (Req.listWatermarks p)
  let scanned ← (namedFiles t files).foldlM (scanFile sha256sum p) ([], true)
  let manifest ← request (Req.readManifest p)
  let entries ← lift (orFail .noSuchFile manifest)
  request (Req.writeManifestTmp p (updateManifest entries (entryOf expected now t scanned)))
  let ok ← request (Req.moveManifestTmp p)
  if ok = false then .raise .noSuchFile else return ()

/-- `[ -f "$MANIFEST" ] || echo '{"checkpoints": []}' > "$MANIFEST"`. -/
def createManifest (p : Place) : Script ι A Unit := do
  let manifest ← request (Req.readManifest p)
  if manifest = none then request (Req.writeManifest p []) else return ()

/-- `consolidate-checkpoint.sh` on a directory: the tag it prints as the watermark. -/
def consolidateCheckpoint (sha256sum : A → Text) (p : Place) (arg : Option Text)
    (now : Tag → Text) : Script ι A (Option Tag) := do
  createManifest p
  let files ← request (Req.listWatermarks p)
  let tags ← lift (tagsOf files)
  tags.forM fun t => consolidateTag sha256sum p (expectedNodes arg) (now t) t
  let manifest ← request (Req.readManifest p)
  let entries ← lift (orFail .noSuchFile manifest)
  return (latestComplete entries).filter fun t => t.1 ≠ "NONE".toList

end Backup

end NetBuild
