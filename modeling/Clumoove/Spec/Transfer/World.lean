import Clumoove.Lib.Crew
import Clumoove.Spec.Transfer.Tasks

/-! The accounts, the table of tasks and the locks that the workers of one process share, and what
a call does to them. Every call may fail without an effect, and may have its effect and still be
reported as failed. -/

namespace Clumoove.Transfer

open GoPath Prog Sync

/-- The accounts behind the two connections, which may be one and the same, the provider of each,
and how it compares the characters of names. -/
structure Accounts where
  account : Side → ℕ
  provider : ℕ → Provider
  fold : ℕ → Char → Char

abbrev Location := ℕ × List Text

def Accounts.locate (a : Accounts) (side : Side) (path : Text) : Location :=
  let account := a.account side
  (account, (resolve ((a.provider account).cleanPath path)).map (List.map (a.fold account)))

inductive Progress
  | unfinished
  | skipped
  | completed
  deriving DecidableEq

/-- What the table of tasks knows of a task; a failed one is tried again. -/
structure Row where
  resolved : Text := []
  progress : Progress := .unfinished
  deriving DecidableEq

/-- The tasks are numbered by `ι`. -/
structure World (ι : Type) where
  objects : GoMap Location Content
  rows : ι → Row := fun _ => {}
  locks : GoMap Text ι := []

inductive Outcome
  | ok
  | failed (fault : Fault)
  /-- The call took effect, its answer got lost. -/
  | lost (fault : Fault)
  | vault (inside : Bool)
  | listing (resources : List Resource)
  | time (t : ℕ)
  deriving DecidableEq

section Exec

variable {ι : Type} [DecidableEq ι] (a : Accounts) (i : ι)

def Outcome.effect {α : Type} (o : Outcome) (w : World ι) (answer : α) (w' : World ι) :
    Option (Except Fault α × World ι) :=
  match o with
  | .ok => some (.ok answer, w')
  | .failed fault => some (.error fault, w)
  | .lost fault => some (.error fault, w')
  | _ => none

def Outcome.answer {α : Type} (o : Outcome) (w : World ι) (read : Outcome → Option α) :
    Option (Except Fault α × World ι) :=
  match o, read o with
  | .failed fault, _ => some (.error fault, w)
  | _, some answer => some (.ok answer, w)
  | _, none => none

/-- A call that finds nothing to work on can only fail. -/
def Outcome.missing {α : Type} (o : Outcome) (w : World ι) : Option (Except Fault α × World ι) :=
  match o with
  | .failed fault => some (.error fault, w)
  | _ => none

variable (w : World ι)

def World.setRow (row : Row) : World ι :=
  { w with rows := fun j => if j = i then row else w.rows j }

def World.put (l : Location) (content : Content) : World ι :=
  { w with objects := w.objects.set l content }

def World.remove (l : Location) : World ι :=
  { w with objects := w.objects.erase l }

/-- `lockTargetFile`: the root has no lock; a lock that is taken lets nobody on. -/
def World.lock (targetPath : Text) : Option (Except Fault Unit × World ι) :=
  if targetPath = [] ∨ targetPath = ['/'] then some (.ok (), w)
  else if (w.locks.get targetPath).isSome then none
  else some (.ok (), { w with locks := w.locks.set targetPath i })

def World.unlock : World ι :=
  { w with locks := w.locks.filter fun e => e.2 ≠ i }

def exec : (c : Call) → Outcome → World ι → Option (Except Fault c.Val × World ι)
  | .prepare, o, w => o.effect w (w.rows i).resolved w
  | .inVault, o, w => o.answer w fun | .vault inside => some inside | _ => none
  | .createDirectory _ _, o, w => o.effect w () w
  | .createParentDirectories _ _, o, w => o.effect w () w
  | .getDirectoryListing _ _, o, w => o.answer w fun | .listing resources => some resources | _ => none
  | .lockTargetFile targetPath, .ok, w => w.lock i targetPath
  | .lockTargetFile _, _, _ => none
  | .fileExists side path, o, w => o.effect w ((w.objects.get (a.locate side path)).map List.length) w
  | .deleteFile side path, o, w => o.effect w () (w.remove (a.locate side path))
  | .renameFile side oldPath newPath, o, w =>
    match w.objects.get (a.locate side oldPath) with
    | none => o.missing w
    | some content =>
      o.effect w () ((w.remove (a.locate side oldPath)).put (a.locate side newPath) content)
  | .streamDownload side path, o, w =>
    match w.objects.get (a.locate side path) with
    | none => o.missing w
    | some content => o.effect w content w
  | .streamUpload side path content, o, w => o.effect w () (w.put (a.locate side path) content)
  | .updateResolvedTargetPath targetPath, o, w =>
    o.effect w () (w.setRow i { w.rows i with resolved := targetPath })
  | .updateMetadata, o, w => o.effect w () w
  | .now, o, w => o.answer w fun | .time t => some t | _ => none
  | .skip, o, w => o.effect w () (w.setRow i { w.rows i with progress := .skipped })
  | .complete, o, w => o.effect w () (w.setRow i { w.rows i with progress := .completed })

end Exec

inductive Job
  | migration (mig : Migration) (task : Task)
  | sync (job : SyncJob) (task : SyncTask)
  deriving DecidableEq

def Job.program (lib : GoLib) : Job → Work Unit
  | .migration mig task => processTask lib mig task
  | .sync job task => processSyncTask lib job task

structure Setting (ι : Type) where
  lib : GoLib
  accounts : Accounts
  job : ι → Job

/-- The workers of a process. A task that is not finished is tried again and again, by one worker
at a time. -/
def Setting.crew {ι : Type} [DecidableEq ι] (s : Setting ι) :
    Crew.Parts ι Call (fun c => Except Fault c.Val) (World ι) Outcome where
  ready i w := (w.rows i).progress = .unfinished
  program i := ((s.job i).program s.lib).run >>= fun _ => .ret ()
  exec i := exec s.accounts i
  leave i w := w.unlock i

end Clumoove.Transfer
