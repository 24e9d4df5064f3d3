import Clumoove.Spec.Sync.State
import Clumoove.Spec.Transfer.Names

/-! The digests of a transferred file: which ones the worker computes and announces, and which ones are
compared afterwards. A hash string names its algorithm in front of a colon, or it does not. -/

namespace Clumoove.Verification

open Sync (parseHashString)
open Transfer (Provider)

/-- What the hash functions compute, by the name of the algorithm. -/
abbrev Digests := String → List UInt8 → String

/-- `transferSourceHasher`: the algorithm for the source's stream, and the digest that is expected. The
worker of sync tasks has the same code once more. -/
def transferSourceHasher (provider : Provider) (sourceHash : String) : String × String :=
  let parsed := parseHashString sourceHash
  let (algo, expected) :=
    if sourceHash ≠ "" ∧ provider ≠ .webdav ∧ parsed.1 ∈ ["SHA1", "SHA256", "MD5", "DROPBOX"] then parsed
    else ("SHA1", "")
  match provider with
  | .dropbox => ("DROPBOX", expected)
  | .google | .koofr => ("MD5", expected)
  | .onedrive => ("QUICKXOR", expected)
  | _ => (algo, expected)

def transferTargetHasher : Provider → String
  | .dropbox => "DROPBOX"
  | .s3 => "SHA256"
  | .google | .koofr => "MD5"
  | .hidrive => "HIDRIVE"
  | .onedrive => "QUICKXOR"
  | _ => "SHA1"

def uploadChecksum (provider : Provider) (sourceHash : String) : Option (String × String) :=
  let (algo, expected) := transferSourceHasher provider sourceHash
  if expected ≠ "" then some (algo, expected) else none

/-- The hash the worker stores of what it has read: of the target's algorithm, also where that is the
source's. -/
def workerHash (digest : Digests) (target : Provider) (content : List UInt8) : String :=
  let algo := transferTargetHasher target
  s!"{algo}:{digest algo content}"

def isComparableHash (algo : String) : Bool :=
  String.ofList (algo.toList.map Char.toUpper) ∈
    ["SHA1", "SHA256", "MD5", "SHA512", "DROPBOX", "HIDRIVE", "QUICKXOR"]

structure Hashes where
  sourceHash : Option String := none
  workerHash : Option String := none
  deriving DecidableEq

def isETag (hash : String) : Bool := "ETAG:".toList <+: hash.toList.map Char.toUpper

variable (t : Hashes)

def bestSourceHash : String :=
  let workerHash := t.workerHash.getD ""
  let sourceHash := t.sourceHash.getD ""
  if sourceHash ≠ "" ∧ ¬ isETag sourceHash then sourceHash
  else if workerHash ≠ "" ∧ ¬ isETag workerHash then workerHash
  else if sourceHash ≠ "" then sourceHash
  else workerHash

/-- The hash that stands for what was transferred. The worker's is preferred if it is of the target's
algorithm and the other one is not. -/
def transferredHash (targetHash : String) : String :=
  let targetAlgo := (parseHashString targetHash).1
  match t.workerHash with
  | some workerHash =>
    if (parseHashString workerHash).1 = targetAlgo ∧ (parseHashString (bestSourceHash t)).1 ≠ targetAlgo then
      workerHash
    else bestSourceHash t
  | none => bestSourceHash t

def compareHashes (targetHash : String) : Option Bool :=
  let (targetAlgo, cleanTarget) := parseHashString targetHash
  let srcHash := transferredHash t targetHash
  let (sourceAlgo, cleanSource) := parseHashString srcHash
  if srcHash ≠ "" ∧ isComparableHash sourceAlgo ∧ isComparableHash targetAlgo ∧ sourceAlgo = targetAlgo then
    some (cleanSource = cleanTarget)
  else none

/-- Whether the task is verified right after the upload, by what the provider answers. -/
def tryInlineHashVerify (answer : Option String) : Bool :=
  match answer with
  | none => false
  | some targetHash => targetHash ≠ "" ∧ compareHashes t targetHash = some true

end Clumoove.Verification
