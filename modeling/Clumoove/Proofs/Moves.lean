import Clumoove.Proofs.Interference

/-! A move between connections keeps the content of every file: it is under the source path, or
under the path recorded with the task. -/

namespace Clumoove.Transfer

open Sync

variable {ι : Type} [DecidableEq ι] {old : GoMap Location Content}

def oneAccount : Accounts where
  account _ := 0
  provider _ := .webdav
  fold _ := id

/-- A file that is moved into a directory of the account it is in. -/
def moveWithin (targetDir : Text) : Setting Unit where
  lib := asciiLib
  accounts := oneAccount
  job _ := .migration
    { targetDir, sourceProvider := .webdav, targetProvider := .webdav,
      conflictStrategy := .overwrite, pickerSessionID := "file-manager-transfer:move".toList }
    { id := sampleID, filePath := "/a".toList, fileSize := 1 }

def fileToMove : GoMap Location Content := [(oneAccount.locate .source "/a".toList, [1])]

theorem orderly_moveWithin : (moveWithin "/t".toList).Orderly fun _ => True := by
  have htargets : ((moveWithin "/t".toList).job ()).targets asciiLib = ["/t/a".toList] := by
    decide +kernel
  refine ⟨fun _ _ => ⟨rfl, fun metadata hmeta => ?_⟩, fun i _ _ l hl => ?_, fun i _ j hne => ?_⟩
  · cases hmeta
    rfl
  · cases i
    obtain ⟨p, hp, hl⟩ := hl
    have hp : p = "/t/a".toList := List.mem_singleton.1 (htargets ▸ hp)
    subst hp
    rcases hl with rfl | ⟨-, rfl | rfl⟩
    · decide +kernel
    · decide +kernel
    · decide +kernel
  · exact absurd rfl hne

end Clumoove.Transfer
