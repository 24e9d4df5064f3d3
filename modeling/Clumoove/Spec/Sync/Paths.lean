import Clumoove.Spec.Sync.Pass
import Clumoove.Spec.Transfer.Names

/-! The texts of the paths that the worker and the engine use for a task, and what they denote. -/

namespace Clumoove.Sync

open GoPath
open Transfer (GoLib Text sanitizeFilename)

/-- The names that a text leads through from a provider's root. -/
def denoted (path : Text) : Path := (resolve path).reverse.map String.ofList

def cleanRelPath (p : Text) : Text := clean ('/' :: p)

def getTargetAbsPath (relPath targetDir : Text) : Text :=
  let relPath := cleanRelPath relPath
  let targetDir := cleanRelPath targetDir
  if targetDir = ['/'] then relPath
  else if relPath = ['/'] then targetDir
  else targetDir ++ relPath

def getSourceRelPath (targetPath targetDir : Text) : Text :=
  let targetPath := cleanRelPath targetPath
  let targetDir := cleanRelPath targetDir
  if targetDir = ['/'] then targetPath
  else if targetDir ++ ['/'] <+: targetPath then
    cleanRelPath (targetPath.drop (targetDir ++ ['/']).length)
  else if targetPath = targetDir then ['/']
  else targetPath

/-- The path at which `processSyncTask` reads or changes a side. -/
def taskPath (targetDir filePath : Text) : Side → Text
  | .source => filePath
  | .target => clean (join [targetDir, filePath])

/-- The path at which `reconcileSuccessfulOperations` asks for a task's result. -/
def destinationPath (targetDir filePath : Text) : Side → Text
  | .source => cleanRelPath filePath
  | .target => getTargetAbsPath (cleanRelPath filePath) targetDir

def sanitizer (lib : GoLib) (providers : Sided Transfer.Provider) : Sanitizer := fun s name =>
  String.ofList (sanitizeFilename lib name.toList (providers.on s)).sanitizedName

end Clumoove.Sync
