import Clumoove.Lib.GoPath
import Mathlib.Algebra.GroupWithZero.Nat

/-! The names a worker gives on the target: `sanitize` and the path functions of the processor.
Texts are lists of characters, so every text here is valid UTF-8. -/

namespace Clumoove.Transfer

open GoPath

abbrev Text := List Char

inductive Provider
  | nextcloud | opencloud | google | onedrive | webdav | dropbox | hidrive | smb | s3 | sftp | ftp
  | magentacloud | koofr | localFolder | immich | seafile | mega
  deriving DecidableEq

namespace Provider

def isVirtual (p : Provider) : Bool := p = .immich

/-- `UsesNativeDuplicateDetection`. -/
def nativeDuplicates (p : Provider) : Bool := p = .immich

def supportsAtomicRename : Provider → Bool
  | .s3 | .koofr | .immich | .seafile => false
  | _ => true

/-- Whether `CreateDirectory` makes one. -/
def createsDirectories : Provider → Bool
  | .s3 | .immich => false
  | _ => true

/-- What `DeleteFile` does when it is given an empty directory. -/
inductive DirectoryDeletion
  | deletes
  | refuses
  /-- The call succeeds and deletes nothing. -/
  | ignores
  deriving DecidableEq

def directoryDeletion : Provider → DirectoryDeletion
  | .localFolder | .ftp | .immich => .refuses
  | .s3 => .ignores
  | _ => .deletes

/-- Whether it deletes what is in a directory along with it. -/
def deletesTrees : Provider → Bool
  | .localFolder | .ftp | .sftp | .smb | .immich | .s3 => false
  | _ => true

/-- What a provider makes of a path before it resolves the dot segments. -/
def cleanPath : Provider → Text → Text
  | .sftp | .s3 | .smb | .onedrive | .google => List.map fun c => if c = '\\' then '/' else c
  | .hidrive => fun path => ((path.dropWhile isSpace).reverse.dropWhile isSpace).reverse
  | _ => id

def isCaseInsensitive : Provider → Bool
  | .dropbox | .google | .smb | .onedrive | .koofr => true
  | _ => false

def forbiddenChars : Provider → List Char
  | .smb | .onedrive => ['\\', '/', ':', '*', '?', '"', '<', '>', '|']
  | .koofr => ['\\', '/']
  | .s3 | .immich => []
  | _ => ['/']

def maxFilenameLength : Provider → ℕ
  | .s3 => 1024
  | _ => 255

end Provider

/-- What the code takes from Go's library: tables of Unicode, functions on texts that rest on them,
and year and month of a time in RFC 3339. -/
structure GoLib where
  so : Char → Bool
  mn : Char → Bool
  cf : Char → Bool
  toLower : Text → Text
  trimSpace : Text → Text
  equalFold : Text → Text → Bool
  yearMonth : Text → Option (Text × Text)

inductive Reason
  | emptyName
  | reservedName
  | forbiddenChar
  | unsupportedUnicodeSymbol
  | trailingChars
  | lengthTruncated
  | emptyAfterSanitize
  deriving DecidableEq

structure SanitizeResult where
  sanitizedName : Text
  changed : Bool := false
  reasons : List Reason := []
  deriving DecidableEq

/-- A step of `SanitizeFilename` that leaves a trace only if it changes the name. -/
def SanitizeResult.replace (r : SanitizeResult) (name : Text) (reason : Reason) : SanitizeResult :=
  if name = r.sanitizedName then r
  else { sanitizedName := name, changed := true, reasons := r.reasons ++ [reason] }

def reservedWindowsNames : List Text :=
  ["con", "prn", "aux", "nul", "com1", "com2", "com3", "com4", "com5", "com6", "com7", "com8",
    "com9", "lpt1", "lpt2", "lpt3", "lpt4", "lpt5", "lpt6", "lpt7", "lpt8", "lpt9"].map String.toList

def sanitizeWindowsReserved (lib : GoLib) (name : Text) : Text :=
  let base := if name.head? = some '.' then name else name.takeWhile (· ≠ '.')
  let lowerBase := lib.toLower base
  if lowerBase ∈ reservedWindowsNames then '_' :: name
  else if reservedWindowsNames.any fun reserved => reserved <+: lowerBase ∧
      (lowerBase.drop reserved.length).head?.any (· ∈ Provider.forbiddenChars .smb) then '_' :: name
  else name

def replaceForbidden (forbidden : List Char) (name : Text) : Text :=
  name.map fun c => if c ∈ forbidden then '_' else c

/-- The flag says that the character before was a replaced symbol or belonged to one. -/
def replaceUnicodeSymbols (lib : GoLib) : Bool → Text → Text
  | _, [] => []
  | replacedSymbol, c :: name =>
    if lib.so c then '_' :: replaceUnicodeSymbols lib true name
    else if replacedSymbol && (lib.mn c || lib.cf c) then replaceUnicodeSymbols lib true name
    else c :: replaceUnicodeSymbols lib false name

def trimWindowsTrailing (name : Text) : Text :=
  let trimmed := (name.reverse.dropWhile fun c => c = ' ' ∨ c = '.').reverse
  if trimmed = [] then name else trimmed

def filenameLength (provider : Provider) (name : Text) : ℕ :=
  if provider = .hidrive then (name.map Char.utf8Size).sum else name.length

def takeBytes : ℕ → Text → Text
  | _, [] => []
  | n, c :: name => if c.utf8Size ≤ n then c :: takeBytes (n - c.utf8Size) name else []

def truncateFilename (provider : Provider) (maxLen : ℕ) (name : Text) : Text :=
  if provider = .hidrive then takeBytes maxLen name else name.take maxLen

/-- The name in front of its last dot, and the text from there on; a dot at the beginning does not
count. -/
def splitExt (name : Text) : Text × Text :=
  let (base, ext) := splitLast '.' name
  if base = [] then (name, []) else (base, ext)

def truncatePreserveExt (provider : Provider) (maxLen : ℕ) (name : Text) : Text :=
  let (base, ext) := splitExt name
  let extLen := filenameLength provider ext
  if maxLen ≤ extLen then truncateFilename provider maxLen name
  else truncateFilename provider (maxLen - extLen) base ++ ext

def unnamedFile : Text := "unnamed_file".toList

def sanitizeFilename (lib : GoLib) (name : Text) (provider : Provider) : SanitizeResult :=
  if name = [] then
    { sanitizedName := unnamedFile, changed := true, reasons := [.emptyName] }
  else
    let windows := provider = .smb ∨ provider = .onedrive
    let r : SanitizeResult := { sanitizedName := name }
    let r := if windows then
      r.replace (sanitizeWindowsReserved lib r.sanitizedName) .reservedName else r
    let r := r.replace (replaceForbidden provider.forbiddenChars r.sanitizedName) .forbiddenChar
    let r := if provider = .seafile then
      r.replace (replaceUnicodeSymbols lib false r.sanitizedName) .unsupportedUnicodeSymbol else r
    let r := if windows then r.replace (trimWindowsTrailing r.sanitizedName) .trailingChars else r
    let maxLen := provider.maxFilenameLength
    let r := if maxLen < filenameLength provider r.sanitizedName then
      { sanitizedName := truncatePreserveExt provider maxLen r.sanitizedName, changed := true,
        reasons := r.reasons ++ [.lengthTruncated] } else r
    if r.sanitizedName = [] then
      { sanitizedName := unnamedFile, changed := true, reasons := r.reasons ++ [.emptyAfterSanitize] }
    else r

structure Resource where
  name : Text
  path : Text
  isDir : Bool := false
  deriving DecidableEq

/-- `CheckCaseCollision`: a file whose name differs in case only. -/
def checkCaseCollision (lib : GoLib) (listing : List Resource) (fileName : Text) : Option Text :=
  (listing.find? fun r => !r.isDir && lib.equalFold r.name fileName && r.name != fileName).map (·.name)

def Resource.shownName (r : Resource) : Text := if r.name = [] then base r.path else r.name

def decimal (n : ℕ) : Text := Nat.toDigits 10 n

def collisionCandidate (provider : Provider) (base ext : Text) (counter : ℕ) : Text :=
  let maxLen := provider.maxFilenameLength
  let suffix := '_' :: decimal counter ++ ext
  if maxLen ≤ filenameLength provider suffix then truncateFilename provider maxLen suffix
  else truncateFilename provider (maxLen - filenameLength provider suffix) base ++ suffix

def maxRenameAttempts : ℕ := 100

/-- `ResolveCollision`, the candidate of one round. -/
def resolvedName (lib : GoLib) (provider : Provider) (fileName : Text) (counter : ℕ) : Text :=
  (sanitizeFilename lib (collisionCandidate provider (splitExt fileName).1 (splitExt fileName).2
    counter) provider).sanitizedName

def resolveCollision (lib : GoLib) (provider : Provider) (listing : List Resource)
    (fileName : Text) : Option Text :=
  ((List.range maxRenameAttempts).map fun i => resolvedName lib provider fileName (i + 1)).find?
    fun candidate => !(listing.any fun r => r.shownName = candidate) &&
      !(provider.isCaseInsensitive && listing.any fun r => lib.equalFold r.shownName candidate)

inductive ResourceType
  | files
  | calendars
  | contacts
  deriving DecidableEq

structure ImmichProps where
  filename : Text := []
  albumName : Text := []
  year : Text := []
  month : Text := []
  fileCreatedAt : Text := []
  fileModifiedAt : Text := []
  deriving DecidableEq

/-- A task's metadata: the keys at the top and those in `custom_props`. -/
structure Metadata where
  mkdir : Bool := false
  top : ImmichProps := {}
  customProps : ImmichProps := {}
  deriving DecidableEq

def Metadata.get (m : Metadata) (key : ImmichProps → Text) : Text :=
  if key m.top = [] then key m.customProps else key m.top

def immichYearMonthFromMetadata (lib : GoLib) (m : Metadata) : Text × Text :=
  let year := m.get (·.year)
  let month := m.get (·.month)
  if year ≠ [] ∧ month ≠ [] then (year, month)
  else
    let createdAt := m.get (·.fileCreatedAt)
    let createdAt := if createdAt = [] then m.get (·.fileModifiedAt) else createdAt
    if createdAt = [] then ([], []) else (lib.yearMonth createdAt).getD ([], [])

def relativePath (lib : GoLib) (filePath : Text) (metadata : Metadata) (source : Provider) : Text :=
  if source = .immich then
    let filename := if metadata.get (·.filename) = [] then base filePath else metadata.get (·.filename)
    let albumName := metadata.get (·.albumName)
    let (year, month) := immichYearMonthFromMetadata lib metadata
    if albumName ≠ [] then join [albumName, filename]
    else if year ≠ [] ∧ month ≠ [] then join [year, month, filename]
    else filename
  else filePath

def sanitizePart (lib : GoLib) (target : Provider) (part : Text) : Text :=
  if part = [] ∨ part = ['.'] ∨ part = ['.', '.'] then part
  else (sanitizeFilename lib part target).sanitizedName

def sanitizeRelative (lib : GoLib) (target : Provider) (relative : Text) : Text :=
  if target.isVirtual then relative
  else List.intercalate ['/'] ((relative.splitOn '/').map (sanitizePart lib target))

def resolveTargetPath (lib : GoLib) (resourceType : ResourceType) (filePath : Text)
    (metadata : Metadata) (targetDir : Text) (source target : Provider) : Text :=
  if resourceType ≠ .files then filePath
  else
    let relative := sanitizeRelative lib target (relativePath lib filePath metadata source)
    if targetDir ≠ [] ∧ targetDir ≠ ['/'] then clean (join [targetDir, relative])
    else clean relative

def fileManagerTransferMarker : Text := "file-manager-transfer:".toList

def fileManagerTransferOperation (pickerSessionID : Text) : Text :=
  if fileManagerTransferMarker <+: pickerSessionID then
    pickerSessionID.drop fileManagerTransferMarker.length
  else []

def overwriteBackupPath (targetPath taskID : Text) : Text :=
  targetPath ++ ".bak-".toList ++ taskID.take 8

variable (targetPath : Text)

def stagingPath : Text := targetPath ++ ".tmp".toList

def trimSuffix (name ext : Text) : Text :=
  if ext <:+ name then name.take (name.length - ext.length) else name

def renameCandidate (counter : ℕ) : Text :=
  let ext := GoPath.ext targetPath
  let base := trimSuffix (GoPath.base targetPath) ext
  join [dir targetPath, base ++ "_copy".toList ++ decimal counter ++ ext]

/-- The name of a conflict copy made at a time, a number of fourteen digits. -/
def conflictPath (time : ℕ) : Text :=
  let base := GoPath.base targetPath
  let ext := GoPath.ext base
  clean (join [dir targetPath, trimSuffix base ext ++ ".conflict-".toList ++ decimal time ++ ext])

end Clumoove.Transfer
