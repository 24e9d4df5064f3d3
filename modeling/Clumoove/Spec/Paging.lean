import Clumoove.Lib.Sorting
import Clumoove.Spec.Pack
import Clumoove.Spec.References
import Clumoove.Spec.Transfer.Names

/-! The pages of a directory in the file manager, for providers that have none of their own. Every page
lists the directory and sorts it anew; the cursor says how many entries the pages before it showed, and
of which list. A time is an instant. -/

namespace Clumoove.Files

open Bytes GoPath
open Transfer (GoLib)

def fileMaximumDirectoryItems : ℕ := 10000

/-- What the file manager takes from an entry. -/
structure CloudResource where
  path : Text
  name : Text
  size : ℤ := 0
  isDir : Bool := false
  lastModified : ℤ := 0
  deriving DecidableEq

structure ManagerItem where
  locator : ManagerLocator
  name : Text
  isDir : Bool
  size : ℤ
  modified : ℤ
  deriving DecidableEq

def managedRootPath : Text := ['/']

def canonicalManagedPath (value : Text) : Text :=
  if value = [] then managedRootPath
  else clean (if value.head? = some '/' then value else '/' :: value)

def managerItemFromCloudResource (resource : CloudResource) : ManagerItem :=
  let itemPath := canonicalManagedPath resource.path
  { locator := { path := itemPath }
    name := if resource.name = [] ∧ itemPath ≠ managedRootPath then base itemPath else resource.name
    isDir := resource.isDir
    size := resource.size
    modified := resource.lastModified }

def managedLocatorIdentity (locator : ManagerLocator) : Text :=
  if locator.nativeID ≠ [] then "id:".toList ++ locator.nativeID
  else "path:".toList ++ locator.library ++ ':' :: locator.path

def entryLess (lib : GoLib) (a b : ManagerItem) : Bool :=
  let left := lib.toLower (lib.trimSpace a.name)
  let right := lib.toLower (lib.trimSpace b.name)
  if a.isDir ≠ b.isDir then a.isDir
  else if left ≠ right then left < right
  else managedLocatorIdentity a.locator < managedLocatorIdentity b.locator

structure LegacyManagerCursor where
  offset : ℤ
  fingerprint : Text
  deriving DecidableEq

structure ManagerPage where
  items : List ManagerItem
  nextCursor : Option LegacyManagerCursor
  deriving DecidableEq

inductive ListError
  | provider
  | directoryTooLarge
  | directoryChanged
  deriving DecidableEq

/-- Where a page begins. A cursor may come in a text that is no JSON. -/
def pageOffset (fingerprint : Text) (count : ℕ) : Option (Option LegacyManagerCursor) → Option ℕ
  | none => some 0
  | some none => none
  | some (some decoded) =>
    if decoded.offset < 0 ∨ decoded.fingerprint = [] then none
    else if decoded.fingerprint ≠ fingerprint ∨ decoded.offset > count then none
    else some decoded.offset.toNat

-- the way of `sort.Slice`, and SHA-256 of what items are in JSON
variable (lib : GoLib) (slice : Sorting (entryLess lib)) (sum : List ManagerItem → Digest)

def sortManagedEntries (resources : List CloudResource) : List ManagerItem :=
  slice.sort (resources.map managerItemFromCloudResource)

def managerListingFingerprint (items : List ManagerItem) : Text := hex (sum items).val

def listLegacyManager (cursor : Option (Option LegacyManagerCursor)) (limit : ℕ) :
    Option (List CloudResource) → Except ListError ManagerPage
  | none => .error .provider
  | some resources =>
    if resources.length > fileMaximumDirectoryItems then .error .directoryTooLarge
    else
      let items := sortManagedEntries lib slice resources
      let fingerprint := managerListingFingerprint sum items
      match pageOffset fingerprint items.length cursor with
      | none => .error .directoryChanged
      | some offset =>
        let stop := min (offset + limit) items.length
        .ok ⟨(items.take stop).drop offset, if stop < items.length then some ⟨stop, fingerprint⟩ else none⟩

/-- A client that follows the cursors: the pages it is shown, and the error it ends in. What the
provider lists may be different at each call. -/
def followPages (listing : ℕ → Option (List CloudResource)) (limit : ℕ) :
    (fuel call : ℕ) → Option (Option LegacyManagerCursor) →
      Option (List (List ManagerItem) × Option ListError)
  | 0, _, _ => none
  | fuel + 1, call, cursor =>
    match listLegacyManager lib slice sum cursor limit (listing call) with
    | .error e => some ([], some e)
    | .ok ⟨items, none⟩ => some ([items], none)
    | .ok ⟨items, some next⟩ =>
      (followPages listing limit fuel (call + 1) (some next)).map fun r => (items :: r.1, r.2)

end Clumoove.Files
