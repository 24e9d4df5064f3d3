import Clumoove.Lib.Aead
import Clumoove.Lib.Bytes

/-! The envelopes of package `crypto`, and the file references and cursors that the file manager hands to
clients in them. All of it is under one key. Encryption draws a nonce at random; what it draws and the
ciphertext that comes of it are inputs here. -/

namespace Clumoove.Files

open Bytes Aead

abbrev Text := List Char

abbrev Log := List (Box (List UInt8) (List UInt8) Text (List UInt8))

inductive CryptoError
  | emptyDomain
  | unsupportedCiphertextVersion
  | invalidCiphertextEncoding
  | ciphertextTooShort
  | authentication
  | unavailable
  deriving DecidableEq

def envelopeV1Prefix : Text := "v1:".toList

def gcmNonceSize : ℕ := 12

def gcmOverhead : ℕ := 16

def domainFileManagerReference : Text := "clumoove:file-manager-reference".toList

def domainFileManagerCursor : Text := "clumoove:file-manager-cursor".toList

/-- A nonce, and the ciphertext with its tag. -/
structure Draw where
  nonce : List UInt8
  text : List UInt8
  deriving DecidableEq

/-- What encryption can come to. -/
def Draw.Fits (d : Draw) (plain : List UInt8) (log : Log) : Prop :=
  d.nonce.length = gcmNonceSize ∧ d.text.length = plain.length + gcmOverhead ∧ Fresh d.nonce d.text log

/-- An empty text is not encrypted. Without a draw there is no randomness to be had. -/
def encryptWithDomain (plainText : List UInt8) (domain : Text) (draw : Option Draw) (log : Log) :
    Except CryptoError Text × Log :=
  if plainText = [] then (.ok [], log)
  else if domain = [] then (.error .emptyDomain, log)
  else
    match draw with
    | none => (.error .unavailable, log)
    | some d => (.ok (envelopeV1Prefix ++ hex (d.nonce ++ d.text)), ⟨d.nonce, d.text, domain, plainText⟩ :: log)

/-- What older versions made of a secret: no prefix and no additional data. -/
def encryptLegacy (plainText : List UInt8) (draw : Option Draw) (log : Log) :
    Except CryptoError Text × Log :=
  match draw with
  | none => (.error .unavailable, log)
  | some d => (.ok (hex (d.nonce ++ d.text)), ⟨d.nonce, d.text, [], plainText⟩ :: log)

def encoded (cipherText : Text) : Text :=
  if envelopeV1Prefix <+: cipherText then cipherText.drop envelopeV1Prefix.length else cipherText

def unsupportedVersion : Text → Bool
  | 'v' :: c :: _ => '0' ≤ c && c ≤ '9'
  | _ => false

def decryptBytesWithDomain (log : Log) (cipherText domain : Text) : Except CryptoError (List UInt8) :=
  if cipherText = [] then .ok []
  else if domain = [] then .error .emptyDomain
  else if ¬ envelopeV1Prefix <+: cipherText ∧ unsupportedVersion cipherText then
    .error .unsupportedCiphertextVersion
  else
    match unhex (encoded cipherText) with
    | none => .error .invalidCiphertextEncoding
    | some combined =>
      if combined.length < gcmNonceSize + gcmOverhead then .error .ciphertextTooShort
      else
        -- the framing decides which data is authenticated
        let additionalData := if envelopeV1Prefix <+: cipherText then domain else []
        match unlock log (combined.take gcmNonceSize) (combined.drop gcmNonceSize) additionalData with
        | none => .error .authentication
        | some plain => .ok plain

structure ManagerLocator where
  path : Text := []
  nativeID : Text := []
  library : Text := []
  deriving DecidableEq

structure FileReference where
  userID : Text
  profileID : Text
  resourceType : Text
  kind : Text
  name : Text := []
  locator : ManagerLocator
  deriving DecidableEq

structure FileCursor where
  userID : Text
  profileID : Text
  resourceType : Text
  parent : ManagerLocator
  providerCursor : Text
  deriving DecidableEq

/-- Records as `encoding/json` writes and reads them. It keeps the ids, which are texts of the database;
a name that is no proper text may come back changed. -/
structure Codec (α : Type) (ids : α → Text × Text) where
  marshal : α → List UInt8
  unmarshal : List UInt8 → Option α
  unmarshal_nil : unmarshal [] = none
  ids_unmarshal : ∀ {a b}, unmarshal (marshal a) = some b → ids b = ids a

def FileReference.ids (r : FileReference) : Text × Text := (r.userID, r.profileID)

def FileCursor.ids (c : FileCursor) : Text × Text := (c.userID, c.profileID)

structure Json where
  reference : Codec FileReference FileReference.ids
  cursor : Codec FileCursor FileCursor.ids

def validManagedPath (value : Text) : Bool :=
  value.head? = some '/' && !value.contains (Char.ofNat 0) && !value.contains '\\' &&
    !(value.splitOn '/').contains ['.', '.']

def validManagedLocator (locator : ManagerLocator) : Bool :=
  if locator.nativeID ≠ [] then !locator.nativeID.contains (Char.ofNat 0)
  else validManagedPath locator.path

def validManagedCursorParent (locator : ManagerLocator) : Bool := validManagedLocator locator

inductive OpenError
  | crypto (e : CryptoError)
  | invalid
  deriving DecidableEq

def openRecord {α : Type} {ids : α → Text × Text} (codec : Codec α ids) (domain : Text) (valid : α → Bool)
    (log : Log) (value userID profileID : Text) : Except OpenError α :=
  match decryptBytesWithDomain log value domain with
  | .error e => .error (.crypto e)
  | .ok plain =>
    match codec.unmarshal plain with
    | none => .error .invalid
    | some a => if ids a = (userID, profileID) ∧ valid a then .ok a else .error .invalid

variable (json : Json)

def sealFileReference (reference : FileReference) : Option Draw → Log → Except CryptoError Text × Log :=
  encryptWithDomain (json.reference.marshal reference) domainFileManagerReference

/-- What a reference must be besides being one of the user and the profile. -/
def FileReference.valid (r : FileReference) : Bool :=
  r.resourceType = "files".toList ∧ (r.kind = "file".toList ∨ r.kind = "directory".toList) ∧
    validManagedLocator r.locator

def openFileReference : Log → Text → Text → Text → Except OpenError FileReference :=
  openRecord json.reference domainFileManagerReference FileReference.valid

def sealFileCursor (cursor : FileCursor) : Option Draw → Log → Except CryptoError Text × Log :=
  encryptWithDomain (json.cursor.marshal cursor) domainFileManagerCursor

def FileCursor.valid (c : FileCursor) : Bool :=
  c.resourceType = "files".toList ∧ validManagedCursorParent c.parent

def openFileCursor : Log → Text → Text → Text → Except OpenError FileCursor :=
  openRecord json.cursor domainFileManagerCursor FileCursor.valid

/-- What the server encrypts. Other secrets have domains of their own, or come from older versions. -/
inductive Issue
  | reference (r : FileReference)
  | cursor (c : FileCursor)
  | secret (domain : Text) (plain : List UInt8)
  | legacy (plain : List UInt8)
  deriving DecidableEq

namespace Issue

/-- The domain `EncryptWithDomain` is called with. -/
def domain : Issue → Option Text
  | reference _ => some domainFileManagerReference
  | cursor _ => some domainFileManagerCursor
  | secret domain _ => some domain
  | legacy _ => none

def plain : Issue → List UInt8
  | reference r => json.reference.marshal r
  | cursor c => json.cursor.marshal c
  | secret _ plain => plain
  | legacy plain => plain

def run : Issue → Option Draw → Log → Except CryptoError Text × Log
  | reference r => sealFileReference json r
  | cursor c => sealFileCursor json c
  | secret domain plain => encryptWithDomain plain domain
  | legacy plain => encryptLegacy plain

/-- Nothing but references and cursors is encrypted for their domains. -/
def Allowed : Issue → Prop
  | secret domain _ => domain ≠ domainFileManagerReference ∧ domain ≠ domainFileManagerCursor
  | _ => True

end Issue

/-- What was issued under the key, each with the text that came of it, and the log after it. -/
inductive Issued : List (Issue × Text) → Log → Prop
  | start : Issued [] []
  | issue {given : List (Issue × Text)} {log log' : Log} {i : Issue} {draw : Option Draw} {v : Text} :
      Issued given log → i.Allowed → (∀ d ∈ draw, d.Fits (i.plain json) log) →
      i.run json draw log = (.ok v, log') → Issued ((i, v) :: given) log'

end Clumoove.Files
