import Clumoove.Lib.Bytes

/-! The repository v1 pack format of `backuprepo`: `EncodePack`, `ValidatePack` and
`SplitBlocks`. SHA-256 is an arbitrary function to 32 bytes throughout. -/

namespace Clumoove

open Bytes

abbrev Digest := { bytes : List UInt8 // bytes.length = 32 }

def formatVersion : ℕ := 1
def blockSize : ℕ := 4 * 1024 * 1024
def maxPackSize : ℕ := 64 * 1024 * 1024
def packPrefixSize : ℕ := 16
def packFooterSize : ℕ := 20

def packMagic : List UInt8 := [67, 76, 77, 80, 65, 67, 75, 49]

def footerMagic : List UInt8 := [67, 76, 77, 69, 78, 68, 48, 49]

structure Entry where
  hash : Digest
  data : List UInt8
deriving DecidableEq

structure Pack where
  id : Digest
  size : ℕ
  entryCount : ℕ
deriving DecidableEq

inductive PackErr
  | tooManyEntries
  | encodeBlockLength (len : ℕ)
  | encodeBlockHash
  | encodedTooLarge
  | invalidMagic
  | readPrefix (e : ReadErr)
  | unsupportedHeader
  | readEntryOrFooter (e : ReadErr)
  | tooLarge
  | readBlockHash (e : ReadErr)
  | readBlockLength (e : ReadErr)
  | invalidBlockLength
  | readBlockPayload (e : ReadErr)
  | payloadHashMismatch
  | readFooter (e : ReadErr)
  | footerMismatch
  | trailingData
  | packHashMismatch
  | callback (text : String)
deriving DecidableEq

def entrySize (e : Entry) : ℕ := 32 + 4 + e.data.length

def packHeader : List UInt8 := packMagic ++ (be 2 formatVersion ++ List.replicate 6 0)

def encodeEntry (e : Entry) : List UInt8 :=
  e.hash.val ++ be 4 e.data.length ++ e.data

def encodeEntries (entries : List Entry) : List UInt8 := entries.flatMap encodeEntry

def packFooter (count dataEnd : ℕ) : List UInt8 := footerMagic ++ (be 4 count ++ be 8 dataEnd)

def payloadSize (entries : List Entry) : ℕ := (entries.map entrySize).sum

/-- The bytes `EncodePack` writes once its checks have passed. -/
def packBytes (entries : List Entry) : List UInt8 :=
  packHeader ++ encodeEntries entries ++
    packFooter entries.length (packPrefixSize + payloadSize entries)

variable (sha256 : List UInt8 → Digest)

/-- The per-entry checks of `EncodePack`, in source order; returns the payload size. -/
def checkEntries : List Entry → Except PackErr ℕ
  | [] => .ok 0
  | e :: entries =>
    if e.data.length = 0 ∨ e.data.length > blockSize then .error (.encodeBlockLength e.data.length)
    else if sha256 e.data ≠ e.hash then .error .encodeBlockHash
    else (checkEntries entries).map (entrySize e + ·)

/-- `EncodePack` into a buffer: the pack and the bytes written. -/
def encodePack (entries : List Entry) : Except PackErr (Pack × List UInt8) :=
  if entries.length > 2 ^ 32 - 1 then .error .tooManyEntries
  else match checkEntries sha256 entries with
    | .error e => .error e
    | .ok payload =>
      if packPrefixSize + packFooterSize + payload > maxPackSize then .error .encodedTooLarge
      else
        .ok (⟨sha256 (packBytes entries), packPrefixSize + payload + packFooterSize,
          entries.length⟩, packBytes entries)

section Validate

variable {σ : Type} (callback : σ → ℕ → Entry → Except String σ) (stream : List UInt8)

/-- One entry of `ValidatePack`'s loop, read at `offset`: the entry and the unread bytes. -/
def validateEntry (offset : ℕ) : Except PackErr (Entry × List UInt8) := do
  if offset + 36 + packFooterSize > maxPackSize then throw .tooLarge
  let (blockHash, s₁) ← (readFull 32 stream).mapError .readBlockHash
  let (encodedLength, s₂) ← (readFull 4 s₁).mapError .readBlockLength
  let length := readBE encodedLength
  if length = 0 ∨ length > blockSize ∨ offset + 36 + length + packFooterSize > maxPackSize then
    throw .invalidBlockLength
  let (payload, s₃) ← (readFull length s₂).mapError .readBlockPayload
  if (sha256 payload).val ≠ blockHash then throw .payloadHashMismatch
  return (⟨sha256 payload, payload⟩, s₃)

/-- What the entry loop of `ValidatePack` leaves: unread bytes, offset, entry count and the
callback's state. -/
structure Scan (σ : Type) where
  rest : List UInt8
  offset : ℕ
  count : ℕ
  state : σ

/-- The entry loop. The fuel starts at the stream's length and every entry consumes at least
one byte, so without fuel the stream is empty and the peek fails. -/
def validateEntries : ℕ → Scan σ → Except PackErr (Scan σ)
  | 0, _ => .error (.readEntryOrFooter .eof)
  | fuel + 1, s =>
    match peek 8 s.rest with
    | .error e => .error (.readEntryOrFooter e)
    | .ok leading =>
      if leading = footerMagic then .ok s
      else match validateEntry sha256 s.rest s.offset with
        | .error e => .error e
        | .ok (entry, rest) =>
          if s.count = 2 ^ 32 - 1 then .error .tooManyEntries
          else match callback s.state (s.offset + 36) entry with
            | .error text => .error (.callback text)
            | .ok state =>
              validateEntries fuel ⟨rest, s.offset + entrySize entry, s.count + 1, state⟩

def validateHeader : Except PackErr (List UInt8) := do
  let (magic, s₁) ← (readFull 8 stream).mapError fun _ => .invalidMagic
  if magic ≠ packMagic then throw .invalidMagic
  let (header, s₂) ← (readFull 8 s₁).mapError .readPrefix
  if readBE (slice header 0 2) ≠ formatVersion ∨ header[2]? ≠ some 0 ∨ header[3]? ≠ some 0 ∨
      readBE (header.drop 4) ≠ 0 then
    throw .unsupportedHeader
  return s₂

/-- The footer, the size bound and the end of the stream; returns the stream's length. -/
def validateFooter (s : Scan σ) : Except PackErr ℕ := do
  let (footer, rest) ← (readFull 20 s.rest).mapError .readFooter
  if slice footer 0 8 ≠ footerMagic ∨ readBE (slice footer 8 4) ≠ s.count ∨
      readBE (footer.drop 12) ≠ s.offset then
    throw .footerMismatch
  if s.offset + packFooterSize > maxPackSize then throw .tooLarge
  if rest ≠ [] then throw .trailingData
  return s.offset + packFooterSize

/-- `ValidatePack`: the parsed pack and the callback's final state. The running hasher has
read the whole stream when the end of the stream is reached. -/
def validatePack (expectedID : Digest) (init : σ) : Except PackErr (Pack × σ) := do
  let rest ← validateHeader stream
  let scan ← validateEntries sha256 callback stream.length ⟨rest, packPrefixSize, 0, init⟩
  let size ← validateFooter scan
  if sha256 stream ≠ expectedID then throw .packHashMismatch
  return (⟨sha256 stream, size, scan.count⟩, scan.state)

end Validate

end Clumoove
