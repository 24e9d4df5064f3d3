import Clumoove.Lib.Reader

/-! The chunked uploads of the Dropbox, OneDrive, HiDrive, Nextcloud and Seafile providers to one
target path, and the server they talk to. A request may be acknowledged, refused, or lost in a
gateway with or without effect; the answers are fixed in advance, in the order of the requests. -/

namespace Clumoove.Upload

abbrev Bytes := List UInt8

/-- What the client learns about a request. `applied` says whether the server carried it out. -/
inductive Answer
  | ok
  | unauthorized
  /-- Any other status below 500 that is no success. -/
  | rejected
  /-- Status 502 or 504. -/
  | gateway (applied : Bool)
  /-- Any other status from 500 on, or 429. -/
  | unavailable (applied : Bool)
  /-- No answer. -/
  | lost (applied : Bool)
deriving DecidableEq

def Answer.applied : Answer → Bool
  | .ok => true
  | .unauthorized | .rejected => false
  | .gateway applied | .unavailable applied | .lost applied => applied

/-- What the server stores, as far as one target path is concerned. -/
structure Store where
  object : Option Bytes := none
  /-- What the open upload session has received. -/
  session : Bytes := []
  /-- The chunk files of the upload folder, in the order of their names. -/
  folder : List Bytes := []
  /-- What a resumable upload of the same name has received, now or in earlier attempts. -/
  uploaded : Bytes := []
deriving DecidableEq

structure Server where
  store : Store
  answers : List Answer
deriving DecidableEq

inductive UploadError
  | parentDirectories | plainUpload | read | startSession | append (offset : ℕ) | finish
  | createSession | uploadChunk (offset : ℕ) | unexpectedEOF
  | conflict | chunkFailed (index : ℕ)
  | createFolder | tooManyChunks | commit | verificationTimedOut
  | probe | invalidOffset | advance | uploadLink | resumableChunk (offset : ℕ)
  /-- The model's own: the loop was not given enough rounds. -/
  | stalled
deriving DecidableEq

/-- The error an upload ended with, if any, and the server then. -/
abbrev Result := Option UploadError × Server

/-- One request; its effect takes place when the answer says so. -/
def request (effect : Store → Store) (s : Server) : Answer × Server :=
  match s.answers with
  | [] => (.lost false, s)
  | a :: rest => (a, { store := if a.applied then effect s.store else s.store, answers := rest })

def retried (again : Answer → Bool) (effect : Store → Store) : ℕ → Server → Answer × Server
  | 0, s => request effect s
  | n + 1, s =>
    match request effect s with
    | (a, s) => if again a then retried again effect n s else (a, s)

/-- An answer after which a request may be repeated: none, 429, or a status from 500 on. -/
def Answer.transient : Answer → Bool
  | .gateway _ | .unavailable _ | .lost _ => true
  | _ => false

/-- `CreateParentDirectories`, of which the target path sees nothing. -/
def createParentDirectories (s : Server) : Result :=
  match request id s with
  | (.ok, s) => (none, s)
  | (_, s) => (some .parentDirectories, s)

/-- The body of a plain request with a declared size. The client sends it whole or not at all: a
positive `ContentLength` has to be met exactly, no length means until the end of the stream. -/
def body (size : ℕ) (r : Reader UInt8) : Option Bytes :=
  if r.ending = .eof ∧ (size = 0 ∨ r.bytes.length = size) then some r.bytes else none

def plainUpload (size : ℕ) (r : Reader UInt8) (s : Server) : Result :=
  match body size r with
  | none => (some .plainUpload, s)
  | some content =>
    match request (fun s => { s with object := some content }) s with
    | (.ok, s) => (none, s)
    | (_, s) => (some .plainUpload, s)

/-! `DropboxProvider.StreamUploadChunked`. -/

def dropboxChunkSize : ℕ := 10 * 1024 * 1024

def writeAt (content : Bytes) (offset : ℕ) (chunk : Bytes) : Bytes :=
  content.take offset ++ chunk ++ content.drop (offset + chunk.length)

def finishUploadSession (s : Server) : Result :=
  match retried Answer.transient (fun s => { s with object := some s.session }) 2 s with
  | (.ok, s) => (none, s)
  | (_, s) => (some .finish, s)

def dropboxAppend (chunkSize : ℕ) : ℕ → ℕ → Reader UInt8 → Server → Result
  | 0, _, _, s => (some .stalled, s)
  | fuel + 1, offset, r, s =>
    match r.readFull chunkSize with
    | (_, some .other, _) => (some .read, s)
    | ([], _, _) => finishUploadSession s
    | (b :: chunk, err, r) =>
      let chunk := b :: chunk
      match retried Answer.transient
          (fun s => { s with session := writeAt s.session offset chunk }) 2 s with
      | (.ok, s) =>
        if err.isSome then finishUploadSession s
        else dropboxAppend chunkSize fuel (offset + chunk.length) r s
      | (_, s) => (some (.append offset), s)

def dropboxUpload (r : Reader UInt8) (s : Server) : Result :=
  match createParentDirectories s with
  | (some e, s) => (some e, s)
  | (none, s) =>
    match r.readFull dropboxChunkSize with
    | (_, some .other, _) => (some .read, s)
    | ([], _, _) =>
      -- `StreamUpload` of nothing
      match createParentDirectories s with
      | (some e, s) => (some e, s)
      | (none, s) =>
        match retried Answer.transient (fun s => { s with object := some [] }) 2 s with
        | (.ok, s) => (none, s)
        | (_, s) => (some .plainUpload, s)
    | (b :: chunk, _, r) =>
      let chunk := b :: chunk
      -- starting the session overwrites `err`: the end of the stream is met again in the loop
      match retried Answer.transient (fun s => { s with session := chunk }) 2 s with
      | (.ok, s) => dropboxAppend dropboxChunkSize (r.bytes.length + 1) chunk.length r s
      | (_, s) => (some .startSession, s)

/-! `OneDriveProvider.StreamUploadChunked`. -/

def oneDriveSimpleUploadLimit : ℕ := 4 * 1024 * 1024

def oneDriveUploadChunkSize : ℕ := 10 * 1024 * 1024

variable (chunk : Bytes)

/-- A chunk of a session; the one that completes the declared size commits the object. -/
def Store.putRange (offset total : ℕ) (s : Store) : Store :=
  let session := writeAt s.session offset chunk
  { s with
    session := session
    object := if offset + chunk.length = total then some session else s.object }

def oneDriveChunk (offset total : ℕ) (s : Server) : Result :=
  match retried Answer.transient (Store.putRange chunk offset total) 2 s with
  | (.ok, s) => (none, s)
  | (_, s) => (some (.uploadChunk offset), s)

/-- The loop of `sessionUpload`. -/
def oneDriveLoop (size chunkSize : ℕ) : ℕ → ℕ → Reader UInt8 → Server → Result
  | 0, _, _, s => (some .stalled, s)
  | fuel + 1, offset, r, s =>
    if offset < size then
      match r.readFull (min chunkSize (size - offset)) with
      | (_, some .other, _) => (some .read, s)
      | ([], _, _) => (some .unexpectedEOF, s)
      | (b :: chunk, err, r) =>
        let chunk := b :: chunk
        match oneDriveChunk chunk offset size s with
        | (some e, s) => (some e, s)
        | (none, s) =>
          let offset := offset + chunk.length
          if err.isSome then
            (if offset = size then none else some .unexpectedEOF, s)
          else oneDriveLoop size chunkSize fuel offset r s
    else (if offset = size then none else some .unexpectedEOF, s)

def sessionUpload (size : ℕ) (r : Reader UInt8) (s : Server) : Result :=
  match request (fun s => { s with session := [] }) s with
  | (.ok, s) => oneDriveLoop size oneDriveUploadChunkSize (size + 1) 0 r s
  | (_, s) => (some .createSession, s)

def oneDriveUpload (size : ℕ) (r : Reader UInt8) (s : Server) : Result :=
  match createParentDirectories s with
  | (some e, s) => (some e, s)
  | (none, s) =>
    if size ≤ oneDriveSimpleUploadLimit then plainUpload size r s else sessionUpload size r s

/-! `HiDriveProvider.StreamUploadChunked`. Every chunk is visible under the target path at once;
`POST /file` creates the object and refuses to replace one. Clean-up deletions succeed. -/

def hiDriveChunkSize : ℕ := 50 * 1024 * 1024

def hiDriveCreate (content : Bytes) (s : Server) : Answer × Server :=
  if s.store.object.isSome then (.rejected, { s with answers := s.answers.tail })
  else request (fun s => { s with object := some content }) s

def hiDrivePatch (offset : ℕ) (s : Server) : Answer × Server :=
  request (fun s => { s with object := s.object.map (writeAt · offset chunk) }) s

/-- `fail`: removes the object if its first chunk was acknowledged. -/
def hiDriveFail (created : Bool) (e : UploadError) (s : Server) : Result :=
  (some e, if created then { s with store := { s.store with object := none } } else s)

def hiDriveLoop (size chunkSize : ℕ) : ℕ → ℕ → ℕ → Bool → Reader UInt8 → Server → Result
  | 0, _, _, _, _, s => (some .stalled, s)
  | fuel + 1, uploaded, index, created, r, s =>
    if uploaded < size then
      match r.readFull chunkSize with
      | (_, some .other, _) => hiDriveFail created .read s
      | (chunk, err, r) =>
        match if uploaded = 0 then hiDriveCreate chunk s else hiDrivePatch chunk uploaded s with
        | (.ok, s) =>
          let created := created || uploaded = 0
          let uploaded := uploaded + chunk.length
          if err.isSome then
            if uploaded = size then (none, s) else hiDriveFail created .unexpectedEOF s
          else hiDriveLoop size chunkSize fuel uploaded (index + 1) created r s
        | (_, s) => hiDriveFail created (.chunkFailed index) s
    else (none, s)

def hiDriveUpload (size : ℕ) (r : Reader UInt8) (s : Server) : Result :=
  match createParentDirectories s with
  | (some e, s) => (some e, s)
  | (none, s) =>
    if size ≤ hiDriveChunkSize then
      match body size r with
      | none => (some .plainUpload, s)
      | some content =>
        match hiDriveCreate content s with
        | (.ok, s) => (none, s)
        | (_, s) => (some .plainUpload, s)
    else hiDriveLoop size hiDriveChunkSize (size + 1) 0 0 false r s

/-! `davProvider.StreamUploadChunked`. The upload folder is named after the time in nanoseconds, so
it is a new one. -/

/-- 256 MB for all threads together, at least 5 MB for one. -/
def davChunkSize (threads : ℕ) : ℕ :=
  max (256 / (if threads < 1 then 8 else threads)) 5 * 1024 * 1024

def davMaxChunks : ℕ := 10000

/-- A chunk is repeated after any failure but a 401. -/
def Answer.davAgain : Answer → Bool
  | .ok | .unauthorized => false
  | _ => true

def davPut (index : ℕ) (chunk : Bytes) (s : Store) : Store :=
  { s with folder := s.folder.take index ++ chunk :: s.folder.drop (index + 1) }

/-- Waits for an object of the declared size under the target path, until the answers or the two
minutes run out. -/
def davAwait (size : ℕ) (s : Server) : List Answer → Result
  | [] => (some .verificationTimedOut, { s with answers := [] })
  | a :: rest =>
    if a = .ok ∧ s.store.object.any (·.length = size) then (none, { s with answers := rest })
    else davAwait size s rest

def davCommit (size : ℕ) (s : Server) : Result :=
  match request (fun s => { s with object := some s.folder.flatten, folder := [] }) s with
  | (.ok, s) | (.gateway _, s) => davAwait size s s.answers
  | (_, s) => (some .commit, s)

def davLoop (size chunkSize : ℕ) : ℕ → ℕ → Reader UInt8 → Server → Result
  | 0, _, _, s => (some .stalled, s)
  | fuel + 1, index, r, s =>
    if davMaxChunks ≤ index then (some .tooManyChunks, s)
    else
      match r.readFull chunkSize with
      | (_, some .other, _) => (some .read, s)
      | ([], _, _) => davCommit size s
      | (b :: chunk, err, r) =>
        match retried Answer.davAgain (davPut index (b :: chunk)) 2 s with
        | (.ok, s) => if err.isSome then davCommit size s else davLoop size chunkSize fuel (index + 1) r s
        | (_, s) => (some (.chunkFailed index), s)

def davUpload (disableChunkedUpload : Bool) (threads size : ℕ) (r : Reader UInt8) (s : Server) : Result :=
  match createParentDirectories s with
  | (some e, s) => (some e, s)
  | (none, s) =>
    if disableChunkedUpload then plainUpload size r s
    else
      match request (fun s => { s with folder := [] }) s with
      | (.ok, s) => davLoop size (davChunkSize threads) (r.bytes.length + 1) 0 r s
      | (_, s) => (some .createFolder, s)

/-! `SeafileProvider.StreamUploadChunked`. The server keeps what earlier attempts under the same
name have uploaded. -/

def seafileResumableChunkSize : ℕ := 64 * 1024 * 1024

/-- A resumable chunk; the last one turns what has been uploaded into the object. -/
def Store.putResumable (offset : ℕ) (last : Bool) (s : Store) : Store :=
  let uploaded := writeAt s.uploaded offset chunk
  if last then { s with object := some uploaded, uploaded := [] }
  else { s with uploaded := uploaded }

def seafileLoop (size chunkSize : ℕ) : ℕ → ℕ → Reader UInt8 → Server → Result
  | 0, _, _, s => (some .stalled, s)
  | fuel + 1, offset, r, s =>
    if offset < size then
      let length := min chunkSize (size - offset)
      match r.readFull length with
      | (chunk, err, rest) =>
        -- a stream that ends early in an error breaks the request, one that just ends does not
        if err.isSome ∧ r.ending ≠ .eof then (some (.resumableChunk offset), s)
        else
          match request (Store.putResumable chunk offset (offset + length = size)) s with
          | (.ok, s) => seafileLoop size chunkSize fuel (offset + length) rest s
          | (_, s) => (some (.resumableChunk offset), s)
    else (none, s)

def seafilePlain (r : Reader UInt8) (s : Server) : Result :=
  match request id s with
  | (.ok, s) => plainUpload 0 r s
  | (_, s) => (some .uploadLink, s)

def seafileUpload (supportsResumable : Bool) (size : ℕ) (r : Reader UInt8) (s : Server) : Result :=
  match request id s with
  | (.lost _, s) => (some .probe, s)
  | (a, s) =>
    if a = .ok ∧ supportsResumable then
      let uploadedBytes := s.store.uploaded.length
      if size < uploadedBytes then (some .invalidOffset, s)
      else
        match r.readFull uploadedBytes with
        | (_, some _, _) => (some .advance, s)
        | (_, none, r) =>
          match request id s with
          | (.ok, s) => seafileLoop size seafileResumableChunkSize (size + 1) uploadedBytes r s
          | (_, s) => (some .uploadLink, s)
    else seafilePlain r s

/-- The uploads that go on from what the server has. -/
inductive ChunkedUpload
  | seafile (supportsResumable : Bool)
  | nextcloud (disableChunkedUpload : Bool) (threads : ℕ)
  | oneDrive
deriving DecidableEq

def ChunkedUpload.run (size : ℕ) (r : Reader UInt8) : ChunkedUpload → Server → Result
  | .seafile supportsResumable => seafileUpload supportsResumable size r
  | .nextcloud disableChunkedUpload threads => davUpload disableChunkedUpload threads size r
  | .oneDrive => oneDriveUpload size r

/-- The providers that take a source of unknown quality in chunks. -/
inductive Provider
  | dropbox
  | oneDrive
  | hiDrive
  | nextcloud (disableChunkedUpload : Bool) (threads : ℕ)
deriving DecidableEq

/-- `StreamUploadChunked`. -/
def Provider.upload (size : ℕ) (r : Reader UInt8) : Provider → Server → Result
  | .dropbox => dropboxUpload r
  | .oneDrive => oneDriveUpload size r
  | .hiDrive => hiDriveUpload size r
  | .nextcloud disableChunkedUpload threads => davUpload disableChunkedUpload threads size r

end Clumoove.Upload
