import SideQuest.Model.Entities
import Mathlib.Data.List.DropRight

-- `UploadsService` with the `LocalStorageDriver`: what a client uploads, under a name of the
-- server's making with the extension of the client's.

namespace SideQuest

namespace Uploads

-- The parts of a path from the root.
abbrev FilePath := List (List Char)

-- `path.join(dir, name)` for a resolved `dir`
def join (dir : FilePath) (name : List Char) : FilePath :=
  (name.splitOn '/').foldl (fun path part =>
    if part = [] ∨ part = ['.'] then path
    else if part = ['.', '.'] then path.dropLast
    else path ++ [part]) dir

-- The last part of a path, slashes at its end apart.
def basename (path : List Char) : List Char :=
  (path.rdropWhile (· = '/')).rtakeWhile (· ≠ '/')

-- `path.extname`: from the last dot of the last part on, unless the part starts with this dot
def extname (path : List Char) : List Char :=
  let base := basename path
  let stem := (base.rdropWhile (· ≠ '.')).dropLast
  if stem = [] ∨ base = ['.', '.'] then [] else '.' :: base.rtakeWhile (· ≠ '.')

def extensionFromMime (mime : String) : List Char :=
  if mime = "image/png" then ".png".toList
  else if mime = "image/jpeg" ∨ mime = "image/jpg" then ".jpg".toList
  else if mime = "image/webp" then ".webp".toList
  else []

def hexByte (b : UInt8) : List Char := [(b.toNat / 16).digitChar, (b.toNat % 16).digitChar]

-- `bytes.toString('hex')`
def toHex (bytes : List UInt8) : List Char := bytes.flatMap hexByte

structure UploadInput where
  buffer : List UInt8
  originalName : String
  mimeType : String

structure StoredObject where
  filename : String
  url : String
  sizeBytes : ℕ
  mimeType : String
  deriving DecidableEq

-- An upload, with `Date.now()` and the `randomBytes(8)` of its name.
structure UploadCall where
  input : UploadInput
  now : ℕ
  random : List UInt8
  random_length : random.length = 8

structure FileSystem where
  files : FilePath → Option (List UInt8)

inductive FsError where
  | ERR_INVALID_ARG_VALUE | ENAMETOOLONG
  deriving DecidableEq

-- `fs.writeFile`: no path has a NUL in it, and no part of one is longer than 255 bytes. A full
-- disk and missing rights are left out.
def FileSystem.writeFile (fs : FileSystem) (path : FilePath) (buffer : List UInt8) :
    Except FsError FileSystem :=
  if ∃ part ∈ path, Char.ofNat 0 ∈ part then .error .ERR_INVALID_ARG_VALUE
  else if ∃ part ∈ path, 255 < (String.ofList part).utf8ByteSize then .error .ENAMETOOLONG
  else .ok { files := fun path' => if path' = path then some buffer else fs.files path' }

namespace LocalStorageDriver

def extension (input : UploadInput) : List Char :=
  if extname input.originalName.toList = [] then extensionFromMime input.mimeType
  else extname input.originalName.toList

def filename (call : UploadCall) : List Char :=
  Nat.toDigits 10 call.now ++ '-' :: (toHex call.random ++ extension call.input)

def save (dir : FilePath) (call : UploadCall) (fs : FileSystem) :
    Except FsError (StoredObject × FileSystem) := do
  let filename := filename call
  let fs ← fs.writeFile (join dir filename) call.input.buffer
  return (
    { filename := String.ofList filename
      url := "/uploads/" ++ String.ofList filename
      sizeBytes := call.input.buffer.length
      mimeType := call.input.mimeType }, fs)

end LocalStorageDriver

def DEFAULT_ALLOWED_MIMES : List String := ["image/png", "image/jpeg", "image/jpg", "image/webp"]

-- `(config.get('uploads.maxFileSizeMb') ?? 10) * 1024 * 1024`
def maxBytes (maxMb : Option ℕ) : ℕ := maxMb.getD 10 * 1024 * 1024

inductive UploadError where
  | refused (e : ApiError)
  | unwritten (e : FsError)

namespace UploadsService

variable (dir : FilePath) (maxMb : Option ℕ)

def upload (call : UploadCall) (fs : FileSystem) : Except UploadError StoredObject × FileSystem :=
  if call.input.mimeType ∉ DEFAULT_ALLOWED_MIMES then
    (.error (.refused (.badRequest ("Unsupported mime type: " ++ call.input.mimeType))), fs)
  else if call.input.buffer.length > maxBytes maxMb then
    (.error (.refused (.badRequest
      ("File too large (max " ++ toString (maxBytes maxMb) ++ " bytes)"))), fs)
  else
    match LocalStorageDriver.save dir call fs with
    | .ok (stored, fs) => (.ok stored, fs)
    | .error e => (.error (.unwritten e), fs)

-- The file system after the uploads.
def uploads (calls : List UploadCall) (fs : FileSystem) : FileSystem :=
  calls.foldl (fun fs call => (upload dir maxMb call fs).2) fs

end UploadsService

end Uploads

end SideQuest
