import VHttp.VString

/-!
# Files of vfile.c, and the reader of vstring.c

What the file system answers is an argument: whether open finds a file and under which
descriptor it opens it, whether fstat tells about it, and how far a read gets. A regular
file is its content, whose size fstat tells; of any other file its type and size are known.
What a descriptor is read from is kept in the file next to its info.

`VString_ReadEntireFile` keeps the signed result of read in an unsigned variable, so that
an error is the number 2^64 - 1, both as the length and as the result.
-/

namespace VHttp

/-- `vfile_type`. -/
inductive VFileType where
  | blockDev
  | charDev
  | directory
  | socket
  | regular
  | pipe
  | simlink
  deriving DecidableEq

/-- A file in the file system. -/
inductive FileNode where
  | regular (content : Bytes)
  | special (type : VFileType) (other : type ≠ .regular) (size : Nat)
  deriving DecidableEq

/-- `vfile_info`: the type that `st_mode & S_IFMT` tells, if it tells one, and `st_size`. -/
structure VFileInfo where
  type : Option VFileType
  size : Nat
  deriving DecidableEq

/-- What fstat tells about a file. -/
def FileNode.info : FileNode → VFileInfo
  | .regular content => ⟨some .regular, content.length⟩
  | .special type _ size => ⟨some type, size⟩

/-- What can be read from a file. -/
def FileNode.content : FileNode → Bytes
  | .regular content => content
  | .special _ _ _ => []

/-- The answer to open, and whether fstat succeeds afterwards. -/
inductive Opening where
  | failed
  | opened (descriptor : Nat) (statted : Bool) (node : FileNode)
  deriving DecidableEq

/-- `vfile`; a negative descriptor is `none`. -/
structure VFile where
  fileDescriptor : Option Nat
  info : VFileInfo
  content : Bytes
  deriving DecidableEq

/-- `VFile_Open`. When fstat fails, the info stays zero. -/
def vFileOpen : Opening → VFile
  | .failed => ⟨none, ⟨none, 0⟩, []⟩
  | .opened descriptor statted node =>
    ⟨some descriptor, if statted then node.info else ⟨none, 0⟩, node.content⟩

/-- `VFile_GetType`; -1 is `none`. -/
def VFile.getType (file : VFile) : Option VFileType := file.info.type

/-- A regular file is known with its size. -/
theorem regular_size {opening : Opening} (isRegular : (vFileOpen opening).getType = some .regular) :
    (vFileOpen opening).info.size = (vFileOpen opening).content.length := by
  cases opening with
  | failed => simp [vFileOpen, VFile.getType] at isRegular
  | opened descriptor statted node =>
    cases statted with
    | false => simp [vFileOpen, VFile.getType] at isRegular
    | true =>
      cases node with
      | regular content => rfl
      | special type other size => exact absurd (Option.some.inj isRegular) other

/-- What `VString_ReadEntireFile` leaves: the string, the result, and the descriptor that
it does not close. -/
structure EntireFile where
  string : VString
  read : Nat
  leftOpen : Option Nat

/-- A signed -1 in an unsigned variable. -/
def minusOne : Nat := 2 ^ 64 - 1

/-- `VString_ReadEntireFile`. The last argument is the result of read: an error, or how
many bytes of the file it stored. -/
def readEntireFile (fresh : Nat → UInt8) (string : VString) (opening : Opening)
    (reading : Option Nat) : Option EntireFile :=
  let file := vFileOpen opening
  if file.fileDescriptor = none then some ⟨string, 0, none⟩
  else if file.getType ≠ some .regular then some ⟨string, 0, none⟩
  else
    let string :=
      if string.capacity ≤ file.info.size then string.resize fresh file.info.size else string
    match reading with
    | none => some ⟨{ string with length := minusOne }, minusOne, file.fileDescriptor⟩
    | some read => do
      guard (read ≤ file.info.size)
      let block ← Memory.writeRange string.block 0 (file.content.take read)
      if read ≠ file.info.size then pure ⟨⟨block, read⟩, read, file.fileDescriptor⟩
      else pure ⟨⟨block, file.info.size⟩, read, none⟩

end VHttp
