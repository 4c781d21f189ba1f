import VHttp.Foundations.Memory

/-!
# Strings and views of vstring.c

A view is a pointer and a length into a memory, and a `vstring` that is only read is
passed as one. Comparisons read byte by byte and stop at the first difference. The source
searches and trims with ints and splits with u32 counters; here all count in naturals, as the
worker does not hand over more than 4092 bytes. The same functions at their widths are
`Parsing.findFirstCharOccurence`, `Searching.findSubstring`, `Splitting.splitBySubstring` and
`Trimming.trim`, and they agree with these on strings shorter than 2^31 bytes
(`Parsing.findFirstLoop_eq`, `Searching.findSubstring_eq`, `Parsing.splitBySubstring_eq`,
`Trimming.trim_eq`).

A string that a request owns is its allocated block and the length in use. What a
reallocated block holds behind the old bytes is given by `fresh`. Allocation succeeds,
and a block that is grown is far smaller than 2^63, so that doubling does not wrap. The
loops of the two concatenations count in an s32, which a source of 2^31 bytes overflows;
they have no result then.

`VString_SplitBySubstring` stores the last piece without looking at the size of the
result array, so it may store one entry past its end. The entry is kept as the last
one of the result, and the store is taken to touch nothing else.
-/

namespace VHttp

/-- isspace in the C locale. -/
def isSpace (byte : UInt8) : Bool := decide (byte = 32) || (decide (9 ≤ byte) && decide (byte ≤ 13))

/-- isxdigit. -/
def isXDigit (byte : UInt8) : Bool :=
  (decide (48 ≤ byte) && decide (byte ≤ 57)) || (decide (65 ≤ byte) && decide (byte ≤ 70)) ||
    (decide (97 ≤ byte) && decide (byte ≤ 102))

/-- Whether memcmp finds the bytes at an address equal to these. -/
def memcmpEqual (memory : Memory) : Nat → Bytes → Option Bool
  | _, [] => some true
  | address, expected :: rest => do
    let byte ← memory[address]?
    if byte = expected then memcmpEqual memory (address + 1) rest else some false

/-- Whether strncmp finds at most `count` bytes at an address equal to a C string. -/
def strncmpEqual (memory : Memory) : Nat → Bytes → Nat → Option Bool
  | _, _, 0 => some true
  | address, [], _ + 1 => do
    let byte ← memory[address]?
    some (decide (byte = 0))
  | address, expected :: rest, count + 1 => do
    let byte ← memory[address]?
    if byte = expected then strncmpEqual memory (address + 1) rest count else some false

/-- `vstring_view`. -/
structure VStringView where
  data : Nat
  length : Nat
  deriving DecidableEq

/-- The bytes that a view shows. -/
def VStringView.bytes (view : VStringView) (memory : Memory) : Option Bytes :=
  memory.readRange view.data view.length

/-- `VStringView_FromRange`: the last argument is taken as the length. -/
def VStringView.fromRange (string : VStringView) (start length : Nat) : VStringView :=
  ⟨string.data + start, length⟩

/-- The loop of `VString_FindFirstCharOccurence`, over the bytes left to read. -/
def findFirstLoop (memory : Memory) (string : VStringView) (char : UInt8) : Nat → Nat → Option Int
  | 0, _ => some (-1)
  | remaining + 1, index => do
    let byte ← memory[string.data + index]?
    if byte = char then some index else findFirstLoop memory string char remaining (index + 1)

/-- `VString_FindFirstCharOccurence`: an index, or -1. -/
def findFirstCharOccurence (memory : Memory) (string : VStringView) (char : UInt8) : Option Int :=
  findFirstLoop memory string char string.length 0

/-- The loop of `VString_FindSubstring`, over the indices left to try. -/
def findSubstringLoop (memory : Memory) (string : VStringView) (substring : Bytes) :
    Nat → Nat → Option Nat
  | 0, _ => some 0
  | remaining + 1, index => do
    let same ← memcmpEqual memory (string.data + index) substring
    if same then some (index + substring.length)
    else findSubstringLoop memory string substring remaining (index + 1)

/-- `VString_FindSubstring`: the index behind the first occurrence, or 0. An occurrence
need only begin inside the string. -/
def findSubstring (memory : Memory) (string : VStringView) (substring : Bytes) : Option Nat :=
  if substring.length = 0 then some 0
  else findSubstringLoop memory string substring string.length 0

/-- The loop of `VString_SplitBySubstring`, over the bytes left to read: the index
`I`, the state `Check` of the match, the `Start` of the current piece, and the entries
stored so far. -/
def splitLoop (memory : Memory) (string : VStringView) (substring : Bytes) (size : Nat) :
    Nat → Nat → Nat → Nat → List VStringView → Option (List VStringView)
  | 0, _, _, start, result => some (result ++ [string.fromRange start (string.length - start)])
  | remaining + 1, index, check, start, result => do
    let byte ← memory[string.data + index]?
    let expected ← substring[check]?
    if byte = expected then
      if check + 1 = substring.length then
        if result.length < size then
          let split := string.fromRange start (index + 1 - substring.length - start)
          let result := if split.length ≠ 0 then result ++ [split] else result
          splitLoop memory string substring size remaining (index + 1) 0 (index + 1) result
        else some result
      else splitLoop memory string substring size remaining (index + 1) (check + 1) start result
    else splitLoop memory string substring size remaining (index + 1) 0 start result

/-- `VString_SplitBySubstring`: the entries stored, as many as the count returned. -/
def splitBySubstring (memory : Memory) (string : VStringView) (substring : Bytes) (size : Nat) :
    Option (List VStringView) :=
  if substring.length = 0 then some []
  else splitLoop memory string substring size string.length 0 0 0 []

/-- The first loop of `VString_Trim`, from an address on through the memory left. -/
def skipForward (memory : Memory) : Nat → Nat → Option Nat
  | 0, _ => none
  | remaining + 1, address => do
    let byte ← memory[address]?
    if isSpace byte then skipForward memory remaining (address + 1) else some address

/-- The second loop of `VString_Trim`. Its argument is the address behind the byte it
looks at, which is also what it returns; nothing lies before the first address. -/
def skipBackward (memory : Memory) : Nat → Option Nat
  | 0 => none
  | address + 1 => do
    let byte ← memory[address]?
    if isSpace byte then skipBackward memory address else some (address + 1)

/-- `VString_Trim`: the bytes between the two ends are moved to the front. With the
ends crossed the new length is negative, and no such number of bytes can be moved. -/
def trim (memory : Memory) (string : VStringView) : Option (Memory × VStringView) := do
  let start ← skipForward memory memory.length string.data
  let stop ← skipBackward memory (string.data + string.length)
  guard (start ≤ stop)
  let moved ← memory.move string.data start (stop - start)
  pure (moved, { string with length := stop - start })

/-- A string on the heap. -/
structure VString where
  block : Bytes
  length : Nat
  deriving DecidableEq

namespace VString

/-- `INIT_TEXT_SIZE`. -/
def initTextSize : Nat := 512

/-- `Capacity`, the size of the block. -/
def capacity (string : VString) : Nat := string.block.length

/-- `VString_Init(NULL)`. -/
def init : VString := ⟨List.replicate initTextSize 0, 0⟩

/-- The bytes in use. -/
def content (string : VString) : Bytes := string.block.take string.length

/-- `VString_Realloc`. -/
def realloc (fresh : Nat → UInt8) (string : VString) : VString :=
  let capacity := if string.capacity = 0 then initTextSize else string.capacity * 2
  { string with
    block := string.block ++
      (List.range (capacity - string.capacity)).map (fun offset => fresh (string.capacity + offset)) }

/-- `VString_Append`. -/
def append (fresh : Nat → UInt8) (string : VString) (char : UInt8) : Option VString := do
  let string := if string.capacity ≤ string.length then string.realloc fresh else string
  let block ← Memory.writeRange string.block string.length [char]
  pure ⟨block, string.length + 1⟩

/-- `VString_Insert`. -/
def insert (fresh : Nat → UInt8) (string : VString) (index : Nat) (char : UInt8) :
    Option VString := do
  let string := if string.capacity ≤ string.length + 1 then string.realloc fresh else string
  let moved ← Memory.move string.block (index + 1) index (string.length - index)
  let block ← Memory.writeRange moved index [char]
  pure ⟨block, string.length + 1⟩

/-- The growing loop of `VString_CopyCString`: each round at least doubles. -/
def growTo (fresh : Nat → UInt8) (needed : Nat) : Nat → VString → Option VString
  | 0, _ => none
  | fuel + 1, string =>
    if string.capacity ≤ needed then growTo fresh needed fuel (string.realloc fresh) else some string

/-- `VString_CopyCString`. The loop appends behind the old length. -/
def copyCString (fresh : Nat → UInt8) (string : VString) (source : Bytes) : Option VString := do
  let string ← growTo fresh source.length (source.length + 1) string
  let cleared : VString :=
    if string.length ≠ 0 then
      { string with
        block := List.replicate string.length 0 ++ string.block.drop string.length }
    else string
  let appended ← source.foldlM (append fresh) cleared
  pure { appended with length := source.length }

/-- `VString_InitWithCapacity`. -/
def initWithCapacity (fresh : Nat → UInt8) (text : Option CString) (capacity : Nat) :
    Option VString :=
  let string : VString := ⟨List.replicate (if capacity = 0 then initTextSize else capacity) 0, 0⟩
  match text with
  | some text => string.copyCString fresh text.1
  | none => some string

/-- `VString_Resize`. realloc keeps of the old bytes what fits. -/
def resize (fresh : Nat → UInt8) (string : VString) (capacity : Nat) : VString :=
  if capacity = 0 then string.realloc fresh
  else
    { string with
      block := string.block.take capacity ++
        (List.range (capacity - string.capacity)).map
          (fun offset => fresh (string.capacity + offset)) }

/-- `VString_Remove`. -/
def remove (string : VString) (index : Nat) : Option VString :=
  if string.length ≤ index then some string
  else do
    let block ← Memory.move string.block index (index + 1) (string.length - index - 1)
    pure ⟨block, string.length - 1⟩

/-- The loop of `VString_Concat` and of `VString_ConcatCString`: bytes of the source are
read one after another and appended. -/
def concatLoop (fresh : Nat → UInt8) (source : Bytes) : Nat → Nat → VString → Option VString
  | 0, _, string => some string
  | remaining + 1, index, string => do
    let char ← source[index]?
    let string ← string.append fresh char
    concatLoop fresh source remaining (index + 1) string

/-- `VString_Concat`. -/
def concat (fresh : Nat → UInt8) (dest src : VString) : Option VString := do
  let dest ← growTo fresh (src.length + dest.length) (src.length + dest.length + 1) dest
  guard (src.length < 2 ^ 31)
  concatLoop fresh src.block src.length 0 dest

/-- `VString_ConcatCString`. -/
def concatCString (fresh : Nat → UInt8) (dest : VString) (src : Bytes) : Option VString := do
  let dest ← growTo fresh (src.length + dest.length) (src.length + dest.length + 1) dest
  guard (src.length < 2 ^ 31)
  concatLoop fresh src src.length 0 dest

/-- The loop of `VString_Copy`: bytes of the source are read and written one after
another. -/
def copyLoop (source : Memory) : Nat → Nat → Memory → Option Memory
  | 0, _, block => some block
  | remaining + 1, index, block => do
    let char ← source[index]?
    let block ← block.writeRange index [char]
    copyLoop source remaining (index + 1) block

/-- The memset in front of that loop. -/
def clear (string : VString) : Option Memory :=
  if string.length ≠ 0 then Memory.writeRange string.block 0 (List.replicate string.length 0)
  else some string.block

/-- `VString_Copy`. -/
def copy (fresh : Nat → UInt8) (dest src : VString) : Option VString := do
  let dest ← growTo fresh src.length (src.length + 1) dest
  let cleared ← dest.clear
  let block ← copyLoop src.block src.length 0 cleared
  pure ⟨block, src.length⟩

end VString

end VHttp
