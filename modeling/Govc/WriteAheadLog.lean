import Govc.GoBinary

/-!
# The write-ahead log

Every write to the LSM tree is first appended to `current.wal`.  Writes go to a
buffer that `Sync` flushes; a log over `maxSize` is renamed; `Truncate` starts the
log over.  File operations are taken to succeed.  `durable` is not a field of the
program: it counts the bytes of the file that a crash cannot take away.
-/

namespace Govc

open Go

structure WALEntry where
  sequence : UInt64
  key : GoString
  value : Bytes
  deleted : Bool
  checksum : UInt32
  deriving DecidableEq, Repr

namespace WALEntry

def xorBytes (sum : UInt32) (bytes : Bytes) : UInt32 :=
  bytes.foldl (fun sum b => sum ^^^ b.toUInt32) sum

def calculateChecksum (entry : WALEntry) : UInt32 :=
  let sum := xorBytes (xorBytes entry.sequence.toUInt32 entry.key) entry.value
  if entry.deleted then sum ^^^ 0xFFFFFFFF else sum

def magic : ℕ := 0xDEADBEEF

def encode (entry : WALEntry) (flags : UInt8) : Bytes :=
  leBytes 4 magic ++ (leBytes 8 entry.sequence.toNat ++
    (leBytes 4 entry.key.length ++ (entry.key ++
      (leBytes 4 entry.value.length ++ (entry.value ++
        ([flags] ++ leBytes 4 entry.checksum.toNat))))))

def serializeEntry (entry : WALEntry) : Bytes := entry.encode (if entry.deleted then 1 else 0)

def make (sequence : UInt64) (key : GoString) (value : Bytes) (deleted : Bool) : WALEntry :=
  let entry : WALEntry := ⟨sequence, key, value, deleted, 0⟩
  { entry with checksum := entry.calculateChecksum }

end WALEntry

/-- `%x` of a number. -/
def formatHex (n : ℕ) : GoString := (Nat.toDigits 16 n).map digitByte

def readFields : Reader WALEntry := do
  let sequence ← readUint 8
  let keyLen ← readUint 4
  let key ← readFull keyLen
  let valueLen ← readUint 4
  let value ← readFull valueLen
  let flagBytes ← readFull 1
  let checksum ← readUint 4
  pure {
    sequence := UInt64.ofNat sequence
    key := key
    value := value
    deleted := flagBytes.headD 0 &&& 1 ≠ 0
    checksum := UInt32.ofNat checksum }

def verifyChecksum (entry : WALEntry) : Reader WALEntry :=
  if entry.checksum ≠ entry.calculateChecksum then
    throw (str "WAL entry checksum mismatch")
  else pure entry

def readEntry : Reader WALEntry := do
  let magic ← readUint 4
  if magic ≠ WALEntry.magic then
    throw (str "invalid WAL entry magic: " ++ formatHex magic)
  else do
    let entry ← readFields
    verifyChecksum entry

/-- Entries up to the end of the stream or the first unreadable one. -/
def readEntries : ℕ → Bytes → List WALEntry
  | 0, _ => []
  | fuel + 1, stream =>
    match readEntry stream with
    | .ok (entry, rest) => entry :: readEntries fuel rest
    | .error _ => []

structure WriteAheadLog where
  file : Bytes
  durable : ℕ
  buffer : Bytes
  sequence : UInt64
  synced : UInt64
  size : ℕ
  archived : List (GoString × Bytes)

namespace WriteAheadLog

def maxSize : ℕ := 256 * 1024 * 1024

/-- The buffer of `bufio.NewWriter`. -/
def bufferSize : ℕ := 4096

def recoverSequence (file : Bytes) : UInt64 :=
  (readEntries file.length file).foldl
    (fun highest entry =>
      if entry.sequence > highest then entry.sequence else highest) 0

def newWriteAheadLog (file : Bytes) : WriteAheadLog where
  file := file
  durable := file.length
  buffer := []
  sequence := recoverSequence file
  synced := recoverSequence file
  size := file.length
  archived := []

/-- `bufio.Writer.Write`: a full buffer goes to the file, and so does what is
larger than the buffer. -/
def bufferedWrite (wal : WriteAheadLog) (data : Bytes) : WriteAheadLog :=
  let available := bufferSize - wal.buffer.length
  if data.length ≤ available then { wal with buffer := wal.buffer ++ data }
  else if wal.buffer = [] then { wal with file := wal.file ++ data }
  else
    let filled := wal.file ++ wal.buffer ++ data.take available
    let rest := data.drop available
    if rest.length ≤ bufferSize then
      { wal with file := filled, buffer := rest }
    else { wal with file := filled ++ rest, buffer := [] }

def flush (wal : WriteAheadLog) : WriteAheadLog :=
  { wal with file := wal.file ++ wal.buffer, buffer := [] }

def rotate (wal : WriteAheadLog) : WriteAheadLog :=
  let flushed := wal.flush
  { flushed with
    file := []
    durable := 0
    size := 0
    archived := flushed.archived ++
      [(str "current.wal." ++ formatNat wal.sequence.toNat, flushed.file)] }

def write (wal : WriteAheadLog) (key : GoString) (value : Bytes) (deleted : Bool) : WriteAheadLog :=
  let sequence := wal.sequence + 1
  let data := (WALEntry.make sequence key value deleted).serializeEntry
  let logged := { wal with sequence := sequence }.bufferedWrite data
  let grown := { logged with size := logged.size + data.length }
  if grown.size > maxSize then grown.rotate else grown

def sync (wal : WriteAheadLog) : WriteAheadLog :=
  let flushed := wal.flush
  { flushed with
    durable := flushed.file.length
    synced := wal.sequence }

/-- The file is read from the disk, without what is still in the buffer. -/
def readAll (wal : WriteAheadLog) : List WALEntry := readEntries wal.file.length wal.file

def truncate (wal : WriteAheadLog) : WriteAheadLog := { wal with
    file := []
    durable := 0
    buffer := []
    sequence := 0
    synced := 0
    size := 0 }

end WriteAheadLog

end Govc
