import Govc.GoStrings

/-!
# Git objects and their wire format

Blobs, trees, commits and annotated tags with the encoder and the parser of
`pkg/object`.  The digest functions and the local time zone come from a `Host`.
The encoder checks nothing: a tree entry keeps whatever bytes its hash decodes
to, and the parser reads twenty bytes back.
-/

namespace Govc

open Go

/-- What the program takes from the machine and from the standard library:
two digests, the local offset at an instant, and `filepath.Match` of a
pattern and a path. -/
structure Host where
  sha1 : Bytes → Bytes
  sha256 : Bytes → Bytes
  zone : ℤ → ℤ
  matchPath : GoString → GoString → Bool
  sha1_length : ∀ data, (sha1 data).length = 20
  sha256_length : ∀ data, (sha256 data).length = 32

def Host.hashObject (host : Host) (data : Bytes) : GoString := hexEncode (host.sha1 data)

theorem Host.hashObject_isHexDigest (host : Host) (data : Bytes) :
    IsHexDigest (host.hashObject data) :=
  hexEncode_isHexDigest (host.sha1_length data)

/-- A polynomial checksum, one byte for each of the first `n` start values. -/
def checksum (n : ℕ) (data : Bytes) : Bytes := (List.range n).map fun i =>
    data.foldl (fun sum b => sum * 31 + b) i.toUInt8

/-- A host for small inputs, in UTC, whose digests are checksums. -/
def Host.checksums : Host where
  sha1 := checksum 20
  sha256 := checksum 32
  zone := fun _ => 0
  matchPath := fun pattern path => pattern = path
  sha1_length := by
    intro data
    simp [checksum]
  sha256_length := by
    intro data
    simp [checksum]

inductive ObjectType where
  | blob
  | tree
  | commit
  | tag
  deriving DecidableEq, Repr

def ObjectType.text : ObjectType → GoString
  | .blob => str "blob"
  | .tree => str "tree"
  | .commit => str "commit"
  | .tag => str "tag"

structure TreeEntry where
  mode : GoString
  name : GoString
  hash : GoString
  deriving DecidableEq, Repr

structure Tree where
  entries : List TreeEntry
  deriving DecidableEq, Repr

def Tree.new : Tree where
  entries := []

def Tree.addEntry (tree : Tree) (mode name hash : GoString) : Tree where
  entries := tree.entries ++ [⟨mode, name, hash⟩]

/-- An instant, in seconds and nanoseconds, with the offset of its zone in
seconds. -/
structure Time where
  unix : ℤ
  nanosecond : ℕ
  offset : ℤ
  inRange : InInt64 unix
  nanosecond_lt : nanosecond < 1000000000

def Time.ofUnix (unix offset : ℤ) (inRange : InInt64 unix) : Time where
  unix := unix
  nanosecond := 0
  offset := offset
  inRange := inRange
  nanosecond_lt := by decide

def Time.zero : Time := .ofUnix (-62135596800) 0 (by decide)

structure Author where
  name : GoString
  email : GoString
  time : Time

def Author.zero : Author where
  name := []
  email := []
  time := Time.zero

structure Commit where
  treeHash : GoString
  parentHash : GoString
  author : Author
  committer : Author
  message : GoString

def Commit.zero : Commit where
  treeHash := []
  parentHash := []
  author := Author.zero
  committer := Author.zero
  message := []

def Commit.new (treeHash : GoString) (author : Author) (message : GoString) : Commit where
  treeHash := treeHash
  parentHash := []
  author := author
  committer := author
  message := message

def Commit.setParent (commit : Commit) (parentHash : GoString) : Commit :=
  { commit with parentHash := parentHash }

structure Tag where
  objectHash : GoString
  objectType : GoString
  tagName : GoString
  tagger : Author
  message : GoString

def Tag.zero : Tag where
  objectHash := []
  objectType := []
  tagName := []
  tagger := Author.zero
  message := []

inductive Object where
  | blob (content : Bytes)
  | tree (tree : Tree)
  | commit (commit : Commit)
  | tag (tag : Tag)

/-! ## Serialisation -/

def TreeEntry.serialize (entry : TreeEntry) : Bytes :=
  entry.mode ++ space :: (entry.name ++ 0 :: hexDecode entry.hash)

def Tree.serializeContent (tree : Tree) : Bytes := tree.entries.flatMap TreeEntry.serialize

def pad2 (n : ℕ) : GoString := if n < 10 then str "0" ++ formatNat n else formatNat n

def Time.formatZone (time : Time) : GoString :=
  let minutes := time.offset.tdiv 60
  (if minutes < 0 then str "-" else str "+") ++
    (pad2 (minutes.natAbs / 60) ++ pad2 (minutes.natAbs % 60))

def Author.text (author : Author) : GoString :=
  author.name ++ str " <" ++ author.email ++ str "> " ++
    formatInt author.time.unix ++ str " " ++ author.time.formatZone

def Commit.headerLines (commit : Commit) : List GoString :=
  [str "tree " ++ commit.treeHash] ++
    (if commit.parentHash ≠ [] then [str "parent " ++ commit.parentHash]
      else []) ++
    [str "author " ++ commit.author.text, str "committer " ++ commit.committer.text]

def Commit.serializeContent (commit : Commit) : Bytes :=
  (commit.headerLines.flatMap fun line => line ++ [newline]) ++ newline :: commit.message

def Tag.headerLines (tag : Tag) : List GoString :=
  [str "object " ++ tag.objectHash, str "type " ++ tag.objectType,
    str "tag " ++ tag.tagName, str "tagger " ++ tag.tagger.text]

def Tag.serializeContent (tag : Tag) : Bytes :=
  (tag.headerLines.flatMap fun line => line ++ [newline]) ++ newline :: tag.message

def Object.type : Object → ObjectType
  | .blob _ => .blob
  | .tree _ => .tree
  | .commit _ => .commit
  | .tag _ => .tag

def Object.content : Object → Bytes
  | .blob bytes => bytes
  | .tree t => t.serializeContent
  | .commit c => c.serializeContent
  | .tag t => t.serializeContent

def Object.header (object : Object) : GoString :=
  object.type.text ++ space :: formatNat object.content.length

def Object.serialize (object : Object) : Bytes := object.header ++ 0 :: object.content

def Object.hash (host : Host) (object : Object) : GoString := host.hashObject object.serialize

/-! ## Parsing -/

def parseAuthor (host : Host) (authorStr : GoString) : Except GoString Author :=
  match indexByte authorStr 60, indexByte authorStr 62 with
  | some emailStart, some emailEnd =>
    if emailEnd ≤ emailStart then .error (str "invalid author format")
    else
      let name := trimSpace (authorStr.take emailStart)
      let email :=
        (authorStr.drop (emailStart + 1)).take (emailEnd - emailStart - 1)
      match fields (authorStr.drop (emailEnd + 1)) with
      | first :: _ :: _ =>
        match h : parseInt first with
        | .error e => .error (str "invalid timestamp: " ++ e)
        | .ok timestamp =>
          .ok ⟨name, email, .ofUnix timestamp (host.zone timestamp) (parseInt_inInt64 h)⟩
      | _ => .error (str "invalid timestamp format")
  | _, _ => .error (str "invalid author format")

/-- The loop of `parseTree`; every turn consumes at least one byte. -/
def parseTreeFrom : ℕ → Bytes → List TreeEntry → Except GoString (List TreeEntry)
  | 0, _, entries => .ok entries
  | _ + 1, [], entries => .ok entries
  | fuel + 1, content, entries =>
    match splitN2 0 content with
    | none => .error (str "error reading tree entry: EOF")
    | some (modeAndName, rest) =>
      match splitN2 space modeAndName with
      | none => .error (str "invalid tree entry format")
      | some (mode, name) =>
        if rest = [] then .error (str "error reading hash: EOF")
        else
          let hash := rest.take 20 ++
            List.replicate (20 - (rest.take 20).length) 0
          parseTreeFrom fuel (rest.drop 20) (entries ++ [⟨mode, name, hexEncode hash⟩])

def parseTree (content : Bytes) : Except GoString Tree :=
  match parseTreeFrom content.length content [] with
  | .ok entries => .ok ⟨entries⟩
  | .error e => .error e

def parseCommitLine (host : Host) (commit : Commit) (line : GoString) : Except GoString Commit :=
  match splitN2 space line with
  | none => .ok commit
  | some (key, value) =>
    if key = str "tree" then .ok { commit with treeHash := value }
    else if key = str "parent" then
      .ok { commit with parentHash := value }
    else if key = str "author" then
      match parseAuthor host value with
      | .ok author => .ok { commit with author := author }
      | .error e => .error (str "error parsing author: " ++ e)
    else if key = str "committer" then
      match parseAuthor host value with
      | .ok committer => .ok { commit with committer := committer }
      | .error e => .error (str "error parsing committer: " ++ e)
    else .ok commit

def parseTagLine (host : Host) (tag : Tag) (line : GoString) : Except GoString Tag :=
  match splitN2 space line with
  | none => .ok tag
  | some (key, value) =>
    if key = str "object" then .ok { tag with objectHash := value }
    else if key = str "type" then .ok { tag with objectType := value }
    else if key = str "tag" then .ok { tag with tagName := value }
    else if key = str "tagger" then
      match parseAuthor host value with
      | .ok tagger => .ok { tag with tagger := tagger }
      | .error e => .error (str "error parsing tagger: " ++ e)
    else .ok tag

/-- Header lines up to the first empty line, and the lines after it. -/
def parseLines {α : Type} (parseLine : α → GoString → Except GoString α) :
    α → List GoString → Except GoString (α × Option (List GoString))
  | parsed, [] => .ok (parsed, none)
  | parsed, line :: rest =>
    if line = [] then .ok (parsed, some rest)
    else
      match parseLine parsed line with
      | .ok parsed' => parseLines parseLine parsed' rest
      | .error e => .error e

/-- The message starts after the first empty line; without one the index of
its first line is still zero. -/
def messageOf (lines : List GoString) : Option (List GoString) → GoString
  | some rest => join rest [newline]
  | none => join lines [newline]

def parseCommit (host : Host) (content : Bytes) : Except GoString Commit :=
  let lines := content.splitOn newline
  match parseLines (parseCommitLine host) Commit.zero lines with
  | .error e => .error e
  | .ok (commit, rest) => .ok { commit with message := messageOf lines rest }

def parseTag (host : Host) (content : Bytes) : Except GoString Tag :=
  let lines := content.splitOn newline
  match parseLines (parseTagLine host) Tag.zero lines with
  | .error e => .error e
  | .ok (tag, rest) => .ok { tag with message := messageOf lines rest }

def parseObject (host : Host) (data : Bytes) : Except GoString Object :=
  match splitN2 0 data with
  | none => .error (str "invalid object format: no null byte")
  | some (header, content) =>
    match header.splitOn space with
    | [objType, sizeText] =>
      match parseInt sizeText with
      | .error e => .error (str "invalid size: " ++ e)
      | .ok size =>
        if (content.length : ℤ) ≠ size then
          .error (str "content size mismatch: expected " ++ formatInt size ++ str ", got " ++
            formatNat content.length)
        else if objType = str "blob" then .ok (.blob content)
        else if objType = str "tree" then
          Except.map Object.tree (parseTree content)
        else if objType = str "commit" then
          Except.map Object.commit (parseCommit host content)
        else if objType = str "tag" then
          Except.map Object.tag (parseTag host content)
        else .error (str "unknown object type: " ++ objType)
    | _ => .error (str "invalid header format: " ++ header)

end Govc
