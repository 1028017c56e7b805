import Govc.ObjectModel

/-!
# Round trips of the object format

A blob always comes back from the parser, a tree exactly when every entry is
`Encodable`.  A commit or tag whose header fields hold no separator comes back
with trimmed names and with times in whole seconds and the reader's zone.
-/

namespace Govc

open Go

/-! ## Trees -/

structure TreeEntry.Encodable (entry : TreeEntry) : Prop where
  mode_noSpace : space ∉ entry.mode
  mode_noNul : 0 ∉ entry.mode
  name_noNul : 0 ∉ entry.name
  hash_isHexDigest : IsHexDigest entry.hash

theorem TreeEntry.Encodable.hexDecode_length {entry : TreeEntry} (hentry : entry.Encodable) :
    (hexDecode entry.hash).length = 20 :=
  hentry.hash_isHexDigest.hexEncode_hexDecode.2

theorem parseTreeFrom_nil : parseTreeFrom fuel [] entries = .ok entries := by
  cases fuel <;> rfl

theorem parseTreeFrom_serialize {entry : TreeEntry} (hentry : entry.Encodable)
    :
    parseTreeFrom (fuel + 1) (entry.serialize ++ rest) entries =
      parseTreeFrom fuel rest (entries ++ [entry]) := by
  have hlength := hentry.hexDecode_length
  have hmode : (0 : UInt8) ∉ entry.mode ++ space :: entry.name := by
    simp only [List.mem_append, List.mem_cons, not_or]
    exact ⟨hentry.mode_noNul, by decide, hentry.name_noNul⟩
  have hshape : entry.serialize ++ rest =
      (entry.mode ++ space :: entry.name) ++ 0 :: (hexDecode entry.hash ++ rest) := by
    simp [TreeEntry.serialize]
  have hcons : entry.serialize ++ rest ≠ [] := by
    simp [hshape]
  have hnonempty : hexDecode entry.hash ++ rest ≠ [] := by
    intro hnil
    rw [(List.append_eq_nil_iff.mp hnil).1] at hlength
    simp at hlength
  have htake : (hexDecode entry.hash ++ rest).take 20 = hexDecode entry.hash := by
    rw [← hlength]
    exact List.take_left
  have hdrop : (hexDecode entry.hash ++ rest).drop 20 = rest := by
    rw [← hlength]
    exact List.drop_left
  rw [parseTreeFrom, hshape, splitN2_append hmode]
  · simp only [splitN2_append hentry.mode_noSpace, if_neg hnonempty, htake,
      hdrop, hlength, Nat.sub_self, List.replicate_zero, List.append_nil,
      hentry.hash_isHexDigest.hexEncode_hexDecode.1]
  · exact hcons

theorem TreeEntry.serialize_length_pos (entry : TreeEntry) : 0 < entry.serialize.length := by
  simp [TreeEntry.serialize]

theorem parseTreeFrom_flatMap (hentries : ∀ e ∈ entries, e.Encodable)
    (hfuel : (entries.flatMap TreeEntry.serialize).length ≤ fuel)
    :
    parseTreeFrom fuel (entries.flatMap TreeEntry.serialize) done = .ok (done ++ entries) := by
  induction entries generalizing fuel done with
  | nil => simp [parseTreeFrom_nil]
  | cons entry entries ih =>
    have hpos := entry.serialize_length_pos
    rw [List.flatMap_cons, List.length_append] at hfuel
    obtain ⟨fuel, rfl⟩ : ∃ n, fuel = n + 1 := ⟨fuel - 1, by omega⟩
    rw [List.flatMap_cons, parseTreeFrom_serialize (hentries entry (by simp)), ih]
    · simp
    · intro e he
      exact hentries e (List.mem_cons_of_mem entry he)
    · omega

variable {tree : Tree}

theorem parseTree_serializeContent (htree : ∀ e ∈ tree.entries, e.Encodable) :
    parseTree tree.serializeContent = .ok tree := by
  unfold parseTree Tree.serializeContent
  rw [parseTreeFrom_flatMap htree le_rfl]
  rfl

theorem parseTreeFrom_encodable (hparse : parseTreeFrom fuel content done = .ok entries)
    (hdone : ∀ e ∈ done, e.Encodable) : ∀ e ∈ entries, e.Encodable := by
  induction fuel generalizing content done with
  | zero =>
    cases hparse
    exact hdone
  | succ fuel ih =>
    cases content with
    | nil =>
      cases hparse
      exact hdone
    | cons b content =>
      rw [parseTreeFrom] at hparse
      · cases hsplit : splitN2 0 (b :: content) with
        | none => simp [hsplit] at hparse
        | some parts =>
          obtain ⟨modeAndName, rest⟩ := parts
          simp only [hsplit] at hparse
          cases hname : splitN2 space modeAndName with
          | none => simp [hname] at hparse
          | some parts =>
            simp only [hname] at hparse
            by_cases hrest : rest = []
            · simp [hrest] at hparse
            · rw [if_neg hrest] at hparse
              apply ih hparse
              intro e he
              rcases List.mem_append.mp he with he | he
              · exact hdone e he
              · rw [List.mem_singleton] at he
                subst he
                have hnul := (splitN2_eq_some hsplit).2
                have hspace := splitN2_eq_some hname
                rw [hspace.1] at hnul
                simp only [List.mem_append, List.mem_cons, not_or] at hnul
                exact ⟨hspace.2, hnul.1, hnul.2.2, hexEncode_isHexDigest (by simp)⟩
      · simp

theorem parseTree_encodable {content : Bytes} (hparse : parseTree content = .ok tree) :
    ∀ e ∈ tree.entries, e.Encodable := by
  unfold parseTree at hparse
  cases hrun : parseTreeFrom content.length content [] with
  | error e => simp [hrun] at hparse
  | ok entries =>
    simp only [hrun] at hparse
    cases hparse
    exact parseTreeFrom_encodable hrun (by simp)

/-! ## Commits -/

structure Author.HeaderSafe (author : Author) : Prop where
  name_noOpen : 60 ∉ author.name
  name_noClose : 62 ∉ author.name
  name_noNewline : newline ∉ author.name
  email_noClose : 62 ∉ author.email
  email_noNewline : newline ∉ author.email

structure Commit.HeaderSafe (commit : Commit) : Prop where
  treeHash_noNewline : newline ∉ commit.treeHash
  parentHash_noNewline : newline ∉ commit.parentHash
  author : commit.author.HeaderSafe
  committer : commit.committer.HeaderSafe

def Author.reread (host : Host) (author : Author) : Author where
  name := trimSpace (author.name ++ [space])
  email := author.email
  time := .ofUnix author.time.unix (host.zone author.time.unix) author.time.inRange

def Commit.reread (host : Host) (commit : Commit) : Commit where
  treeHash := commit.treeHash
  parentHash := commit.parentHash
  author := commit.author.reread host
  committer := commit.committer.reread host
  message := commit.message

theorem pad2_isGraph : ∀ b ∈ pad2 n, isGraph b = true := by
  have hformat : ∀ b ∈ formatNat n, isGraph b = true := by
    intro b hb
    exact isGraph_of_isDigit (formatNat_isDigit hb)
  have hzero : ∀ b ∈ str "0", isGraph b = true := List.all_eq_true.mp (by decide)
  intro b hb
  unfold pad2 at hb
  split at hb
  · rw [List.mem_append] at hb
    rcases hb with hb | hb
    · exact hzero b hb
    · exact hformat b hb
  · exact hformat b hb

theorem Time.formatZone_isGraph (time : Time) : ∀ b ∈ time.formatZone, isGraph b = true := by
  have hminus : ∀ b ∈ str "-", isGraph b = true := List.all_eq_true.mp (by decide)
  have hplus : ∀ b ∈ str "+", isGraph b = true := List.all_eq_true.mp (by decide)
  intro b hb
  simp only [Time.formatZone, List.mem_append] at hb
  rcases hb with hb | hb | hb
  · split at hb
    · exact hminus b hb
    · exact hplus b hb
  · exact pad2_isGraph b hb
  · exact pad2_isGraph b hb

theorem Time.formatZone_ne_nil (time : Time) : time.formatZone ≠ [] := by
  have hminus : str "-" ≠ [] := by decide
  have hplus : str "+" ≠ [] := by decide
  unfold Time.formatZone
  by_cases hneg : time.offset.tdiv 60 < 0
  · simp [hneg, hminus]
  · simp [hneg, hplus]

theorem Author.text_eq (author : Author) :
    author.text =
      (author.name ++ [space]) ++ 60 :: (author.email ++ 62 :: space ::
        (formatInt author.time.unix ++ space :: author.time.formatZone)) := by
  have hopen : str " <" = [space, 60] := by decide
  have hclose : str "> " = [62, space] := by decide
  have hspace : str " " = [space] := by decide
  simp [Author.text, hopen, hclose, hspace]

variable {author : Author}

variable (host : Host)

theorem parseAuthor_text (hauthor : author.HeaderSafe) :
    parseAuthor host author.text = .ok (author.reread host) := by
  have hopen : (60 : UInt8) ∉ author.name ++ [space] := by
    simp only [List.mem_append, List.mem_singleton, not_or]
    exact ⟨hauthor.name_noOpen, by decide⟩
  have hclose : (62 : UInt8) ∉ (author.name ++ [space]) ++ 60 :: author.email := by
    simp only [List.mem_append, List.mem_cons, not_or]
    exact ⟨⟨hauthor.name_noClose, by decide⟩, by decide,
      hauthor.email_noClose⟩
  have hstart := indexByte_append hopen (author.email ++ 62 :: space ::
    (formatInt author.time.unix ++ space :: author.time.formatZone))
  have hend := indexByte_append hclose (space ::
    (formatInt author.time.unix ++ space :: author.time.formatZone))
  have hunix : ∀ b ∈ formatInt author.time.unix, isGraph b = true := by
    intro b hb
    exact formatInt_isGraph hb
  have hwords := fields_two_words hunix
    (formatInt_ne_nil author.time.unix) author.time.formatZone_isGraph
    author.time.formatZone_ne_nil
  have htext := author.text_eq
  generalize author.time.formatZone = zoneText at *
  generalize hfront : author.name ++ [space] = front at *
  rw [List.append_assoc, List.cons_append] at hend
  have hlt : ¬ (front ++ 60 :: author.email).length ≤ front.length := by
    simp
  have hname : author.text.take front.length = front := by
    rw [htext, List.take_left]
  have hemail : (author.text.drop (front.length + 1)).take
      ((front ++ 60 :: author.email).length - front.length - 1) = author.email := by
    rw [htext, ← List.drop_drop, List.drop_left]
    simp
  have htail : author.text.drop ((front ++ 60 :: author.email).length + 1) =
      space :: (formatInt author.time.unix ++ space :: zoneText) := by
    have hsplit : author.text = (front ++ 60 :: author.email) ++ 62 ::
        space :: (formatInt author.time.unix ++ space :: zoneText) := by
      simp [htext]
    rw [hsplit, ← List.drop_drop, List.drop_left]
    rfl
  have hnumber := parseInt_formatInt author.time.inRange
  rw [← htext] at hstart hend
  unfold parseAuthor
  simp only [hstart, hend, if_neg hlt, hname, hemail, htail, hwords]
  split
  · rename_i e herror
    rw [hnumber] at herror
    exact nomatch herror
  · rename_i timestamp hvalue
    rw [hnumber] at hvalue
    cases hvalue
    rw [Author.reread, hfront]

theorem Author.HeaderSafe.text_noNewline (hauthor : author.HeaderSafe) : newline ∉ author.text := by
  have hgraph : isGraph newline = false := by decide
  have hunix : newline ∉ formatInt author.time.unix := by
    intro hmem
    simp [formatInt_isGraph hmem] at hgraph
  have hzone : newline ∉ author.time.formatZone := by
    intro hmem
    simp [author.time.formatZone_isGraph newline hmem] at hgraph
  have hspace : newline ≠ space := by decide
  have hopen : newline ≠ 60 := by decide
  have hclose : newline ≠ 62 := by decide
  rw [author.text_eq]
  simp only [List.mem_append, List.mem_cons, List.not_mem_nil, or_false, not_or]
  exact ⟨⟨hauthor.name_noNewline, hspace⟩, hopen, hauthor.email_noNewline,
    hclose, hspace, hunix, hspace, hzone⟩

theorem parseLines_cons {α : Type} {parseLine : α → GoString → Except GoString α}
    {parsed parsed' : α} {line : GoString} (hne : line ≠ [])
    (hline : parseLine parsed line = .ok parsed') {rest : List GoString} :
    parseLines parseLine parsed (line :: rest) = parseLines parseLine parsed' rest := by
  simp [parseLines, hne, hline]

theorem splitN2_field {key : GoString} (hkey : space ∉ key) {value : GoString} :
    splitN2 space ((key ++ [space]) ++ value) = some (key, value) := by
  rw [List.append_assoc]
  exact splitN2_append hkey value

variable (commit : Commit)

variable (tag : Tag) (value : GoString)

theorem parseCommitLine_tree :
    parseCommitLine host commit (str "tree " ++ value) = .ok { commit with treeHash := value } := by
  have hkey : str "tree " = str "tree" ++ [space] := by decide
  rw [parseCommitLine, hkey, splitN2_field (by decide)]
  simp

theorem parseCommitLine_parent :
    parseCommitLine host commit (str "parent " ++ value) =
      .ok { commit with parentHash := value } := by
  have hkey : str "parent " = str "parent" ++ [space] := by decide
  have hne : str "parent" ≠ str "tree" := by decide
  rw [parseCommitLine, hkey, splitN2_field (by decide)]
  simp [hne]

theorem parseCommitLine_author (hauthor : author.HeaderSafe) :
    parseCommitLine host commit (str "author " ++ author.text) =
      .ok { commit with author := author.reread host } := by
  have hkey : str "author " = str "author" ++ [space] := by decide
  have htree : str "author" ≠ str "tree" := by decide
  have hparent : str "author" ≠ str "parent" := by decide
  rw [parseCommitLine, hkey, splitN2_field (by decide)]
  simp [htree, hparent, parseAuthor_text host hauthor]

theorem parseCommitLine_committer {committer : Author}
    (hcommitter : committer.HeaderSafe) :
    parseCommitLine host commit (str "committer " ++ committer.text) =
      .ok { commit with committer := committer.reread host } := by
  have hkey : str "committer " = str "committer" ++ [space] := by decide
  have htree : str "committer" ≠ str "tree" := by decide
  have hparent : str "committer" ≠ str "parent" := by decide
  have hauthor : str "committer" ≠ str "author" := by decide
  rw [parseCommitLine, hkey, splitN2_field (by decide)]
  simp [htree, hparent, hauthor, parseAuthor_text host hcommitter]

theorem splitOn_flatMap_lines {lines : List GoString} (hlines : ∀ line ∈ lines, newline ∉ line)
    {rest : GoString} :
    ((lines.flatMap fun line => line ++ [newline]) ++ rest).splitOn newline =
      lines ++ rest.splitOn newline := by
  induction lines with
  | nil => rfl
  | cons line lines ih =>
    have hline := hlines line (by simp)
    have hrest : ∀ l ∈ lines, newline ∉ l := by
      intro l hl
      exact hlines l (List.mem_cons_of_mem line hl)
    rw [List.flatMap_cons, List.append_assoc, List.append_assoc, List.singleton_append,
      List.splitOn_append_cons_self_of_not_mem hline, ih hrest]
    rfl

variable {commit : Commit}

theorem Commit.HeaderSafe.headerLines_noNewline (hcommit : commit.HeaderSafe) :
    ∀ line ∈ commit.headerLines, newline ∉ line := by
  have htree : newline ∉ str "tree " := by decide
  have hparent : newline ∉ str "parent " := by decide
  have hauthor : newline ∉ str "author " := by decide
  have hcommitter : newline ∉ str "committer " := by decide
  intro line hline
  unfold Commit.headerLines at hline
  simp only [List.mem_append, List.mem_cons, List.not_mem_nil, or_false] at hline
  rcases hline with (rfl | hline) | rfl | rfl
  · simp [htree, hcommit.treeHash_noNewline]
  · by_cases hempty : commit.parentHash = []
    · simp [hempty] at hline
    · simp only [ne_eq, hempty, not_false_eq_true, if_true, List.mem_singleton] at hline
      subst hline
      simp [hparent, hcommit.parentHash_noNewline]
  · simp [hauthor, hcommit.author.text_noNewline]
  · simp [hcommitter, hcommit.committer.text_noNewline]

theorem parseLines_headerLines (hcommit : commit.HeaderSafe) {rest : List GoString} :
    parseLines (parseCommitLine host) Commit.zero (commit.headerLines ++ [] :: rest) =
      .ok ({ commit.reread host with message := [] }, some rest) := by
  have hne : ∀ {key : GoString} (value : GoString), key ≠ [] →
      key ++ value ≠ [] := by
    intro key value hkey hnil
    exact hkey (List.append_eq_nil_iff.mp hnil).1
  unfold Commit.headerLines
  rw [List.append_assoc, List.append_assoc, List.singleton_append,
    parseLines_cons (hne _ (by decide)) (parseCommitLine_tree host _ _)]
  by_cases hparent : commit.parentHash = []
  · rw [if_neg (by simpa using hparent), List.nil_append, List.cons_append,
      parseLines_cons (hne _ (by decide))
        (parseCommitLine_author host _ hcommit.author), List.cons_append,
      parseLines_cons (hne _ (by decide)) (parseCommitLine_committer host _ hcommit.committer)]
    simp [parseLines, Commit.reread, Commit.zero, hparent]
  · rw [if_pos hparent, List.singleton_append,
      parseLines_cons (hne _ (by decide)) (parseCommitLine_parent host _ _),
      List.cons_append,
      parseLines_cons (hne _ (by decide))
        (parseCommitLine_author host _ hcommit.author), List.cons_append,
      parseLines_cons (hne _ (by decide)) (parseCommitLine_committer host _ hcommit.committer)]
    simp [parseLines, Commit.reread, Commit.zero]

theorem Commit.HeaderSafe.splitOn_serializeContent (hcommit : commit.HeaderSafe) :
    commit.serializeContent.splitOn newline =
      commit.headerLines ++ [] :: commit.message.splitOn newline := by
  unfold Commit.serializeContent
  rw [splitOn_flatMap_lines hcommit.headerLines_noNewline]
  congr 1

theorem parseCommit_serializeContent (hcommit : commit.HeaderSafe) :
    parseCommit host commit.serializeContent = .ok (commit.reread host) := by
  unfold parseCommit
  simp only [hcommit.splitOn_serializeContent, parseLines_headerLines host hcommit, messageOf, join,
    List.intercalate_splitOn]
  rfl

/-! ## Tags -/

structure Tag.HeaderSafe (tag : Tag) : Prop where
  objectHash_noNewline : newline ∉ tag.objectHash
  objectType_noNewline : newline ∉ tag.objectType
  tagName_noNewline : newline ∉ tag.tagName
  tagger : tag.tagger.HeaderSafe

def Tag.reread (host : Host) (tag : Tag) : Tag where
  objectHash := tag.objectHash
  objectType := tag.objectType
  tagName := tag.tagName
  tagger := tag.tagger.reread host
  message := tag.message

theorem parseTagLine_object :
    parseTagLine host tag (str "object " ++ value) = .ok { tag with objectHash := value } := by
  have hkey : str "object " = str "object" ++ [space] := by decide
  rw [parseTagLine, hkey, splitN2_field (by decide)]
  simp

theorem parseTagLine_type :
    parseTagLine host tag (str "type " ++ value) = .ok { tag with objectType := value } := by
  have hkey : str "type " = str "type" ++ [space] := by decide
  have hobject : str "type" ≠ str "object" := by decide
  rw [parseTagLine, hkey, splitN2_field (by decide)]
  simp [hobject]

theorem parseTagLine_tag :
    parseTagLine host tag (str "tag " ++ value) = .ok { tag with tagName := value } := by
  have hkey : str "tag " = str "tag" ++ [space] := by decide
  have hobject : str "tag" ≠ str "object" := by decide
  have htype : str "tag" ≠ str "type" := by decide
  rw [parseTagLine, hkey, splitN2_field (by decide)]
  simp [hobject, htype]

theorem parseTagLine_tagger {tagger : Author} (htagger : tagger.HeaderSafe) :
    parseTagLine host tag (str "tagger " ++ tagger.text) =
      .ok { tag with tagger := tagger.reread host } := by
  have hkey : str "tagger " = str "tagger" ++ [space] := by decide
  have hobject : str "tagger" ≠ str "object" := by decide
  have htype : str "tagger" ≠ str "type" := by decide
  have htag : str "tagger" ≠ str "tag" := by decide
  rw [parseTagLine, hkey, splitN2_field (by decide)]
  simp [hobject, htype, htag, parseAuthor_text host htagger]

variable {tag : Tag}

theorem Tag.HeaderSafe.headerLines_noNewline (htag : tag.HeaderSafe) :
    ∀ line ∈ tag.headerLines, newline ∉ line := by
  have hobject : newline ∉ str "object " := by decide
  have htype : newline ∉ str "type " := by decide
  have hname : newline ∉ str "tag " := by decide
  have htagger : newline ∉ str "tagger " := by decide
  intro line hline
  unfold Tag.headerLines at hline
  simp only [List.mem_cons, List.not_mem_nil, or_false] at hline
  rcases hline with rfl | rfl | rfl | rfl
  · simp [hobject, htag.objectHash_noNewline]
  · simp [htype, htag.objectType_noNewline]
  · simp [hname, htag.tagName_noNewline]
  · simp [htagger, htag.tagger.text_noNewline]

theorem parseLines_tagHeaderLines (htag : tag.HeaderSafe) {rest : List GoString} :
    parseLines (parseTagLine host) Tag.zero (tag.headerLines ++ [] :: rest) =
      .ok ({ tag.reread host with message := [] }, some rest) := by
  have hne : ∀ {key : GoString} (value : GoString), key ≠ [] →
      key ++ value ≠ [] := by
    intro key value hkey
    exact List.append_ne_nil_of_left_ne_nil hkey value
  unfold Tag.headerLines
  rw [List.cons_append, parseLines_cons (hne _ (by decide)) (parseTagLine_object host _ _),
    List.cons_append,
    parseLines_cons (hne _ (by decide)) (parseTagLine_type host _ _),
    List.cons_append,
    parseLines_cons (hne _ (by decide)) (parseTagLine_tag host _ _),
    List.cons_append,
    parseLines_cons (hne _ (by decide)) (parseTagLine_tagger host _ htag.tagger)]
  simp [parseLines, Tag.reread, Tag.zero]

theorem parseTag_serializeContent (htag : tag.HeaderSafe) :
    parseTag host tag.serializeContent = .ok (tag.reread host) := by
  have hlines : tag.serializeContent.splitOn newline =
      tag.headerLines ++ [] :: tag.message.splitOn newline := by
    unfold Tag.serializeContent
    rw [splitOn_flatMap_lines htag.headerLines_noNewline]
    congr 1
  unfold parseTag
  simp only [hlines, parseLines_tagHeaderLines host htag, messageOf, join, List.intercalate_splitOn]
  rfl

/-! ## Headers -/

/-- The part of `parseObject` after the header. -/
def parseContent (host : Host) (content : Bytes) : ObjectType → Except GoString Object
  | .blob => .ok (.blob content)
  | .tree => Except.map Object.tree (parseTree content)
  | .commit => Except.map Object.commit (parseCommit host content)
  | .tag => Except.map Object.tag (parseTag host content)

theorem ObjectType.text_safe (type : ObjectType) : 0 ∉ type.text ∧ space ∉ type.text := by
  cases type with
  | blob => decide
  | tree => decide
  | commit => decide
  | tag => decide

theorem not_mem_formatNat {b : UInt8} (hb : isDigit b = false) {n : ℕ} :
    b ∉ formatNat n := by
  intro hmem
  simp [formatNat_isDigit hmem] at hb

theorem parseObject_serialize (object : Object) (hsize : object.content.length < 2 ^ 63) :
    parseObject host object.serialize = parseContent host object.content object.type := by
  have htype := object.type.text_safe
  have hnul : (0 : UInt8) ∉ object.header := by
    simp only [Object.header, List.mem_append, List.mem_cons, not_or]
    exact ⟨htype.1, by decide, not_mem_formatNat (by decide)⟩
  have hwords : object.header.splitOn space =
      [object.type.text, formatNat object.content.length] := by
    unfold Object.header
    rw [List.splitOn_append_cons_self_of_not_mem htype.2]
    have hdigits : space ∉ formatNat object.content.length := not_mem_formatNat (by decide)
    have hsingle : ([space].intercalate
        [formatNat object.content.length]).splitOn space = [formatNat object.content.length] := by
      apply List.splitOn_intercalate space
      · simpa using hdigits
      · simp
    simpa using hsingle
  have hnumber : parseInt (formatNat object.content.length) = .ok (object.content.length : ℤ) := by
    apply parseInt_formatInt (n := (object.content.length : ℤ))
    exact ⟨by omega, by exact_mod_cast hsize⟩
  unfold parseObject Object.serialize
  rw [splitN2_append hnul]
  simp only [hwords, hnumber, ne_eq, not_true_eq_false, if_false]
  cases object <;> rfl

theorem parseObject_blob {bytes : Bytes} (hsize : bytes.length < 2 ^ 63) :
    parseObject host (Object.blob bytes).serialize = .ok (.blob bytes) :=
  parseObject_serialize host (.blob bytes) hsize

theorem parseObject_tree (htree : ∀ e ∈ tree.entries, e.Encodable)
    (hsize : tree.serializeContent.length < 2 ^ 63) :
    parseObject host (Object.tree tree).serialize = .ok (.tree tree) := by
  rw [parseObject_serialize host (.tree tree) hsize]
  simp only [parseContent, Object.type, Object.content, parseTree_serializeContent htree]
  rfl

theorem parseObject_commit (hcommit : commit.HeaderSafe)
    (hsize : commit.serializeContent.length < 2 ^ 63) :
    parseObject host (Object.commit commit).serialize = .ok (.commit (commit.reread host)) := by
  rw [parseObject_serialize host (.commit commit) hsize]
  simp only [parseContent, Object.type, Object.content, parseCommit_serializeContent host hcommit]
  rfl

theorem parseObject_tag (htag : tag.HeaderSafe) (hsize : tag.serializeContent.length < 2 ^ 63) :
    parseObject host (Object.tag tag).serialize = .ok (.tag (tag.reread host)) := by
  rw [parseObject_serialize host (.tag tag) hsize]
  simp only [parseContent, Object.type, Object.content, parseTag_serializeContent host htag]
  rfl

theorem exists_of_map_eq_ok {α : Type} {f : α → Object} {parsed : Except GoString α}
    {object : Object} (hmap : Except.map f parsed = .ok object) :
    ∃ a, parsed = .ok a ∧ f a = object := by
  cases parsed with
  | error e => exact nomatch hmap
  | ok a =>
    cases hmap
    exact ⟨a, rfl, rfl⟩

theorem parseObject_tree_encodable {host : Host} {data : Bytes}
    (hparse : parseObject host data = .ok (.tree tree)) :
    ∀ e ∈ tree.entries, e.Encodable := by
  unfold parseObject at hparse
  split at hparse
  · exact nomatch hparse
  · split at hparse
    · split at hparse
      · exact nomatch hparse
      · split_ifs at hparse with hlength hblob htree hcommit htag
        · exact nomatch hparse
        · obtain ⟨parsed, hread, heq⟩ := exists_of_map_eq_ok hparse
          cases heq
          exact parseTree_encodable hread
        · obtain ⟨parsed, hread, heq⟩ := exists_of_map_eq_ok hparse
          exact nomatch heq
        · obtain ⟨parsed, hread, heq⟩ := exists_of_map_eq_ok hparse
          exact nomatch heq
    · exact nomatch hparse

end Govc
