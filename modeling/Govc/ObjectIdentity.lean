import Govc.ObjectCodec

/-!
# Objects that survive being written and read

What the parser returns is safe to write again.  The hash of a commit or tag
survives exactly when its persons are already as the parser would return them,
with the offset that the reader's own zone has at their times.
-/

namespace Govc

open Go Author Host Object

/-! ## Agreement up to times -/

def Time.SameInstant (first second : Time) : Prop :=
  first.unix = second.unix ∧ first.nanosecond = second.nanosecond

def Time.SameSecond (first second : Time) : Prop := first.unix = second.unix

structure Author.AgreesOn (same : Time → Time → Prop)
    (first second : Author) : Prop where
  name : first.name = second.name
  email : first.email = second.email
  time : same first.time second.time

structure Commit.AgreesOn (same : Time → Time → Prop)
    (first second : Commit) : Prop where
  treeHash : first.treeHash = second.treeHash
  parentHash : first.parentHash = second.parentHash
  author : first.author.AgreesOn same second.author
  committer : first.committer.AgreesOn same second.committer
  message : first.message = second.message

structure Tag.AgreesOn (same : Time → Time → Prop)
    (first second : Tag) : Prop where
  objectHash : first.objectHash = second.objectHash
  objectType : first.objectType = second.objectType
  tagName : first.tagName = second.tagName
  tagger : first.tagger.AgreesOn same second.tagger
  message : first.message = second.message

/-- Equal objects, but for times that are only related by `same`. -/
def Object.AgreesOn (same : Time → Time → Prop) : Object → Object → Prop
  | .blob first, .blob second => first = second
  | .tree first, .tree second => first = second
  | .commit first, .commit second => first.AgreesOn same second
  | .tag first, .tag second => first.AgreesOn same second
  | _, _ => False

/-- What the format can carry: no separator inside a field, and no white space
around a person's name. -/
def Object.Storable : Object → Prop
  | .blob _ => True
  | .tree t => ∀ entry ∈ t.entries, entry.Encodable
  | .commit c => c.HeaderSafe ∧ trimSpace c.author.name = c.author.name ∧
      trimSpace c.committer.name = c.committer.name
  | .tag t => t.HeaderSafe ∧ trimSpace t.tagger.name = t.tagger.name

theorem Author.reread_name {author : Author} :
    (author.reread host).name = trimSpace author.name :=
  trimSpace_append_ascii (by decide) author.name

variable {author : Author}

theorem Author.reread_agrees (htrimmed : trimSpace author.name = author.name) :
    (author.reread host).AgreesOn Time.SameSecond author where
  name := by rw [reread_name, htrimmed]
  email := rfl
  time := rfl

/-- A storable object is read back, but for the zones and the fractions of a
second of its times. -/
theorem parseObject_serialize_agrees (host : Host) (object : Object)
    (hstorable : object.Storable) (hsize : object.content.length < 2 ^ 63) :
    ∃ parsed, parseObject host object.serialize = .ok parsed ∧
      parsed.AgreesOn Time.SameSecond object := by
  cases object with
  | blob bytes => exact ⟨.blob bytes, parseObject_blob host hsize, rfl⟩
  | tree t =>
    exact ⟨.tree t, parseObject_tree host hstorable hsize, rfl⟩
  | commit c =>
    obtain ⟨hsafe, hauthor, hcommitter⟩ := hstorable
    refine ⟨.commit (c.reread host), parseObject_commit host hsafe hsize, ?_⟩
    exact ⟨rfl, rfl, reread_agrees hauthor, reread_agrees hcommitter, rfl⟩
  | tag t =>
    obtain ⟨hsafe, htagger⟩ := hstorable
    refine ⟨.tag (t.reread host), parseObject_tag host hsafe hsize, ?_⟩
    exact ⟨rfl, rfl, rfl, reread_agrees htagger, rfl⟩

def committedAt (name : GoString) (nanosecond : Fin 1000000000) (offset : ℤ) : Commit :=
  Commit.new (str "t") ⟨name, str "b", ⟨0, nanosecond, offset, inInt64_zero, nanosecond.isLt⟩⟩
    (str "m")

theorem committedAt_headerSafe {name : GoString} (hopen : 60 ∉ name)
    (hclose : 62 ∉ name) (hnewline : newline ∉ name)
    (nanosecond : Fin 1000000000) (offset : ℤ) :
    (committedAt name nanosecond offset).HeaderSafe := by
  have hemail : 62 ∉ str "b" ∧ newline ∉ str "b" := by decide
  have htree : newline ∉ str "t" := by decide
  have hauthor : (committedAt name nanosecond offset).author.HeaderSafe :=
    ⟨hopen, hclose, hnewline, hemail.1, hemail.2⟩
  exact ⟨htree, List.not_mem_nil, hauthor, hauthor⟩

/-- A commit with a fraction of a second, read in another zone. -/
theorem parseObject_serialize_agrees_committedAt :
    (Object.commit (committedAt (str "bob") 1 3600)).Storable ∧
      ∃ parsed, parseObject checksums
          (Object.commit (committedAt (str "bob") 1 3600)).serialize = .ok parsed ∧
        parsed.AgreesOn Time.SameSecond (.commit (committedAt (str "bob") 1 3600)) := by
  have hsafe := @committedAt_headerSafe (str "bob") (by decide) (by decide) (by decide) 1 3600
  have hstorable : (Object.commit (committedAt (str "bob") 1 3600)).Storable :=
    ⟨hsafe, by decide, by decide⟩
  exact ⟨hstorable, parseObject_serialize_agrees _ _ hstorable (by decide +kernel)⟩

/-- The fraction of a second is lost, and so is a tab before a name. -/
theorem reread_loses_fraction_and_tab :
    (∃ parsed, parseObject checksums
        (Object.commit (committedAt (str "bob") 1 0)).serialize = .ok parsed ∧
      ¬ parsed.AgreesOn Time.SameInstant (.commit (committedAt (str "bob") 1 0))) ∧
    ∃ parsed, parseObject checksums
        (Object.commit (committedAt (str "\tbob") 0 0)).serialize = .ok parsed ∧
      ¬ parsed.AgreesOn Time.SameInstant (.commit (committedAt (str "\tbob") 0 0)) := by
  constructor
  · have hsafe := @committedAt_headerSafe (str "bob") (by decide) (by decide) (by decide) 1 0
    refine ⟨.commit ((committedAt (str "bob") 1 0).reread checksums),
      parseObject_commit _ hsafe (by decide +kernel), ?_⟩
    intro hagrees
    exact absurd hagrees.author.time.2 (by decide)
  · have hsafe := @committedAt_headerSafe (str "\tbob") (by decide) (by decide) (by decide) 0 0
    refine ⟨.commit ((committedAt (str "\tbob") 0 0).reread checksums),
      parseObject_commit _ hsafe (by decide +kernel), ?_⟩
    intro hagrees
    exact absurd hagrees.author.name (by decide)

/-! ## What the parser returns -/

variable {host : Host}

theorem parseAuthor_headerSafe {authorStr : GoString}
    (hline : newline ∉ authorStr)
    (hparse : parseAuthor host authorStr = .ok author) : author.HeaderSafe := by
  unfold parseAuthor at hparse
  split at hparse
  · rename_i emailStart emailEnd hstart hend
    split_ifs at hparse with hle
    split at hparse
    · split at hparse
      · cases hparse
      · cases hparse
        have hopen := not_mem_take_of_indexByte hstart
        have hclose := not_mem_take_of_indexByte hend
        have hname : ∀ b, b ∈ trimSpace (authorStr.take emailStart) →
            b ∈ authorStr.take emailStart := by
          intro b hb
          exact mem_of_mem_trimSpace hb
        have hearlier : authorStr.take emailStart ⊆ authorStr.take emailEnd :=
          List.take_subset_take_left authorStr (by omega)
        have hemail : (authorStr.drop (emailStart + 1)).take
            (emailEnd - emailStart - 1) ⊆ authorStr.take emailEnd := by
          rw [Nat.sub_sub, ← List.drop_take]
          exact List.drop_subset _ _
        have hwhole : authorStr.take emailEnd ⊆ authorStr := List.take_subset _ _
        exact
          { name_noOpen := fun hb => hopen (hname _ hb)
            name_noClose := fun hb => hclose (hearlier (hname _ hb))
            name_noNewline := fun hb =>
              hline (hwhole (hearlier (hname _ hb)))
            email_noClose := fun hb => hclose (hemail hb)
            email_noNewline := fun hb => hline (hwhole (hemail hb)) }
    · cases hparse
  · cases hparse

theorem Author.zero_headerSafe : Author.zero.HeaderSafe := by
  constructor
  all_goals exact List.not_mem_nil

theorem parseLines_invariant {α : Type} {I : α → Prop}
    {parseLine : α → GoString → Except GoString α}
    (hstep : ∀ before line after, I before → newline ∉ line →
      parseLine before line = .ok after → I after)
    {lines : List GoString} (hlines : ∀ line ∈ lines, newline ∉ line)
    {first last : α} {rest : Option (List GoString)} (hfirst : I first)
    (hparse : parseLines parseLine first lines = .ok (last, rest)) :
    I last := by
  induction lines generalizing first with
  | nil =>
    cases hparse
    exact hfirst
  | cons line lines ih =>
    rw [parseLines] at hparse
    split at hparse
    · cases hparse
      exact hfirst
    · cases hnext : parseLine first line with
      | error e =>
        rw [hnext] at hparse
        cases hparse
      | ok next =>
        rw [hnext] at hparse
        have hnewline := hlines line List.mem_cons_self
        refine ih (fun l hl => hlines l (List.mem_cons_of_mem line hl)) ?_ hparse
        exact hstep first line next hfirst hnewline hnext

variable {line : GoString}

theorem value_noNewline {key value : GoString} (hline : newline ∉ line)
    (hsplit : splitN2 space line = some (key, value)) : newline ∉ value := by
  rw [(splitN2_eq_some hsplit).1] at hline
  simp only [List.mem_append, List.mem_cons, not_or] at hline
  exact hline.2.2

theorem parseCommitLine_headerSafe {before after : Commit}
    (hbefore : before.HeaderSafe) (hline : newline ∉ line)
    (hparse : parseCommitLine host before line = .ok after) :
    after.HeaderSafe := by
  unfold parseCommitLine at hparse
  cases hsplit : splitN2 space line with
  | none =>
    rw [hsplit] at hparse
    cases hparse
    exact hbefore
  | some field =>
    obtain ⟨key, value⟩ := field
    rw [hsplit] at hparse
    have hvalue := value_noNewline hline hsplit
    dsimp only at hparse
    split_ifs at hparse
    · cases hparse
      exact { hbefore with treeHash_noNewline := hvalue }
    · cases hparse
      exact { hbefore with parentHash_noNewline := hvalue }
    · cases hauthor : parseAuthor host value with
      | error e => rw [hauthor] at hparse; exact nomatch hparse
      | ok author =>
        rw [hauthor] at hparse
        cases hparse
        exact { hbefore with
          author := parseAuthor_headerSafe hvalue hauthor }
    · cases hcommitter : parseAuthor host value with
      | error e => rw [hcommitter] at hparse; exact nomatch hparse
      | ok committer =>
        rw [hcommitter] at hparse
        cases hparse
        exact { hbefore with
          committer := parseAuthor_headerSafe hvalue hcommitter }
    · cases hparse
      exact hbefore

theorem parseTagLine_headerSafe (hbefore : before.HeaderSafe) (hline : newline ∉ line)
    (hparse : parseTagLine host before line = .ok after) :
    after.HeaderSafe := by
  unfold parseTagLine at hparse
  cases hsplit : splitN2 space line with
  | none =>
    rw [hsplit] at hparse
    cases hparse
    exact hbefore
  | some field =>
    obtain ⟨key, value⟩ := field
    rw [hsplit] at hparse
    have hvalue := value_noNewline hline hsplit
    dsimp only at hparse
    split_ifs at hparse
    · cases hparse
      exact { hbefore with objectHash_noNewline := hvalue }
    · cases hparse
      exact { hbefore with objectType_noNewline := hvalue }
    · cases hparse
      exact { hbefore with tagName_noNewline := hvalue }
    · cases htagger : parseAuthor host value with
      | error e => rw [htagger] at hparse; exact nomatch hparse
      | ok tagger =>
        rw [htagger] at hparse
        cases hparse
        exact { hbefore with
          tagger := parseAuthor_headerSafe hvalue htagger }
    · cases hparse
      exact hbefore

theorem parseCommit_headerSafe {content : Bytes}
    {commit : Commit} (hparse : parseCommit host content = .ok commit) :
    commit.HeaderSafe := by
  unfold parseCommit at hparse
  dsimp only at hparse
  split at hparse
  · exact nomatch hparse
  · rename_i parsed rest hheader
    cases hparse
    have hzero : Commit.zero.HeaderSafe :=
      ⟨List.not_mem_nil, List.not_mem_nil, zero_headerSafe, zero_headerSafe⟩
    have hparsed := parseLines_invariant
      (fun _ _ _ hbefore hline => parseCommitLine_headerSafe hbefore hline)
      (fun _ hline => not_mem_of_mem_splitOn hline) hzero hheader
    exact { hparsed with }

theorem parseTag_headerSafe {content : Bytes}
    {tag : Tag} (hparse : parseTag host content = .ok tag) :
    tag.HeaderSafe := by
  unfold parseTag at hparse
  dsimp only at hparse
  split at hparse
  · exact nomatch hparse
  · rename_i parsed rest hheader
    cases hparse
    have hzero : Tag.zero.HeaderSafe :=
      ⟨List.not_mem_nil, List.not_mem_nil, List.not_mem_nil, zero_headerSafe⟩
    have hparsed := parseLines_invariant
      (fun _ _ _ hbefore hline => parseTagLine_headerSafe hbefore hline)
      (fun _ hline => not_mem_of_mem_splitOn hline) hzero hheader
    exact { hparsed with }

/-! ## Identity -/

/-- The object read back has the hash of the object written, whatever the
digest, when the reader's zone is `zone`. -/
def Object.KeepsIdentity (zone : ℤ → ℤ) (object : Object) : Prop :=
  ∀ host : Host, host.zone = zone →
    ∃ parsed, parseObject host object.serialize = .ok parsed ∧ parsed.hash host = object.hash host

/-- The name has no white space around it, and the offset prints as the
reader's does. -/
structure Author.InZone (zone : ℤ → ℤ) (author : Author) : Prop where
  trimmed : trimSpace author.name = author.name
  offset : author.time.formatZone =
    (Time.ofUnix author.time.unix (zone author.time.unix) author.time.inRange).formatZone

def Object.Canonical (zone : ℤ → ℤ) : Object → Prop
  | .blob _ => True
  | .tree t => ∀ entry ∈ t.entries, entry.Encodable
  | .commit c => c.HeaderSafe ∧ c.author.InZone zone ∧ c.committer.InZone zone
  | .tag t => t.HeaderSafe ∧ t.tagger.InZone zone

def Object.reread (host : Host) : Object → Object
  | .commit c => .commit (c.reread host)
  | .tag t => .tag (t.reread host)
  | object => object

theorem Author.InZone.text_reread (hzone : author.InZone host.zone) :
    (author.reread host).text = author.text := by
  have hname : (author.reread host).name = author.name := by
    rw [reread_name, hzone.trimmed]
  unfold text
  rw [hname, hzone.offset]
  rfl

theorem Author.inZone_of_reread
    (hfixed : author.reread host = author) : author.InZone host.zone where
  trimmed := by
    rw [← reread_name, hfixed]
  offset := by
    have htime := congrArg Author.time hfixed
    rw [← htime]
    rfl

variable {object : Object}

theorem Object.Canonical.serialize_reread (hcanonical : object.Canonical host.zone) :
    (object.reread host).serialize = object.serialize := by
  have hcontent : (object.reread host).content = object.content := by
    cases object with
    | blob bytes => rfl
    | tree t => rfl
    | commit c =>
      obtain ⟨-, hauthor, hcommitter⟩ := hcanonical
      simp only [Object.reread, Object.content, Commit.serializeContent,
        Commit.headerLines, Commit.reread, hauthor.text_reread,
        hcommitter.text_reread]
    | tag t =>
      obtain ⟨-, htagger⟩ := hcanonical
      simp only [Object.reread, Object.content, Tag.serializeContent,
        Tag.headerLines, Tag.reread, htagger.text_reread]
  have htype : (object.reread host).type = object.type := by
    cases object <;> rfl
  unfold serialize header
  rw [hcontent, htype]

theorem Object.Canonical.parseObject (hcanonical : object.Canonical host.zone)
    (hsize : object.content.length < 2 ^ 63) :
    Govc.parseObject host object.serialize = .ok (object.reread host) := by
  cases object with
  | blob bytes => exact parseObject_blob host hsize
  | tree t => exact parseObject_tree host hcanonical hsize
  | commit c => exact parseObject_commit host hcanonical.1 hsize
  | tag t => exact parseObject_tag host hcanonical.1 hsize

theorem Object.header_noNul (object : Object) : 0 ∉ object.header := by
  simp only [header, List.mem_append, List.mem_cons, not_or]
  exact ⟨object.type.text_safe.1, by decide, not_mem_formatNat (by decide)⟩

theorem Object.content_eq_of_serialize_eq {first second : Object}
    (heq : first.serialize = second.serialize) :
    first.content = second.content := by
  have hfirst := splitN2_append first.header_noNul first.content
  have hsecond := splitN2_append second.header_noNul second.content
  unfold serialize at heq
  rw [heq, hsecond] at hfirst
  exact (congrArg Prod.snd (Option.some.inj hfirst)).symm

/-- What is read and would be written as it was is canonical.  Its own bytes
are read back as its reread, so it is its reread. -/
theorem Object.canonical_of_parseObject {parsed : Object}
    (hsize : object.content.length < 2 ^ 63)
    (hparse : Govc.parseObject host object.serialize = .ok parsed)
    (hbytes : parsed.serialize = object.serialize) :
    parsed.Canonical host.zone := by
  have hcontent := content_eq_of_serialize_eq hbytes
  have hagain := hparse
  rw [← hbytes] at hagain
  rw [parseObject_serialize host object hsize] at hparse
  rw [← hcontent] at hsize
  cases object with
  | blob bytes =>
    cases hparse
    trivial
  | tree t =>
    obtain ⟨read, hread, heq⟩ := exists_of_map_eq_ok hparse
    subst heq
    exact parseTree_encodable hread
  | commit c =>
    obtain ⟨read, hread, heq⟩ := exists_of_map_eq_ok hparse
    subst heq
    have hsafe := parseCommit_headerSafe hread
    rw [parseObject_commit host hsafe hsize] at hagain
    have hfixed : read.reread host = read := Object.commit.inj (Except.ok.inj hagain)
    exact ⟨hsafe, inZone_of_reread (congrArg Commit.author hfixed),
      inZone_of_reread (congrArg Commit.committer hfixed)⟩
  | tag t =>
    obtain ⟨read, hread, heq⟩ := exists_of_map_eq_ok hparse
    subst heq
    have hsafe := parseTag_headerSafe hread
    rw [parseObject_tag host hsafe hsize] at hagain
    have hfixed : read.reread host = read := Object.tag.inj (Except.ok.inj hagain)
    exact ⟨hsafe, inZone_of_reread (congrArg Tag.tagger hfixed)⟩

/-- A host whose digest tells one string of bytes from all others. -/
def Host.singlingOut (data : Bytes) (zone : ℤ → ℤ) : Host where
  sha1 other := List.replicate 20 (if other = data then 1 else 0)
  sha256 _ := List.replicate 32 0
  zone := zone
  matchPath := fun _ _ => false
  sha1_length _ := List.length_replicate
  sha256_length _ := List.length_replicate

theorem Host.eq_of_singlingOut_hashObject {data other : Bytes} {zone : ℤ → ℤ}
    (hhash : (singlingOut data zone).hashObject other =
      (singlingOut data zone).hashObject data) : other = data := by
  unfold hashObject at hhash
  have hdigest := congrArg hexDecode hhash
  rw [hexDecode_hexEncode, hexDecode_hexEncode] at hdigest
  by_contra hne
  simp [singlingOut, hne] at hdigest

theorem Object.Canonical.keepsIdentity {zone : ℤ → ℤ}
    (hcanonical : object.Canonical zone)
    (hsize : object.content.length < 2 ^ 63) : object.KeepsIdentity zone := by
  rintro host rfl
  refine ⟨object.reread host, hcanonical.parseObject hsize, ?_⟩
  unfold Object.hash
  rw [hcanonical.serialize_reread]

/-- An object keeps its hash exactly if its bytes are those of a canonical
object. -/
theorem keepsIdentity_iff (zone : ℤ → ℤ) (object : Object)
    (hsize : object.content.length < 2 ^ 63) :
    object.KeepsIdentity zone ↔
      ∃ other : Object, other.Canonical zone ∧ other.serialize = object.serialize := by
  constructor
  · intro hkeeps
    obtain ⟨parsed, hparse, hhash⟩ := hkeeps (singlingOut object.serialize zone) rfl
    have hbytes := eq_of_singlingOut_hashObject hhash
    exact ⟨parsed, canonical_of_parseObject hsize hparse hbytes, hbytes⟩
  · rintro ⟨other, hcanonical, hbytes⟩ host hzone
    rw [← content_eq_of_serialize_eq hbytes] at hsize
    obtain ⟨parsed, hparse, hhash⟩ := hcanonical.keepsIdentity hsize host hzone
    unfold Object.hash at hhash ⊢
    rw [hbytes] at hparse hhash
    exact ⟨parsed, hparse, hhash⟩

theorem Author.HeaderSafe.inZone_of_text
    (hsafe : author.HeaderSafe) (hreread : (author.reread host).HeaderSafe)
    (htext : (author.reread host).text = author.text) :
    author.InZone host.zone := by
  have hopen : ∀ {person : Author}, person.HeaderSafe →
      (60 : UInt8) ∉ person.name ++ [space] := by
    intro person hperson
    simp only [List.mem_append, List.mem_singleton, not_or]
    exact ⟨hperson.name_noOpen, by decide⟩
  rw [text_eq, text_eq] at htext
  have hsplit := congrArg (splitN2 60) htext
  rw [splitN2_append (hopen hreread), splitN2_append (hopen hsafe)] at hsplit
  obtain ⟨hname, hrest⟩ := Prod.mk.inj (Option.some.inj hsplit)
  have htrimmed := List.append_cancel_right hname
  rw [reread_name] at htrimmed
  refine ⟨htrimmed, ?_⟩
  have hnumber := (List.cons.inj (List.cons.inj (List.append_cancel_left hrest)).2).2
  exact (List.cons.inj (List.append_cancel_left hnumber)).2.symm

theorem keepsIdentity_commit_iff (zone : ℤ → ℤ) {commit : Commit}
    (hsafe : commit.HeaderSafe)
    (hsize : commit.serializeContent.length < 2 ^ 63) :
    (Object.commit commit).KeepsIdentity zone ↔
      commit.author.InZone zone ∧ commit.committer.InZone zone := by
  constructor
  · intro hkeeps
    obtain ⟨parsed, hparse, hhash⟩ := hkeeps (singlingOut (Object.commit commit).serialize zone) rfl
    have hbytes := eq_of_singlingOut_hashObject hhash
    rw [parseObject_commit _ hsafe hsize] at hparse
    cases hparse
    have hreread := parseCommit_headerSafe (parseCommit_serializeContent
      (singlingOut (Object.commit commit).serialize zone) hsafe)
    have hlines := congrArg (List.splitOn newline) (content_eq_of_serialize_eq hbytes)
    simp only [Object.content] at hlines
    rw [hreread.splitOn_serializeContent, hsafe.splitOn_serializeContent] at hlines
    have hheader := List.append_cancel_left (List.append_cancel_right hlines)
    simp only [List.cons.injEq, List.append_cancel_left_eq] at hheader
    exact ⟨hsafe.author.inZone_of_text hreread.author hheader.1,
      hsafe.committer.inZone_of_text hreread.committer hheader.2.1⟩
  · rintro ⟨hauthor, hcommitter⟩
    have hcanonical : (Object.commit commit).Canonical zone := ⟨hsafe, hauthor, hcommitter⟩
    exact hcanonical.keepsIdentity hsize

/-- A commit written in the reader's zone. -/
theorem keepsIdentity_committedAt :
    (Object.commit (committedAt (str "bob") 1 0)).content.length < 2 ^ 63 ∧
      (Object.commit (committedAt (str "bob") 1 0)).KeepsIdentity (fun _ => 0) := by
  have hsize : (Object.commit (committedAt (str "bob") 1 0)).content.length <
      2 ^ 63 := by decide +kernel
  have hsafe := @committedAt_headerSafe (str "bob") (by decide) (by decide) (by decide) 1 0
  have hzone : (committedAt (str "bob") 1 0).author.InZone (fun _ => 0) := ⟨by decide, rfl⟩
  exact ⟨hsize, (keepsIdentity_iff _ _ hsize).mpr
    ⟨.commit (committedAt (str "bob") 1 0), ⟨hsafe, hzone, hzone⟩, rfl⟩⟩

/-- A commit written one hour east of the reader has another hash when it is
read. -/
theorem committedAt_east_changes_hash :
    ¬ (Object.commit (committedAt (str "bob") 0 3600)).KeepsIdentity (fun _ => 0) := by
  intro hkeeps
  obtain ⟨parsed, hparse, hhash⟩ := hkeeps checksums rfl
  have hsafe := @committedAt_headerSafe (str "bob") (by decide) (by decide) (by decide) 0 3600
  rw [parseObject_commit _ hsafe (by decide +kernel)] at hparse
  cases hparse
  exact absurd hhash (by decide +kernel)

end Govc
