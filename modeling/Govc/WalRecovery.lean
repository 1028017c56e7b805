import Govc.WriteAheadLog

/-!
# Reading the log back

A record is read exactly when the stream begins with the encoding of an entry
whose checksum is right.  Opening a log does not remove the torn record at its
end: what is written afterwards is read back only by a coincidence of bytes.
-/

namespace Govc

open Go Reader

namespace WALEntry

/-- The entry can be a record: its lengths fit and its checksum is right. -/
structure Recordable (entry : WALEntry) : Prop where
  key_length : entry.key.length < 2 ^ 32
  value_length : entry.value.length < 2 ^ 32
  checksum_eq : entry.checksum = entry.calculateChecksum

def Flags (entry : WALEntry) (flags : UInt8) : Prop := entry.deleted = decide (flags &&& 1 ≠ 0)

theorem flags_serialize (entry : WALEntry) : entry.Flags (if entry.deleted then 1 else 0) := by
  unfold Flags
  cases entry.deleted with
  | false => decide
  | true => decide

theorem encode_length (entry : WALEntry) (flags : UInt8) :
    (entry.encode flags).length = 25 + entry.key.length + entry.value.length := by
  simp only [encode, List.length_append, leBytes_length, List.length_cons, List.length_nil]
  omega

theorem make_recordable {sequence : UInt64} {key : GoString} {value : Bytes}
    {deleted : Bool} (hkey : key.length < 2 ^ 32)
    (hvalue : value.length < 2 ^ 32) :
    (make sequence key value deleted).Recordable :=
  ⟨hkey, hvalue, rfl⟩

end WALEntry

theorem readFields_eq_ok_iff {entry : WALEntry} :
    readFields stream = .ok (entry, rest) ↔
      entry.key.length < 2 ^ 32 ∧ entry.value.length < 2 ^ 32 ∧
      ∃ flags, entry.Flags flags ∧
        stream = leBytes 8 entry.sequence.toNat ++
          (leBytes 4 entry.key.length ++ (entry.key ++
            (leBytes 4 entry.value.length ++ (entry.value ++
              ([flags] ++ (leBytes 4 entry.checksum.toNat ++ rest)))))) := by
  unfold readFields
  simp only [bind_eq_ok_iff, readFull_eq_ok_iff, readUint_eq_ok_iff, pure_eq_ok_iff]
  constructor
  · rintro ⟨sequence, s1, ⟨hsequence, rfl⟩, keyLen, s2, ⟨hkeyLen, rfl⟩, key, s3,
      ⟨rfl, rfl⟩, valueLen, s4, ⟨hvalueLen, rfl⟩, value, s5, ⟨rfl, rfl⟩,
      flagBytes, s6, ⟨hflags, rfl⟩, checksum, s7, ⟨hchecksum, rfl⟩, rfl, rfl⟩
    obtain ⟨flags, rfl⟩ := List.length_eq_one_iff.mp hflags
    refine ⟨hkeyLen, hvalueLen, flags, rfl, ?_⟩
    have hseq : (UInt64.ofNat sequence).toNat = sequence := UInt64.toNat_ofNat_of_lt' hsequence
    have hsum : (UInt32.ofNat checksum).toNat = checksum := UInt32.toNat_ofNat_of_lt' hchecksum
    simp only [hseq, hsum]
  · rintro ⟨hkey, hvalue, flags, hflags, hstream⟩
    refine ⟨_, _, ⟨entry.sequence.toNat_lt, hstream⟩, _, _, ⟨hkey, rfl⟩, _, _,
      ⟨rfl, rfl⟩, _, _, ⟨hvalue, rfl⟩, _, _, ⟨rfl, rfl⟩, [flags], _,
      ⟨rfl, rfl⟩, _, _, ⟨entry.checksum.toNat_lt, rfl⟩, ?_, rfl⟩
    rw [UInt64.ofNat_toNat, UInt32.ofNat_toNat]
    exact congrArg
      (fun deleted => (⟨entry.sequence, entry.key, entry.value, deleted,
        entry.checksum⟩ : WALEntry)) hflags

theorem readEntry_eq_ok_iff {entry : WALEntry} (stream rest : Bytes) :
    readEntry stream = .ok (entry, rest) ↔
      entry.Recordable ∧ ∃ flags, entry.Flags flags ∧ stream = entry.encode flags ++ rest := by
  unfold readEntry
  simp only [bind_eq_ok_iff, readUint_eq_ok_iff]
  constructor
  · rintro ⟨magic, afterMagic, ⟨_, rfl⟩, hbody⟩
    by_cases hmagic : magic = WALEntry.magic
    · rw [if_neg (not_not.mpr hmagic), bind_eq_ok_iff] at hbody
      obtain ⟨found, afterFields, hfields, hverified⟩ := hbody
      unfold verifyChecksum at hverified
      by_cases hsum : found.checksum = found.calculateChecksum
      · rw [if_neg (not_not.mpr hsum), pure_eq_ok_iff] at hverified
        obtain ⟨rfl, rfl⟩ := hverified
        obtain ⟨hkey, hvalue, flags, hflags, rfl⟩ := readFields_eq_ok_iff.mp hfields
        refine ⟨⟨hkey, hvalue, hsum⟩, flags, hflags, ?_⟩
        simp only [WALEntry.encode, hmagic, List.append_assoc]
      · rw [if_pos hsum] at hverified
        exact absurd hverified (throw_ne_ok)
    · rw [if_pos hmagic] at hbody
      exact absurd hbody (throw_ne_ok)
  · rintro ⟨hrecordable, flags, hflags, rfl⟩
    refine ⟨WALEntry.magic, _, ⟨by decide, List.append_assoc _ _ _⟩, ?_⟩
    rw [if_neg (not_not.mpr rfl), bind_eq_ok_iff]
    refine ⟨entry, rest, ?_, ?_⟩
    · rw [readFields_eq_ok_iff]
      refine ⟨hrecordable.key_length, hrecordable.value_length, flags, hflags, ?_⟩
      simp only [List.append_assoc]
    · unfold verifyChecksum
      rw [if_neg (not_not.mpr hrecordable.checksum_eq)]
      rfl

/-! ## Reading a whole log -/

variable {entry : WALEntry}

theorem readEntry_encode (h : entry.Recordable) (hflags : entry.Flags flags) (rest : Bytes) :
    readEntry (entry.encode flags ++ rest) = .ok (entry, rest) :=
  (readEntry_eq_ok_iff _ _).mpr ⟨h, flags, hflags, rfl⟩

theorem readEntry_serialize (h : entry.Recordable) (rest : Bytes) :
    readEntry (entry.serializeEntry ++ rest) = .ok (entry, rest) :=
  readEntry_encode h entry.flags_serialize rest

theorem readEntry_take (h : entry.Recordable)
    (hn : n < entry.serializeEntry.length) (found : WALEntry) (rest : Bytes) :
    readEntry (entry.serializeEntry.take n) ≠ .ok (found, rest) := by
  intro hread
  obtain ⟨hfound, flags, hflags, hstream⟩ := (readEntry_eq_ok_iff _ _).mp hread
  -- the whole record would be read with what was cut off left over
  have hwhole := readEntry_encode hfound hflags (rest ++ entry.serializeEntry.drop n)
  rw [← List.append_assoc, ← hstream, List.take_append_drop] at hwhole
  have hself := readEntry_serialize h []
  rw [List.append_nil, hwhole] at hself
  have hrest := congrArg (fun read => List.length read.2) (Except.ok.inj hself)
  simp only [List.length_append, List.length_drop, List.length_nil] at hrest
  omega

variable {stream : Bytes}

theorem readEntry_shortens (hread : readEntry stream = .ok (entry, rest)) :
    rest.length < stream.length := by
  obtain ⟨_, flags, _, rfl⟩ := (readEntry_eq_ok_iff _ _).mp hread
  rw [List.length_append, WALEntry.encode_length]
  omega

theorem readEntries_of_le (hfuel : stream.length ≤ fuel) :
    readEntries fuel stream = readEntries stream.length stream := by
  induction fuel using Nat.strong_induction_on generalizing stream with
  | _ fuel ih =>
    cases fuel with
    | zero =>
      rw [Nat.le_zero.mp hfuel]
    | succ fuel =>
      cases hread : readEntry stream with
      | error e =>
        cases hlength : stream.length <;> simp only [readEntries, hread]
      | ok result =>
        obtain ⟨entry, rest⟩ := result
        have hshort := readEntry_shortens hread
        obtain ⟨length, hlength⟩ := Nat.exists_eq_succ_of_ne_zero (Nat.ne_zero_of_lt hshort)
        rw [hlength]
        simp only [readEntries, hread]
        rw [ih fuel (by omega) (by omega), ih length (by omega) (by omega)]

def scan (stream : Bytes) : List WALEntry := readEntries stream.length stream

def Unreadable (stream : Bytes) : Prop := ∀ entry rest, readEntry stream ≠ .ok (entry, rest)

theorem scan_of_ok (hread : readEntry stream = .ok (entry, rest)) :
    scan stream = entry :: scan rest := by
  have hshort := readEntry_shortens hread
  obtain ⟨length, hlength⟩ := Nat.exists_eq_succ_of_ne_zero (Nat.ne_zero_of_lt hshort)
  unfold scan
  rw [hlength]
  simp only [readEntries, hread]
  rw [readEntries_of_le (by omega)]

theorem scan_of_unreadable (h : Unreadable stream) : scan stream = [] := by
  unfold scan
  cases stream.length with
  | zero => rfl
  | succ length =>
    cases hread : readEntry stream with
    | error e => simp only [readEntries, hread]
    | ok result => exact absurd hread (h result.1 result.2)

theorem unreadable_nil : Unreadable [] := by
  intro entry rest hread
  have hshort := readEntry_shortens hread
  simp at hshort

def records (entries : List WALEntry) : Bytes := entries.flatMap WALEntry.serializeEntry

@[simp] theorem records_nil : records [] = [] := rfl

@[simp] theorem records_cons (entry : WALEntry) (entries : List WALEntry) :
    records (entry :: entries) = entry.serializeEntry ++ records entries := rfl

@[simp] theorem records_append (front back : List WALEntry) :
    records (front ++ back) = records front ++ records back :=
  List.flatMap_append

variable {entries : List WALEntry}

theorem scan_records_append (hentries : ∀ entry ∈ entries, entry.Recordable) (rest : Bytes) :
    scan (records entries ++ rest) = entries ++ scan rest := by
  induction entries with
  | nil => rfl
  | cons entry entries ih =>
    have hread := readEntry_serialize (hentries entry (by simp)) (records entries ++ rest)
    rw [records_cons, List.append_assoc, scan_of_ok hread,
      ih fun other hother => hentries other (by simp [hother])]
    rfl

theorem scan_records (hentries : ∀ entry ∈ entries, entry.Recordable) :
    scan (records entries) = entries := by
  have hscan := scan_records_append hentries []
  rw [List.append_nil, scan_of_unreadable unreadable_nil, List.append_nil] at hscan
  exact hscan

def fitting : List WALEntry → ℕ → List WALEntry
  | [], _ => []
  | entry :: entries, n =>
    if entry.serializeEntry.length ≤ n then
      entry :: fitting entries (n - entry.serializeEntry.length)
    else []

theorem scan_take (hentries : ∀ entry ∈ entries, entry.Recordable) :
    scan ((records entries).take n) = fitting entries n := by
  induction entries generalizing n with
  | nil =>
    rw [records_nil, List.take_nil]
    rfl
  | cons entry entries ih =>
    have hentry := hentries entry (by simp)
    rw [records_cons, fitting]
    split_ifs with hfits
    · rw [List.take_append, List.take_of_length_le hfits, scan_of_ok (readEntry_serialize hentry _), ih fun other hother => hentries other (by simp [hother])]
    · rw [List.take_append_of_le_length (by omega)]
      exact scan_of_unreadable (readEntry_take hentry (by omega))

theorem fitting_take (n : ℕ) :
    fitting entries n <+: entries ∧ (records (fitting entries n)).length ≤ n := by
  induction entries generalizing n with
  | nil => simp [fitting]
  | cons entry entries ih =>
    rw [fitting]
    by_cases hfits : entry.serializeEntry.length ≤ n
    · obtain ⟨hstarts, hlength⟩ := ih (n - entry.serializeEntry.length)
      rw [if_pos hfits, records_cons, List.length_append]
      exact ⟨(List.prefix_cons_inj entry).mpr hstarts, by omega⟩
    · rw [if_neg hfits]
      exact ⟨List.nil_prefix, by simp⟩

theorem prefix_fitting (hkept : kept <+: entries) (hlength : (records kept).length ≤ n) :
    kept <+: fitting entries n := by
  induction entries generalizing kept n with
  | nil =>
    rw [List.prefix_nil.mp hkept]
    exact List.nil_prefix
  | cons entry entries ih =>
    cases kept with
    | nil => exact List.nil_prefix
    | cons first kept =>
      obtain ⟨rfl, hrest⟩ := List.cons_prefix_cons.mp hkept
      rw [records_cons, List.length_append] at hlength
      rw [fitting, if_pos (by omega), List.prefix_cons_inj]
      exact ih hrest (by omega)

/-- From a log that was cut after any byte, exactly the longest prefix of
entries with complete records is read. -/
theorem readAll_truncated {entries : List WALEntry}
    (hentries : ∀ entry ∈ entries, entry.Recordable) (n : ℕ) :
    ∃ kept, (WriteAheadLog.newWriteAheadLog ((records entries).take n)).readAll = kept ∧
      kept <+: entries ∧ (records kept).length ≤ n ∧
      ∀ other, other <+: entries → (records other).length ≤ n → other <+: kept := by
  refine ⟨fitting entries n, scan_take hentries, (fitting_take _).1, (fitting_take _).2, ?_⟩
  intro other hother hlength
  exact prefix_fitting hother hlength

def putAndDelete : List WALEntry := [.make 1 (str "a") (str "x") false, .make 2 (str "a") [] true]

theorem putAndDelete_recordable : ∀ entry ∈ putAndDelete, entry.Recordable := by
  intro entry hentry
  simp only [putAndDelete, List.mem_cons, List.not_mem_nil, or_false] at hentry
  rcases hentry with rfl | rfl
  · exact WALEntry.make_recordable (by decide) (by decide)
  · exact WALEntry.make_recordable (by decide) (by decide)

theorem readAll_truncated_in_tombstone :
    (∀ entry ∈ putAndDelete, entry.Recordable) ∧
      ∃ kept, (WriteAheadLog.newWriteAheadLog ((records putAndDelete).take 40)).readAll = kept ∧
        kept <+: putAndDelete ∧ (records kept).length ≤ 40 ∧
        ∀ other, other <+: putAndDelete → (records other).length ≤ 40 → other <+: kept :=
  ⟨putAndDelete_recordable, readAll_truncated putAndDelete_recordable 40⟩

/-! ## Writing to a reopened log -/

namespace WriteAheadLog

def content (wal : WriteAheadLog) : Bytes := wal.file ++ wal.buffer

variable (wal : WriteAheadLog)

theorem bufferedWrite_content (data : Bytes) :
    (wal.bufferedWrite data).content = wal.content ++ data := by
  unfold bufferedWrite content
  dsimp only
  split
  · rw [List.append_assoc]
  · by_cases hempty : wal.buffer = []
    · rw [if_pos hempty, hempty, List.append_nil, List.append_nil]
    · rw [if_neg hempty]
      split_ifs
      · simp only [List.append_assoc, List.take_append_drop]
      · simp only [List.append_assoc, List.append_nil, List.take_append_drop]

theorem bufferedWrite_size (data : Bytes) :
    (wal.bufferedWrite data).size = wal.size ∧
      (wal.bufferedWrite data).sequence = wal.sequence := by
  unfold bufferedWrite
  dsimp only
  split_ifs
  · exact ⟨rfl, rfl⟩
  · exact ⟨rfl, rfl⟩
  · exact ⟨rfl, rfl⟩
  · exact ⟨rfl, rfl⟩

theorem write_cases {key : GoString} {value : Bytes} {deleted : Bool} :
    let entry := WALEntry.make (wal.sequence + 1) key value deleted
    (wal.write key value deleted).sequence = wal.sequence + 1 ∧
      (wal.size + entry.serializeEntry.length ≤ maxSize ∧
        (wal.write key value deleted).size = wal.size + entry.serializeEntry.length ∧
        (wal.write key value deleted).content = wal.content ++ entry.serializeEntry ∨
      maxSize < wal.size + entry.serializeEntry.length ∧ (wal.write key value deleted).size = 0 ∧
        (wal.write key value deleted).content = []) := by
  intro entry
  obtain ⟨hsize, hsequence⟩ :=
    ({ wal with sequence := wal.sequence + 1 }).bufferedWrite_size
      entry.serializeEntry
  have hcontent :=
    ({ wal with sequence := wal.sequence + 1 }).bufferedWrite_content
      entry.serializeEntry
  dsimp only at hsize hsequence
  unfold write
  dsimp only
  rw [hsize]
  split_ifs with hfull
  · exact ⟨hsequence, .inr ⟨hfull, rfl, rfl⟩⟩
  · exact ⟨hsequence, .inl ⟨not_lt.mp hfull, rfl, hcontent⟩⟩

def writeAll (wal : WriteAheadLog) (writes : List (GoString × Bytes × Bool)) : WriteAheadLog :=
  writes.foldl (fun wal (key, value, deleted) => wal.write key value deleted) wal

def logged (sequence : UInt64) : List (GoString × Bytes × Bool) → List WALEntry
  | [] => []
  | (key, value, deleted) :: writes =>
    WALEntry.make (sequence + 1) key value deleted :: logged (sequence + 1) writes

theorem writeAll_cases {writes : List (GoString × Bytes × Bool)} :
    ((writes = [] ∨ wal.size + (records (logged wal.sequence writes)).length ≤ maxSize) ∧
      (wal.writeAll writes).content = wal.content ++ records (logged wal.sequence writes)) ∨
    maxSize < wal.size + (records (logged wal.sequence writes)).length ∧
      ∃ front back, logged wal.sequence writes = front ++ back ∧ front ≠ [] ∧
        (wal.writeAll writes).content = records back := by
  induction writes generalizing wal with
  | nil =>
    left
    refine ⟨.inl rfl, ?_⟩
    simp [writeAll, logged]
  | cons first writes ih =>
    obtain ⟨key, value, deleted⟩ := first
    obtain ⟨hsequence, hwrite⟩ := wal.write_cases
    have hrest := ih (wal.write key value deleted)
    rw [hsequence] at hrest
    rw [logged, records_cons, List.length_append]
    have hstep : wal.writeAll ((key, value, deleted) :: writes) =
        (wal.write key value deleted).writeAll writes := rfl
    rw [hstep]
    rcases hwrite with ⟨hfits, hsize, hcontent⟩ | ⟨hfull, hsize, hcontent⟩
    · rw [hsize, hcontent] at hrest
      rcases hrest with ⟨hroom, happended⟩ | ⟨hover, front, back, heq, _, hback⟩
      · left
        refine ⟨.inr ?_, by rw [happended, List.append_assoc]⟩
        rcases hroom with rfl | hroom
        · simpa [logged] using hfits
        · omega
      · right
        exact ⟨by omega, _ :: front, back, congrArg (List.cons _) heq, List.cons_ne_nil _ _, hback⟩
    · right
      refine ⟨by omega, ?_⟩
      rw [hcontent] at hrest
      rcases hrest with ⟨_, happended⟩ | ⟨_, front, back, heq, _, hback⟩
      · exact ⟨[_], _, rfl, List.cons_ne_nil _ _, by rw [happended, List.nil_append]⟩
      · exact ⟨_ :: front, back, congrArg (List.cons _) heq, List.cons_ne_nil _ _, hback⟩

theorem recordable_of_fits {sequence : UInt64}
    (hn : n < 2 ^ 32)
    (hfits : (records (logged sequence writes)).length ≤ n) :
    ∀ entry ∈ logged sequence writes, entry.Recordable := by
  induction writes generalizing sequence n with
  | nil =>
    intro entry hentry
    cases hentry
  | cons first writes ih =>
    obtain ⟨key, value, deleted⟩ := first
    rw [logged, records_cons, List.length_append] at hfits
    have hlength := (WALEntry.make (sequence + 1) key value
      deleted).encode_length (if deleted then 1 else 0)
    change (WALEntry.make (sequence + 1) key value
      deleted).serializeEntry.length = 25 + key.length + value.length
      at hlength
    intro entry hentry
    rw [logged, List.mem_cons] at hentry
    rcases hentry with rfl | hentry
    · exact WALEntry.make_recordable (by omega) (by omega)
    · exact ih hn (by omega) entry hentry

end WriteAheadLog

/-- The bytes begin with the records of the entries, up to the unused bits of
the flag bytes, and what is left over is not another record. -/
def ReadsAs (stream : Bytes) (entries : List WALEntry) : Prop :=
  ∃ (flags : List UInt8) (left : Bytes),
    List.Forall₂ WALEntry.Flags entries flags ∧
      stream = (List.zipWith WALEntry.encode entries flags).flatten ++ left ∧
      Unreadable left

theorem scan_eq_iff (stream : Bytes) {entries : List WALEntry} :
    scan stream = entries ↔ (∀ entry ∈ entries, entry.Recordable) ∧ ReadsAs stream entries := by
  induction entries generalizing stream with
  | nil =>
    constructor
    · intro hscan
      refine ⟨fun entry hentry => (nomatch hentry), [], stream, .nil, rfl, ?_⟩
      intro entry rest hread
      rw [scan_of_ok hread] at hscan
      cases hscan
    · rintro ⟨_, flags, left, hflags, rfl, hleft⟩
      cases hflags
      exact scan_of_unreadable hleft
  | cons entry entries ih =>
    constructor
    · intro hscan
      have hreadable : ¬ Unreadable stream := by
        intro hnone
        rw [scan_of_unreadable hnone] at hscan
        cases hscan
      unfold Unreadable at hreadable
      push Not at hreadable
      obtain ⟨found, rest, hread⟩ := hreadable
      rw [scan_of_ok hread] at hscan
      obtain ⟨rfl, hrest⟩ := List.cons.inj hscan
      obtain ⟨hrecordable, flag, hflag, rfl⟩ := (readEntry_eq_ok_iff _ _).mp hread
      obtain ⟨hentries, flags, left, hflags, rfl, hleft⟩ := (ih rest).mp hrest
      refine ⟨?_, flag :: flags, left, .cons hflag hflags, ?_, hleft⟩
      · intro other hother
        rcases List.mem_cons.mp hother with rfl | hother
        · exact hrecordable
        · exact hentries other hother
      · simp only [List.zipWith_cons_cons, List.flatten_cons, List.append_assoc]
    · rintro ⟨hentries, flags, left, hflags, rfl, hleft⟩
      cases hflags with
      | @cons _ flag _ flags hflag hflags =>
        have hrest : scan ((List.zipWith WALEntry.encode entries
            flags).flatten ++ left) = entries :=
          (ih _).mpr ⟨fun other hother => hentries other (by simp [hother]),
            flags, left, hflags, rfl, hleft⟩
        simp only [List.zipWith_cons_cons, List.flatten_cons, List.append_assoc]
        rw [scan_of_ok (readEntry_encode (hentries entry (by simp)) hflag _), hrest]

/-- The torn record of the samples: a put that was cut in its sequence
number. -/
def tornPut : WALEntry := .make 3 (str "b") (str "y") false

theorem tornPut_recordable : tornPut.Recordable :=
  WALEntry.make_recordable (by decide) (by decide)

end Govc
