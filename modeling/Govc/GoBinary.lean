import Govc.GoStrings

/-!
# Binary records

Fixed-width little-endian numbers and readers of byte streams, as in Go's
`encoding/binary` and `io`.  A reader takes bytes from the front of a stream
or fails; each primitive reader has one law that says exactly on which streams
it succeeds, so that the law of a record reader follows by rewriting.
-/

namespace Go

def leBytes : ℕ → ℕ → Bytes
  | 0, _ => []
  | width + 1, n => UInt8.ofNat n :: leBytes width (n / 256)

def leValue : Bytes → ℕ
  | [] => 0
  | b :: rest => b.toNat + 256 * leValue rest

@[simp] theorem leBytes_length : (leBytes width n).length = width := by
  induction width generalizing n with
  | zero => rfl
  | succ width ih => simp [leBytes, ih]

theorem leValue_lt {bytes : Bytes} : leValue bytes < 256 ^ bytes.length := by
  induction bytes with
  | nil => simp [leValue]
  | cons b rest ih =>
    have hb : b.toNat < 256 := b.toNat_lt
    rw [leValue, List.length_cons, pow_succ]
    omega

theorem leValue_leBytes (hn : n < 256 ^ width) : leValue (leBytes width n) = n := by
  induction width generalizing n with
  | zero =>
    simp only [leBytes, leValue]
    omega
  | succ width ih =>
    have hquot : n / 256 < 256 ^ width := by
      omega
    rw [leBytes, leValue, ih hquot, UInt8.toNat_ofNat']
    omega

theorem leBytes_leValue {bytes : Bytes} : leBytes bytes.length (leValue bytes) = bytes := by
  induction bytes with
  | nil => rfl
  | cons b rest ih =>
    have hb : b.toNat < 256 := b.toNat_lt
    have hquot : (b.toNat + 256 * leValue rest) / 256 = leValue rest := by
      omega
    have hlow : UInt8.ofNat (b.toNat + 256 * leValue rest) = b := by
      apply UInt8.toNat.inj
      rw [UInt8.toNat_ofNat']
      omega
    rw [List.length_cons, leValue, leBytes, hquot, hlow, ih]

/-! ## Readers -/

abbrev Reader := StateT Bytes (Except GoString)

def errEOF : GoString := str "EOF"

def errUnexpectedEOF : GoString := str "unexpected EOF"

/-- `io.ReadFull`. -/
def readFull (n : ℕ) : Reader Bytes := fun stream =>
  if n ≤ stream.length then .ok (stream.take n, stream.drop n)
  else if stream = [] then .error errEOF
  else .error errUnexpectedEOF

def readUint (width : ℕ) : Reader ℕ := do
  let bytes ← readFull width
  pure (leValue bytes)

def readByte : Reader UInt8
  | [] => .error errEOF
  | b :: rest => .ok (b, rest)

/-- `bytes.Buffer.Read` into a new slice of `n` bytes: a buffer with fewer
bytes fills only the front of the slice, and only an empty one is an error. -/
def bufferRead (n : ℕ) : Reader Bytes := fun stream =>
  if stream = [] then
    if n = 0 then .ok ([], []) else .error errEOF
  else
    .ok (stream.take n ++ List.replicate (n - stream.length) 0, stream.drop n)

namespace Reader

variable {α γ : Type}

/-- `fmt.Errorf` around the error of a read. -/
def context (text : GoString) (m : Reader α) : Reader α := fun stream =>
  match m stream with
  | .ok result => .ok result
  | .error e => .error (text ++ e)

@[simp] theorem pure_eq_ok_iff (a b : α) (stream rest : Bytes) :
    (pure a : Reader α) stream = .ok (b, rest) ↔ b = a ∧ rest = stream := by
  constructor
  · intro h
    cases h
    exact ⟨rfl, rfl⟩
  · rintro ⟨rfl, rfl⟩
    rfl

@[simp] theorem throw_ne_ok :
    (throw text : Reader α) stream ≠ .ok (a, rest) :=
  nofun

theorem bind_eq_ok_iff (m : Reader α) (f : α → Reader γ) (c : γ) (stream rest : Bytes) :
    (m >>= f) stream = .ok (c, rest) ↔
      ∃ a middle, m stream = .ok (a, middle) ∧ f a middle = .ok (c, rest) := by
  constructor
  · intro h
    cases hm : m stream with
    | error e =>
      have hbind : (m >>= f) stream = .error e := by
        simp [Bind.bind, StateT.bind, Except.bind, hm]
      rw [hbind] at h
      cases h
    | ok result =>
      have hbind : (m >>= f) stream = f result.1 result.2 := by
        simp [Bind.bind, StateT.bind, Except.bind, hm]
      rw [hbind] at h
      exact ⟨result.1, result.2, rfl, h⟩
  · rintro ⟨a, middle, hm, hf⟩
    simp [Bind.bind, StateT.bind, Except.bind, hm, hf]

theorem readFull_eq_ok_iff (n : ℕ) (bytes stream rest : Bytes) :
    readFull n stream = .ok (bytes, rest) ↔ bytes.length = n ∧ stream = bytes ++ rest := by
  unfold readFull
  constructor
  · intro h
    by_cases hlength : n ≤ stream.length
    · rw [if_pos hlength] at h
      cases h
      exact ⟨List.length_take_of_le hlength, (List.take_append_drop n stream).symm⟩
    · split_ifs at h
  · rintro ⟨rfl, rfl⟩
    simp

theorem readUint_eq_ok_iff :
    readUint width stream = .ok (n, rest) ↔ n < 256 ^ width ∧ stream = leBytes width n ++ rest := by
  unfold readUint
  simp only [bind_eq_ok_iff, readFull_eq_ok_iff, pure_eq_ok_iff]
  constructor
  · rintro ⟨bytes, middle, ⟨rfl, rfl⟩, rfl, rfl⟩
    exact ⟨leValue_lt, by rw [leBytes_leValue]⟩
  · rintro ⟨hn, rfl⟩
    exact ⟨leBytes width n, rest, ⟨leBytes_length, rfl⟩, (leValue_leBytes hn).symm, rfl⟩

theorem context_of_ok
    (hm : m stream = .ok (a, rest)) :
    context text m stream = .ok (a, rest) := by
  simp only [context, hm]

theorem bind_of_ok {m : Reader α} {f : α → Reader γ}
    {stream middle : Bytes} {a : α} (hm : m stream = .ok (a, middle)) :
    (m >>= f) stream = f a middle := by
  simp [Bind.bind, StateT.bind, Except.bind, hm]

theorem bind_of_error {m : Reader α} {f : α → Reader γ} {stream : Bytes} {e : GoString}
    (hm : m stream = .error e) : (m >>= f) stream = .error e := by
  simp [Bind.bind, StateT.bind, Except.bind, hm]

theorem readUint_leBytes (hn : n < 256 ^ width) :
    readUint width (leBytes width n ++ rest) = .ok (n, rest) :=
  readUint_eq_ok_iff.mpr ⟨hn, rfl⟩

theorem bufferRead_append (bytes rest : Bytes) :
    bufferRead bytes.length (bytes ++ rest) = .ok (bytes, rest) := by
  unfold bufferRead
  by_cases hempty : bytes ++ rest = []
  · obtain ⟨rfl, rfl⟩ := List.append_eq_nil_iff.mp hempty
    rfl
  · rw [if_neg hempty, List.take_left, List.drop_left, List.length_append,
      Nat.sub_eq_zero_of_le (Nat.le_add_right _ _), List.replicate_zero,
      List.append_nil]

/-! ## Streams cut short -/

/-- What `m` does on `bytes` without an end.  It fails, except where the cut
falls inside the last `tail` bytes and leaves one of them: then it succeeds
with nothing left. -/
def CutShort (m : Reader α) (bytes : Bytes) (tail : ℕ) : Prop :=
  ∀ cut < bytes.length,
    if cut + tail ≤ bytes.length then ∃ e, m (bytes.take cut) = .error e
    else ∃ a, m (bytes.take cut) = .ok (a, [])

theorem cutShort_readByte : CutShort readByte [b] 0 := by
  intro cut hcut
  obtain rfl : cut = 0 := by simpa using hcut
  exact ⟨errEOF, rfl⟩

theorem cutShort_readUint {width n : ℕ} : CutShort (readUint width) (leBytes width n) 0 := by
  intro cut hcut
  rw [leBytes_length] at hcut
  rw [if_pos (by simpa using hcut.le)]
  have hshort : ¬ width ≤ ((leBytes width n).take cut).length := by
    simp [hcut]
  have hfull : ∃ e, readFull width ((leBytes width n).take cut) = .error e := by
    rw [readFull, if_neg hshort]
    split_ifs
    · exact ⟨_, rfl⟩
    · exact ⟨_, rfl⟩
  obtain ⟨e, hfull⟩ := hfull
  exact ⟨e, bind_of_error hfull⟩

theorem cutShort_bufferRead {bytes : Bytes} :
    CutShort (bufferRead bytes.length) bytes bytes.length := by
  intro cut hcut
  by_cases hzero : cut = 0
  · rw [if_pos (by omega), hzero, List.take_zero]
    exact ⟨errEOF, by rw [bufferRead, if_pos rfl, if_neg (by omega)]⟩
  · have hsome : bytes.take cut ≠ [] := by
      rw [← List.length_pos_iff, List.length_take]
      omega
    rw [if_neg (by omega), bufferRead, if_neg hsome, List.drop_eq_nil_of_le (by simp)]
    exact ⟨_, rfl⟩

variable {m : Reader α} {bytes : Bytes} {tail : ℕ}

theorem CutShort.context (h : CutShort m bytes tail) (text : GoString) :
    CutShort (context text m) bytes tail := by
  intro cut hcut
  have hm := h cut hcut
  split_ifs at hm ⊢
  · obtain ⟨e, hm⟩ := hm
    exact ⟨text ++ e, by simp only [Reader.context, hm]⟩
  · obtain ⟨a, hm⟩ := hm
    exact ⟨a, context_of_ok hm⟩

theorem CutShort.map (h : CutShort m bytes tail) (g : α → γ) :
    CutShort (m >>= fun a => pure (g a)) bytes tail := by
  intro cut hcut
  have hm := h cut hcut
  split_ifs at hm ⊢
  · obtain ⟨e, hm⟩ := hm
    exact ⟨e, bind_of_error hm⟩
  · obtain ⟨a, hm⟩ := hm
    exact ⟨g a, bind_of_ok hm⟩

theorem CutShort.fails (h : CutShort m bytes 0) {f : α → Reader γ} {cut : ℕ}
    (hcut : cut < bytes.length) : ∃ e, (m >>= f) (bytes.take cut) = .error e := by
  have hfail := h cut hcut
  rw [if_pos (by omega)] at hfail
  obtain ⟨e, hfail⟩ := hfail
  exact ⟨e, bind_of_error hfail⟩

theorem cutShort_bind {f : α → Reader γ} {a : α} {more : Bytes}
    (hfails : ∀ cut < bytes.length, ∃ e, (m >>= f) (bytes.take cut) = .error e)
    (hm : ∀ rest, m (bytes ++ rest) = .ok (a, rest)) (hf : CutShort (f a) more tail)
    (htail : tail ≤ more.length) : CutShort (m >>= f) (bytes ++ more) tail := by
  intro cut hcut
  rw [List.length_append] at hcut ⊢
  by_cases hfirst : cut < bytes.length
  · rw [if_pos (by omega), List.take_append_of_le_length hfirst.le]
    exact hfails cut hfirst
  · have hrest := hf (cut - bytes.length) (by omega)
    have htake : (bytes ++ more).take cut = bytes ++ more.take (cut - bytes.length) := by
      rw [List.take_append, List.take_of_length_le (by omega)]
    rw [htake, bind_of_ok (hm _)]
    simpa only [show cut - bytes.length + tail ≤ more.length ↔
      cut + tail ≤ bytes.length + more.length by omega] using hrest

end Reader

end Go
