import Govc.GoBinary

/-!
# Delta packets

A delta packet is the whole target, or says that the target is the base, or
lists instructions that add bytes or copy a range of the base.  This file has
the binary form of packets, its parser, and the application of a packet to a
base.  A stated length is kept beside the data it speaks of, since the format
does not tie the two together.
-/

namespace Govc

open Go Reader

inductive DeltaInstruction where
  | add (length : ℕ) (data : Bytes)
  | copy (offset length : ℕ)
  deriving DecidableEq

inductive DeltaPacket where
  | full (length : ℕ) (data : Bytes)
  | identical
  | delta (baseSize targetSize : ℕ) (instructions : List DeltaInstruction)
  deriving DecidableEq

/-! ## The binary form -/

def DeltaInstruction.serialize : DeltaInstruction → Bytes
  | add length data => 1 :: (leBytes 4 length ++ data)
  | copy offset length => 2 :: (leBytes 4 offset ++ leBytes 4 length)

def DeltaPacket.serialize : DeltaPacket → Bytes
  | full length data => 0 :: (leBytes 4 length ++ data)
  | identical => [1]
  | delta baseSize targetSize instructions =>
    2 :: (leBytes 4 baseSize ++ (leBytes 4 targetSize ++
      (leBytes 4 instructions.length ++ instructions.flatMap DeltaInstruction.serialize)))

def readInstruction : Reader DeltaInstruction := do
  let type ← (readByte).context (str "failed to read instruction type: ")
  if type = 1 then do
    let length ← (readUint 4).context (str "failed to read add length: ")
    let data ← (bufferRead length).context (str "failed to read add data: ")
    pure (.add length data)
  else if type = 2 then do
    let offset ← (readUint 4).context (str "failed to read copy offset: ")
    let length ← (readUint 4).context (str "failed to read copy length: ")
    pure (.copy offset length)
  else throw (str "unknown instruction type: " ++ formatNat type.toNat)

def readInstructions : ℕ → Reader (List DeltaInstruction)
  | 0 => pure []
  | count + 1 => do
    let instruction ← readInstruction
    let instructions ← readInstructions count
    pure (instruction :: instructions)

def readPacket : Reader DeltaPacket := do
  let type ← (readByte).context (str "failed to read type: ")
  if type = 0 then do
    let length ← (readUint 4).context (str "failed to read length: ")
    let data ← (bufferRead length).context (str "failed to read data: ")
    pure (.full length data)
  else if type = 1 then pure .identical
  else if type = 2 then do
    let baseSize ← (readUint 4).context (str "failed to read base size: ")
    let targetSize ← (readUint 4).context (str "failed to read target size: ")
    let count ← (readUint 4).context (str "failed to read instruction count: ")
    let instructions ← readInstructions count
    pure (.delta baseSize targetSize instructions)
  else throw (str "unknown delta type: " ++ formatNat type.toNat)

def parseDeltaPacket (data : Bytes) : Except GoString DeltaPacket :=
  if data = [] then .error (str "empty delta data")
  else (readPacket data).map Prod.fst

/-! ## Applying a packet -/

def applyInstruction (base : Bytes) : DeltaInstruction → Except GoString Bytes
  | .add _ data => .ok data
  | .copy offset length =>
    if offset + length > base.length then
      .error (str "copy instruction out of bounds: offset=" ++
        formatNat offset ++ str ", length=" ++ formatNat length ++
        str ", base_size=" ++ formatNat base.length)
    else .ok ((base.drop offset).take length)

def applyInstructions (base : Bytes) : Bytes → List DeltaInstruction → Except GoString Bytes
  | result, [] => .ok result
  | result, instruction :: instructions =>
    match applyInstruction base instruction with
    | .error e => .error e
    | .ok bytes => applyInstructions base (result ++ bytes) instructions

def applyDeltaInstructions (base : Bytes) (targetSize : ℕ)
    (instructions : List DeltaInstruction) : Except GoString Bytes :=
  match applyInstructions base [] instructions with
  | .error e => .error e
  | .ok result =>
    if result.length ≠ targetSize then
      .error (str "reconstructed size mismatch: expected " ++
        formatNat targetSize ++ str ", got " ++ formatNat result.length)
    else .ok result

def applyDelta (base deltaData : Bytes) : Except GoString Bytes :=
  match parseDeltaPacket deltaData with
  | .error e => .error (str "failed to parse delta: " ++ e)
  | .ok (.full _ data) => .ok data
  | .ok .identical => .ok base
  | .ok (.delta _ targetSize instructions) =>
    applyDeltaInstructions base targetSize instructions

/-! ## Well-formed packets are read back -/

def DeltaInstruction.WellFormed : DeltaInstruction → Prop
  | add length data => length = data.length ∧ data.length < 2 ^ 32
  | copy offset length => offset < 2 ^ 32 ∧ length < 2 ^ 32

def DeltaPacket.WellFormed : DeltaPacket → Prop
  | full length data => length = data.length ∧ data.length < 2 ^ 32
  | identical => True
  | delta baseSize targetSize instructions =>
    baseSize < 2 ^ 32 ∧ targetSize < 2 ^ 32 ∧ instructions.length < 2 ^ 32 ∧
      ∀ instruction ∈ instructions, instruction.WellFormed

theorem readUint32 (hn : n < 2 ^ 32) (rest : Bytes) :
    (readUint 4).context text (leBytes 4 n ++ rest) = .ok (n, rest) :=
  context_of_ok (readUint_leBytes (by omega))

theorem readInstruction_serialize (hwell : instruction.WellFormed) (rest : Bytes) :
    readInstruction (instruction.serialize ++ rest) = .ok (instruction, rest) := by
  have htype (b : UInt8) (tail : Bytes) :
      (readByte).context (str "failed to read instruction type: ") (b :: tail) = .ok (b, tail) :=
    context_of_ok rfl
  cases instruction with
  | add length data =>
    obtain ⟨rfl, hlength⟩ := hwell
    rw [DeltaInstruction.serialize, List.cons_append, List.append_assoc,
      readInstruction, bind_of_ok (htype 1 _), if_pos rfl,
      bind_of_ok (readUint32 hlength _),
      bind_of_ok (context_of_ok (bufferRead_append data rest))]
    rfl
  | copy offset length =>
    obtain ⟨hoffset, hlength⟩ := hwell
    rw [DeltaInstruction.serialize, List.cons_append, List.append_assoc,
      readInstruction, bind_of_ok (htype 2 _), if_neg (by decide),
      if_pos rfl, bind_of_ok (readUint32 hoffset _),
      bind_of_ok (readUint32 hlength _)]
    rfl

variable {instructions : List DeltaInstruction}

theorem readInstructions_serialize (hwell : ∀ instruction ∈ instructions, instruction.WellFormed)
    (rest : Bytes) :
    readInstructions instructions.length (instructions.flatMap DeltaInstruction.serialize ++ rest) =
      .ok (instructions, rest) := by
  induction instructions with
  | nil => rfl
  | cons instruction instructions ih =>
    have hfirst := readInstruction_serialize (hwell instruction (by simp))
      (instructions.flatMap DeltaInstruction.serialize ++ rest)
    have hrest := ih fun other hother => hwell other (by simp [hother])
    rw [List.length_cons, readInstructions, List.flatMap_cons,
      List.append_assoc, bind_of_ok hfirst, bind_of_ok hrest]
    rfl

theorem parseDeltaPacket_serialize (hwell : packet.WellFormed) :
    parseDeltaPacket packet.serialize = .ok packet := by
  have htype (b : UInt8) (tail : Bytes) :
      (readByte).context (str "failed to read type: ") (b :: tail) = .ok (b, tail) :=
    context_of_ok rfl
  have hread : ∃ rest, readPacket packet.serialize = .ok (packet, rest) := by
    cases packet with
    | full length data =>
      obtain ⟨rfl, hlength⟩ := hwell
      refine ⟨[], ?_⟩
      have hdata := bufferRead_append data []
      rw [List.append_nil] at hdata
      rw [DeltaPacket.serialize, readPacket, bind_of_ok (htype 0 _),
        if_pos rfl, bind_of_ok (readUint32 hlength _),
        bind_of_ok (context_of_ok hdata)]
      rfl
    | identical => exact ⟨[], rfl⟩
    | delta baseSize targetSize instructions =>
      obtain ⟨hbase, htarget, hcount, hinstructions⟩ := hwell
      refine ⟨[], ?_⟩
      have hrest := readInstructions_serialize hinstructions []
      rw [List.append_nil] at hrest
      rw [DeltaPacket.serialize, readPacket, bind_of_ok (htype 2 _),
        if_neg (by decide), if_neg (by decide), if_pos rfl,
        bind_of_ok (readUint32 hbase _),
        bind_of_ok (readUint32 htarget _),
        bind_of_ok (readUint32 hcount _), bind_of_ok hrest]
      rfl
  obtain ⟨rest, hread⟩ := hread
  have hnonempty : packet.serialize ≠ [] := by
    cases packet <;> exact List.cons_ne_nil _ _
  rw [parseDeltaPacket, if_neg hnonempty, hread]
  rfl

/-! ## What instructions rebuild -/

def Rebuilds (base : Bytes) (instructions : List DeltaInstruction) (bytes : Bytes) : Prop :=
  ∀ result, applyInstructions base result instructions = .ok (result ++ bytes)

theorem rebuilds_nil : Rebuilds base [] [] := by
  intro result
  rw [applyInstructions, List.append_nil]

variable {base : Bytes}

theorem Rebuilds.cons (hfirst : applyInstruction base instruction = .ok front)
    (hrest : Rebuilds base instructions back) :
    Rebuilds base (instruction :: instructions) (front ++ back) := by
  intro result
  simp only [applyInstructions, hfirst]
  rw [hrest, List.append_assoc]

theorem applyInstruction_copy (hinside : offset + length ≤ base.length) :
    applyInstruction base (.copy offset length) = .ok ((base.drop offset).take length) := by
  rw [applyInstruction, if_neg (by omega)]

theorem applyDelta_of_rebuilds
    (hwell : (DeltaPacket.delta base.length target.length instructions).WellFormed)
    (hrebuilds : Rebuilds base instructions target) :
    applyDelta base (DeltaPacket.delta base.length target.length
      instructions).serialize = .ok target := by
  have hresult := hrebuilds []
  rw [List.nil_append] at hresult
  simp only [applyDelta, parseDeltaPacket_serialize hwell, applyDeltaInstructions, hresult]
  rw [if_neg (fun hne => hne rfl)]

end Govc
