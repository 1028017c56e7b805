import Govc.DeltaPacket

/-!
# Packets cut short

Which beginnings of a packet `ParseDeltaPacket` refuses.  A read into a slice
takes what is left in the buffer and leaves the rest of the slice zero, so a cut
inside the data at the end goes unnoticed.
-/

namespace Govc

open Go

def DeltaInstruction.trailing : DeltaInstruction → Bytes
  | add _ data => data
  | copy _ _ => []

def trailingData : List DeltaInstruction → Bytes
  | [] => []
  | [instruction] => instruction.trailing
  | _ :: instructions => trailingData instructions

/-- The data at the end of the binary form. -/
def DeltaPacket.trailing : DeltaPacket → Bytes
  | full _ data => data
  | identical => []
  | delta _ _ instructions => trailingData instructions

theorem cutShort_uint32 {α : Type} {n tail : ℕ} {f : ℕ → Reader α} {more : Bytes}
    (hn : n < 2 ^ 32) {text : GoString} (hf : Reader.CutShort (f n) more tail)
    (htail : tail ≤ more.length) :
    Reader.CutShort ((readUint 4).context text >>= f) (leBytes 4 n ++ more) tail :=
  Reader.cutShort_bind (fun _ => (Reader.cutShort_readUint.context text).fails)
    (readUint32 hn) hf htail

theorem cutShort_byte {α : Type} {b : UInt8} {tail : ℕ} {f : UInt8 → Reader α} {more : Bytes}
    {text : GoString} (hf : Reader.CutShort (f b) more tail) (htail : tail ≤ more.length) :
    Reader.CutShort ((readByte).context text >>= f) (b :: more) tail :=
  Reader.cutShort_bind (fun _ => (Reader.cutShort_readByte.context text).fails)
    (fun _ => Reader.context_of_ok rfl) hf htail

theorem cutShort_data {α : Type} (data : Bytes) {text : GoString} {g : Bytes → α} :
    Reader.CutShort ((bufferRead data.length).context text >>= fun bytes => pure (g bytes))
      data data.length :=
  (Reader.cutShort_bufferRead.context text).map g

theorem readInstruction_cutShort {instruction : DeltaInstruction}
    (hwell : instruction.WellFormed) :
    Reader.CutShort readInstruction instruction.serialize instruction.trailing.length := by
  cases instruction with
  | add length data =>
    obtain ⟨rfl, hlength⟩ := hwell
    refine cutShort_byte ?_ (by simp [DeltaInstruction.trailing])
    rw [if_pos rfl]
    exact cutShort_uint32 hlength (cutShort_data data) le_rfl
  | copy offset length =>
    obtain ⟨hoffset, hlength⟩ := hwell
    refine cutShort_byte ?_ (Nat.zero_le _)
    rw [if_neg (by decide), if_pos rfl]
    refine cutShort_uint32 hoffset ?_ (Nat.zero_le _)
    exact (Reader.cutShort_readUint.context _).map _

theorem trailingData_le (instructions : List DeltaInstruction) :
    (trailingData instructions).length ≤
      (instructions.flatMap DeltaInstruction.serialize).length := by
  fun_induction trailingData instructions with
  | case1 => simp
  | case2 instruction =>
    cases instruction <;> simp [DeltaInstruction.trailing, DeltaInstruction.serialize]; omega
  | case3 instruction instructions _ ih =>
    rw [List.flatMap_cons, List.length_append]
    omega

theorem readInstructions_cutShort {instructions : List DeltaInstruction}
    (hwell : ∀ instruction ∈ instructions, instruction.WellFormed) :
    Reader.CutShort (readInstructions instructions.length)
      (instructions.flatMap DeltaInstruction.serialize) (trailingData instructions).length := by
  fun_induction trailingData instructions with
  | case1 => exact fun cut hcut => absurd hcut (Nat.not_lt_zero cut)
  | case2 instruction =>
    rw [List.flatMap_cons, List.flatMap_nil, List.append_nil]
    exact (readInstruction_cutShort (hwell instruction List.mem_cons_self)).map _
  | case3 instruction instructions hmore ih =>
    have hfirst := hwell instruction List.mem_cons_self
    have hrest := ih fun other hother => hwell other (List.mem_cons_of_mem _ hother)
    refine Reader.cutShort_bind (fun cut hcut => ?_) (readInstruction_serialize hfirst)
      (hrest.map _) (trailingData_le instructions)
    have hcase := readInstruction_cutShort hfirst cut hcut
    split_ifs at hcase
    · obtain ⟨e, hread⟩ := hcase
      exact ⟨e, Reader.bind_of_error hread⟩
    · -- the short read has used up the stream, and one more instruction is due
      obtain ⟨short, hread⟩ := hcase
      rw [Reader.bind_of_ok hread]
      cases instructions with
      | nil => exact absurd rfl hmore
      | cons next instructions => exact ⟨_, rfl⟩

theorem readPacket_cutShort {packet : DeltaPacket} (hwell : packet.WellFormed) :
    Reader.CutShort readPacket packet.serialize packet.trailing.length := by
  cases packet with
  | full length data =>
    obtain ⟨rfl, hlength⟩ := hwell
    refine cutShort_byte ?_ (by simp [DeltaPacket.trailing])
    rw [if_pos rfl]
    exact cutShort_uint32 hlength (cutShort_data data) le_rfl
  | identical => exact cutShort_byte (fun cut hcut => absurd hcut (Nat.not_lt_zero cut)) le_rfl
  | delta baseSize targetSize instructions =>
    obtain ⟨hbase, htarget, hcount, hinstructions⟩ := hwell
    have htail := trailingData_le instructions
    have hlonger (n : ℕ) {bytes : Bytes} (h : (trailingData instructions).length ≤ bytes.length) :
        (trailingData instructions).length ≤ (leBytes 4 n ++ bytes).length := by
      rw [List.length_append]
      omega
    have hsizes := hlonger targetSize (hlonger instructions.length htail)
    refine cutShort_byte ?_ (hlonger baseSize hsizes)
    rw [if_neg (by decide), if_neg (by decide), if_pos rfl]
    exact cutShort_uint32 hbase (cutShort_uint32 htarget (cutShort_uint32 hcount
      ((readInstructions_cutShort hinstructions).map _) htail) (hlonger _ htail)) hsizes

theorem parseDeltaPacket_refuses_iff {packet : DeltaPacket} (hwell : packet.WellFormed) :
    parseDeltaPacket packet.serialize = .ok packet ∧
      ∀ cut < packet.serialize.length,
        (∃ e, parseDeltaPacket (packet.serialize.take cut) = .error e) ↔
          cut + packet.trailing.length ≤ packet.serialize.length := by
  refine ⟨parseDeltaPacket_serialize hwell, fun cut hcut => ?_⟩
  have hcase := readPacket_cutShort hwell cut hcut
  split_ifs at hcase with htail
  · obtain ⟨e, hread⟩ := hcase
    refine iff_of_true ?_ htail
    rw [parseDeltaPacket, hread]
    split_ifs
    · exact ⟨_, rfl⟩
    · exact ⟨_, rfl⟩
  · obtain ⟨short, hread⟩ := hcase
    refine iff_of_false ?_ htail
    rintro ⟨e, herror⟩
    rw [parseDeltaPacket, hread] at herror
    split_ifs at herror with hempty
    · rw [hempty] at hread
      cases hread
    · cases herror

theorem parseDeltaPacket_refuses_iff_two_bytes :
    (DeltaPacket.full 2 [7, 8]).WellFormed ∧
      parseDeltaPacket (DeltaPacket.full 2 [7, 8]).serialize = .ok (.full 2 [7, 8]) :=
  have hwell : (DeltaPacket.full 2 [7, 8]).WellFormed := ⟨rfl, by decide⟩
  ⟨hwell, (parseDeltaPacket_refuses_iff hwell).1⟩

theorem parseDeltaPacket_fills_in :
    (DeltaPacket.full 2 [7, 8]).WellFormed ∧
      parseDeltaPacket ((DeltaPacket.full 2 [7, 8]).serialize.take 6) = .ok (.full 2 [7, 0]) :=
  ⟨⟨rfl, by decide⟩, by decide⟩

end Govc
