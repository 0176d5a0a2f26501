import Such.Base.CyclicCheck
import Such.Runtime.IndexSnapshot.Atomic

/-! The checksum of a payload is the reflected CRC-32 of its bytes, and it tells apart two
payloads that differ in four consecutive bytes only. -/
namespace Such.IndexSnapshot
open ByteText Wire FileSystem CyclicCheck Polynomial

section Register

/-- The bits of a byte string in the order they are sent, each byte with its lowest bit first. -/
def dataBits (data : Bytes) : List (ZMod 2) := data.flatMap fun b => lowFirst 8 b.toNat

/-- The CRC-32 of a byte string: its first 32 bits are complemented, 32 zeros are appended, and
the remainder, read with the highest degree at the lowest bit, is complemented. -/
noncomputable def reflectedCrc32 (data : Bytes) : UInt32 :=
  ~~~UInt32.ofNat (word 32 ((message (List.replicate 32 1) * X ^ (8 * data.length) +
    message (dataBits data) * X ^ 32) %ₘ generator 32 0xedb88320))

example : generator 32 0xedb88320 = X ^ 32 + X ^ 26 + X ^ 23 + X ^ 22 + X ^ 16 + X ^ 12 + X ^ 11 +
    X ^ 10 + X ^ 8 + X ^ 7 + X ^ 5 + X ^ 4 + X ^ 2 + X + 1 := by
  have bits : lowFirst 32 0xedb88320 = [0, 0, 0, 0, 0, 1, 0, 0, 1, 1, 0, 0, 0, 0, 0, 1, 0, 0, 0, 1,
    1, 1, 0, 1, 1, 0, 1, 1, 0, 1, 1, 1] := by decide +kernel
  rw [generator, bits]
  simp [message_cons]
  ring

/-- The register as the polynomial it stands for. -/
noncomputable def registerPolynomial (crc : UInt32) : (ZMod 2)[X] := message (lowFirst 32 crc.toNat)

theorem toNat_crcBit (crc : UInt32) : (crcBit crc).toNat = shift 0xedb88320 crc.toNat := by
  have low : (crc &&& 1).toNat = crc.toNat % 2 := by
    rw [UInt32.toNat_and]
    exact Nat.and_one_is_mod _
  have half : (crc >>> 1).toNat = crc.toNat / 2 := by
    rw [UInt32.toNat_shiftRight]
    exact Nat.shiftRight_eq_div_pow _ 1
  have mask : (0xedb88320 &&& (0 - (crc &&& 1))).toNat =
      if crc.toNat % 2 = 1 then 0xedb88320 else 0 := by
    split
    · rename_i odd
      have one : crc &&& 1 = 1 := UInt32.toNat_inj.mp (low.trans odd)
      rw [one]
      rfl
    · rename_i even
      have zero : crc &&& 1 = 0 := UInt32.toNat_inj.mp (low.trans (Nat.mod_two_ne_one.mp even))
      rw [zero]
      rfl
  rw [crcBit, UInt32.toNat_xor, half, mask, shift]

theorem registerPolynomial_crcByte (crc : UInt32) (b : UInt8) :
    registerPolynomial (crcByte crc b) =
      absorb (generator 32 0xedb88320) (registerPolynomial crc) (lowFirst 8 b.toNat) := by
  have shifts : Function.Semiconj UInt32.toNat crcBit (shift 0xedb88320) := toNat_crcBit
  rw [registerPolynomial, crcByte, (shifts.iterate_right 8).eq, UInt32.toNat_xor]
  exact message_block (by decide) (by decide) (by decide) crc.toNat_lt b.toNat_lt

theorem registerPolynomial_foldl (data : Bytes) (crc : UInt32) :
    registerPolynomial (data.foldl crcByte crc) =
      absorb (generator 32 0xedb88320) (registerPolynomial crc) (dataBits data) := by
  induction data generalizing crc with
  | nil => exact (absorb_nil generator_monic (degree_register _)).symm
  | cons b data ih =>
    rw [List.foldl_cons, ih, registerPolynomial_crcByte, absorb_absorb generator_monic]
    rfl

theorem registerPolynomial_start : registerPolynomial (~~~0) = message (List.replicate 32 1) := by
  have ones : lowFirst 32 (~~~(0 : UInt32)).toNat = List.replicate 32 1 := by decide +kernel
  rw [registerPolynomial, ones]

@[simp] theorem length_dataBits (data : Bytes) : (dataBits data).length = 8 * data.length := by
  induction data with
  | nil => rfl
  | cons b data ih =>
    rw [dataBits, List.flatMap_cons, List.length_append, length_lowFirst, List.length_cons]
    change 8 + (dataBits data).length = _
    omega

theorem crc32Update_eq_reflectedCrc32 (data : Bytes) : crc32Update 0 data = reflectedCrc32 data := by
  have whole := registerPolynomial_foldl data (~~~0)
  rw [registerPolynomial_start, absorb, length_dataBits, natDegree_generator] at whole
  rw [crc32Update, reflectedCrc32, ← whole, registerPolynomial,
    word_message (List.foldl crcByte (~~~0) data).toNat_lt, UInt32.ofNat_toNat]

example : crc32Update 0 (lit "123456789") = 0xcbf43926 := by decide +kernel

/-- The checksum does not depend on how the bytes are cut. -/
theorem foldl_crc32Update (chunks : List Bytes) (crc : UInt32) :
    chunks.foldl crc32Update crc = crc32Update crc chunks.flatten := by
  induction chunks generalizing crc with
  | nil => exact (crc32Update_nil crc).symm
  | cons chunk chunks ih => rw [List.foldl_cons, ih, crc32Update_append, List.flatten_cons]

end Register

section Bursts

theorem dataBits_append (u v : Bytes) : dataBits (u ++ v) = dataBits u ++ dataBits v :=
  List.flatMap_append

theorem dataBits_inj {u v : Bytes} (size : u.length = v.length) (same : dataBits u = dataBits v) :
    u = v := by
  induction u generalizing v with
  | nil => exact (List.length_eq_zero_iff.mp size.symm).symm
  | cons a u ih =>
    cases v with
    | nil => cases size
    | cons b v =>
      obtain ⟨first, rest⟩ := List.append_inj same (by rw [length_lowFirst, length_lowFirst])
      have byte : a = b := UInt8.toNat_inj.mp (lowFirst_inj a.toNat_lt b.toNat_lt first)
      rw [byte, ih (Nat.succ.inj size) rest]

/-- The checksum sees every change within four consecutive bytes. -/
theorem crc32Update_burst {crc : UInt32} {left window window' right : Bytes}
    (size : window'.length = window.length) (short : window.length ≤ 4)
    (same : crc32Update crc (left ++ window ++ right) = crc32Update crc (left ++ window' ++ right)) :
    window = window' := by
  have registers := congrArg registerPolynomial (UInt32.not_inj.mp same)
  rw [registerPolynomial_foldl, registerPolynomial_foldl] at registers
  simp only [dataBits_append] at registers
  refine dataBits_inj size.symm (absorb_burst generator_monic ?_ ?_ ?_ registers)
  · exact generator_unit (by decide) (by decide)
  · rw [length_dataBits, length_dataBits, size]
  · rw [length_dataBits, natDegree_generator]
    omega

end Bursts

section Readers
variable {fault : Option ImportFault} {now : Nat × Nat} {disk disk' : Disk}
  {n index total total' : Nat} {snapshot stateDirectory temp v v' rest : Bytes}
  {info : IndexSnapshotInfo}

/-- An entry that is staged passes inspection. -/
theorem stageEntry_inspects
    (done : stageEntry fault temp index total disk v = .ok (total', disk', rest)) :
    inspectEntry total v = .ok (total', rest) := by
  obtain ⟨rel, size, crc, u, _, _, _, header, valid, -, -, copied, fits, rfl, -⟩ :=
    stageEntry_eq_ok.mp done
  obtain ⟨data, whole, length, sum, -⟩ := copyPayload_sound (Nat.le_refl _) copied
  have checked := (crcPayload_eq_some (Nat.le_refl _)).mpr ⟨data, whole, length, sum⟩
  simp only [inspectEntry, bind_eq_ok, require_eq_ok, refuse_eq_ok, Prod.exists]
  exact ⟨rel, size, crc, u, header, (), by rw [valid, Bool.not_true], crc, rest, checked, (),
    bne_self_eq_false crc, (), fits, rfl⟩

theorem stageEntries_inspects
    (done : stageEntries fault temp n index total disk v = .ok (total', disk', rest)) :
    inspectEntries n total v = .ok (total', rest) := by
  induction n generalizing index total disk v with
  | zero =>
    cases done
    rfl
  | succ n ih =>
    simp only [stageEntries, bind_eq_ok, Prod.exists] at done
    obtain ⟨_, _, _, first, done⟩ := done
    simp only [inspectEntries, bind_eq_ok, Prod.exists]
    exact ⟨_, _, stageEntry_inspects first, ih done⟩

/-- What is imported passes inspection. -/
theorem import_inspects (read : openRead disk snapshot = some v)
    (done : importIndexSnapshot fault now disk snapshot stateDirectory = .ok (info, disk')) :
    inspectBytes v = .ok info := by
  simp only [importIndexSnapshot, bind_eq_ok, require_eq_ok, refuse_eq_ok, mapError_eq_ok, Prod.exists,
    Option.ite_none_left_eq_some, read, Option.some.injEq, pure, Except.pure, Except.ok.injEq,
    Prod.mk.injEq] at done
  obtain ⟨_, ⟨-, rfl⟩, parsed, _, header, _, -, _, -, total, _, _, loop, _, tail, _, -, rfl, -⟩ := done
  simp only [inspectBytes, bind_eq_ok, refuse_eq_ok, Prod.exists, pure, Except.pure, Except.ok.injEq]
  exact ⟨parsed, _, header, total, _, stageEntries_inspects loop, (), tail, rfl⟩

/-- No file of these bytes is accepted, whichever roots are there and whatever the system does. -/
def Rejected (v : Bytes) : Prop :=
  ∀ disk snapshot, openRead disk snapshot = some v →
    (∀ info, inspectIndexSnapshot disk snapshot ≠ .ok info) ∧
    ∀ fault now stateDirectory outcome,
      importIndexSnapshot fault now disk snapshot stateDirectory ≠ .ok outcome

theorem rejected_of_inspect (refused : ∀ info, inspectBytes v ≠ .ok info) : Rejected v := by
  intro disk snapshot read
  constructor
  · intro info accepted
    simp only [inspectIndexSnapshot, read, require] at accepted
    exact refused info accepted
  · rintro fault now stateDirectory ⟨info, disk'⟩ done
    exact refused info (import_inspects read done)

/-- The container's bytes up to the payload of the entry `e` after `before`. -/
def Container.upTo (c : Container) (before : List Record) (e : Record) : Bytes :=
  encodeHeader c.generation c.roots c.entries.length ++ encodeRecords before ++ encodeString e.path ++
    encodeLE 8 e.payload.length ++ encodeLE 4 e.crc.toNat

/-- The second byte string is the first, a container, with other bytes in a window of at most
four bytes of one entry's payload. -/
def PayloadBurst (v v' : Bytes) : Prop :=
  ∃ (c : Container) (before after : List Record) (e : Record) (left window window' right : Bytes),
    c.Fits ∧ c.entries = before ++ e :: after ∧ e.payload = left ++ window ++ right ∧
      window.length ≤ 4 ∧ window'.length = window.length ∧ window' ≠ window ∧
      v = c.upTo before e ++ (left ++ window ++ right) ++ encodeRecords after ∧
      v' = c.upTo before e ++ (left ++ window' ++ right) ++ encodeRecords after

/-- The container with another payload for the entry `e` between `before` and `after`. -/
def Container.withPayload (c : Container) (before after : List Record) (e : Record) (data : Bytes) :
    Container :=
  { c with entries := before ++ { e with payload := data } :: after }

section Burst
variable {c : Container} {before after : List Record} {e : Record} {data : Bytes}

theorem encode_withPayload (split : c.entries = before ++ e :: after)
    (size : data.length = e.payload.length) : (c.withPayload before after e data).encode =
      c.upTo before e ++ data ++ encodeRecords after := by
  have count : (before ++ { e with payload := data } :: after).length = c.entries.length := by
    rw [split, List.length_append, List.length_append, List.length_cons, List.length_cons]
  rw [Container.encode, Container.withPayload, count]
  simp only [Container.upTo, encodeRecords, List.flatMap_append, List.flatMap_cons, encodeRecord, size,
    List.append_assoc]

theorem Container.Fits.withPayload (fits : c.Fits) (split : c.entries = before ++ e :: after)
    (size : data.length = e.payload.length) : (c.withPayload before after e data).Fits := by
  have from_entry : ∀ r ∈ before ++ { e with payload := data } :: after, ∃ r' ∈ c.entries,
      r.path = r'.path ∧ r.payload.length = r'.payload.length := by
    intro r member
    rw [split]
    rcases List.mem_append.mp member with first | last
    · exact ⟨r, List.mem_append_left _ first, rfl, rfl⟩
    · rcases List.mem_cons.mp last with rfl | last
      · exact ⟨e, List.mem_append_right _ List.mem_cons_self, rfl, size⟩
      · exact ⟨r, List.mem_append_right _ (List.mem_cons_of_mem _ last), rfl, rfl⟩
  refine ⟨fits.roots, fits.root, ?_, ?_, ?_⟩
  · have few := fits.entries
    rw [split] at few
    simpa [Container.withPayload] using few
  · intro r member
    obtain ⟨r', member', path, -⟩ := from_entry r member
    rw [path]
    exact fits.path r' member'
  · intro r member
    obtain ⟨r', member', -, length⟩ := from_entry r member
    rw [length]
    exact fits.payload r' member'

/-- The stored checksum of an entry, held against its payload, is what an accepted container says. -/
theorem accepted_sound (split : c.entries = before ++ e :: after) (fits : c.Fits)
    (size : data.length = e.payload.length)
    (accepted : inspectBytes (c.upTo before e ++ data ++ encodeRecords after) = .ok info) :
    e.crc = crc32Update 0 data := by
  obtain ⟨k, shape, readable, -⟩ := inspectBytes_eq_ok.mp accepted
  rw [← encode_withPayload split size] at shape
  have same := Container.encode_inj (fits.withPayload split size) readable.toFits shape
  subst same
  have sound := readable.sound { e with payload := data } (List.mem_append_right _ List.mem_cons_self)
  exact sound.2.2

end Burst

theorem burst_rejected (accepted : inspectBytes v = .ok info) (burst : PayloadBurst v v') :
    Rejected v' := by
  obtain ⟨c, before, after, e, left, window, window', right, fits, split, payload, short, size,
    differ, rfl, rfl⟩ := burst
  apply rejected_of_inspect
  intro info' accepted'
  have whole : (left ++ window ++ right).length = e.payload.length := by rw [payload]
  have whole' : (left ++ window' ++ right).length = e.payload.length := by
    rw [payload]
    simp only [List.length_append, size]
  have stored := accepted_sound split fits whole accepted
  have stored' := accepted_sound split fits whole' accepted'
  exact differ (crc32Update_burst size short (stored.symm.trans stored')).symm

/-- The checksum of a payload read in chunks is its reflected CRC-32, and a snapshot that passes
inspection is refused by both readers once at most four consecutive payload bytes have changed. -/
theorem snapshot_checksum :
    (∀ chunks : List Bytes, chunks.foldl crc32Update 0 = reflectedCrc32 chunks.flatten) ∧
      ∀ disk snapshot v info v', openRead disk snapshot = some v →
        inspectIndexSnapshot disk snapshot = .ok info → PayloadBurst v v' → Rejected v' := by
  constructor
  · intro chunks
    rw [foldl_crc32Update, crc32Update_eq_reflectedCrc32]
  · intro disk snapshot v info v' read accepted burst
    simp only [inspectIndexSnapshot, read, require] at accepted
    exact burst_rejected accepted burst

theorem saved_burst_rejected :
    Rejected (Container.encode ⟨7, [], [⟨lit "a", crc32Update 0 (lit "ab"), lit "ac"⟩]⟩) := by
  refine snapshot_checksum.2 savedDisk (lit "/o") savedContainer.encode savedContainer.info _
    (by decide +kernel) (by decide +kernel) ?_
  exact ⟨savedContainer, [], [], ⟨lit "a", crc32Update 0 (lit "ab"), lit "ab"⟩, lit "a", lit "b",
    lit "c", [], ⟨by decide, by decide, by decide, by decide, by decide⟩, rfl, rfl, by decide, rfl,
    by decide, by decide +kernel, by decide +kernel⟩

end Readers
end Such.IndexSnapshot
