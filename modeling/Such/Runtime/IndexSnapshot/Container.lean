import Mathlib.Algebra.Order.BigOperators.Group.List
import Such.Runtime.IndexSnapshot

/-! The container as a value, apart from how it is read and written. Inspection accepts
exactly the encodings of readable containers. -/
namespace Such.IndexSnapshot
open ByteText Wire FileSystem

structure Record where
  path : Bytes
  crc : UInt32
  payload : Bytes
deriving DecidableEq, Repr

structure Container where
  generation : UInt64
  roots : List Bytes
  entries : List Record
deriving DecidableEq, Repr

def encodeRecord (e : Record) : Bytes :=
  encodeString e.path ++ encodeLE 8 e.payload.length ++ encodeLE 4 e.crc.toNat ++ e.payload

def encodeRecords (entries : List Record) : Bytes := entries.flatMap encodeRecord

def encodeHeader (generation : UInt64) (roots : List Bytes) (count : Nat) : Bytes :=
  kMagic ++ encodeLE 4 kFormatVersion ++ encodeLE 4 roots.length ++ encodeLE 8 generation.toNat ++
    encodeLE 4 count ++ roots.flatMap encodeString

def Container.encode (c : Container) : Bytes :=
  encodeHeader c.generation c.roots c.entries.length ++ encodeRecords c.entries

def payloadTotal (entries : List Record) : Nat := (entries.map (·.payload.length)).sum

def Record.Sound (e : Record) : Prop :=
  e.path.length ≤ kMaxStringBytes ∧ validRelativePath e.path = true ∧
    e.crc = crc32Update 0 e.payload

instance (e : Record) : Decidable e.Sound := inferInstanceAs (Decidable (_ ∧ _))

def RootsReadable (roots : List Bytes) : Prop :=
  roots.length ≤ kMaxRoots ∧ ∀ root ∈ roots, root ≠ [] ∧ root.length ≤ kMaxStringBytes

structure Container.Readable (c : Container) : Prop where
  roots : RootsReadable c.roots
  few : c.entries.length ≤ kMaxEntries
  sound : ∀ e ∈ c.entries, e.Sound
  fits : payloadTotal c.entries < 2 ^ 64

def Container.info (c : Container) : IndexSnapshotInfo :=
  { formatVersion := kFormatVersion, generation := c.generation,
    payloadBytes := payloadTotal c.entries, fileCount := c.entries.length, roots := c.roots }

section Checksum

@[simp] theorem crc32Update_nil (crc : UInt32) : crc32Update crc [] = crc := by
  simp [crc32Update]

/-- Checking a file piece by piece checks it whole. -/
theorem crc32Update_append (crc : UInt32) (first second : Bytes) :
    crc32Update (crc32Update crc first) second = crc32Update crc (first ++ second) := by
  simp [crc32Update]

theorem crcPayload_eq_some {fuel remaining : Nat} (enough : remaining ≤ fuel) {crc crc' : UInt32}
    {v rest : Bytes} : crcPayload fuel remaining crc v = some (crc', rest) ↔
      ∃ data, v = data ++ rest ∧ data.length = remaining ∧ crc' = crc32Update crc data := by
  induction fuel generalizing remaining crc v with
  | zero =>
    obtain rfl : remaining = 0 := by omega
    simp only [crcPayload, Option.some.injEq, Prod.mk.injEq, List.length_eq_zero_iff]
    exact ⟨fun ⟨same, tail⟩ => ⟨[], by simp [same, tail]⟩,
      fun ⟨data, whole, empty, same⟩ => by simp_all⟩
  | succ fuel ih =>
    simp only [crcPayload]
    split
    · rename_i done
      subst done
      simp only [Option.some.injEq, Prod.mk.injEq, List.length_eq_zero_iff]
      exact ⟨fun ⟨same, tail⟩ => ⟨[], by simp [same, tail]⟩,
        fun ⟨data, whole, empty, same⟩ => by simp_all⟩
    · rename_i more
      have positive : 0 < kCopyBufferBytes := by decide
      have shorter : remaining - min remaining kCopyBufferBytes ≤ fuel := by omega
      simp only [Option.bind_eq_bind, Option.bind_eq_some_iff, Prod.exists, takeBytes_eq_some,
        ih shorter]
      constructor
      · rintro ⟨chunk, _, ⟨rfl, size⟩, data, rfl, left, rfl⟩
        refine ⟨chunk ++ data, by simp, ?_, crc32Update_append _ _ _⟩
        rw [List.length_append]
        omega
      · rintro ⟨data, rfl, size, rfl⟩
        refine ⟨data.take (min remaining kCopyBufferBytes),
          data.drop (min remaining kCopyBufferBytes) ++ rest,
          ⟨by rw [← List.append_assoc, List.take_append_drop], ?_⟩,
          data.drop (min remaining kCopyBufferBytes), rfl, ?_, ?_⟩
        · rw [List.length_take]
          omega
        · rw [List.length_drop, size]
        · rw [crc32Update_append, List.take_append_drop]

end Checksum

section Accepting

theorem readString_eq_some {v s rest : Bytes} : readString v = some (s, rest) ↔
    v = encodeString s ++ rest ∧ s.length ≤ kMaxStringBytes :=
  takeString_eq_some (by decide)

theorem readRoots_eq_some {n : Nat} {v rest : Bytes} {roots : List Bytes} :
    readRoots n v = some (roots, rest) ↔ v = roots.flatMap encodeString ++ rest ∧
      roots.length = n ∧ ∀ root ∈ roots, root ≠ [] ∧ root.length ≤ kMaxStringBytes := by
  induction n generalizing v roots with
  | zero =>
    simp only [readRoots, Option.some.injEq, Prod.mk.injEq, List.length_eq_zero_iff]
    constructor
    · rintro ⟨rfl, rfl⟩
      simp
    · rintro ⟨rfl, rfl, -⟩
      simp
  | succ n ih =>
    simp only [readRoots, Option.bind_eq_bind, Option.bind_eq_some_iff, Prod.exists,
      readString_eq_some]
    constructor
    · rintro ⟨root, tail, ⟨rfl, short⟩, read⟩
      split at read
      · cases read
      · rename_i filled
        simp only [Option.bind_eq_some_iff, Prod.exists, Option.some.injEq, Prod.mk.injEq] at read
        obtain ⟨roots', tail', read, rfl, rfl⟩ := read
        obtain ⟨rfl, rfl, plain⟩ := ih.mp read
        refine ⟨by simp, by simp, ?_⟩
        simp only [List.mem_cons, forall_eq_or_imp]
        exact ⟨⟨by simpa using filled, short⟩, plain⟩
    · rintro ⟨rfl, size, plain⟩
      cases roots with
      | nil => cases size
      | cons root roots =>
        simp only [List.mem_cons, forall_eq_or_imp] at plain
        obtain ⟨⟨filled, short⟩, plain⟩ := plain
        refine ⟨root, roots.flatMap encodeString ++ rest, ⟨by simp, short⟩, ?_⟩
        rw [if_neg (by simpa using filled)]
        rw [Option.bind_eq_some_iff]
        exact ⟨(roots, rest), ih.mpr ⟨rfl, by simpa using size, plain⟩, rfl⟩

theorem readCounts_eq_some {v rest : Bytes} {rootCount entryCount : Nat} {generation : UInt64} :
    readCounts v = some (rootCount, generation, entryCount, rest) ↔
      v = encodeLE 4 rootCount ++ encodeLE 8 generation.toNat ++ encodeLE 4 entryCount ++ rest ∧
        rootCount ≤ kMaxRoots ∧ entryCount ≤ kMaxEntries := by
  simp only [readCounts, readU32, readU64, Option.bind_eq_bind, Option.bind_eq_some_iff,
    Prod.exists, takeLE_eq_some]
  constructor
  · rintro ⟨_, _, ⟨rfl, -⟩, n, _, ⟨rfl, wide⟩, _, _, ⟨rfl, -⟩, kept⟩
    split at kept
    · cases kept
    · rename_i within
      simp only [Option.some.injEq, Prod.mk.injEq] at kept
      obtain ⟨rfl, rfl, rfl, rfl⟩ := kept
      have exact_ : (UInt64.ofNat n).toNat = n := by simpa using wide
      rw [exact_]
      refine ⟨by simp, by omega, by omega⟩
  · rintro ⟨rfl, few, fewer⟩
    have small : rootCount < 256 ^ 4 := lt_of_le_of_lt few (by decide)
    have small' : entryCount < 256 ^ 4 := lt_of_le_of_lt fewer (by decide)
    refine ⟨rootCount, _, ⟨by simp, small⟩, generation.toNat, _, ⟨rfl, generation.toNat_lt⟩,
      entryCount, rest, ⟨rfl, small'⟩, ?_⟩
    rw [if_neg (by omega)]
    simp

theorem readHeader_eq_ok {v rest : Bytes} {info : IndexSnapshotInfo} :
    readHeader v = .ok (info, rest) ↔
      v = encodeHeader info.generation info.roots info.fileCount ++ rest ∧
        RootsReadable info.roots ∧ info.fileCount ≤ kMaxEntries ∧
        info.formatVersion = kFormatVersion ∧ info.payloadBytes = 0 := by
  simp only [readHeader, readU32, bind_eq_ok, require_eq_ok, refuse_eq_ok, Prod.exists,
    takeBytes_eq_some, takeLE_eq_some, readCounts_eq_some, readRoots_eq_some, bne_eq_false_iff_eq,
    pure, Except.pure, Except.ok.injEq, Prod.mk.injEq]
  constructor
  · rintro ⟨_, _, ⟨rfl, -⟩, _, rfl, _, _, ⟨rfl, -⟩, _, rfl, _, _, _, _, ⟨rfl, few, fewer⟩,
      roots, _, ⟨rfl, rfl, plain⟩, rfl, rfl⟩
    exact ⟨by simp [encodeHeader], ⟨few, plain⟩, fewer, rfl, rfl⟩
  · obtain ⟨version, generation, payloadBytes, fileCount, roots⟩ := info
    rintro ⟨rfl, ⟨few, plain⟩, fewer, rfl, rfl⟩
    refine ⟨kMagic, encodeLE 4 kFormatVersion ++ (encodeLE 4 roots.length ++
        encodeLE 8 generation.toNat ++ encodeLE 4 fileCount ++ (roots.flatMap encodeString ++ rest)),
      ⟨by simp [encodeHeader], rfl⟩, (), rfl, kFormatVersion, _, ⟨rfl, by decide⟩, (), rfl,
      roots.length, generation, fileCount, _, ⟨rfl, few, fewer⟩, roots, rest, ⟨rfl, rfl, plain⟩,
      rfl, rfl⟩

theorem readEntryHeader_eq_some {v rel rest : Bytes} {size : Nat} {crc : UInt32} :
    readEntryHeader v = some (rel, size, crc, rest) ↔
      v = encodeString rel ++ encodeLE 8 size ++ encodeLE 4 crc.toNat ++ rest ∧
        rel.length ≤ kMaxStringBytes ∧ size < 2 ^ 64 := by
  simp only [readEntryHeader, readU32, readU64, Option.bind_eq_bind, Option.bind_eq_some_iff,
    Prod.exists, takeLE_eq_some, readString_eq_some, Option.some.injEq, Prod.mk.injEq]
  constructor
  · rintro ⟨_, _, ⟨rfl, short⟩, _, _, ⟨rfl, wide⟩, n, _, ⟨rfl, narrow⟩, rfl, rfl, rfl, rfl⟩
    have exact_ : (UInt32.ofNat n).toNat = n := by simpa using narrow
    rw [exact_]
    exact ⟨by simp, short, wide⟩
  · rintro ⟨rfl, short, wide⟩
    exact ⟨rel, _, ⟨by simp only [List.append_assoc], short⟩, size, _, ⟨rfl, wide⟩, crc.toNat,
      rest, ⟨rfl, crc.toNat_lt⟩, rfl, rfl, by simp, rfl⟩

theorem sumOverflows_eq_false {total size : Nat} (before : total < 2 ^ 64) :
    sumOverflows total size = false ↔ total + size < 2 ^ 64 := by
  simp only [sumOverflows, decide_eq_false_iff_not]
  omega

theorem inspectEntry_eq_ok {total total' : Nat} (before : total < 2 ^ 64) {v rest : Bytes} :
    inspectEntry total v = .ok (total', rest) ↔ ∃ e : Record, v = encodeRecord e ++ rest ∧
      e.Sound ∧ total' = total + e.payload.length ∧ total' < 2 ^ 64 := by
  simp only [inspectEntry, bind_eq_ok, require_eq_ok, refuse_eq_ok, Prod.exists,
    readEntryHeader_eq_some, crcPayload_eq_some (Nat.le_refl _), sumOverflows_eq_false before,
    Bool.not_eq_false', bne_eq_false_iff_eq, pure, Except.pure, Except.ok.injEq, Prod.mk.injEq]
  constructor
  · rintro ⟨rel, _, _, _, ⟨rfl, short, -⟩, _, valid, _, _, ⟨data, rfl, rfl, rfl⟩, _, rfl, _, fits,
      rfl, rfl⟩
    exact ⟨⟨rel, crc32Update 0 data, data⟩, by simp [encodeRecord], ⟨short, valid, rfl⟩, rfl,
      fits⟩
  · rintro ⟨⟨rel, crc, data⟩, rfl, ⟨short, valid, sum⟩, rfl, fits⟩
    refine ⟨rel, data.length, crc, data ++ rest, ⟨by simp [encodeRecord], short,
      lt_of_le_of_lt (Nat.le_add_left _ _) fits⟩, (), valid, crc, rest, ⟨data, rfl, rfl, sum⟩, (),
      rfl, (), fits, rfl, rfl⟩

theorem inspectEntries_eq_ok {n total total' : Nat} (before : total < 2 ^ 64) {v rest : Bytes} :
    inspectEntries n total v = .ok (total', rest) ↔ ∃ entries : List Record,
      v = encodeRecords entries ++ rest ∧ entries.length = n ∧ (∀ e ∈ entries, e.Sound) ∧
        total' = total + payloadTotal entries ∧ total' < 2 ^ 64 := by
  induction n generalizing total v with
  | zero =>
    simp only [inspectEntries, Except.ok.injEq, Prod.mk.injEq, List.length_eq_zero_iff]
    constructor
    · rintro ⟨rfl, rfl⟩
      exact ⟨[], by simp [encodeRecords], rfl, by simp, by simp [payloadTotal], before⟩
    · rintro ⟨_, rfl, rfl, -, rfl, -⟩
      simp [encodeRecords]
  | succ n ih =>
    simp only [inspectEntries, bind_eq_ok, Prod.exists, inspectEntry_eq_ok before]
    constructor
    · rintro ⟨_, _, ⟨e, rfl, sound, rfl, fits⟩, read⟩
      obtain ⟨entries, rfl, rfl, all, rfl, whole⟩ := (ih fits).mp read
      refine ⟨e :: entries, by simp [encodeRecords], rfl, ?_, ?_, whole⟩
      · simpa using ⟨sound, all⟩
      · simp [payloadTotal, Nat.add_assoc]
    · rintro ⟨entries, rfl, size, all, rfl, whole⟩
      cases entries with
      | nil => cases size
      | cons e entries =>
        simp only [List.mem_cons, forall_eq_or_imp] at all
        simp only [payloadTotal, List.map_cons, List.sum_cons] at whole
        have fits : total + e.payload.length < 2 ^ 64 := by omega
        refine ⟨_, _, ⟨e, by simp only [encodeRecords, List.flatMap_cons, List.append_assoc],
          all.1, rfl, fits⟩, (ih fits).mpr ⟨entries, rfl, by simpa using size, all.2, ?_, ?_⟩⟩
        · simp [payloadTotal, Nat.add_assoc]
        · simp only [payloadTotal, List.map_cons, List.sum_cons]
          omega

/-- Inspection accepts exactly the encodings of readable containers. -/
theorem inspectBytes_eq_ok {v : Bytes} {info : IndexSnapshotInfo} :
    inspectBytes v = .ok info ↔ ∃ c : Container, v = c.encode ∧ c.Readable ∧ info = c.info := by
  simp only [inspectBytes, bind_eq_ok, refuse_eq_ok, Prod.exists, readHeader_eq_ok,
    inspectEntries_eq_ok (show 0 < 2 ^ 64 by decide), Bool.not_eq_false', List.isEmpty_iff,
    pure, Except.pure, Except.ok.injEq]
  constructor
  · rintro ⟨parsed, _, ⟨rfl, roots, few, version, -⟩, total, _,
      ⟨entries, rfl, size, sound, rfl, fits⟩, _, rfl, rfl⟩
    refine ⟨⟨parsed.generation, parsed.roots, entries⟩, ?_, ⟨roots, size ▸ few, sound, ?_⟩, ?_⟩
    · simp [Container.encode, size]
    · simpa using fits
    · simp [Container.info, size, version]
  · rintro ⟨c, rfl, ⟨roots, few, sound, fits⟩, rfl⟩
    refine ⟨{ c.info with payloadBytes := 0 }, encodeRecords c.entries,
      ⟨rfl, roots, few, rfl, rfl⟩, payloadTotal c.entries, [],
      ⟨c.entries, by simp, rfl, sound, by simp, by simpa using fits⟩, (), rfl, rfl⟩

end Accepting

section Unambiguous

/-- Every count and length fits the field it is written to. -/
structure Container.Fits (c : Container) : Prop where
  roots : c.roots.length < 2 ^ 32
  root : ∀ root ∈ c.roots, root.length < 2 ^ 32
  entries : c.entries.length < 2 ^ 32
  path : ∀ e ∈ c.entries, e.path.length < 2 ^ 32
  payload : ∀ e ∈ c.entries, e.payload.length < 2 ^ 64

theorem Container.Readable.toFits {c : Container} (readable : c.Readable) : c.Fits := by
  have small : kMaxRoots < 2 ^ 32 ∧ kMaxEntries < 2 ^ 32 ∧ kMaxStringBytes < 2 ^ 32 := by decide
  refine ⟨lt_of_le_of_lt readable.roots.1 small.1, fun root member => ?_,
    lt_of_le_of_lt readable.few small.2.1, fun e member => ?_, fun e member => ?_⟩
  · exact lt_of_le_of_lt (readable.roots.2 root member).2 small.2.2
  · exact lt_of_le_of_lt (readable.sound e member).1 small.2.2
  · have part : e.payload.length ≤ payloadTotal c.entries :=
      List.le_sum_of_mem (List.mem_map_of_mem member)
    exact lt_of_le_of_lt part readable.fits

theorem encodeLE_append_inj {width m n : Nat} (hm : m < 256 ^ width) (hn : n < 256 ^ width)
    {v w : Bytes} (same : encodeLE width m ++ v = encodeLE width n ++ w) : m = n ∧ v = w := by
  have first : takeLE width (encodeLE width m ++ v) = some (m, v) := takeLE_eq_some.mpr ⟨rfl, hm⟩
  have second : takeLE width (encodeLE width n ++ w) = some (n, w) := takeLE_eq_some.mpr ⟨rfl, hn⟩
  rw [same, second] at first
  simpa [eq_comm] using first

theorem encodeString_append_inj {a b v w : Bytes} (ha : a.length < 2 ^ 32) (hb : b.length < 2 ^ 32)
    (same : encodeString a ++ v = encodeString b ++ w) : a = b ∧ v = w := by
  simp only [encodeString, List.append_assoc] at same
  obtain ⟨size, rest⟩ := encodeLE_append_inj ha hb same
  exact List.append_inj rest size

theorem encodeRoots_append_inj {a b : List Bytes} {v w : Bytes} (count : a.length = b.length)
    (ha : ∀ root ∈ a, root.length < 2 ^ 32) (hb : ∀ root ∈ b, root.length < 2 ^ 32)
    (same : a.flatMap encodeString ++ v = b.flatMap encodeString ++ w) : a = b ∧ v = w := by
  induction a generalizing b with
  | nil =>
    cases b with
    | nil => exact ⟨rfl, same⟩
    | cons => cases count
  | cons x a ih =>
    cases b with
    | nil => cases count
    | cons y b =>
      simp only [List.mem_cons, forall_eq_or_imp] at ha hb
      simp only [List.flatMap_cons, List.append_assoc] at same
      obtain ⟨rfl, rest⟩ := encodeString_append_inj ha.1 hb.1 same
      obtain ⟨rfl, tail⟩ := ih (by simpa using count) ha.2 hb.2 rest
      exact ⟨rfl, tail⟩

theorem encodeRecord_append_inj {a b : Record} {v w : Bytes} (ha : a.path.length < 2 ^ 32)
    (hb : b.path.length < 2 ^ 32) (ha' : a.payload.length < 2 ^ 64)
    (hb' : b.payload.length < 2 ^ 64)
    (same : encodeRecord a ++ v = encodeRecord b ++ w) : a = b ∧ v = w := by
  obtain ⟨path, crc, payload⟩ := a
  obtain ⟨path', crc', payload'⟩ := b
  simp only [encodeRecord, List.append_assoc] at same
  obtain ⟨rfl, afterPath⟩ := encodeString_append_inj ha hb same
  obtain ⟨size, afterSize⟩ := encodeLE_append_inj ha' hb' afterPath
  obtain ⟨sum, afterSum⟩ := encodeLE_append_inj crc.toNat_lt crc'.toNat_lt afterSize
  obtain ⟨rfl, rest⟩ := List.append_inj afterSum size
  exact ⟨by rw [UInt32.toNat_inj.mp sum], rest⟩

theorem encodeRecords_inj {a b : List Record} (count : a.length = b.length)
    (ha : ∀ e ∈ a, e.path.length < 2 ^ 32) (hb : ∀ e ∈ b, e.path.length < 2 ^ 32)
    (ha' : ∀ e ∈ a, e.payload.length < 2 ^ 64) (hb' : ∀ e ∈ b, e.payload.length < 2 ^ 64)
    (same : encodeRecords a = encodeRecords b) : a = b := by
  induction a generalizing b with
  | nil =>
    cases b with
    | nil => rfl
    | cons => cases count
  | cons x a ih =>
    cases b with
    | nil => cases count
    | cons y b =>
      simp only [List.mem_cons, forall_eq_or_imp] at ha hb ha' hb'
      simp only [encodeRecords, List.flatMap_cons] at same
      obtain ⟨rfl, rest⟩ := encodeRecord_append_inj ha.1 hb.1 ha'.1 hb'.1 same
      rw [ih (by simpa using count) ha.2 hb.2 ha'.2 hb'.2 rest]

/-- Two containers with the same bytes are the same container. -/
theorem Container.encode_inj {a b : Container} (ha : a.Fits) (hb : b.Fits)
    (same : a.encode = b.encode) : a = b := by
  obtain ⟨generation, roots, entries⟩ := a
  obtain ⟨generation', roots', entries'⟩ := b
  simp only [Container.encode, encodeHeader, List.append_assoc, List.append_cancel_left_eq] at same
  obtain ⟨count, afterCount⟩ := encodeLE_append_inj ha.roots hb.roots same
  obtain ⟨age, afterAge⟩ :=
    encodeLE_append_inj generation.toNat_lt generation'.toNat_lt afterCount
  obtain ⟨size, afterSize⟩ := encodeLE_append_inj ha.entries hb.entries afterAge
  obtain ⟨rfl, records⟩ := encodeRoots_append_inj count ha.root hb.root afterSize
  obtain rfl := encodeRecords_inj size ha.path hb.path ha.payload hb.payload records
  rw [UInt64.toNat_inj.mp age]

end Unambiguous
end Such.IndexSnapshot
