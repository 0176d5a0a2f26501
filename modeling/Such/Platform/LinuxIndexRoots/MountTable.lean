import Mathlib.Data.List.GetD
import Such.Platform.LinuxIndexRoots

/-! The mount table as the kernel writes it: one line of blank-separated fields for each mount,
in which white space and backslashes of a path are escaped. -/
namespace Such.LinuxIndexRoots
open ByteText OctalEscape

theorem mem_joinWith {s b : UInt8} {parts : List Bytes} (member : b ∈ joinWith s parts) :
    b = s ∨ ∃ part ∈ parts, b ∈ part := by
  induction parts with
  | nil => cases member
  | cons part rest ih =>
    cases rest with
    | nil => exact .inr ⟨part, List.mem_cons_self, member⟩
    | cons next rest =>
      rcases List.mem_append.1 member with here | later
      · exact .inr ⟨part, List.mem_cons_self, here⟩
      rcases List.mem_cons.1 later with separator | later
      · exact .inl separator
      · rcases ih later with separator | ⟨other, listed, inside⟩
        · exact .inl separator
        · exact .inr ⟨other, List.mem_cons_of_mem _ listed, inside⟩

/-- What the kernel knows of a mount. The mount's number, its parent's and the device's stand in
front; any number of tags stands behind the options, ended by a hyphen. -/
structure MountRecord where
  mountId : Bytes
  parentId : Bytes
  device : Bytes
  root : Bytes
  mountPoint : Bytes
  options : Bytes
  tags : List Bytes
  fsType : Bytes
  source : Bytes
  superOptions : Bytes
  plain : ∀ field ∈ [mountId, parentId, device, options] ++ tags, IsWord field ∧ field ≠ lit "-"
  described : IsWord fsType ∧ IsWord superOptions
  named : source ≠ []
  placed : ∀ path ∈ [root, mountPoint], path ≠ [] ∧ path ≠ lit "-"

namespace MountRecord
variable (marked : UInt8 → Bool) (r : MountRecord)

def front : List Bytes :=
  [r.mountId, r.parentId, r.device, escape marked r.root, escape marked r.mountPoint, r.options] ++
    r.tags

def fields : List Bytes :=
  r.front marked ++ lit "-" :: [r.fsType, escape marked r.source, r.superOptions]

def line : Bytes := joinWords (r.fields marked)

/-- The white space in the paths and in the source is escaped. -/
def SpacesMarked : Prop :=
  ∀ text ∈ [r.root, r.mountPoint, r.source], ∀ b ∈ text, isSpace b = true → marked b = true

variable {marked}

theorem escape_ne_hyphen {path : Bytes} (other : path ≠ lit "-") :
    escape marked path ≠ lit "-" := by
  have hyphen : lit "-" = [45] := rfl
  rw [hyphen] at other ⊢
  cases path with
  | nil => simp [escape]
  | cons b rest =>
    rw [escape_cons]
    split
    · simp [escapeByte]
    · intro same
      obtain ⟨rfl, none⟩ := List.cons.inj same
      apply other
      by_contra more
      exact escape_ne_nil (fun empty => more (congrArg (45 :: ·) empty)) none

theorem front_plain : lit "-" ∉ r.front marked := by
  intro member
  have plain := r.plain
  simp only [front, List.mem_append, List.mem_cons, List.not_mem_nil, or_false] at member plain
  rcases member with (same | same | same | same | same | same) | tag
  · exact (plain r.mountId (.inl (.inl rfl))).2 same.symm
  · exact (plain r.parentId (.inl (.inr (.inl rfl)))).2 same.symm
  · exact (plain r.device (.inl (.inr (.inr (.inl rfl))))).2 same.symm
  · exact escape_ne_hyphen (r.placed r.root (.head _)).2 same.symm
  · exact escape_ne_hyphen (r.placed r.mountPoint (.tail _ (.head _))).2 same.symm
  · exact (plain r.options (.inl (.inr (.inr (.inr rfl))))).2 same.symm
  · exact (plain (lit "-") (.inr tag)).2 rfl

theorem fields_isWord (spaces : r.SpacesMarked marked) :
    ∀ field ∈ r.fields marked, IsWord field := by
  have plain := r.plain
  have hyphen : IsWord (lit "-") := ⟨by decide, by decide +kernel⟩
  intro field member
  simp only [fields, front, List.mem_append, List.mem_cons, List.not_mem_nil, or_false] at member plain
  rcases member with ((rfl | rfl | rfl | rfl | rfl | rfl) | tag) | rfl | rfl | rfl | rfl
  · exact (plain _ (.inl (.inl rfl))).1
  · exact (plain _ (.inl (.inr (.inl rfl)))).1
  · exact (plain _ (.inl (.inr (.inr (.inl rfl))))).1
  · exact escape_isWord (r.placed r.root (.head _)).1 (spaces r.root (.head _))
  · exact escape_isWord (r.placed r.mountPoint (.tail _ (.head _))).1
      (spaces r.mountPoint (.tail _ (.head _)))
  · exact (plain _ (.inl (.inr (.inr (.inr rfl))))).1
  · exact (plain _ (.inr tag)).1
  · exact hyphen
  · exact r.described.1
  · exact escape_isWord r.named (spaces r.source (.tail _ (.tail _ (.head _))))
  · exact r.described.2

theorem words_line (spaces : r.SpacesMarked marked) :
    words (r.line marked) = r.fields marked :=
  words_joinWords_of_isWord (r.fields_isWord spaces)

theorem idxOf_hyphen : (r.fields marked).idxOf? (lit "-") = some (6 + r.tags.length) := by
  have size : (r.front marked).length = 6 + r.tags.length := by
    simp only [front, List.length_append, List.length_cons, List.length_nil]
  rw [← size, List.idxOf?_eq_some_iff]
  refine ⟨by simp [fields], by simp [fields], fun j before same => ?_⟩
  apply @front_plain marked r
  rw [← same]
  simp only [fields]
  rw [List.getElem_append_left before]
  exact List.getElem_mem before

/-- A line is read as the mount it was written for. -/
theorem readMount_line (backslash : marked 92 = true) (spaces : r.SpacesMarked marked) :
    readMount (r.line marked) = some ⟨r.mountPoint, r.fsType, escape marked r.source⟩ := by
  have size : (r.front marked).length = 6 + r.tags.length := by
    simp only [front, List.length_append, List.length_cons, List.length_nil]
  have length : (r.fields marked).length = 10 + r.tags.length := by
    simp only [fields, List.length_append, List.length_cons, List.length_nil, size]
    omega
  have type : (r.fields marked).getD (6 + r.tags.length + 1) [] = r.fsType := by
    simp only [fields]
    rw [List.getD_append_right _ _ _ _ (by omega), size, Nat.add_sub_cancel_left]
    rfl
  have source : (r.fields marked).getD (6 + r.tags.length + 2) [] = escape marked r.source := by
    simp only [fields]
    rw [List.getD_append_right _ _ _ _ (by omega), size, Nat.add_sub_cancel_left]
    rfl
  have point : decodeMountField ((r.fields marked).getD 4 []) = r.mountPoint :=
    unescape_escape backslash r.mountPoint
  simp only [readMount]
  rw [r.words_line spaces, r.idxOf_hyphen]
  simp only [length, type, source, point]
  rw [if_neg]
  simp only [Bool.or_eq_true, decide_eq_true_eq]
  omega

theorem line_isField (spaces : r.SpacesMarked marked) : IsField (· == 10) (r.line marked) := by
  have words := r.fields_isWord spaces
  constructor
  · intro empty
    have none := (joinWith_eq_nil fun field member => (words field member).1).1 empty
    simp [fields] at none
  · intro b member
    rw [beq_eq_false_iff_ne]
    rintro rfl
    rcases mem_joinWith member with blank | ⟨field, listed, inside⟩
    · exact absurd blank (by decide)
    · exact absurd ((words field listed).2 10 inside) (by decide)

end MountRecord

/-- Every record on a line of its own. -/
def tableText (marked : UInt8 → Bool) (records : List MountRecord) : Bytes :=
  records.flatMap fun r => r.line marked ++ [10]

theorem lines_tableText {marked : UInt8 → Bool} {records : List MountRecord}
    (spaces : ∀ r ∈ records, r.SpacesMarked marked) :
    lines (tableText marked records) = records.map (·.line marked) := by
  induction records with
  | nil => rfl
  | cons r records ih =>
    have split : tableText marked (r :: records) = r.line marked ++ 10 :: tableText marked records := by
      simp [tableText]
    have ih := ih fun other member => spaces other (.tail _ member)
    simp only [lines] at ih ⊢
    rw [split, fields_append_sep _ _ (by decide),
      fields_of_isField (r.line_isField (spaces r (.head _))), ih]
    rfl

/-- Every mount the kernel lists is seen, with the paths it has, and nothing else is: whatever the
kernel escapes beside the backslash and the white space that there is. -/
theorem mountinfo_round_trip (host : LinuxHost) (config : IndexRootDiscoveryConfig)
    (marked : UInt8 → Bool) (backslash : marked 92 = true) (records : List MountRecord)
    (spaces : ∀ r ∈ records, r.SpacesMarked marked)
    (written : host.fileText config.mountinfoPath = tableText marked records) :
    (mountTable host config).map (fun m => (m.mountPoint, m.fsType, decodeMountField m.source)) =
      records.map fun r => (r.mountPoint, r.fsType, r.source) := by
  let read (r : MountRecord) : Mount := ⟨r.mountPoint, r.fsType, escape marked r.source⟩
  have each : ∀ r ∈ records, readMount (r.line marked) = some (read r) :=
    fun r member => r.readMount_line backslash (spaces r member)
  have table : mountTable host config = records.map read := by
    simp only [mountTable]
    rw [written, lines_tableText spaces, List.filterMap_map]
    exact (List.filterMap_congr each).trans (congrFun List.filterMap_eq_map records)
  rw [table, List.map_map]
  apply List.map_congr_left
  intro r _
  exact congrArg (fun source => (r.mountPoint, r.fsType, source)) (unescape_escape backslash r.source)

instance (v : Bytes) : Decidable (IsWord v) :=
  have := List.decidableBAll (fun b => isSpace b = false) v
  inferInstanceAs (Decidable (v ≠ [] ∧ ∀ b ∈ v, isSpace b = false))

/-- An SMB mount whose point has a blank in its name, with one tag. -/
def designShare : MountRecord where
  mountId := lit "32"
  parentId := lit "1"
  device := lit "0:32"
  root := lit "/"
  mountPoint := lit "/mnt/My Disk"
  options := lit "rw,relatime"
  tags := [lit "shared:1"]
  fsType := lit "cifs"
  source := lit "//NAS/Team Files"
  superOptions := lit "rw,vers=3.1.1"
  plain := by decide +kernel
  described := by decide +kernel
  named := by decide
  placed := by decide +kernel

def kernelMarks (b : UInt8) : Bool := [32, 9, 10, 92].contains b

/-- A system with these directories, each under one name only. -/
def plainHost (directories : List Bytes) (mounts : List MountRecord) : LinuxHost where
  environment name := if name = lit "HOME" then some (lit "/home/u") else none
  accountHome := none
  userId := 1000
  fileText _ := tableText kernelMarks mounts
  isDirectory path := directories.contains path
  opensDirectory _ := true
  entries root := if root = lit "/run/user/1000/gvfs" then [lit "smb-share:server=FILES,share=Design"]
    else []
  equivalent a b := a == b
  equivalent_comm a b := by rw [Bool.eq_iff_iff, beq_iff_eq, beq_iff_eq, eq_comm]
  weaklyCanonical := some

theorem design_share_round_trip :
    (mountTable (plainHost [] [designShare]) {}).map
        (fun m => (m.mountPoint, m.fsType, decodeMountField m.source)) =
      [(lit "/mnt/My Disk", lit "cifs", lit "//NAS/Team Files")] :=
  mountinfo_round_trip (plainHost [] [designShare]) {} kernelMarks (by decide) [designShare]
    (by
      intro r member
      rw [List.mem_singleton.1 member]
      simp only [MountRecord.SpacesMarked]
      decide +kernel) rfl

end Such.LinuxIndexRoots
