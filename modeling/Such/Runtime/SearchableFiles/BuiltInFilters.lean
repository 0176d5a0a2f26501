import Such.Runtime.SearchableFiles.PlainLookup
import Such.Ui.SearchDialect.Recompile

/-! The built-in extension filters of the query language beside the suffixes the search
pages present. -/
namespace Such.SearchableFiles
open ByteText CivilTime SearchDialect

/-- The built-in extensions the suffix table lacks. -/
def unlistedBuiltIns : List Bytes := [
  "dst", "3mf", "sab", "brep", "x_t", "x_b", "prt", "sldprt", "sldasm", "slddrw", "ipt", "iam",
  "idw", "dgn", "pln", "pla", "lcf", "gsm", "las", "laz", "e57", "pts", "ptx", "rcp", "rcs", "nwc",
  "nwd", "nwf", "shp", "geojson", "kml", "kmz", "xps", "oxps", "xlsb", "svgz", "psb", "indd", "idml",
  "fig", "xd", "afdesign", "afphoto", "afpub", "jpe", "cr3", "arw", "orf", "rw2", "pyw", "tbz2",
  "txz", "pkg", "ipa", "appimage", "bin"
].map lit

theorem mem_allowed_iff {ext : Bytes} (builtIn : ext ∈ kBuiltInExtensions) :
    ext ∈ kAllowedExtensions ↔ ext ∉ unlistedBuiltIns := by
  -- The binary search is the quicker test of membership.
  have table : ∀ ext ∈ kBuiltInExtensions,
      lower ext = ext ∧ allowedSuffix ext = !unlistedBuiltIns.contains ext := by decide +kernel
  obtain ⟨folded, same⟩ := table ext builtIn
  have member := allowedSuffix_iff ext
  rw [folded] at member
  rw [← member, same, Bool.not_eq_true', ← Bool.not_eq_true, List.contains_iff_mem]

/-- A special name with a built-in suffix has one the table knows. -/
theorem allowed_of_special {stem suffix name : Bytes} (special : name ∈ kExtensionlessNames)
    (same : equalsAsciiCi (stem ++ 46 :: suffix) name = true)
    (builtIn : lower suffix ∈ kBuiltInExtensions) : lower suffix ∈ kAllowedExtensions := by
  have table : ∀ name ∈ kExtensionlessNames, ∀ ext ∈ nameSuffix (lower name),
      ext ∈ kBuiltInExtensions → ext ∈ kAllowedExtensions := by decide +kernel
  have clear : (46 : UInt8) ∉ lower suffix := by
    have dotless : ∀ ext ∈ kBuiltInExtensions, (46 : UInt8) ∉ ext := by decide +kernel
    exact dotless _ builtIn
  have folded : lower name = lower stem ++ 46 :: lower suffix := by
    simp only [equalsAsciiCi] at same
    rw [← beq_iff_eq.mp same, lower_append]
    rfl
  apply table name special _ _ builtIn
  rw [folded]
  exact nameSuffix_append clear (lower stem)

theorem notMem_of_lower {b : UInt8} {v : Bytes} (fixed : toLower b = b) (clear : b ∉ lower v) :
    b ∉ v := by
  intro member
  apply clear
  rw [← fixed]
  exact List.mem_map_of_mem member

/-- A dotted name with a built-in suffix is presented exactly when the table has it. -/
theorem searchableFilename_append_iff {stem suffix : Bytes} (slash : 47 ∉ stem)
    (backslash : 92 ∉ stem) (builtIn : lower suffix ∈ kBuiltInExtensions) (extension : Bytes) :
    searchableFilename (stem ++ 46 :: suffix) extension = true ↔
      lower suffix ∈ kAllowedExtensions := by
  have plain : ∀ ext ∈ kBuiltInExtensions,
      (46 : UInt8) ∉ ext ∧ (47 : UInt8) ∉ ext ∧ (92 : UInt8) ∉ ext := by decide +kernel
  obtain ⟨noDot, noSlash, noBackslash⟩ := plain _ builtIn
  have dot := notMem_of_lower (by decide) noDot
  have named : baseName (stem ++ 46 :: suffix) = stem ++ 46 :: suffix := by
    apply baseName_eq_self
    · simpa [slash] using notMem_of_lower (by decide) noSlash
    · simpa [backslash] using notMem_of_lower (by decide) noBackslash
  rw [searchableFilename_eq, named, nameSuffix_append dot, Option.any_some, Bool.or_eq_true,
    allowedSuffix_iff]
  constructor
  · rintro (special | listed)
    · obtain ⟨name, member, same⟩ := List.any_eq_true.mp special
      exact allowed_of_special member same builtIn
    · exact listed
  · exact .inr

section Filters
variable (zone : Zone) (dialect : PlatformDialect) (now : Int)

/-- Without observed extensions a filter names a built-in one. -/
theorem builtIn_of_filter {query ext : Bytes}
    (accepted : ext ∈ (parseSearchQuery zone dialect now [] query).extensions) :
    ext ∈ kBuiltInExtensions := by
  have registry : extensionRegistry [] = kBuiltInExtensions := List.append_nil _
  rw [parseSearchQuery_eq] at accepted
  dsimp only [tokenFilter] at accepted
  rw [mem_foldl_addExtension] at accepted
  obtain ⟨token, -, named⟩ := List.mem_filterMap.mp (accepted.resolve_left List.not_mem_nil)
  cases cls : classifyToken zone dialect [] token with
  | extension body =>
    rw [cls] at named
    obtain rfl : body = ext := Option.some.inj named
    obtain ⟨-, -, -, -, -, known⟩ := extension_of_classifyToken zone dialect [] cls
    rwa [registry] at known
  | inside | date | pin | text =>
    rw [cls] at named
    exact absurd named.symm (Option.some_ne_none ext)

/-- A file whose suffix an accepted filter names is presented exactly when that extension
is none of the unlisted ones; what the runtime reports as extension does not matter. -/
theorem filtered_file_searchable_iff {e stem suffix : Bytes} (extension : Bytes)
    (accepted : lower e ∈
      (parseSearchQuery zone dialect now [] (operatorPrefix dialect ++ e)).extensions)
    (slash : 47 ∉ stem) (backslash : 92 ∉ stem) (spelled : lower suffix = lower e) :
    searchableFilename (stem ++ 46 :: suffix) extension = true ↔ lower e ∉ unlistedBuiltIns := by
  have builtIn := builtIn_of_filter zone dialect now accepted
  rw [← spelled] at builtIn ⊢
  rw [searchableFilename_append_iff slash backslash builtIn, mem_allowed_iff builtIn]

end Filters

theorem plan_dwg_searchable : searchableFilename (lit "plan" ++ 46 :: lit "DWG") (lit "dwg") = true :=
  (filtered_file_searchable_iff (e := lit "dwg") .utc .windows 1800000000 (lit "dwg")
    (by decide +kernel) (by decide) (by decide) (by decide)).mpr (by decide +kernel)

/-- The filter `/dgn` is accepted, and every `.dgn` file is dropped before it. -/
theorem dgn_filter_never_matches :
    ¬ ∀ e stem suffix extension : Bytes,
      lower e ∈ (parseSearchQuery .utc .windows 1800000000 [] (operatorPrefix .windows ++ e)).extensions →
        47 ∉ stem → 92 ∉ stem → lower suffix = lower e →
        (lower extension = lower e ∨ lower extension = 46 :: lower e) →
        searchableFilename (stem ++ 46 :: suffix) extension = true := by
  intro presents
  have presented := presents (lit "dgn") (lit "site") (lit "dgn") (lit "dgn") (by decide +kernel)
    (by decide) (by decide) rfl (.inl rfl)
  revert presented
  decide +kernel

end Such.SearchableFiles
