import TapeRs.Catalog.ImportSpool

namespace TapeRs.Catalog.ExtentCache

open List Ltfs Result Text

def walk (parts : List String) : List String → Option (List String)
  | [] => some parts
  | seg :: rest =>
    if seg = "" ∨ seg = "." then walk parts rest
    else if seg = ".." then if parts = [] then none else walk parts.dropLast rest
    else walk (parts ++ [seg]) rest

def linkDirectory (linkPath : String) : List String := (components linkPath).dropLast

def resolveSymlink (linkPath target : String) : Option String :=
  if target.toList.head? = some '/' then none
  else (walk (linkDirectory linkPath) (pieces target)).map ("/".intercalate ·)

def ordinary (part : String) : Bool := part ≠ "" && part ≠ "." && part ≠ ".."

/-- Whether a path has gone up more often than down. -/
def Leaves (parts : List String) : Prop := parts.countP ordinary < parts.count ".."

def cancel (part : String) (state : Nat × List String) : Nat × List String :=
  if part = ".." then (state.1 + 1, state.2)
  else if !ordinary part then state
  else if state.1 = 0 then (0, part :: state.2)
  else (state.1 - 1, state.2)

/-- The names that remain of a path read from its end, where each `..` takes away a name before it. -/
def normalise (parts : List String) : List String := (parts.foldr cancel (0, [])).2

theorem normalise_ordinary (parts : List String) : ∀ part ∈ normalise parts, ordinary part := by
  unfold normalise
  induction parts with
  | nil => simp
  | cons part rest ih =>
    rw [foldr_cons, cancel]
    split
    · exact ih
    split
    · exact ih
    rename_i kept
    split
    · exact forall_mem_cons.mpr ⟨by simpa using kept, ih⟩
    · exact ih

theorem cancel_up {part : String} (named : ordinary part) (state : Nat × List String) :
    cancel part (cancel ".." state) = state := by
  have other : part ≠ ".." := by simp_all [ordinary]
  rw [cancel, if_neg other, if_neg (by simp [named])]
  rfl

section Walk

variable {dirs : List String} (plain : ∀ part ∈ dirs, ordinary part)
include plain

theorem foldr_plain (names : List String) : dirs.foldr cancel (0, names) = (0, dirs ++ names) := by
  induction dirs with
  | nil => rfl
  | cons dir rest ih =>
    obtain ⟨here, later⟩ := forall_mem_cons.mp plain
    rw [foldr_cons, ih later]
    simp_all [cancel, ordinary]

theorem walk_normalise {segs parts : List String} (walked : walk dirs segs = some parts) :
    parts = normalise (dirs ++ segs) := by
  induction segs generalizing dirs with
  | nil =>
    cases walked
    rw [append_nil, normalise, foldr_plain plain, append_nil]
  | cons seg rest ih =>
    rw [walk] at walked
    split at walked
    · rename_i skipped
      rw [ih plain walked, normalise, normalise, foldr_append, foldr_append, foldr_cons]
      rcases skipped with rfl | rfl <;> rfl
    · rename_i kept
      split at walked
      · rename_i up
        subst up
        split at walked
        · cases walked
        rename_i some
        obtain ⟨outer, last, rfl⟩ := (eq_nil_or_concat' dirs).resolve_left some
        have named : ordinary last := plain last (by simp)
        rw [dropLast_concat] at walked
        rw [ih (fun part member => plain part (by simp [member])) walked]
        simp only [normalise, foldr_append, foldr_cons, foldr_nil, cancel_up named]
      · rename_i down
        have named : ordinary seg := by simp_all [ordinary]
        rw [ih (by simpa [or_imp, forall_and, named] using plain) walked, append_assoc]
        rfl

theorem not_leaves : ¬ Leaves dirs := by
  have none' : dirs.count ".." = 0 := count_eq_zero.mpr fun up => absurd (plain ".." up) (by decide)
  rw [Leaves, none']
  omega

theorem walk_eq_none {segs : List String} :
    walk dirs segs = none ↔ ∃ walked, walked <+: segs ∧ Leaves (dirs ++ walked) := by
  induction segs generalizing dirs with
  | nil => simp [walk, not_leaves plain]
  | cons seg rest ih =>
    have first : (∃ walked, walked <+: seg :: rest ∧ Leaves (dirs ++ walked)) ↔
        ∃ walked, walked <+: rest ∧ Leaves (dirs ++ seg :: walked) := by
      simp [prefix_cons_iff, or_and_right, exists_or, not_leaves plain]
    rw [first, walk]
    split
    · rename_i skipped
      rw [ih plain]
      refine exists_congr fun walked => and_congr_right fun _ => ?_
      rcases skipped with rfl | rfl <;> simp [Leaves, ordinary]
    · rename_i kept
      split
      · rename_i up
        subst up
        split
        · rename_i root
          subst root
          exact iff_of_true rfl ⟨[], nil_prefix, by simp [Leaves, ordinary]⟩
        · rename_i some
          obtain ⟨outer, last, rfl⟩ := (eq_nil_or_concat' dirs).resolve_left some
          have named : ordinary last := plain last (by simp)
          have other : last ≠ ".." := by simp_all [ordinary]
          rw [dropLast_concat, ih fun part member => plain part (by simp [member])]
          refine exists_congr fun walked => and_congr_right fun _ => ?_
          have down : ordinary ".." = false := by decide
          simp [Leaves, named, other, down]
          omega
      · rename_i down
        have named : ordinary seg := by simp_all [ordinary]
        rw [ih (by simpa [or_imp, forall_and, named] using plain)]
        simp

end Walk

structure FileRow where
  uid : String
  path : String
  length : String
  symlink : Option String
  proof : List UInt8

structure ExtentRow where
  uid : String
  partition : String
  startBlock : String
  byteOffset : String
  byteCount : String
  fileOffset : String

/-- The extents of a file are in the order of their sequence numbers. -/
structure Tables where
  files : List FileRow
  extents : List ExtentRow

structure CachedFile where
  path : String
  length : UInt64
  symlink : Option String
  extents : List Extent
deriving DecidableEq

def parseU64 (text : String) : Import UInt64 :=
  match Text.parseU64 text with
  | some value => .ok value
  | none => .error "卷 extent 缓存数值损坏"

def readExtent (row : ExtentRow) : Import Extent :=
  match row.partition.toList with
  | [partition] => do
    if 0x80 ≤ partition.toNat then .error "extent 分区字段损坏"
    else
      let startBlock ← parseU64 row.startBlock
      let byteOffset ← parseU64 row.byteOffset
      let byteCount ← parseU64 row.byteCount
      let fileOffset ← parseU64 row.fileOffset
      .ok { partition, startBlock, byteOffset, byteCount, fileOffset }
  | _ => .error "extent 分区字段损坏"

def toBeBytes (width : Nat) (value : Nat) : List UInt8 :=
  (List.range width).reverse.map fun i => .ofNat (value / 256 ^ i)

def proofText (text : String) : List UInt8 := toBeBytes 8 (utf8 text).length ++ utf8 text

/-- What `file_proof` digests. -/
def fileProof (path : String) (uid length : UInt64) (symlink : Option String) (extents : List Extent) : List UInt8 :=
  utf8 "tape-rs/extent-cache-file/1" ++ toBeBytes 8 uid.toNat ++ toBeBytes 8 length.toNat ++ proofText path ++
    (match symlink with
    | none => [0]
    | some target => 1 :: proofText target) ++
    toBeBytes 8 extents.length ++ extents.flatMap fun ext => toBeBytes 4 ext.partition.toNat ++
      [ext.startBlock, ext.byteOffset, ext.byteCount, ext.fileOffset].flatMap fun value => toBeBytes 8 value.toNat

def validatePath (path : String) : Import Unit :=
  if path.isEmpty || (pieces path).any (fun part =>
      !ordinary part || 255 < part.utf8ByteSize || part.toList.contains '\x00') then
    .error "卷索引文件路径不安全"
  else .ok ()

section Lookup

variable (sha256 : List UInt8 → List UInt8) (cache : Tables)

def fileByUid (uid : UInt64) : Import (Option CachedFile) :=
  match cache.files.find? (·.uid = decimal uid) with
  | none => .ok none
  | some row => do
    let extents ← (cache.extents.filter (·.uid = decimal uid)).mapM readExtent
    let length ← parseU64 row.length
    let uid ← parseU64 (decimal uid)
    if row.proof ≠ sha256 (fileProof row.path uid length row.symlink extents) then
      .error "卷 extent 缓存文件证明不匹配"
    else .ok (some { path := row.path, length, symlink := row.symlink, extents })

def requiredFileByUid (uid : UInt64) : Import CachedFile := do
  match ← fileByUid sha256 cache uid with
  | none => .error ("卷 extent 缓存缺少已确认 UID " ++ decimal uid)
  | some file => .ok file

def fileByPath (path : String) : Import (Option (UInt64 × CachedFile)) := do
  validatePath path
  match cache.files.find? (·.path = path) with
  | none => .ok none
  | some row =>
    let uid ← parseU64 row.uid
    if uid = 0 then .error "卷 extent 缓存 UID 无效"
    else
      let file ← requiredFileByUid sha256 cache uid
      if file.path ≠ path then .error "卷 extent 缓存路径索引不一致" else .ok (some (uid, file))

def expected (path missing : String) : Import (UInt64 × CachedFile) := do
  match ← fileByPath sha256 cache path with
  | none => .error missing
  | some found => .ok found

def followed (path : String) (found : UInt64 × CachedFile) : Import (UInt64 × CachedFile) :=
  match found.2.symlink with
  | none => .ok found
  | some target =>
    match resolveSymlink path target with
    | none => .error "卷内符号链接越出根目录"
    | some resolved => expected sha256 cache resolved "卷内符号链接目标缺失"

def resolveDataFile (path : String) : Import (UInt64 × CachedFile) := do
  let entry ← expected sha256 cache path ("卷 extent 缓存缺少路径 " ++ path)
  let found ← followed sha256 cache path entry
  if found.2.symlink.isSome then .error "卷内符号链接目标仍是符号链接"
  else if found.2.length ≠ 0 && found.2.extents.isEmpty then .error "非空文件缺少物理 extent"
  else .ok found

variable {sha256 cache}

theorem fileByUid_row {uid : UInt64} {file : CachedFile} (read : fileByUid sha256 cache uid = .ok (some file)) :
    ∃ row ∈ cache.files, row.uid = decimal uid ∧ row.path = file.path ∧ row.symlink = file.symlink := by
  unfold fileByUid at read
  split at read
  · cases read
  rename_i row found
  obtain ⟨extents, -, read⟩ := bind_ok.mp read
  obtain ⟨length, -, read⟩ := bind_ok.mp read
  obtain ⟨same, -, read⟩ := bind_ok.mp read
  split at read
  · cases read
  · cases read
    exact ⟨row, mem_of_find?_eq_some found, by simpa using find?_some found, rfl, rfl⟩

theorem expected_ok {path missing : String} {found : UInt64 × CachedFile}
    (read : expected sha256 cache path missing = .ok found) : fileByUid sha256 cache found.1 = .ok (some found.2) := by
  obtain ⟨read', looked, read⟩ := bind_ok.mp read
  split at read
  · cases read
  cases read
  obtain ⟨_, -, looked⟩ := bind_ok.mp looked
  split at looked
  · cases looked
  obtain ⟨uid, -, looked⟩ := bind_ok.mp looked
  split at looked
  · cases looked
  obtain ⟨file, required, looked⟩ := bind_ok.mp looked
  split at looked
  · cases looked
  cases looked
  obtain ⟨entry, stored, required⟩ := bind_ok.mp required
  split at required
  · cases required
  · cases required
    exact stored

theorem resolveDataFile_ok {path : String} {found : UInt64 × CachedFile}
    (read : resolveDataFile sha256 cache path = .ok found) :
    found.2.symlink = none ∧ fileByUid sha256 cache found.1 = .ok (some found.2) := by
  obtain ⟨entry, looked, read⟩ := bind_ok.mp read
  obtain ⟨last, follows, read⟩ := bind_ok.mp read
  split at read
  · cases read
  rename_i regular
  split at read
  · cases read
  cases read
  refine ⟨by simpa using regular, ?_⟩
  unfold followed at follows
  split at follows
  · cases follows
    exact expected_ok looked
  · split at follows
    · cases follows
    · exact expected_ok follows

end Lookup

/-- Links stay in the volume, and a data file is a regular file of the cache. -/
theorem symlink_confinement :
    (∀ linkPath target, (∀ part ∈ linkDirectory linkPath, ordinary part) →
      (resolveSymlink linkPath target = none ↔ target.toList.head? = some '/' ∨
        ∃ walked, walked <+: pieces target ∧ Leaves (linkDirectory linkPath ++ walked)) ∧
      ∀ path, resolveSymlink linkPath target = some path →
        path = "/".intercalate (normalise (linkDirectory linkPath ++ pieces target)) ∧
        ∀ part ∈ normalise (linkDirectory linkPath ++ pieces target), ordinary part) ∧
    ∀ sha256 cache path uid file, resolveDataFile sha256 cache path = .ok (uid, file) → file.symlink = none ∧
      fileByUid sha256 cache uid = .ok (some file) ∧
      ∃ row ∈ cache.files, row.uid = decimal uid ∧ row.path = file.path ∧ row.symlink = none := by
  refine ⟨fun linkPath target plain => ?_, fun sha256 cache path uid file read => ?_⟩
  · unfold resolveSymlink
    split
    · rename_i absolute
      exact ⟨iff_of_true rfl (.inl absolute), fun _ none' => by cases none'⟩
    rename_i relative
    rw [Option.map_eq_none_iff, walk_eq_none plain, or_iff_right relative]
    refine ⟨.rfl, fun path resolved => ⟨?_, normalise_ordinary _⟩⟩
    obtain ⟨parts, walked, rfl⟩ := Option.map_eq_some_iff.mp resolved
    rw [walk_normalise plain walked]
  · obtain ⟨regular, read⟩ := resolveDataFile_ok read
    obtain ⟨row, member, key, named, link⟩ := fileByUid_row read
    exact ⟨regular, read, row, member, key, named, link.trans regular⟩

def linkedTables : Tables where
  files := [⟨"7", ".LTFSEE_DATA/7", "0", none, fileProof ".LTFSEE_DATA/7" 7 0 none []⟩,
    ⟨"8", "docs/a", "0", some "../.LTFSEE_DATA/./7", fileProof "docs/a" 8 0 (some "../.LTFSEE_DATA/./7") []⟩]
  extents := []

theorem symlink_confinement_data :
    ".LTFSEE_DATA/7" = "/".intercalate (normalise (linkDirectory "docs/a" ++ pieces "../.LTFSEE_DATA/./7")) ∧
    fileByUid id linkedTables 7 = .ok (some { path := ".LTFSEE_DATA/7", length := 0, symlink := none, extents := [] }) := by
  have resolved : resolveSymlink "docs/a" "../.LTFSEE_DATA/./7" = some ".LTFSEE_DATA/7" := by decide +kernel
  have found : resolveDataFile id linkedTables "docs/a" =
      .ok (7, { path := ".LTFSEE_DATA/7", length := 0, symlink := none, extents := [] }) := by decide +kernel
  exact ⟨((symlink_confinement.1 _ _ (by decide +kernel)).2 _ resolved).1, (symlink_confinement.2 _ _ _ _ _ found).2.1⟩

theorem dotted_link_leaves : resolveSymlink "a/../l" "../x" = some "a/x" ∧
    Leaves (linkDirectory "a/../l" ++ [".."]) := by
  unfold Leaves
  decide +kernel

end TapeRs.Catalog.ExtentCache
