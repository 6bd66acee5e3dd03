import TapeRs.Daemon.TapeCatalog
import TapeRs.Ltfs.Entries

/-!
The nodes and candidates that the entries of an index bring to an import (`managed_catalog/import_spool.rs`), and the
records that the reconciliation makes of them (`project_metadata` of `managed_catalog/import_reconcile.rs`).
-/

namespace TapeRs.Ltfs

open DirectoryNode

/-- A name belongs to the last part of the path. -/
def IndexEntry.Named : IndexEntry → Prop
  | .file _ node => node.name ≠ ""
  | .directory path node => node.name = "" → path = ""

theorem nodePath_eq {dirs : List String} {name : String} (named : name = "" → nodePath dirs name = "") :
    nodePath dirs name = joinPath (dirs.foldl joinPath "") name := by
  unfold nodePath at named ⊢
  dsimp only at named ⊢
  split
  · rename_i empty
    have blank := String.isEmpty_iff.mp empty
    rw [if_pos empty] at named
    rw [named blank, blank]
    rfl
  · rfl

/-- The entries below a directory are those of the two walks. -/
theorem entriesBelow_walk {dir : DirectoryNode} {dirs : List String}
    (named : ∀ entry ∈ dir.entriesBelow dirs, entry.Named) : (dir.entriesBelow dirs).Perm
      ((walkDir dir (dirs.foldl joinPath "")).map (fun entry => .file entry.1 entry.2) ++
        (walkBelow dir (dirs.foldl joinPath "")).map (fun entry => .directory entry.1 entry.2.bare)) := by
  induction dir using inductionOn generalizing dirs with
  | node dir ih =>
    rw [entriesBelow_eq, List.forall_mem_append, List.forall_mem_flatMap] at named
    rw [entriesBelow_eq, walkDir_eq, walkBelow_eq, List.map_append, List.append_assoc, List.map_map, List.map_flatMap,
      List.map_flatMap]
    obtain ⟨files, children⟩ := named
    refine List.Perm.append (.of_eq (List.map_congr_left fun file member => ?_)) ?_
    · have nonempty := files _ (List.mem_map_of_mem member)
      exact congrArg (IndexEntry.file · file) (nodePath_eq fun empty => absurd empty nonempty)
    · refine .trans (List.Perm.flatMap_left _ fun child member => ?_) (List.flatMap_append_perm _ _ _).symm
      have here := children child member
      rw [DirectoryNode.entries, List.forall_mem_cons] at here
      have below := ih child member here.2
      rw [List.foldl_append, List.foldl_cons, List.foldl_nil] at below
      have path : nodePath dirs child.name = _ := nodePath_eq here.1
      rw [DirectoryNode.entries, path]
      exact (below.cons _).trans List.perm_middle.symm

end TapeRs.Ltfs

namespace TapeRs.Catalog

open Json Ltfs Daemon Result SortedMap List

/-- A failure is the message of `TapeError::Catalog`. -/
abbrev Import := Except String

inductive NodeKind where
  | file
  | directory
deriving DecidableEq, Repr

inductive LinkKind where
  | none
  | native
  | eeAlias
deriving DecidableEq, Repr

structure ImportNode where
  path : String
  kind : NodeKind
  length : Option UInt64
  nodeMeta : NodeMeta
  xattrs : List Xattr
  symlink : Option String := none

structure ImportCandidate where
  logicalPath : String
  physicalPath : String
  kind : NodeKind
  deleted : Bool
  version : UInt64 × UInt64
  length : UInt64
  sha256 : String

def pieces (path : String) : List String := (path.toList.splitOn '/').map String.ofList

def validatePath (path : String) : Import Unit :=
  if path.isEmpty || 1024 < (pieces path).length || (pieces path).any (fun part =>
      part.isEmpty || part = "." || part = ".." || 255 < part.utf8ByteSize || part.toList.contains '\x00') then
    .error "LTFS 导入路径不安全"
  else .ok ()

def validateLogicalPath (path : String) : Import Unit :=
  match path.toList with
  | '/' :: relative => validatePath (String.ofList relative)
  | _ => .error "LTFS 逻辑路径必须以 / 开头"

def singleXattr (xattrs : List Xattr) (key : String) : Import (Option String) :=
  match xattrs.filter (·.key = key) with
  | [] => .ok none
  | [first] => if first.base64 then .error ("LTFS 语义属性重复或编码无效: " ++ key) else .ok (some first.value)
  | _ => .error ("LTFS 语义属性重复或编码无效: " ++ key)

section Enterprise

def eeDirectory : String := ".LTFSEE_DATA"

def isEePath (path : String) : Bool :=
  path = eeDirectory || (eeDirectory ++ "/").toList.isPrefixOf path.toList

def declared (xattrs : List Xattr) : Import Bool :=
  match xattrs.filter (·.key = "tapers.fdb.eeInternalDirectory") with
  | [] => .ok false
  | [marker] =>
    if marker.base64 || marker.value ≠ "1" then .error "无效目录参数: EE 内部目录归属标记无效" else .ok true
  | _ => .error "无效目录参数: EE 内部目录归属标记无效"

def requireLocation (node : ImportNode) : Import Bool := do
  let owned ← declared node.xattrs
  if owned && (node.kind ≠ .directory || node.path ∉ [eeDirectory, "/" ++ eeDirectory]) then
    .error "无效目录参数: EE 归属标记只能位于卷根的内部数据目录"
  else .ok owned

def classify (xattrs : List Xattr) (target : Option String) : Import LinkKind :=
  match xattrs.filter (·.key = "tapers.fdb.nativeSymlink") with
  | [] =>
    match target with
    | none => .ok .none
    | some target => .ok (if (eeDirectory ++ "/").toList <:+: target.toList then .eeAlias else .native)
  | marker :: more =>
    if !more.isEmpty || marker.base64 || marker.value ≠ "1" || target.isNone then
      .error "无效目录参数: 原生符号链接类型标记无效"
    else .ok .native

def resolveStep (components : List String) (component : String) : Import (List String) :=
  if component = "" then .error "EE 别名目标存在空路径分量"
  else if component = "." then .ok components
  else if component = ".." then if components = [] then .error "EE 别名目标越过卷根目录" else .ok components.dropLast
  else .ok (components ++ [component])

def resolveEeAliasTarget (path target : String) : Import String := do
  if target.toList.head? = some '/' || target.isEmpty then .error "EE 别名目标必须是卷内相对路径"
  else
    let components ← (pieces target).foldlM resolveStep (pieces path).dropLast
    let resolved := "/".intercalate components
    if !(eeDirectory ++ "/").toList.isPrefixOf resolved.toList then .error "EE 别名目标不在数据目录"
    else
      validatePath resolved
      .ok resolved

/-- Whether the node is an alias of a file in the data directory. -/
def eeAlias (node : ImportNode) : Import Bool := do
  match ← classify node.xattrs node.symlink, node.symlink with
  | .eeAlias, some target =>
    let _ ← resolveEeAliasTarget node.path target
    .ok true
  | _, _ => .ok false

end Enterprise

/-- The checks of `NodeAttributes::new` apart from the limits of its encoding. -/
def nodeAttributes (node : ImportNode) : Import Unit := do
  if node.nodeMeta.fileUid = 0 then .error "无效目录参数: LTFS 节点 fileuid 必须大于零"
  else
    let _ ← classify node.xattrs node.symlink
    let owned ← declared node.xattrs
    if owned && node.symlink.isSome then .error "无效目录参数: 符号链接不能携带 EE 内部目录标记" else .ok ()

def entryNode : IndexEntry → Import (Option ImportNode)
  | .file path node =>
    if (pieces path).getLast? ≠ some node.name then .error "LTFS 文件名称与路径不一致"
    else
      .ok (some
        { path, kind := .file, length := some node.length, nodeMeta := node.nodeMeta, xattrs := node.xattrs
          symlink := node.symlink })
  | .directory path node =>
    if path.isEmpty then if node.name.isEmpty then .ok none else .error "LTFS 根目录名称无效"
    else if (pieces path).getLast? ≠ some node.name then .error "LTFS 目录名称与路径不一致"
    else .ok (some { path, kind := .directory, length := none, nodeMeta := node.nodeMeta, xattrs := node.xattrs })

def importVersion (xattrs : List Xattr) : Import (UInt64 × UInt64) := do
  match ← singleXattr xattrs xattrVersion with
  | none => .ok (0, 0)
  | some raw =>
    match raw.toList.dropWhile (· ≠ '.') with
    | [] => .error "LTFS 版本属性格式无效"
    | _ :: seq =>
      match Text.parseU64 (String.ofList (raw.toList.takeWhile (· ≠ '.'))), Text.parseU64 (String.ofList seq) with
      | some round, some seq => .ok (round, seq)
      | none, _ => .error "LTFS 版本轮次无效"
      | some _, none => .error "LTFS 版本序号无效"

def deletedKind (xattrs : List Xattr) : Import NodeKind := do
  match ← singleXattr xattrs "tapers.deletedKind" with
  | some kind =>
    if kind = "directory" then .ok .directory else if kind = "file" then .ok .file else .error "LTFS 墓碑类型无效"
  | none => .ok .file

def importSha256 (node : ImportNode) : Import (Option String) :=
  if node.kind = .file then singleXattr node.xattrs xattrSha256 else .ok none

section Spool

-- The name of a tombstone is a digest of the deleted path.
variable (digest : String → String)

def tombstonePath (path : String) : String := tombstoneDir ++ "/" ++ digest path

def importTombstone (node : ImportNode) (version : UInt64 × UInt64) : Import ImportCandidate := do
  if node.kind ≠ .file || node.length ≠ some 0 || node.symlink.isSome then .error "LTFS 墓碑节点无效"
  else
    match ← singleXattr node.xattrs xattrDeletedPath with
    | none => .error "LTFS 墓碑缺少被删路径"
    | some target =>
      validateLogicalPath target
      if tombstonePath digest target ≠ node.path then .error "LTFS 墓碑路径与被删路径不符"
      else
        let kind ← deletedKind node.xattrs
        .ok { logicalPath := target, physicalPath := node.path, kind, deleted := true, version, length := 0, sha256 := "" }

def importCandidate (node : ImportNode) : Import (Option ImportCandidate) := do
  if node.path.isEmpty then .ok none
  else
    let version ← importVersion node.xattrs
    if (tombstoneDir ++ "/").toList.isPrefixOf node.path.toList then
      let candidate ← importTombstone digest node version
      .ok (some candidate)
    else if isPrivatePath node.path then .ok none
    else
      validateLogicalPath ("/" ++ node.path)
      let sha256 ← importSha256 node
      .ok (some
        { logicalPath := "/" ++ node.path, physicalPath := node.path, kind := node.kind, deleted := false, version
          length := node.length.getD 0, sha256 := sha256.getD "" })

structure ImportSpool where
  nodes : SortedMap String ImportNode := .empty
  candidates : SortedMap String ImportCandidate := .empty
  aliasSeen : Bool := false
  internalSeen : Bool := false
  dataDirSeen : Bool := false
  ownedSeen : Bool := false

/-- Paths are the primary key of the nodes, their identifiers are unique. -/
def insertNode (nodes : SortedMap String ImportNode) (node : ImportNode) : Import (SortedMap String ImportNode) :=
  if (nodes.get node.path).isSome || nodes.entries.any (·.2.nodeMeta.fileUid = node.nodeMeta.fileUid) then
    .error "LTFS 路径或 UID 重复/无效"
  else .ok (nodes.insert node.path node)

def insertCandidate (candidates : SortedMap String ImportCandidate) (candidate : ImportCandidate) :
    Import (SortedMap String ImportCandidate) :=
  match candidates.get candidate.logicalPath with
  | none => .ok (candidates.insert candidate.logicalPath candidate)
  | some old =>
    match old.deleted, candidate.deleted with
    | false, true => .ok candidates
    | true, false => .ok (candidates.insert candidate.logicalPath candidate)
    | _, _ => .error "LTFS 同一卷的逻辑路径出现重复候选"

def collectCandidate (candidates : SortedMap String ImportCandidate) (node : ImportNode) :
    Import (SortedMap String ImportCandidate) := do
  if isEePath node.path then .ok candidates
  else
    match ← importCandidate digest node with
    | none => .ok candidates
    | some candidate => insertCandidate candidates candidate

-- What else may be refused: digest attributes, the size of the attributes, the room for the spool.
variable (admits : ImportNode → Import Unit)

def importEntry (spool : ImportSpool) (entry : IndexEntry) : Import ImportSpool := do
  match ← entryNode entry with
  | none => .ok spool
  | some node =>
    nodeAttributes node
    validatePath node.path
    let owned ← requireLocation node
    admits node
    let linked ← eeAlias node
    let nodes ← insertNode spool.nodes node
    let candidates ← collectCandidate digest spool.candidates node
    .ok
      { nodes
        candidates
        aliasSeen := spool.aliasSeen || linked
        internalSeen := spool.internalSeen || isEePath node.path
        dataDirSeen := spool.dataDirSeen || (node.path = eeDirectory && node.kind = .directory)
        ownedSeen := spool.ownedSeen || owned }

def buildSpool (index : LtfsIndex) (entries : List IndexEntry) : Import ImportSpool := do
  let spool ← entries.foldlM (importEntry digest admits) {}
  let root : ImportNode :=
    { path := "", kind := .directory, length := none, nodeMeta := index.root.nodeMeta, xattrs := index.root.xattrs }
  nodeAttributes root
  let _ ← requireLocation root
  let nodes ← insertNode spool.nodes root
  let confirmed := spool.aliasSeen || spool.ownedSeen
  if spool.internalSeen ≠ confirmed || confirmed ≠ spool.dataDirSeen then
    .error "无法确认 .LTFSEE_DATA 为 EE 内部数据目录"
  else .ok { spool with nodes }

def projectMetadata (candidate : ImportCandidate) (node : ImportNode) : Import Value :=
  if candidate.deleted then
    if node.kind ≠ .file || node.length ≠ some 0 then .error "FDB 目录记录损坏: 墓碑候选物理节点不符"
    else .ok (if candidate.kind = .directory then .ofFields [("kind", .string "directory")] else .null)
  else if candidate.kind ≠ node.kind || candidate.length ≠ node.length.getD 0 then
    .error "FDB 目录记录损坏: 普通候选物理节点不符"
  else
    let value : Value := .ofFields [("modify_time", .string node.nodeMeta.modifyTime), ("node", nodeValue node.nodeMeta),
      ("xattrs", xattrsValue node.xattrs)]
    if candidate.kind = .directory then .ok (value.set "kind" (.string "directory"))
    else
      match node.symlink with
      | some target => .ok ((value.set "kind" (.string "symlink")).set "symlink" (.string target))
      | none => .ok value

namespace ImportSpool

def record (spool : ImportSpool) (candidate : ImportCandidate) : Import FileRec :=
  match spool.nodes.get candidate.physicalPath with
  | none => .error "FDB 目录记录损坏: 导入候选缺少物理节点"
  | some node => do
    let metadata ← projectMetadata candidate node
    .ok
      { path := candidate.logicalPath, length := candidate.length, sha256 := candidate.sha256
        version := candidate.version, deleted := candidate.deleted, metadata }

def records (spool : ImportSpool) : Import (List FileRec) :=
  spool.candidates.entries.mapM fun entry => spool.record entry.2

end ImportSpool

end Spool

section Agreement

variable {node : ImportNode}

theorem singleXattr_ok {xattrs : List Xattr} {key : String} {value : Option String}
    (read : singleXattr xattrs key = .ok value) : xattrValue key xattrs = value := by
  have first : Keyed.lookup (·.key) key xattrs = (xattrs.filter (·.key = key)).head? := head?_filter.symm
  unfold singleXattr at read
  rw [xattrValue, first]
  split at read
  · rename_i listed
    cases read
    rw [listed]
    rfl
  · rename_i listed
    split at read <;> cases read
    rw [listed]
    rfl
  · cases read

theorem importVersion_ok {xattrs : List Xattr} {version : UInt64 × UInt64} (read : importVersion xattrs = .ok version) :
    nodeVersion xattrs = version := by
  obtain ⟨value, single, read⟩ := bind_ok.mp read
  rw [nodeVersion, singleXattr_ok single]
  cases value with
  | none =>
    cases read
    rfl
  | some raw =>
    dsimp only at read
    rw [Option.bind_some, parseVersion]
    split at read
    · cases read
    rename_i seq rest
    rw [rest]
    split at read <;> cases read
    rename_i round number
    show ((do let round ← Text.parseU64 _; return (round, ← Text.parseU64 _)) : Option (UInt64 × UInt64)).getD _ = _
    rw [round, number]
    rfl

theorem pieces_ne_empty {path : String} (valid : validatePath path = .ok ()) :
    path ≠ "" ∧ ∀ part ∈ pieces path, part ≠ "" := by
  unfold validatePath at valid
  split at valid
  · cases valid
  rename_i safe
  simp only [Bool.or_eq_true, not_or, any_eq_true, not_exists, not_and] at safe
  refine ⟨fun empty => safe.1.1 (by simp [empty]), fun part member empty => ?_⟩
  exact (safe.2 part member).1.1.1.1 (by simp [empty])

theorem isTombstonePath_eq {path : String} (valid : validatePath path = .ok ()) :
    isTombstonePath path = (tombstoneDir ++ "/").toList.isPrefixOf path.toList := by
  have parts := (pieces_ne_empty valid).2
  have kept : path.toList.dropWhile (· = '/') = path.toList := by
    unfold pieces at parts
    cases split : path.toList with
    | nil => rfl
    | cons c rest =>
      refine dropWhile_cons_of_neg fun slash => ?_
      rw [split, splitOn, splitOnP_cons_eq_if_modifyHead, if_pos (by simpa using slash)] at parts
      exact parts "" (by simp) rfl
  rw [isTombstonePath, kept]

/-- The record of an entry by the other extraction. -/
def entryRec : IndexEntry → Option FileRec
  | .file path file => fileRec path file
  | .directory path dir => if path.isEmpty || isPrivatePath path then none else some (directoryRec path dir)

variable {digest : String → String}

/-- Where the node of a candidate stands. -/
def ImportCandidate.place (digest : String → String) (candidate : ImportCandidate) : String :=
  if candidate.deleted then tombstonePath digest candidate.logicalPath
  else String.ofList candidate.logicalPath.toList.tail

def ImportCandidate.record (candidate : ImportCandidate) (metadata : Value) : FileRec :=
  { path := candidate.logicalPath, length := candidate.length, sha256 := candidate.sha256
    version := candidate.version, deleted := candidate.deleted, metadata }

theorem importTombstone_ok {version : UInt64 × UInt64} {candidate : ImportCandidate}
    (read : importTombstone digest node version = .ok candidate) : node.kind = .file ∧ node.length = some 0 ∧
      ∃ target kind, xattrValue xattrDeletedPath node.xattrs = some target ∧ tombstonePath digest target = node.path ∧
        (xattrValue "tapers.deletedKind" node.xattrs = some "directory" ↔ kind = .directory) ∧ candidate =
          { logicalPath := target, physicalPath := node.path, kind, deleted := true, version, length := 0, sha256 := "" } := by
  unfold importTombstone at read
  split at read
  · cases read
  rename_i shape
  simp only [Bool.or_eq_true, decide_eq_true_eq, not_or, ne_eq, not_not] at shape
  obtain ⟨value, single, read⟩ := bind_ok.mp read
  cases value with
  | none => cases read
  | some target =>
    obtain ⟨_, _, read⟩ := bind_ok.mp read
    split at read
    · cases read
    rename_i placed
    obtain ⟨kind, kinds, read⟩ := bind_ok.mp read
    cases read
    refine ⟨shape.1.1, shape.1.2, target, kind, singleXattr_ok single, not_not.mp placed, ?_, rfl⟩
    obtain ⟨value, single, kinds⟩ := bind_ok.mp kinds
    rw [singleXattr_ok single]
    cases value with
    | none =>
      cases kinds
      simp
    | some text =>
      dsimp only at kinds
      split at kinds
      · rename_i directory
        cases kinds
        simp [directory]
      · rename_i other
        split at kinds <;> cases kinds
        simp [other]

theorem entryNode_ok {entry : IndexEntry} (made : entryNode entry = .ok (some node)) :
    (∃ path file, entry = .file path file ∧ (pieces path).getLast? = some file.name ∧ node =
      { path, kind := .file, length := some file.length, nodeMeta := file.nodeMeta, xattrs := file.xattrs
        symlink := file.symlink }) ∨
    ∃ path dir, entry = .directory path dir ∧ (pieces path).getLast? = some dir.name ∧ node =
      { path, kind := .directory, length := none, nodeMeta := dir.nodeMeta, xattrs := dir.xattrs } := by
  cases entry with
  | file path file =>
    rw [entryNode] at made
    split at made
    · cases made
    · rename_i last
      cases made
      exact .inl ⟨path, file, rfl, not_not.mp last, rfl⟩
  | directory path dir =>
    rw [entryNode] at made
    split at made
    · split at made <;> cases made
    split at made
    · cases made
    · rename_i last
      cases made
      exact .inr ⟨path, dir, rfl, not_not.mp last, rfl⟩

theorem entryNode_root {entry : IndexEntry} (root : entryNode entry = .ok none) : ∃ dir, entry = .directory "" dir := by
  cases entry with
  | file path file =>
    rw [entryNode] at root
    split at root <;> cases root
  | directory path dir =>
    rw [entryNode] at root
    split at root
    · rename_i empty
      exact ⟨dir, by rw [String.isEmpty_iff.mp empty]⟩
    · split at root <;> cases root

theorem set_kind (modify node xattrs kind : Value) :
    (Value.ofFields [("modify_time", modify), ("node", node), ("xattrs", xattrs)]).set "kind" kind =
      .ofFields [("kind", kind), ("modify_time", modify), ("xattrs", xattrs), ("node", node)] := by
  simp +decide only [Value.ofFields, Value.set, foldl, Assoc.insert, if_true, if_false]

/-- The candidate of a node and the record of its entry tell the same. -/
theorem importCandidate_record {entry : IndexEntry} {found : Option ImportCandidate}
    (made : entryNode entry = .ok (some node)) (valid : validatePath node.path = .ok ())
    (hidden : node.kind = .file → isPrivatePath node.path = true → isTombstonePath node.path = true)
    (read : importCandidate digest node = .ok found) : (found = none ∧ entryRec entry = none) ∨
      ∃ candidate metadata, found = some candidate ∧ projectMetadata candidate node = .ok metadata ∧
        entryRec entry = some (candidate.record metadata) ∧ candidate.physicalPath = node.path ∧
        candidate.place digest = node.path := by
  have nonempty := (pieces_ne_empty valid).1
  rw [importCandidate, if_neg (by simpa using nonempty)] at read
  obtain ⟨version, versioned, read⟩ := bind_ok.mp read
  have version := importVersion_ok versioned
  have tombstone := isTombstonePath_eq valid
  split at read
  · rename_i buried
    rw [buried] at tombstone
    obtain ⟨candidate, read, returned⟩ := bind_ok.mp read
    obtain ⟨isFile, empty, target, kind, names, placed, kinds, rfl⟩ := importTombstone_ok read
    cases returned
    refine .inr ⟨_, _, rfl, by simp only [projectMetadata, isFile, empty]; rfl, ?_, rfl,
      by simp [ImportCandidate.place, placed]⟩
    rcases entryNode_ok made with ⟨path, file, rfl, -, rfl⟩ | ⟨path, dir, rfl, -, rfl⟩
    · simp [entryRec, fileRec, tombstone, names, deletedRec, ImportCandidate.record, version, kinds]
    · cases isFile
  · rename_i native
    rw [Bool.not_eq_true] at native
    rw [native] at tombstone
    split at read
    · rename_i kept
      cases read
      rcases entryNode_ok made with ⟨path, file, rfl, -, rfl⟩ | ⟨path, dir, rfl, -, rfl⟩
      · have buried := hidden rfl kept
        rw [tombstone] at buried
        cases buried
      · exact .inl ⟨rfl, by simp [entryRec, kept]⟩
    · rename_i shown
      obtain ⟨_, _, read⟩ := bind_ok.mp read
      obtain ⟨sha256, hashed, read⟩ := bind_ok.mp read
      cases read
      have placed : String.ofList ("/" ++ node.path).toList.tail = node.path := by simp
      rcases entryNode_ok made with ⟨path, file, rfl, -, rfl⟩ | ⟨path, dir, rfl, -, rfl⟩
      · rw [importSha256, if_pos rfl] at hashed
        refine .inr ⟨_, (liveRec path file).metadata, rfl, ?_, ?_, rfl, placed⟩
        · simp only [projectMetadata, liveRec]
          cases file.symlink <;> simp
        · simp [entryRec, fileRec, tombstone, liveRec, ImportCandidate.record, version, singleXattr_ok hashed]
      · cases hashed
        refine .inr ⟨_, (directoryRec path dir).metadata, rfl, ?_, ?_, rfl, placed⟩
        · simp [projectMetadata, set_kind, directoryRec]
        · simp only [Bool.not_eq_true] at shown
          simp [entryRec, nonempty, shown, directoryRec, ImportCandidate.record, version]

end Agreement

section Run

variable (digest : String → String) {spool : ImportSpool}

/-- The candidate of an entry. -/
def madeBy (entry : IndexEntry) : Option ImportCandidate :=
  match entryNode entry with
  | .ok (some node) => if isEePath node.path then none else (importCandidate digest node).toOption.join
  | _ => none

structure Held (nodes : SortedMap String ImportNode) (node : ImportNode) : Prop where
  valid : validatePath node.path = .ok ()
  stored : nodes.get node.path = some node
  read : isEePath node.path = false → ∃ found, importCandidate digest node = .ok found

/-- At each path the live candidate of the entries `seen`, or else the deleted one. -/
def Leads (seen : List IndexEntry) (candidates : SortedMap String ImportCandidate) : Prop :=
  ∀ path, SortedMap.Best ImportCandidate.logicalPath (fun candidate => !candidate.deleted)
    (seen.filterMap (madeBy digest)) path (candidates.get path)

/-- The tables after the entries `seen`. -/
structure Spooled (seen : List IndexEntry) (nodes : SortedMap String ImportNode)
    (candidates : SortedMap String ImportCandidate) : Prop where
  held : ∀ entry ∈ seen, entryNode entry = .ok none ∨ ∃ node, entryNode entry = .ok (some node) ∧ Held digest nodes node
  best : Leads digest seen candidates

variable {digest} {admits : ImportNode → Import Unit} {nodes next : SortedMap String ImportNode} {node : ImportNode}
  {seen : List IndexEntry} {entry : IndexEntry}

theorem insertNode_ok (inserted : insertNode nodes node = .ok next) :
    nodes.get node.path = none ∧ next = nodes.insert node.path node := by
  unfold insertNode at inserted
  split at inserted
  · cases inserted
  rename_i fresh
  cases inserted
  simp only [Bool.or_eq_true, not_or, Bool.not_eq_true, Option.isSome_eq_false_iff, Option.isNone_iff_eq_none] at fresh
  exact ⟨fresh.1, rfl⟩

theorem held_insert (fresh : nodes.get node.path = none)
    (held : entryNode entry = .ok none ∨ ∃ other, entryNode entry = .ok (some other) ∧ Held digest nodes other) :
    entryNode entry = .ok none ∨
      ∃ other, entryNode entry = .ok (some other) ∧ Held digest (nodes.insert node.path node) other := by
  rcases held with root | ⟨other, made, held⟩
  · exact .inl root
  refine .inr ⟨other, made, { held with stored := ?_ }⟩
  rw [get_insert, if_neg, held.stored]
  intro same
  rw [← same, held.stored] at fresh
  cases fresh

theorem insertCandidate_ok {candidates kept : SortedMap String ImportCandidate} {candidate : ImportCandidate}
    (inserted : insertCandidate candidates candidate = .ok kept) :
    kept = candidates.promote ImportCandidate.logicalPath (fun candidate => !candidate.deleted) candidate := by
  unfold insertCandidate at inserted
  unfold promote
  split at inserted
  · rename_i fresh
    cases inserted
    rw [fresh]
  · rename_i old found
    rw [found]
    split at inserted <;> cases inserted <;> rename_i before after <;> simp [before, after]

theorem collectCandidate_best {candidates kept : SortedMap String ImportCandidate}
    (holds : Leads digest seen candidates) (made : entryNode entry = .ok (some node))
    (collected : collectCandidate digest candidates node = .ok kept) :
    (isEePath node.path = false → ∃ found, importCandidate digest node = .ok found) ∧
      Leads digest (seen ++ [entry]) kept := by
  unfold Leads at holds ⊢
  rw [filterMap_append]
  unfold collectCandidate at collected
  split at collected
  · rename_i internal
    cases collected
    exact ⟨by simp [internal], by simpa [madeBy, made, internal] using holds⟩
  rename_i outside
  obtain ⟨found, read, collected⟩ := bind_ok.mp collected
  refine ⟨fun _ => ⟨found, read⟩, ?_⟩
  cases found with
  | none =>
    cases collected
    simpa [madeBy, made, outside, read, Except.toOption] using holds
  | some candidate =>
    have brings : [entry].filterMap (madeBy digest) = [candidate] := by
      simp [madeBy, made, outside, read, Except.toOption]
    rw [brings, insertCandidate_ok collected]
    exact promote_best holds candidate

theorem importEntry_spooled {last : ImportSpool} (holds : Spooled digest seen spool.nodes spool.candidates)
    (ran : importEntry digest admits spool entry = .ok last) :
    Spooled digest (seen ++ [entry]) last.nodes last.candidates := by
  obtain ⟨found, made, ran⟩ := bind_ok.mp ran
  cases found with
  | none =>
    cases ran
    refine ⟨forall_mem_append.mpr ⟨holds.held, by simp [made]⟩, ?_⟩
    simpa [Leads, madeBy, made] using holds.best
  | some node =>
    obtain ⟨_, _, ran⟩ := bind_ok.mp ran
    obtain ⟨_, valid, ran⟩ := bind_ok.mp ran
    obtain ⟨_, _, ran⟩ := bind_ok.mp ran
    obtain ⟨_, _, ran⟩ := bind_ok.mp ran
    obtain ⟨_, _, ran⟩ := bind_ok.mp ran
    obtain ⟨nodes, inserted, ran⟩ := bind_ok.mp ran
    obtain ⟨candidates, collected, ran⟩ := bind_ok.mp ran
    cases ran
    obtain ⟨fresh, rfl⟩ := insertNode_ok inserted
    obtain ⟨read, best⟩ := collectCandidate_best holds.best made collected
    refine ⟨forall_mem_append.mpr ⟨fun other member => held_insert fresh (holds.held other member), ?_⟩, best⟩
    exact forall_mem_singleton.mpr (.inr ⟨node, made, valid, by simp, read⟩)

theorem foldlM_spooled {entries : List IndexEntry} {last : ImportSpool}
    (holds : Spooled digest seen spool.nodes spool.candidates)
    (ran : entries.foldlM (importEntry digest admits) spool = .ok last) :
    Spooled digest (seen ++ entries) last.nodes last.candidates := by
  induction entries generalizing seen spool with
  | nil =>
    cases ran
    rwa [append_nil]
  | cons entry rest ih =>
    rw [foldlM_cons] at ran
    obtain ⟨between, first, ran⟩ := bind_ok.mp ran
    rw [append_cons]
    exact ih (importEntry_spooled holds first) ran

theorem buildSpool_spooled {index : LtfsIndex} {entries : List IndexEntry}
    (built : buildSpool digest admits index entries = .ok spool) :
    Spooled digest entries spool.nodes spool.candidates := by
  obtain ⟨last, ran, built⟩ := bind_ok.mp built
  obtain ⟨_, _, built⟩ := bind_ok.mp built
  obtain ⟨_, _, built⟩ := bind_ok.mp built
  obtain ⟨nodes, inserted, built⟩ := bind_ok.mp built
  dsimp only at built
  split at built <;> cases built
  obtain ⟨fresh, rfl⟩ := insertNode_ok inserted
  have start : Spooled digest [] ({} : ImportSpool).nodes ({} : ImportSpool).candidates :=
    ⟨by simp, fun _ _ member => absurd member not_mem_nil⟩
  have spooled := foldlM_spooled start ran
  exact { spooled with held := fun entry member => held_insert fresh (spooled.held entry member) }

end Run

section Records

variable {digest : String → String} {admits : ImportNode → Import Unit} {entries : List IndexEntry} {entry : IndexEntry}
  {spool : ImportSpool} {index : LtfsIndex}

theorem Spooled.named (spooled : Spooled digest entries spool.nodes spool.candidates) (member : entry ∈ entries) :
    entry.Named := by
  rcases spooled.held entry member with root | ⟨node, made, held⟩
  · obtain ⟨dir, rfl⟩ := entryNode_root root
    exact fun _ => rfl
  have parts := (pieces_ne_empty held.valid).2
  rcases entryNode_ok made with ⟨path, file, rfl, last, rfl⟩ | ⟨path, dir, rfl, last, rfl⟩
  · exact parts _ (mem_of_getLast? last)
  · exact fun empty => absurd empty (parts _ (mem_of_getLast? last))

/-- The records of the entries, in whatever order, are those of the two walks. -/
theorem entryRec_walks (named : ∀ entry ∈ index.entries, entry.Named)
    (placed : ∀ entry ∈ index.walkDirectories, entry.1 ≠ "") (order : entries.Perm index.entries) :
    (entries.filterMap entryRec).Perm (nodeRecs index) := by
  have walks := entriesBelow_walk (forall_mem_cons.mp named).2
  refine (order.filterMap _).trans ?_
  rw [LtfsIndex.entries, filterMap_cons_none (by rfl)]
  refine (walks.filterMap _).trans (.of_eq ?_)
  rw [filterMap_append, filterMap_map, filterMap_map]
  refine congrArg₂ (· ++ ·) rfl ?_
  rw [directoryRecs, ← filterMap_eq_map, filterMap_filter]
  refine filterMap_congr fun entry member => ?_
  have nonempty := placed entry member
  cases kept : isPrivatePath entry.1 <;> simp [entryRec, nonempty, kept, directoryRec, DirectoryNode.bare]

theorem mem_walks (named : ∀ entry ∈ index.entries, entry.Named) (member : entry ∈ index.entries) :
    entry = index.root.rootEntry ∨ (∃ file ∈ index.walkFiles, entry = .file file.1 file.2) ∨
      ∃ dir ∈ index.walkDirectories, entry = .directory dir.1 dir.2.bare := by
  rcases mem_cons.mp member with root | below
  · exact .inl root
  have walked := (entriesBelow_walk (forall_mem_cons.mp named).2).mem_iff.mp below
  rcases mem_append.mp walked with walked | walked
  · obtain ⟨file, listed, rfl⟩ := mem_map.mp walked
    exact .inr (.inl ⟨file, listed, rfl⟩)
  · obtain ⟨dir, listed, rfl⟩ := mem_map.mp walked
    exact .inr (.inr ⟨dir, listed, rfl⟩)

/-- No node at the data directory, only directories and tombstones at the private one. -/
structure Plain (index : LtfsIndex) : Prop where
  files : ∀ entry ∈ index.walkFiles,
    isEePath entry.1 = false ∧ (isPrivatePath entry.1 = true → isTombstonePath entry.1 = true)
  directories : ∀ entry ∈ index.walkDirectories, entry.1 ≠ "" ∧ isEePath entry.1 = false

theorem Plain.node (plain : Plain index) (named : ∀ entry ∈ index.entries, entry.Named) (member : entry ∈ index.entries)
    {node : ImportNode} (made : entryNode entry = .ok (some node)) : isEePath node.path = false ∧
      (node.kind = .file → isPrivatePath node.path = true → isTombstonePath node.path = true) := by
  rcases mem_walks named member with rfl | ⟨file, listed, rfl⟩ | ⟨dir, listed, rfl⟩
  · cases made
  · rcases entryNode_ok made with ⟨path, node, same, -, rfl⟩ | ⟨path, node, same, -, rfl⟩ <;> cases same
    exact ⟨(plain.files _ listed).1, fun _ => (plain.files _ listed).2⟩
  · rcases entryNode_ok made with ⟨path, node, same, -, rfl⟩ | ⟨path, node, same, -, rfl⟩ <;> cases same
    exact ⟨(plain.directories _ listed).2, fun kind => by cases kind⟩

/-- The record that the tables give for a candidate. -/
structure Recorded (digest : String → String) (spool : ImportSpool) (candidate : ImportCandidate) (record : FileRec) :
    Prop where
  path : record.path = candidate.logicalPath
  deleted : record.deleted = candidate.deleted
  made : spool.record candidate = .ok record
  source : ∃ node, spool.nodes.get (candidate.place digest) = some node ∧ importCandidate digest node = .ok (some candidate)

theorem Recorded.unique {a b : ImportCandidate} {first second : FileRec} (left : Recorded digest spool a first)
    (right : Recorded digest spool b second) (path : a.logicalPath = b.logicalPath) (deleted : a.deleted = b.deleted) :
    first = second := by
  obtain ⟨node, stored, read⟩ := left.source
  obtain ⟨other, found, again⟩ := right.source
  have place : a.place digest = b.place digest := by
    unfold ImportCandidate.place
    rw [path, deleted]
  rw [place, found] at stored
  cases stored
  rw [read] at again
  cases again
  have made := left.made
  rw [right.made] at made
  cases made
  rfl

/-- The candidate and the record of an entry go together. -/
def Agrees (digest : String → String) (spool : ImportSpool) (entry : IndexEntry) : Prop :=
  (madeBy digest entry = none ∧ entryRec entry = none) ∨ ∃ candidate record, madeBy digest entry = some candidate ∧
    entryRec entry = some record ∧ Recorded digest spool candidate record

theorem Spooled.recorded (spooled : Spooled digest entries spool.nodes spool.candidates) (member : entry ∈ entries)
    (plain : ∀ node, entryNode entry = .ok (some node) → isEePath node.path = false ∧
      (node.kind = .file → isPrivatePath node.path = true → isTombstonePath node.path = true)) : Agrees digest spool entry := by
  rcases spooled.held entry member with root | ⟨node, made, held⟩
  · obtain ⟨dir, rfl⟩ := entryNode_root root
    exact .inl ⟨by simp [madeBy, root], by simp [entryRec]⟩
  obtain ⟨outside, hidden⟩ := plain node made
  obtain ⟨found, read⟩ := held.read outside
  have brings : madeBy digest entry = found := by simp [madeBy, made, outside, read, Except.toOption]
  rcases importCandidate_record made held.valid hidden read with ⟨rfl, nothing⟩ |
    ⟨candidate, metadata, rfl, projected, same, stored, placed⟩
  · exact .inl ⟨brings, nothing⟩
  · refine .inr ⟨candidate, _, brings, same, rfl, rfl, ?_, node, by rw [placed, held.stored], read⟩
    rw [ImportSpool.record, stored, held.stored]
    exact bind_ok.mpr ⟨metadata, projected, rfl⟩

def ImportSpool.byPath (spool : ImportSpool) : SortedMap String FileRec :=
  spool.candidates.collect fun _ candidate => (spool.record candidate).toOption

section Whole

variable (all : ∀ entry ∈ entries, Agrees digest spool entry)
include all

theorem mem_candidates {candidate : ImportCandidate} (member : candidate ∈ entries.filterMap (madeBy digest)) :
    ∃ record ∈ entries.filterMap entryRec, Recorded digest spool candidate record := by
  obtain ⟨entry, listed, made⟩ := mem_filterMap.mp member
  rcases all entry listed with ⟨nothing, -⟩ | ⟨_, record, brings, same, recorded⟩
  · rw [nothing] at made
    cases made
  · rw [brings] at made
    cases made
    exact ⟨record, mem_filterMap.mpr ⟨entry, listed, same⟩, recorded⟩

theorem mem_entryRecs {record : FileRec} (member : record ∈ entries.filterMap entryRec) :
    ∃ candidate ∈ entries.filterMap (madeBy digest), Recorded digest spool candidate record := by
  obtain ⟨entry, listed, made⟩ := mem_filterMap.mp member
  rcases all entry listed with ⟨-, nothing⟩ | ⟨candidate, _, brings, same, recorded⟩
  · rw [nothing] at made
    cases made
  · rw [same] at made
    cases made
    exact ⟨candidate, mem_filterMap.mpr ⟨entry, listed, brings⟩, recorded⟩

theorem entryRecs_apart (a : FileRec) (first : a ∈ entries.filterMap entryRec) (b : FileRec)
    (second : b ∈ entries.filterMap entryRec) (path : a.path = b.path) (rank : a.rank = b.rank) : a = b := by
  obtain ⟨left, -, leftRec⟩ := mem_entryRecs all first
  obtain ⟨right, -, rightRec⟩ := mem_entryRecs all second
  have deleted : a.deleted = b.deleted := by simpa using congrArg Prod.fst (toLex.injective rank)
  refine leftRec.unique rightRec ?_ ?_
  · rw [← leftRec.path, path, rightRec.path]
  · rw [← leftRec.deleted, deleted, rightRec.deleted]

/-- What leads among the candidates leads among the records. -/
theorem byPath_leads (leads : Leads digest entries spool.candidates) (path : String) :
    SortedMap.Best FileRec.path FileRec.rank (entries.filterMap entryRec) path (spool.byPath.get path) := by
  have here := leads path
  rw [ImportSpool.byPath, get_collect]
  cases found : spool.candidates.get path with
  | none =>
    rw [found] at here
    intro record member same
    obtain ⟨candidate, listed, recorded⟩ := mem_entryRecs all member
    exact here candidate listed (recorded.path ▸ same)
  | some best =>
    rw [found] at here
    obtain ⟨listed, placed, highest⟩ := here
    obtain ⟨record, member, recorded⟩ := mem_candidates all listed
    rw [Option.bind_some, recorded.made]
    refine ⟨member, recorded.path.trans placed, fun other present same => ?_⟩
    obtain ⟨candidate, among, made⟩ := mem_entryRecs all present
    have lower := highest candidate among (made.path ▸ same)
    rcases lower.eq_or_lt with even | below
    · rw [made.unique recorded (made.path ▸ same ▸ placed.symm) (by simpa using even)]
    · dsimp only at below
      rw [← made.deleted, ← recorded.deleted] at below
      exact (Prod.Lex.toLex_lt_toLex.mpr (.inl below)).le

theorem records_byPath (leads : Leads digest entries spool.candidates) :
    spool.records = .ok (spool.byPath.entries.map Prod.snd) := by
  have each : ∀ entry ∈ spool.candidates.entries, ∃ record, spool.record entry.2 = .ok record := by
    intro entry member
    have here := leads entry.1
    rw [mem_entries.mp member] at here
    obtain ⟨record, -, recorded⟩ := mem_candidates all here.1
    exact ⟨record, recorded.made⟩
  unfold ImportSpool.records ImportSpool.byPath collect
  dsimp only
  generalize spool.candidates.entries = rows at each
  induction rows with
  | nil => rfl
  | cons row rest ih =>
    obtain ⟨⟨record, made⟩, rows⟩ := forall_mem_cons.mp each
    rw [mapM_cons, made, ih rows, filterMap_cons]
    simp [made, Except.toOption]

end Whole

end Records

theorem import_records_extraction {digest : String → String} {admits : ImportNode → Import Unit} {index : LtfsIndex}
    {entries : List IndexEntry} {spool : ImportSpool} (order : entries.Perm index.entries) (plain : Plain index)
    (built : buildSpool digest admits index entries = .ok spool) : spool.records = .ok (catalogOf index).1 := by
  have spooled := buildSpool_spooled built
  have named : ∀ entry ∈ index.entries, entry.Named := fun entry member => spooled.named (order.mem_iff.mpr member)
  have all := fun entry (member : entry ∈ entries) => spooled.recorded member fun node made =>
    plain.node named (order.mem_iff.mp member) made
  have walks := entryRec_walks named (fun entry member => (plain.directories entry member).1) order
  have maps : spool.byPath = byPath index := ext_get fun path =>
    SortedMap.Best.unique (fun record => walks.mem_iff) (entryRecs_apart all) (byPath_leads all spooled.best path)
      (byPath_best index path)
  rw [records_byPath all spooled.best, catalogOf_records, maps]

def sampleDigest (path : String) : String := String.ofList path.toList.tail

def samplePaths (index : LtfsIndex) : Import (List String) := do
  let spool ← buildSpool sampleDigest (fun _ => .ok ()) index index.entries
  let records ← spool.records
  .ok (records.map FileRec.path)

/-- A data directory that is marked, a file in place of the private directory and a directory without a name bring no
    candidate. -/
theorem import_records_departures :
    let mark : Xattr := ⟨"tapers.fdb.eeInternalDirectory", "1", false⟩
    let marked := sampleTape [] [{ name := eeDirectory, nodeMeta := { fileUid := 2 }, xattrs := [mark] }]
    let occupied := sampleTape [{ name := ".tapers", nodeMeta := { fileUid := 2 } }] []
    let nameless := sampleTape [] [{ nodeMeta := { fileUid := 2 } }]
    (marked.walkFiles = [] ∧ marked.walkDirectories.map Prod.fst = [eeDirectory] ∧ samplePaths marked = .ok [] ∧
      (catalogOf marked).1.map FileRec.path = ["/.LTFSEE_DATA"]) ∧
    (occupied.walkFiles.map Prod.fst = [".tapers"] ∧ occupied.walkDirectories = [] ∧ samplePaths occupied = .ok [] ∧
      (catalogOf occupied).1.map FileRec.path = ["/.tapers"]) ∧
    nameless.walkFiles = [] ∧ nameless.walkDirectories.map Prod.fst = [""] ∧ samplePaths nameless = .ok [] ∧
      (catalogOf nameless).1.map FileRec.path = ["/"] := by
  decide +kernel

/-- A file, the tombstone of its path and that of another. -/
def sampleImport : LtfsIndex :=
  let buried (name : String) (uid : UInt64) : FileNode :=
    { sampleTombstone name [(xattrDeletedPath, "/" ++ name)] with nodeMeta := { fileUid := uid } }
  let deleted : DirectoryNode :=
    { name := "deleted", nodeMeta := { fileUid := 4 }, files := [buried "a" 5, buried "b" 6] }
  sampleTape [{ name := "a", length := 7, nodeMeta := { fileUid := 2 } }]
    [{ name := ".tapers", nodeMeta := { fileUid := 3 }, subdirs := [deleted] }]

theorem import_records_extraction_tombstones : ∃ spool,
    buildSpool sampleDigest (fun _ => .ok ()) sampleImport sampleImport.entries.reverse = .ok spool ∧
      Plain sampleImport ∧ spool.records = .ok (catalogOf sampleImport).1 ∧
      (catalogOf sampleImport).1.map (fun record => (record.path, record.deleted)) = [("/a", false), ("/b", true)] := by
  have plain : Plain sampleImport := ⟨by decide +kernel, by decide +kernel⟩
  have succeeds : (buildSpool sampleDigest (fun _ => .ok ()) sampleImport sampleImport.entries.reverse).isOk = true := by
    decide +kernel
  cases built : buildSpool sampleDigest (fun _ => .ok ()) sampleImport sampleImport.entries.reverse with
  | error message =>
    rw [built] at succeeds
    cases succeeds
  | ok spool => exact ⟨spool, rfl, plain, import_records_extraction (reverse_perm _) plain built, by decide +kernel⟩

end TapeRs.Catalog
