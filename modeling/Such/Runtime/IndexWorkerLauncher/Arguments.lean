import Such.Runtime.IndexWorkerLauncher

/-! The request of an index worker as command-line arguments: how the launcher writes them
and how the worker reads them. -/
namespace Such.IndexWorkerLauncher
open ByteText

def hexDigits : Bytes := lit "0123456789abcdef"

def hexEncode (value : Bytes) : Bytes :=
  value.flatMap fun (byte : UInt8) =>
    [hexDigits.getD ((byte >>> 4) &&& 15).toNat 0, hexDigits.getD (byte &&& 15).toNat 0]

def operationName : IndexWorkerOperation → Bytes
  | .reindex => lit "reindex"
  | .addRoot => lit "add"
  | .replaceRoots => lit "replace"

/-- The mode a shard count asks for, if it asks for one. -/
def shardMode (shardCount : Int) : Option Bytes :=
  if 0 ≤ shardCount then some (if shardCount = 0 then lit "auto" else decimalInt shardCount)
  else none

def shardOption (mode : Bytes) : Bytes := lit "--shards=" ++ mode

def diagnosticOption (path : Bytes) : Bytes := lit "--diagnostic=" ++ hexEncode path

/-- What follows the operation. -/
def workerOptions (request : IndexWorkerRequest) : List Bytes :=
  (shardMode request.shardCount).toList.map shardOption ++ request.roots.map hexEncode

def workerArguments (request : IndexWorkerRequest) : List Bytes :=
  lit "--index-worker" :: operationName request.operation :: workerOptions request

def hexDigit (value : UInt8) : Option UInt8 :=
  if 48 ≤ value ∧ value ≤ 57 then some (value - 48)
  else if 97 ≤ value ∧ value ≤ 102 then some (10 + value - 97)
  else if 65 ≤ value ∧ value ≤ 70 then some (10 + value - 65)
  else none

def decodeIndexWorkerPath : Bytes → Option Bytes
  | [] => some []
  | [_] => none
  | high :: low :: rest =>
    match hexDigit high, hexDigit low with
    | some h, some l => (decodeIndexWorkerPath rest).map ((h <<< 4 ||| l) :: ·)
    | _, _ => none

/-- The modes `set_index_shard_mode` puts into the environment. -/
def isShardMode (mode : Bytes) : Bool :=
  (["auto", "1", "2", "4", "8", "16"].map lit).contains mode

/-- What the options said so far; `shards` is the value the environment got. -/
structure WorkerOptions where
  roots : List Bytes := []
  diagnosticPath : Bytes := []
  shards : Option Bytes := none
deriving DecidableEq, Repr

def readOption (seen : WorkerOptions) (token : Bytes) : Option WorkerOptions :=
  if startsWith token (lit "--diagnostic=") then
    match decodeIndexWorkerPath (token.drop 13) with
    | none => none
    | some path =>
      if !seen.diagnosticPath.isEmpty then none else some { seen with diagnosticPath := path }
  else if startsWith token (lit "--shards=") then
    if seen.shards.isSome || !isShardMode (token.drop 9) then none
    else some { seen with shards := some (token.drop 9) }
  else
    match decodeIndexWorkerPath token with
    | none => none
    | some root => some { seen with roots := seen.roots ++ [root] }

/-- The argument parsing of `run_index_worker`; the exit code of a rejection. -/
def readWorker (argv : List Bytes) : Except Int (IndexWorkerOperation × WorkerOptions) :=
  if argv.length < 3 then .error 2
  else
    let operation := lower (argv.getD 2 [])
    match (argv.drop 3).foldlM readOption {} with
    | none => .error 2
    | some options =>
      if operation = lit "reindex" ∧ options.roots ≠ [] then .error 2
      else if operation = lit "add" ∧ options.roots.length ≠ 1 then .error 2
      else if operation = lit "reindex" then .ok (.reindex, options)
      else if operation = lit "add" then .ok (.addRoot, options)
      else if operation = lit "replace" then .ok (.replaceRoots, options)
      else .error 2

theorem byte_table : ∀ n : Fin 256,
    hexDigit (hexDigits.getD ((UInt8.ofNat n.val >>> 4) &&& 15).toNat 0) =
        some ((UInt8.ofNat n.val >>> 4) &&& 15) ∧
      hexDigit (hexDigits.getD (UInt8.ofNat n.val &&& 15).toNat 0) =
        some (UInt8.ofNat n.val &&& 15) ∧
      (((UInt8.ofNat n.val >>> 4) &&& 15) <<< 4 ||| (UInt8.ofNat n.val &&& 15)) =
        UInt8.ofNat n.val := by
  decide +kernel

theorem hexDigit_encoded (b : UInt8) :
    hexDigit (hexDigits.getD ((b >>> 4) &&& 15).toNat 0) = some ((b >>> 4) &&& 15) ∧
      hexDigit (hexDigits.getD (b &&& 15).toNat 0) = some (b &&& 15) ∧
      (((b >>> 4) &&& 15) <<< 4 ||| (b &&& 15)) = b := by
  have row := byte_table ⟨b.toNat, b.toNat_lt⟩
  simpa only [UInt8.ofNat_toNat] using row

/-- Every path is read back byte for byte. -/
theorem decode_hexEncode (path : Bytes) : decodeIndexWorkerPath (hexEncode path) = some path := by
  induction path with
  | nil => rfl
  | cons b path ih =>
    obtain ⟨high, low, joined⟩ := hexDigit_encoded b
    have spelled : hexEncode (b :: path) =
        hexDigits.getD ((b >>> 4) &&& 15).toNat 0 :: hexDigits.getD (b &&& 15).toNat 0 ::
          hexEncode path := rfl
    rw [spelled, decodeIndexWorkerPath, high, low, ih]
    simp only [Option.map_some, joined]

theorem getD_hexDigits (i : Nat) : hexDigits.getD i 0 ≠ 45 := by
  rw [List.getD_eq_getElem?_getD]
  cases digit : hexDigits[i]? with
  | none => decide
  | some b =>
    have table : ∀ b ∈ hexDigits, b ≠ 45 := by decide +kernel
    exact table b (List.mem_of_getElem? digit)

/-- An encoded path never looks like an option. -/
theorem startsWith_hexEncode (path rest : Bytes) : startsWith (hexEncode path) (45 :: rest) = false := by
  cases path with
  | nil => rfl
  | cons b path =>
    have other := getD_hexDigits ((b >>> 4) &&& 15).toNat
    simp only [startsWith, hexEncode]
    simp only [List.flatMap_cons, List.cons_append, List.isPrefixOf_cons_cons, Bool.and_eq_false_iff,
      beq_eq_false_iff_ne]
    exact .inl other.symm

theorem notMem_hexEncode (path : Bytes) : (0 : UInt8) ∉ hexEncode path := by
  intro member
  obtain ⟨b, -, digit⟩ := List.mem_flatMap.mp member
  obtain ⟨high, low, -⟩ := hexDigit_encoded b
  have zero : hexDigit 0 = none := by decide
  rcases List.mem_cons.mp digit with first | rest
  · rw [← first, zero] at high
    contradiction
  · rw [← List.mem_singleton.mp rest, zero] at low
    contradiction

section Options
variable (seen : WorkerOptions)

def WorkerOptions.withDiagnostic (path : Bytes) : WorkerOptions := { seen with diagnosticPath := path }

theorem readOption_root (root : Bytes) :
    readOption seen (hexEncode root) = some { seen with roots := seen.roots ++ [root] } := by
  have noDiagnostic : startsWith (hexEncode root) (lit "--diagnostic=") = false :=
    startsWith_hexEncode root (lit "-diagnostic=")
  have noShards : startsWith (hexEncode root) (lit "--shards=") = false :=
    startsWith_hexEncode root (lit "-shards=")
  simp only [readOption]
  rw [noDiagnostic, noShards, decode_hexEncode]
  rfl

theorem readOption_shards {mode : Bytes} (known : isShardMode mode = true)
    (first : seen.shards = none) :
    readOption seen (shardOption mode) = some { seen with shards := some mode } := by
  have noDiagnostic : startsWith (shardOption mode) (lit "--diagnostic=") = false := rfl
  have option : startsWith (shardOption mode) (lit "--shards=") = true := rfl
  have mode' : (shardOption mode).drop 9 = mode := rfl
  simp only [readOption]
  rw [noDiagnostic, option, mode', first, known]
  rfl

theorem readOption_diagnostic (path : Bytes) (first : seen.diagnosticPath = []) :
    readOption seen (diagnosticOption path) = some (seen.withDiagnostic path) := by
  have option : startsWith (diagnosticOption path) (lit "--diagnostic=") = true := rfl
  have encoded : (diagnosticOption path).drop 13 = hexEncode path := rfl
  simp only [readOption]
  rw [option, encoded, decode_hexEncode, first]
  rfl

theorem foldlM_readOption_roots (roots : List Bytes) :
    (roots.map hexEncode).foldlM readOption seen =
      some { seen with roots := seen.roots ++ roots } := by
  induction roots generalizing seen with
  | nil => simp
  | cons root roots ih =>
    rw [List.map_cons, List.foldlM_cons, readOption_root]
    simp only [Option.bind_eq_bind, Option.bind_some, ih, List.append_assoc, List.singleton_append]

/-- An option that is no diagnostic neither looks at the diagnostic path nor changes it. -/
theorem readOption_withDiagnostic {token : Bytes} (path : Bytes)
    (other : startsWith token (lit "--diagnostic=") = false) :
    readOption (seen.withDiagnostic path) token =
      (readOption seen token).map (·.withDiagnostic path) := by
  simp only [readOption]
  rw [other]
  simp only [Bool.false_eq_true, if_false]
  split
  · change (if seen.shards.isSome || !isShardMode (token.drop 9) then none else _) = _
    split <;> rfl
  · cases decodeIndexWorkerPath token <;> rfl

theorem foldlM_readOption_withDiagnostic {tokens : List Bytes} (path : Bytes)
    (others : ∀ token ∈ tokens, startsWith token (lit "--diagnostic=") = false) :
    tokens.foldlM readOption (seen.withDiagnostic path) =
      (tokens.foldlM readOption seen).map (·.withDiagnostic path) := by
  induction tokens generalizing seen with
  | nil => rfl
  | cons token tokens ih =>
    have rest : ∀ next ∈ tokens, startsWith next (lit "--diagnostic=") = false :=
      fun next member => others next (List.mem_cons_of_mem _ member)
    rw [List.foldlM_cons, List.foldlM_cons,
      readOption_withDiagnostic seen path (others token List.mem_cons_self)]
    cases readOption seen token with
    | none => rfl
    | some next => exact ih next rest

end Options

theorem shardCount_of_valid {request : IndexWorkerRequest}
    (valid : validateWorkerRequest request = .ok ()) :
    request.shardCount ∈ ([-1, 0, 1, 2, 4, 8, 16] : List Int) := by
  by_contra unknown
  simp only [validateWorkerRequest] at valid
  rw [if_pos unknown] at valid
  contradiction

theorem isShardMode_of_valid {request : IndexWorkerRequest} {mode : Bytes}
    (valid : validateWorkerRequest request = .ok ())
    (asked : shardMode request.shardCount = some mode) : isShardMode mode = true := by
  have table : ∀ count ∈ ([-1, 0, 1, 2, 4, 8, 16] : List Int),
      ∀ mode ∈ shardMode count, isShardMode mode = true := by decide +kernel
  exact table _ (shardCount_of_valid valid) mode asked

/-- What a worker makes of a valid request. -/
def requestOptions (request : IndexWorkerRequest) : WorkerOptions where
  roots := request.roots
  shards := shardMode request.shardCount

theorem foldlM_workerOptions {request : IndexWorkerRequest}
    (valid : validateWorkerRequest request = .ok ()) :
    (workerOptions request).foldlM readOption {} = some (requestOptions request) := by
  simp only [workerOptions, requestOptions]
  rw [List.foldlM_append]
  cases asked : shardMode request.shardCount with
  | none =>
    simp only [Option.toList_none, List.map_nil, List.foldlM_nil, Option.pure_def,
      Option.bind_eq_bind, Option.bind_some, foldlM_readOption_roots, List.nil_append]
  | some mode =>
    have read := readOption_shards {} (isShardMode_of_valid valid asked) rfl
    simp only [Option.toList_some, List.map_cons, List.map_nil, List.foldlM_cons, read,
      List.foldlM_nil, Option.pure_def, Option.bind_eq_bind, Option.bind_some,
      foldlM_readOption_roots, List.nil_append]

theorem workerOptions_no_diagnostic (request : IndexWorkerRequest) :
    ∀ token ∈ workerOptions request, startsWith token (lit "--diagnostic=") = false := by
  intro token member
  rcases List.mem_append.mp member with shards | root
  · obtain ⟨mode, -, rfl⟩ := List.mem_map.mp shards
    rfl
  · obtain ⟨path, -, rfl⟩ := List.mem_map.mp root
    exact startsWith_hexEncode path (lit "-diagnostic=")

/-- One diagnostic option may stand anywhere between the others. -/
theorem foldlM_with_diagnostic {request : IndexWorkerRequest}
    (valid : validateWorkerRequest request = .ok ()) {front back : List Bytes}
    (split : workerOptions request = front ++ back) (path : Bytes) :
    (front ++ diagnosticOption path :: back).foldlM readOption {} =
      some ((requestOptions request).withDiagnostic path) := by
  have whole := foldlM_workerOptions valid
  have others := workerOptions_no_diagnostic request
  rw [split] at whole others
  have early : ∀ token ∈ front, startsWith token (lit "--diagnostic=") = false :=
    fun token member => others token (List.mem_append_left _ member)
  have late : ∀ token ∈ back, startsWith token (lit "--diagnostic=") = false :=
    fun token member => others token (List.mem_append_right _ member)
  rw [List.foldlM_append] at whole ⊢
  cases read : front.foldlM readOption {} with
  | none =>
    rw [read] at whole
    contradiction
  | some seen =>
    -- No option before it has set a diagnostic path.
    have fresh : seen.diagnosticPath = [] := by
      have kept := foldlM_readOption_withDiagnostic {} [] early
      change front.foldlM readOption {} = _ at kept
      rw [read, Option.map_some] at kept
      rw [Option.some.inj kept]
      rfl
    rw [read] at whole
    change back.foldlM readOption seen = _ at whole
    change (diagnosticOption path :: back).foldlM readOption seen = _
    rw [List.foldlM_cons, readOption_diagnostic seen path fresh]
    change back.foldlM readOption (seen.withDiagnostic path) = _
    rw [foldlM_readOption_withDiagnostic seen path late, whole, Option.map_some]

theorem operationName_inj (operation other : IndexWorkerOperation) :
    operationName operation = operationName other ↔ operation = other := by
  cases operation <;> cases other <;> decide

theorem lower_operationName (operation : IndexWorkerOperation) :
    lower (operationName operation) = operationName operation := by
  cases operation <;> decide

theorem roots_of_valid {request : IndexWorkerRequest}
    (valid : validateWorkerRequest request = .ok ()) :
    (request.operation = .addRoot → request.roots.length = 1) ∧
      (request.operation = .reindex → request.roots = []) := by
  simp only [validateWorkerRequest] at valid
  split at valid
  · contradiction
  · split at valid
    · contradiction
    · rename_i add
      split at valid
      · contradiction
      · rename_i reindex
        constructor
        · intro adds
          by_contra other
          exact add ⟨adds, other⟩
        · intro reindexes
          by_contra some
          exact reindex ⟨reindexes, fun none => some (List.isEmpty_iff.mp none)⟩

theorem readWorker_of_options {request : IndexWorkerRequest}
    (valid : validateWorkerRequest request = .ok ()) {executable : Bytes} {tokens : List Bytes}
    {options : WorkerOptions} (read : tokens.foldlM readOption {} = some options)
    (roots : options.roots = request.roots) :
    readWorker (executable :: lit "--index-worker" :: operationName request.operation :: tokens) =
      .ok (request.operation, options) := by
  obtain ⟨addsOne, reindexesNone⟩ := roots_of_valid valid
  have reindex : lit "reindex" = operationName .reindex := rfl
  have add : lit "add" = operationName .addRoot := rfl
  have replace : lit "replace" = operationName .replaceRoots := rfl
  have enough : ¬ (executable :: lit "--index-worker" :: operationName request.operation ::
      tokens).length < 3 := by
    simp only [List.length_cons]
    omega
  have options' : (executable :: lit "--index-worker" :: operationName request.operation ::
      tokens).drop 3 = tokens := rfl
  have operation : (executable :: lit "--index-worker" :: operationName request.operation ::
      tokens).getD 2 [] = operationName request.operation := rfl
  simp only [readWorker]
  rw [if_neg enough, options', operation, read, lower_operationName, reindex, add, replace]
  simp only [operationName_inj, roots]
  cases named : request.operation with
  | reindex => simp [reindexesNone named]
  | addRoot => simp [addsOne named]
  | replaceRoots => simp

/-- The argument vector of the started process: C strings. -/
def argv (executable : Bytes) (arguments : List Bytes) : List Bytes :=
  cstr executable :: arguments.map cstr

theorem notMem_shardMode {count : Int} {mode : Bytes} (asked : shardMode count = some mode) :
    (0 : UInt8) ∉ mode := by
  simp only [shardMode] at asked
  split at asked
  · rename_i chosen
    cases asked
    split
    · decide
    · cases count with
      | negSucc n => exact absurd chosen (by omega)
      | ofNat n =>
        intro member
        have digit := isDigit_of_mem_decimal member
        revert digit
        decide
  · contradiction

/-- No argument of a worker holds a NUL byte. -/
theorem notMem_workerOptions (request : IndexWorkerRequest) :
    ∀ token ∈ workerOptions request, (0 : UInt8) ∉ token := by
  intro token member
  rcases List.mem_append.mp member with shards | root
  · obtain ⟨mode, asked, rfl⟩ := List.mem_map.mp shards
    have clear := notMem_shardMode (Option.mem_toList.mp asked)
    have option : (0 : UInt8) ∉ lit "--shards=" := by decide
    exact fun zero => (List.mem_append.mp zero).elim option clear
  · obtain ⟨path, -, rfl⟩ := List.mem_map.mp root
    exact notMem_hexEncode path

theorem notMem_diagnosticOption (path : Bytes) : (0 : UInt8) ∉ diagnosticOption path := by
  have option : (0 : UInt8) ∉ lit "--diagnostic=" := by decide
  exact fun zero => (List.mem_append.mp zero).elim option (notMem_hexEncode path)

theorem map_cstr {tokens : List Bytes} (clear : ∀ token ∈ tokens, (0 : UInt8) ∉ token) :
    tokens.map cstr = tokens := by
  conv_rhs => rw [← List.map_id tokens]
  exact List.map_congr_left fun token member => cstr_of_notMem (clear token member)

theorem cstr_operationName (operation : IndexWorkerOperation) :
    cstr (operationName operation) = operationName operation := by
  cases operation <;> decide

/-- The shard count a recovered mode stands for. -/
def modeCount : Option Bytes → Int
  | none => -1
  | some mode => if mode = lit "auto" then 0 else digitsValue mode

theorem modeCount_shardMode {request : IndexWorkerRequest}
    (valid : validateWorkerRequest request = .ok ()) :
    modeCount (shardMode request.shardCount) = request.shardCount := by
  have table : ∀ count ∈ ([-1, 0, 1, 2, 4, 8, 16] : List Int),
      modeCount (shardMode count) = count := by decide +kernel
  exact table _ (shardCount_of_valid valid)

/-- A valid request arrives at the worker as it was: operation, roots and shard mode, with
or without a diagnostic option anywhere among the others. -/
theorem worker_arguments_round_trip (request : IndexWorkerRequest)
    (valid : validateWorkerRequest request = .ok ()) (executable : Bytes) :
    readWorker (argv executable (workerArguments request)) = .ok (request.operation,
        { roots := request.roots, shards := shardMode request.shardCount }) ∧
    (∀ path front back, workerOptions request = front ++ back →
      readWorker (argv executable (lit "--index-worker" :: operationName request.operation ::
          (front ++ diagnosticOption path :: back))) = .ok (request.operation,
        { roots := request.roots, diagnosticPath := path
          shards := shardMode request.shardCount })) ∧
    modeCount (shardMode request.shardCount) = request.shardCount := by
  have clear := notMem_workerOptions request
  refine ⟨?_, ?_, modeCount_shardMode valid⟩
  · simp only [argv, workerArguments]
    rw [List.map_cons, List.map_cons, map_cstr clear, cstr_operationName]
    exact readWorker_of_options valid (foldlM_workerOptions valid) rfl
  · intro path front back split
    rw [split] at clear
    have plain : (front ++ diagnosticOption path :: back).map cstr =
        front ++ diagnosticOption path :: back := by
      apply map_cstr
      intro token member
      rcases List.mem_append.mp member with early | later
      · exact clear token (List.mem_append_left _ early)
      · rcases List.mem_cons.mp later with rfl | late
        · exact notMem_diagnosticOption path
        · exact clear token (List.mem_append_right _ late)
    simp only [argv]
    rw [List.map_cons, List.map_cons, plain, cstr_operationName]
    exact readWorker_of_options valid (foldlM_with_diagnostic valid split path) rfl

/-- Two roots, one of them with bytes that are no text, under four shards. -/
theorem two_roots_round_trip :
    readWorker (argv (lit "SuchCLI") (workerArguments
        { operation := .replaceRoots, roots := [lit "/srv/a b", [47, 255, 45]], shardCount := 4 })) =
      .ok (.replaceRoots, { roots := [lit "/srv/a b", [47, 255, 45]], shards := some (lit "4") }) :=
  (worker_arguments_round_trip
    { operation := .replaceRoots, roots := [lit "/srv/a b", [47, 255, 45]], shardCount := 4 }
    (by decide +kernel) (lit "SuchCLI")).1

end Such.IndexWorkerLauncher
