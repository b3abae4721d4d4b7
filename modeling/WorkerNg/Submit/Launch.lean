/-
# How the job script for PBS starts the clients

The end of `conf/pbs_jobscript.tmpl`, `compute_env_vars` in `scripts/worker_functions.sh`,
and `write_server_info` in `server.cpp`, whose file the job script reads.

The script cuts the list of nodes into blocks of `num_cores` entries, one a client, and gives
a shell on the first node of each block a here document to read.  The document is that of the
template; what the shell reads of it is found by replacing its parameters and cutting the
rest into tokens (`launch_spec`).

The lists of nodes are arrays, and `$nodes` and `$client_nodes` are their first elements only.
So the functions that compute the cores and the host file of a client are called with one node
each.  With one core a client it has its host file, and the first client has the core `+0`;
all others have `--numactl` without a value.  With more cores no client has either.

Most expansions of the script are not quoted.  So the theorem is about directories, nodes,
job ids and variables that mean nothing to the shell (`Clean`).
-/

import WorkerNg.Lib.HereDocument
import WorkerNg.Submit.HostFile
import WorkerNg.Submit.Jobscript
import WorkerNg.Wire.Uuid

namespace WorkerNg
namespace Submit

open Lines Shell Wire

/-! ### The file of the server -/

/-- The address that the server shows. -/
def infoStr (hostname : Text) (portNr : ℕ) : Text :=
  "tcp://".toList ++ hostname ++ ':' :: pyStr portNr

/-- What `write_server_info` writes. -/
def serverInfo {Uuid : Type} (ops : UuidText Uuid) (id : Uuid) (infoStr : Text) : Text :=
  ops.put id ++ ' ' :: infoStr ++ ['\n']

/-- `cut -d ' ' -f n`, on one line. -/
def cutLine (n : ℕ) (line : Text) : Text :=
  if ' ' ∈ line then (line.splitOn ' ').getD (n - 1) [] else line

/-- `cut -d ' ' -f n`. -/
def cut (n : ℕ) (file : Text) : Text := unlines '\n' ((lines '\n' file).map (cutLine n))

/-! ### The job script -/

/-- A variable more for the client. -/
def addEnvVar (envVariables envVar : Text) : Text :=
  envVariables ++ " --env \"".toList ++ envVar ++ "\"".toList

/-- `compute_env_vars`, where `grepEnv` is what `env | grep -e` writes for an expression. -/
def computeEnvVars (g : Globbing) (grepEnv : Text → Text) (exprs : List Text) : Text :=
  echo (fields g ((exprs.flatMap (fields g)).foldl (fun envVariables expr =>
    (fields g (substitute (grepEnv expr))).foldl addEnvVar envVariables) []))

/-- `[ $s ]`, for a text that is no operator of `[`. -/
def isSet (g : Globbing) (s : Text) : Bool :=
  match fields g s with
  | [w] => !w.isEmpty
  | _ => false

/-- What the job script finds when it runs: the variables `num_cores`, which it does not set,
and `PBS_JOBID`, what `cat $PBS_NODEFILE` and `env | grep -e` write, and the files that can
be read. -/
structure JobEnvironment where
  numCores : Option ℕ
  numCores_ne : numCores ≠ some 0
  jobId : Text
  nodefile : Text
  grepEnv : Text → Text
  files : Text → Option Text

/-- A shell on another node, and what it reads; no node where `ssh` is called with anything
but the name of one. -/
structure SshCommand where
  node : Option Text
  input : Option Text
deriving DecidableEq

/-- What `ssh` takes for the node. -/
def sshNode : List Text → Option Text
  | [w] => if w.head? = some '-' then none else some w
  | _ => none

/-- The lines of the here document. -/
def PbsTorque.hereDocument : List (List Piece) := (PbsTorque.template.drop 87).take 4

section Launch

variable (g : Globbing) (e : JobEnvironment) (cwd : Text)

/-- `SERVER_INFO={server_info}`, where the path is one word up to `${PBS_JOBID}`. -/
def serverInfoVar : Option Text :=
  match readWords (joinPath cwd "worker_".toList) with
  | some [w] => some (w ++ e.jobId ++ "/server_info.txt".toList)
  | _ => none

/-- The files that a command reads which has `$s` behind its options, where it reads no
others. -/
def operandFiles (s : Text) : Option (List Text) :=
  if fields g s = [] ∨ ∃ w ∈ fields g s, w.head? = some '-' then none
  else some ((fields g s).filterMap e.files)

/-- `$(cut -d ' ' -f n $SERVER_INFO)`, for these files. -/
def cutFiles (n : ℕ) (infos : List Text) : Text := substitute (infos.flatMap (cut n))

/-- `nodes=($(cat $PBS_NODEFILE))`. -/
def JobEnvironment.nodes : List Text := fields g (substitute e.nodefile)

/-- The number of cores for a client: one, if the variable is not set. -/
def JobEnvironment.cores : ℕ := e.numCores.getD 1

/-- The value of `numactl_opt` for a client. -/
def numactlOpt (clientNum : ℕ) : Text :=
  let result :=
    computeNumactlArgs e.cores ((fields g ((e.nodes g).headD [])).flatMap (fields g))
  let numactlArgs := fields g (substitute result.stdout)
  if isSet g (pyStr result.status) then "--numactl ".toList ++ numactlArgs.getD clientNum [] else []

/-- `client_nodes`, for a client. -/
def clientNodes (clientNum : ℕ) : List Text :=
  (block e.cores (e.nodes g) clientNum).flatMap (fields g)

variable (keys : Dict Text ℕ → List Text)

/-- The value of `host_info` for a client. -/
def hostInfo (clientNum : ℕ) : Text :=
  match computeHostFile g keys e.cores (fields g ((clientNodes g e clientNum).headD [])) with
  | .ok text => substitute text
  | .error _ => []

variable (infos exprs : List Text)

/-- The parameters of the here document. -/
def clientEnv (clientNum : ℕ) (name : Text) : Text :=
  if name = "uuid".toList then cutFiles 1 infos
  else if name = "server".toList then cutFiles 2 infos
  else if name = "env_variables".toList then substitute (computeEnvVars g e.grepEnv exprs)
  else if name = "numactl_opt".toList then numactlOpt g e clientNum
  else if name = "host_info".toList then hostInfo g e keys clientNum
  else if name = "PBS_JOBID".toList then e.jobId
  else []

variable (config : JobConfig) (options : JobOptions) (shebang : Option Text) (directives : Text)

/-- The body of the loop over the clients, up to `ssh`. -/
def launchClient (clientNum : ℕ) : SshCommand where
  node := sshNode (fields g ((clientNodes g e clientNum).headD []))
  input := expandHere (clientEnv g e keys infos exprs clientNum) .text
    (fill .pbs cwd config options shebang directives PbsTorque.hereDocument)

/-- From the file of the server to the loop over the clients; `{env_var_exprs}` are the
arguments of `compute_env_vars`. -/
def launch : Option (List SshCommand) := do
  let infos ← operandFiles g e (← serverInfoVar e cwd)
  let exprs ← readWords (config.workerEnvVarExprs ++ " ".toList ++ config.schedulerEnvVarExprs)
  some ((List.range ((e.nodes g).length / e.cores)).map
    (launchClient g e cwd keys infos exprs config options shebang directives))

end Launch

/-! ### Reading back the file of the server -/

section ServerInfo

variable {Uuid : Type} (ops : UuidText Uuid) (id : Uuid) {address : Text}

/-- Letters, digits and dashes are neither blanks nor special between double quotes. -/
theorem plain_of_isAlphanum {v : Text} (hv : ∀ c ∈ v, c.isAlphanum ∨ c = '-') : Plain v := by
  intro c hc
  have h := hv c hc
  have hne : ∀ d, d.isAlphanum = false → d ≠ '-' → c ≠ d := by
    rintro d hd hdash rfl
    rcases h with h | h
    · rw [hd] at h
      cases h
    · exact hdash h
  constructor
  · simp [isIfs, hne ' ' (by decide) (by decide), hne '\t' (by decide) (by decide),
      hne '\n' (by decide) (by decide)]
  · simp [isQuotable, isExpansion, hne '"' (by decide) (by decide),
      hne '\\' (by decide) (by decide), hne '$' (by decide) (by decide),
      hne '`' (by decide) (by decide)]

theorem plain_put : Plain (ops.put id) := plain_of_isAlphanum (ops.put_chars id)

/-- **The job script finds the UUID and the address of the server.** -/
theorem cutFiles_serverInfo (haddress : ∀ c ∈ address, isIfs c = false) :
    cutFiles 1 [serverInfo ops id address] = ops.put id ∧
      cutFiles 2 [serverInfo ops id address] = address := by
  have hifs : ∀ {s : Text} {c : Char}, (∀ d ∈ s, isIfs d = false) → isIfs c = true →
      c ∉ s := fun hs hc hmem => absurd (hs _ hmem) (by simp [hc])
  have hid : ∀ c ∈ ops.put id, isIfs c = false := (plain_put ops id).not_ifs
  have hline : '\n' ∉ ops.put id ++ ' ' :: address := by
    rw [List.mem_append, List.mem_cons, not_or, not_or]
    exact ⟨hifs hid rfl, by decide, hifs haddress rfl⟩
  have hcut : ∀ n, cut n (serverInfo ops id address) =
      [ops.put id, address].getD (n - 1) [] ++ ['\n'] := by
    intro n
    rw [cut, serverInfo, lines_line hline, List.map_singleton, cutLine, if_pos (by simp),
      List.splitOn_append_cons_self_of_not_mem (hifs hid rfl),
      List.splitOn_eq_singleton (hifs haddress rfl)]
    simp [unlines]
  rw [cutFiles, cutFiles, List.flatMap_singleton, List.flatMap_singleton, hcut, hcut]
  exact ⟨substitute_line (hifs hid rfl), substitute_line (hifs haddress rfl)⟩

end ServerInfo

/-! ### The here document -/

/-- Blanks. -/
def blanks (n : ℕ) : Text := List.replicate n ' '

/-- The here document, cut at its parameters; `dir` is the directory that the command was
called in, with a `/` at its end. -/
def documentParts (path dir : Text) : List HerePart :=
  [.plain (blanks 8), .plain "source".toList, .plain [' ', '"'], .plain path,
    .plain "/conf/worker_env.sh".toList, .plain ['"', ';', '\n'],
    .plain (blanks 8), .plain ['"'], .plain path, .plain "/bin/worker_client".toList,
    .plain ['"', ' '], .continuation,
    .plain (blanks 12), .plain "--server".toList, .plain [' ', '"'], .name "server".toList '"',
    .plain [' '], .plain "--uuid".toList, .plain [' ', '"'], .name "uuid".toList '"',
    .plain [' '], .plain "--log_prefix".toList, .plain [' ', '"'], .plain dir,
    .plain "worker_".toList, .brace "PBS_JOBID".toList, .plain "/client_".toList,
    .plain ['"', ' '], .continuation,
    .plain (blanks 12), .name "env_variables".toList ' ', .name "numactl_opt".toList ' ',
    .plain "--host_info".toList, .plain [' ', '"'], .name "host_info".toList '"',
    .plain [' ', '>', '>', ' '], .plain "clients.txt".toList, .plain ['\n']]

/-- What stands in front of the names in a directory. -/
theorem joinPath_eq (directory : Text) : ∃ sep, Literal sep ∧
    ∀ name, joinPath directory name = directory ++ sep ++ name := by
  by_cases h : directory.getLast? = some '/'
  · refine ⟨[], by decide, fun name => ?_⟩
    rw [joinPath, if_pos h, List.append_nil]
  · refine ⟨['/'], by decide, fun name => ?_⟩
    rw [joinPath, if_neg h, List.append_assoc, List.singleton_append]

/-- The lines of the template. -/
theorem hereDocument_eq : PbsTorque.hereDocument =
    [[.text "        source \"", .workerPath, .text "/conf/worker_env.sh\";"],
      [.text "        \"", .workerPath, .text "/bin/worker_client\" \\"],
      [.text "            --server \"$server\" --uuid \"$uuid\" ", .clientLogPrefixOpt,
        .text " \\"],
      [.text
        "            $env_variables $numactl_opt --host_info \"$host_info\" >> clients.txt"]] :=
  rfl

/-- The prefix of the names of the log files, with a parameter in it. -/
theorem clientLogPrefix_eq {cwd dir : Text} (hdir : ∀ name, joinPath cwd name = dir ++ name) :
    joinPath (joinPath cwd (getWorkerDirPath .pbs)) "client_".toList =
      dir ++ ("worker_".toList ++ '$' :: '\x7b' :: ("PBS_JOBID".toList ++
        '\x7d' :: "/client_".toList)) := by
  have hworkerDir : getWorkerDirPath .pbs =
      "worker_".toList ++ '$' :: '\x7b' :: ("PBS_JOBID".toList ++ ['\x7d']) := by
    decide
  have hslash : "/client_".toList = '/' :: "client_".toList := by decide
  have hlast : (dir ++ getWorkerDirPath .pbs).getLast? ≠ some '/' := by
    rw [hworkerDir]
    simp
  rw [hdir, joinPath, if_neg hlast, hworkerDir, hslash]
  simp only [List.append_assoc, List.cons_append, List.nil_append]

/-- **The document is made of these parts.** -/
theorem fill_hereDocument (config : JobConfig) (options : JobOptions) (shebang : Option Text)
    (directives : Text) {cwd dir : Text} (hdir : ∀ name, joinPath cwd name = dir ++ name) :
    fill .pbs cwd config options shebang directives PbsTorque.hereDocument =
      (documentParts config.path dir).flatMap HerePart.source := by
  have hsource : "        source \"".toList =
      blanks 8 ++ ("source".toList ++ [' ', '"']) := by decide
  have henv : "/conf/worker_env.sh\";".toList = "/conf/worker_env.sh".toList ++ ['"', ';'] := by
    decide
  have hindent : "        \"".toList = blanks 8 ++ ['"'] := by decide
  have hclient : "/bin/worker_client\" \\".toList =
      "/bin/worker_client".toList ++ ['"', ' ', '\\'] := by decide
  have hserver : "            --server \"$server\" --uuid \"$uuid\" ".toList =
      blanks 12 ++ ("--server".toList ++ ([' ', '"'] ++ ('$' :: ("server".toList ++ ['"', ' '] ++
        ("--uuid".toList ++ ([' ', '"'] ++ ('$' :: ("uuid".toList ++ ['"', ' '])))))))) := by
    rfl
  have hlog : "--log_prefix \"".toList = "--log_prefix".toList ++ [' ', '"'] := by decide
  have hlast :
      "            $env_variables $numactl_opt --host_info \"$host_info\" >> clients.txt".toList =
        blanks 12 ++ ('$' :: ("env_variables".toList ++ (' ' :: '$' :: ("numactl_opt".toList ++
          (' ' :: ("--host_info".toList ++ ([' ', '"'] ++ ('$' :: ("host_info".toList ++
            (['"', ' ', '>', '>', ' '] ++ "clients.txt".toList)))))))))) := by
    rfl
  have hcontinue : " \\".toList = [' ', '\\'] := by decide
  have hquote : "\"".toList = ['"'] := by decide
  rw [hereDocument_eq, fill]
  simp only [unlines, List.map_cons, List.map_nil, List.flatMap_cons, List.flatMap_nil,
    List.append_nil, templParams, clientLogPrefix_eq hdir, hsource, henv, hindent, hclient,
    hserver, hlog, hlast, hcontinue, hquote, documentParts, HerePart.source, List.append_assoc,
    List.cons_append, List.nil_append]

/-! ### What the other shell reads -/

/-- What a client is started with. -/
structure ClientArgs where
  server : Text
  uuid : Text
  logPrefix : Text
  env : List Text
  numactl : Option Text
  hostInfo : Text

/-- The command line of the client. -/
def ClientArgs.argv (args : ClientArgs) : List Text :=
  ["--server".toList, args.server, "--uuid".toList, args.uuid, "--log_prefix".toList,
    args.logPrefix] ++ args.env.flatMap (fun v => ["--env".toList, v]) ++
      "--numactl".toList :: args.numactl.toList ++ ["--host_info".toList, args.hostInfo]

/-- The commands for the other shell: it sets its environment, and starts the client with
these arguments. -/
def clientTokens (path : Text) (args : ClientArgs) : List Token :=
  [.word "source".toList, .word (path ++ "/conf/worker_env.sh".toList), .operator ';', .newline,
    .word (path ++ "/bin/worker_client".toList)] ++ args.argv.map .word ++
      [.operator '>', .operator '>', .word "clients.txt".toList, .newline]

/-- A variable for the client, before it is read by the other shell. -/
def envWords (v : Text) : List Text := ["--env".toList, '"' :: (v ++ ['"'])]

theorem reads_blanks (n : ℕ) : Reads (blanks n) [] := by
  induction n with
  | zero => exact reads_nil
  | succ n ih => exact reads_blank.append ih

/-- The variables are read one by one. -/
theorem reads_envWords {vs : List Text} (h : ∀ v ∈ vs, Quotable v) :
    Reads ([' '].intercalate (vs.flatMap envWords) ++ [' '])
      ((vs.flatMap fun v => ["--env".toList, v]).map .word) := by
  have hparts : List.Forall₂ (fun part ts => Reads (part ++ [' ']) ts) (vs.flatMap envWords)
      (vs.flatMap fun v => [[.word "--env".toList], [.word v]]) := by
    induction vs with
    | nil => exact .nil
    | cons v vs ih =>
        rw [List.forall_mem_cons] at h
        refine .cons (reads_plain (by decide) (by decide)) (.cons ?_ (ih h.2))
        rw [List.cons_append, List.append_assoc]
        exact reads_doubleQuoted h.1
  have hread := reads_intercalate hparts
  rwa [List.flatten_eq_flatMap, List.flatMap_assoc, show (fun v : Text => List.flatMap id
    [[Token.word "--env".toList], [.word v]]) = fun v => ["--env".toList, v].map .word from rfl,
    ← List.map_flatMap] at hread

/-- The arguments come through quotes and blanks. -/
structure ClientArgs.Readable (args : ClientArgs) : Prop where
  server : Quotable args.server
  uuid : Quotable args.uuid
  logPrefix : Quotable args.logPrefix
  env : ∀ v ∈ args.env, Quotable v
  numactl : ∀ arg ∈ args.numactl, arg.all isOrdinary = true ∧ arg ≠ []
  hostInfo : Quotable args.hostInfo

/-- The parameters of the here document give these arguments. -/
structure ClientArgs.From (args : ClientArgs) (param : Text → Text) (dir : Text) : Prop where
  server : param "server".toList = args.server
  uuid : param "uuid".toList = args.uuid
  logPrefix : dir ++ "worker_".toList ++ param "PBS_JOBID".toList ++ "/client_".toList =
    args.logPrefix
  env : param "env_variables".toList = [' '].intercalate (args.env.flatMap envWords)
  numactl : param "numactl_opt".toList = "--numactl ".toList ++ args.numactl.getD []
  hostInfo : param "host_info".toList = args.hostInfo

/-- **What the other shell reads.** -/
theorem lex_document {path dir : Text} {args : ClientArgs} {param : Text → Text}
    (hpath : Quotable path) (hread : args.Readable) (hfrom : args.From param dir) :
    lex ((documentParts path dir).flatMap (HerePart.value param)) =
      some (clientTokens path args) := by
  have hopt : Reads (args.numactl.getD [] ++ [' ']) (args.numactl.toList.map .word) := by
    cases hn : args.numactl with
    | none => exact reads_blank
    | some arg =>
        obtain ⟨hordinary, hne⟩ := hread.numactl arg hn
        exact reads_plain hordinary hne
  have hparts : List.Forall₂ Reads
      [blanks 8, "source".toList ++ [' '],
        '"' :: ((path ++ "/conf/worker_env.sh".toList) ++ ['"', ';']), ['\n'], blanks 8,
        '"' :: ((path ++ "/bin/worker_client".toList) ++ ['"', ' ']), blanks 12,
        "--server".toList ++ [' '], '"' :: (args.server ++ ['"', ' ']), "--uuid".toList ++ [' '],
        '"' :: (args.uuid ++ ['"', ' ']), "--log_prefix".toList ++ [' '],
        '"' :: (args.logPrefix ++ ['"', ' ']), blanks 12,
        [' '].intercalate (args.env.flatMap envWords) ++ [' '], "--numactl".toList ++ [' '],
        args.numactl.getD [] ++ [' '], "--host_info".toList ++ [' '],
        '"' :: (args.hostInfo ++ ['"', ' ']), ['>'], ['>'], [' '], "clients.txt".toList ++ ['\n']]
      [[], [.word "source".toList], [.word (path ++ "/conf/worker_env.sh".toList), .operator ';'],
        [.newline], [], [.word (path ++ "/bin/worker_client".toList)], [],
        [.word "--server".toList], [.word args.server], [.word "--uuid".toList],
        [.word args.uuid], [.word "--log_prefix".toList], [.word args.logPrefix], [],
        (args.env.flatMap fun v => ["--env".toList, v]).map .word, [.word "--numactl".toList],
        args.numactl.toList.map .word, [.word "--host_info".toList], [.word args.hostInfo],
        [.operator '>'], [.operator '>'], [], [.word "clients.txt".toList, .newline]] :=
    .cons (reads_blanks 8) <| .cons (reads_plain (by decide) (by decide)) <|
    .cons (reads_doubleQuoted_operator (hpath.append (by decide)) rfl) <| .cons reads_newline <|
    .cons (reads_blanks 8) <| .cons (reads_doubleQuoted (hpath.append (by decide))) <|
    .cons (reads_blanks 12) <| .cons (reads_plain (by decide) (by decide)) <|
    .cons (reads_doubleQuoted hread.server) <| .cons (reads_plain (by decide) (by decide)) <|
    .cons (reads_doubleQuoted hread.uuid) <| .cons (reads_plain (by decide) (by decide)) <|
    .cons (reads_doubleQuoted hread.logPrefix) <| .cons (reads_blanks 12) <|
    .cons (reads_envWords hread.env) <| .cons (reads_plain (by decide) (by decide)) <|
    .cons hopt <| .cons (reads_plain (by decide) (by decide)) <|
    .cons (reads_doubleQuoted hread.hostInfo) <| .cons (reads_operator rfl) <|
    .cons (reads_operator rfl) <| .cons reads_blank <|
    .cons (reads_plain_newline (by decide) (by decide)) .nil
  have hlex := (reads_flatten hparts).lex
  have hblank : "--numactl ".toList = "--numactl".toList ++ [' '] := by decide
  simp only [documentParts, HerePart.value, List.flatMap_cons, List.flatMap_nil, hfrom.server,
    hfrom.uuid, hfrom.env, hfrom.numactl, hfrom.hostInfo, hblank, clientTokens, ClientArgs.argv,
    ← hfrom.logPrefix, List.map_append, List.map_cons, List.map_nil, List.append_assoc,
    List.cons_append, List.nil_append, List.append_nil]
  simp only [List.flatten_cons, List.flatten_nil, ← hfrom.logPrefix, List.append_assoc,
    List.cons_append, List.nil_append, List.append_nil] at hlex
  exact hlex

/-! ### The parameters -/

section Parameters

/-- The variables that the client gets. -/
def envVars (grepEnv : Text → Text) (exprs : List Text) : List Text :=
  ((exprs.flatMap words).map grepEnv).flatMap words

theorem isOne_envWords {v w : Text} (h : IsOne v) (hw : w ∈ envWords v) : IsOne w := by
  rcases List.mem_pair.1 hw with rfl | rfl
  · decide
  · exact ⟨List.cons_ne_nil _ _, List.forall_mem_cons.2
      ⟨rfl, List.forall_mem_append.2 ⟨h.not_ifs, List.forall_mem_singleton.2 rfl⟩⟩⟩

/-- **A variable more** is two words more. -/
theorem words_addEnvVar {v : Text} (h : IsOne v) (s : Text) :
    words (addEnvVar s v) = words s ++ envWords v := by
  have henv : " --env \"".toList = ' ' :: ("--env".toList ++ [' ', '"']) := by decide
  have hquote : "\"".toList = ['"'] := by decide
  have hname : IsOne "--env".toList := isOne_envWords h List.mem_cons_self
  have hvalue : IsOne ('"' :: (v ++ ['"'])) := isOne_envWords h (List.mem_cons_of_mem _ (by simp))
  rw [addEnvVar, henv, hquote, List.append_assoc, List.append_assoc, List.cons_append,
    words_append_ifs rfl, List.append_assoc, List.cons_append, words_append_ifs rfl, hname.words]
  exact congrArg _ (congrArg _ hvalue.words)

theorem words_foldl_addEnvVar {vs : List Text} (h : ∀ v ∈ vs, IsOne v) (s : Text) :
    words (vs.foldl addEnvVar s) = words s ++ vs.flatMap envWords := by
  induction vs generalizing s with
  | nil => simp
  | cons v vs ih =>
      rw [List.forall_mem_cons] at h
      rw [List.foldl_cons, ih h.2, words_addEnvVar h.1, List.append_assoc, List.flatMap_cons]

theorem substitute_echo {ws : List Text} (h : ∀ w ∈ ws, IsOne w) :
    substitute (echo ws) = [' '].intercalate ws := by
  refine substitute_line fun hmem => ?_
  induction ws with
  | nil => simp at hmem
  | cons w ws ih =>
      rw [List.forall_mem_cons] at h
      have hw : '\n' ∉ w := fun hw => absurd (h.1.not_ifs _ hw) (by decide)
      cases ws with
      | nil => exact hw (by simpa using hmem)
      | cons v ws =>
          rw [List.intercalate_cons_cons, List.append_assoc, List.mem_append,
            List.mem_append] at hmem
          exact (hmem.resolve_left hw).elim (by decide) (ih h.2)

theorem noGlob_envWords {v w : Text} (h : NoGlob v) (hw : w ∈ envWords v) : NoGlob w := by
  rcases List.mem_pair.1 hw with rfl | rfl
  · decide
  · exact List.forall_mem_cons.2 ⟨rfl, h.append (by decide)⟩

variable {g : Globbing}

/-- **The variables for the client.** -/
theorem substitute_computeEnvVars {grepEnv : Text → Text} {exprs : List Text}
    (hexprs : ∀ expr ∈ exprs.flatMap words, NoGlob expr)
    (henv : ∀ v ∈ envVars grepEnv exprs, NoGlob v) :
    substitute (computeEnvVars g grepEnv exprs) =
      [' '].intercalate ((envVars grepEnv exprs).flatMap envWords) := by
  have hone : ∀ v ∈ envVars grepEnv exprs, IsOne v := isOne_of_mem_flatMap
  have hfold : (exprs.flatMap (fields g)).foldl (fun envVariables expr =>
      (fields g (substitute (grepEnv expr))).foldl addEnvVar envVariables) [] =
        (envVars grepEnv exprs).foldl addEnvVar [] := by
    rw [flatMap_fields g hexprs, envVars, ← flatMap_fields g henv, List.flatMap_map]
    generalize exprs.flatMap words = exprs
    rw [List.foldl_flatMap]
    simp only [fields, words_substitute]
  have hwords : ∀ w ∈ (envVars grepEnv exprs).flatMap envWords, IsOne w ∧ NoGlob w := by
    intro w hw
    obtain ⟨v, hv, hw⟩ := List.mem_flatMap.1 hw
    exact ⟨isOne_envWords (hone v hv) hw, noGlob_envWords (henv v hv) hw⟩
  have hargs : words ((envVars grepEnv exprs).foldl addEnvVar []) =
      (envVars grepEnv exprs).flatMap envWords := by
    rw [words_foldl_addEnvVar hone, words_nil, List.nil_append]
  rw [computeEnvVars, hfold, fields_eq_words g (by
      rw [hargs]
      exact fun w hw => (hwords w hw).2), hargs]
  exact substitute_echo fun w hw => (hwords w hw).1

/-- One node has one core for the first client, if it has one core. -/
theorem stdout_computeNumactlArgs (numCores : ℕ) (node : Text) :
    (computeNumactlArgs numCores [node]).stdout =
      echo (if numCores = 1 then ["+0".toList] else []) := by
  have hloop : Numactl.loop numCores 0 [node] .init = some ⟨[[]], "+0".toList, 1, node⟩ := by
    simp [Numactl.loop, Numactl.step, Numactl.newClient, Numactl.addCore, Numactl.init, unquoted,
      testZ, testN, pyStr]
  have hmod : 1 % numCores = 0 ↔ numCores = 1 := by
    rw [← Nat.dvd_iff_mod_eq_zero, Nat.dvd_one]
  rw [computeNumactlArgs, hloop]
  dsimp only
  rw [if_pos (testN_eq_true _)]
  by_cases hone : numCores = 1
  · rw [if_pos (hmod.2 hone), if_pos hone]
    rfl
  · rw [if_neg fun hm => hone (hmod.1 hm), if_neg hone]
    rfl

variable {keys : Dict Text ℕ → List Text} {e : JobEnvironment}

theorem isSet_pyStr (n : ℕ) : isSet g (pyStr n) = true := by
  rw [isSet, (isOne_pyStr n).fields (noGlob_pyStr n)]
  simpa using (isOne_pyStr n).ne_nil

/-- The nodes of the file, none of which is a pattern. -/
theorem JobEnvironment.nodes_eq (h : ∀ node ∈ words e.nodefile, NoGlob node) :
    e.nodes g = words e.nodefile := by
  rw [JobEnvironment.nodes, fields_eq_words g (by rwa [words_substitute]), words_substitute]

/-- The core of a client. -/
def pinned (numCores clientNum : ℕ) : Option Text :=
  if numCores = 1 ∧ clientNum = 0 then some "+0".toList else none

/-- The option for `numactl` is there for all clients, and its value for one at most. -/
theorem numactlOpt_eq {node : Text} (hnode : (e.nodes g).head? = some node) (hone : IsOne node)
    (hglob : NoGlob node) (clientNum : ℕ) :
    numactlOpt g e clientNum = "--numactl ".toList ++ (pinned e.cores clientNum).getD [] := by
  have hargs : fields g (substitute (echo (if e.cores = 1 then ["+0".toList] else []))) =
      if e.cores = 1 then ["+0".toList] else [] := by
    have hwords : ∀ w ∈ if e.cores = 1 then ["+0".toList] else [], IsOne w ∧ NoGlob w := by
      intro w hw
      split_ifs at hw
      · obtain rfl := List.mem_singleton.1 hw
        exact ⟨by decide, by decide⟩
      · cases hw
    rw [substitute_echo fun w hw => (hwords w hw).1,
      fields_intercalate g (fun w hw => (hwords w hw).1) fun w hw => (hwords w hw).2]
  rw [numactlOpt, List.headD_eq_head?_getD, hnode, Option.getD_some, hone.fields hglob,
    List.flatMap_singleton, hone.fields hglob, isSet_pyStr, if_pos rfl, stdout_computeNumactlArgs,
    hargs, pinned]
  congr 1
  by_cases hc : e.cores = 1
  · cases clientNum <;> simp [hc]
  · simp [hc]

/-- A client starts on the first node of its block. -/
theorem head_clientNodes {nodes : List Text} (hnodes : e.nodes g = nodes)
    (hone : ∀ node ∈ nodes, IsOne node) (hglob : ∀ node ∈ nodes, NoGlob node) {clientNum : ℕ}
    (hk : clientNum < nodes.length / e.cores) :
    ∃ node, nodes[clientNum * e.cores]? = some node ∧
      (clientNodes g e clientNum).headD [] = node := by
  have hcores : 0 < e.cores := by
    by_contra hzero
    rw [Nat.eq_zero_of_not_pos hzero, Nat.div_zero] at hk
    omega
  have hlt : clientNum * e.cores < nodes.length := by
    have hle := Nat.div_mul_le_self nodes.length e.cores
    have hsucc := Nat.mul_le_mul_right e.cores (Nat.succ_le_of_lt hk)
    rw [Nat.succ_mul] at hsucc
    omega
  have hmem : ∀ node ∈ block e.cores nodes clientNum, node ∈ nodes := fun node hnode =>
    List.mem_of_mem_drop (List.mem_of_mem_take hnode)
  have hwords : (block e.cores nodes clientNum).flatMap words = block e.cores nodes clientNum :=
    flatMap_words fun node hnode => hone node (hmem node hnode)
  refine ⟨_, List.getElem?_eq_getElem hlt, ?_⟩
  rw [clientNodes, hnodes, flatMap_fields g (by
      rw [hwords]
      exact fun node hnode => hglob node (hmem node hnode)),
    hwords, List.headD_eq_head?_getD, block, List.head?_take, if_neg (by omega),
    List.head?_drop, List.getElem?_eq_getElem hlt, Option.getD_some]

/-- Its host file is asked for with one node. -/
theorem hostInfo_eq (hkeys : ∀ d, (keys d).Perm (d.entries.map Prod.fst)) (hcores : 0 < e.cores)
    {clientNum : ℕ} {node : Text} (hnode : (clientNodes g e clientNum).headD [] = node)
    (hone : IsOne node) (hglob : NoGlob node) : hostInfo g e keys clientNum =
      if e.cores = 1 then node ++ ":1".toList else [] := by
  rw [hostInfo, hnode, hone.fields hglob]
  by_cases hc : e.cores = 1
  · have hle : e.cores ≤ [node].length := hc.le
    have hwords : [node].flatMap words = [node] := flatMap_words (by simpa using hone)
    obtain ⟨hosts, hperm, htext⟩ := computeHostFile_eq g hkeys
      (by rw [hwords]; simpa using hglob) hle
    rw [hwords] at hperm htext
    have hhosts : hosts = [node] := List.perm_singleton.1 (by simpa using hperm)
    rw [htext, hhosts, if_pos hc]
    dsimp only
    rw [substitute_echo]
    · have hcount : [node].count node = 1 := by simp
      rw [List.map_singleton, List.intercalate_singleton, hostWord, hcount]
      rfl
    · simpa using isOne_hostWord hone [node]
  · have hlt : [node].length < e.cores := by
      rw [List.length_singleton]
      omega
    rw [computeHostFile, if_pos hlt, if_neg hc]

end Parameters

/-! ### The clients -/

/-- The number of cores is not zero. -/
theorem JobEnvironment.cores_pos (e : JobEnvironment) : 0 < e.cores := by
  rw [JobEnvironment.cores]
  cases h : e.numCores with
  | none => exact Nat.one_pos
  | some n => exact Nat.pos_of_ne_zero fun hzero => e.numCores_ne (h.trans (congrArg some hzero))

section Spec

variable (g : Globbing) (e : JobEnvironment) (cwd : Text) (keys : Dict Text ℕ → List Text)
  (exprs : List Text) (config : JobConfig) (options : JobOptions) (shebang : Option Text)
  (directives : Text)

theorem fill_append (sch : Work.Scheduler) (ls ms : List (List Piece)) :
    fill sch cwd config options shebang directives (ls ++ ms) =
      fill sch cwd config options shebang directives ls ++
        fill sch cwd config options shebang directives ms := by
  rw [fill, fill, fill, List.map_append, unlines, List.flatMap_append]
  rfl

/-- **The document stands in the job script.** -/
theorem createJobscript_hereDocument : ∃ u v,
    createJobscript .pbs cwd config options shebang directives =
      u ++ ("    ssh $client_node << EOF &\n".toList ++
        (fill .pbs cwd config options shebang directives PbsTorque.hereDocument ++
          "EOF\n".toList)) ++ v := by
  have htemplate : template .pbs = PbsTorque.template.take 86 ++
      ([[.text "    ssh $client_node << EOF &"]] ++ (PbsTorque.hereDocument ++
        ([[.text "EOF"]] ++ PbsTorque.template.drop 92))) := rfl
  have hssh : fill .pbs cwd config options shebang directives [["    ssh $client_node << EOF &"]] =
      "    ssh $client_node << EOF &\n".toList := by
    rfl
  have heof : fill .pbs cwd config options shebang directives [["EOF"]] = "EOF\n".toList := by
    rfl
  rw [createJobscript, htemplate, fill_append, fill_append, fill_append, fill_append, hssh, heof]
  refine ⟨fill .pbs cwd config options shebang directives (PbsTorque.template.take 86),
    fill .pbs cwd config options shebang directives (PbsTorque.template.drop 92) ++ ['\n'], ?_⟩
  simp only [Work.printLine, List.append_assoc]

/-- The job script reads what it is given as it is written. -/
structure Clean : Prop where
  path : Quotable config.path ∧ '\n' ∉ config.path
  directory : Literal cwd
  absolute : cwd.head? = some '/'
  jobId : Plain e.jobId ∧ NoGlob e.jobId
  nodes : ∀ node ∈ words e.nodefile, (Quotable node ∧ NoGlob node) ∧ node.head? ≠ some '-'
  expressions : ∀ expr ∈ exprs.flatMap words, NoGlob expr
  env : ∀ v ∈ envVars e.grepEnv exprs, Quotable v ∧ NoGlob v

variable {g e cwd keys exprs config options shebang directives}

/-- **The document ends where the template ends it.** -/
theorem eof_not_mem (hpath : '\n' ∉ config.path) (hcwd : '\n' ∉ cwd) :
    "EOF".toList ∉
      lines '\n' (fill .pbs cwd config options shebang directives PbsTorque.hereDocument) := by
  obtain ⟨sep, hsep, hjoin⟩ := joinPath_eq cwd
  have hlog : '\n' ∉ joinPath (joinPath cwd (getWorkerDirPath .pbs)) "client_".toList := by
    have hnone : '\n' ∉ sep := fun h => absurd (hsep _ h) (by decide)
    rw [clientLogPrefix_eq hjoin]
    simp [hcwd, hnone]
  have hlines : ∀ l ∈ PbsTorque.hereDocument.map
      (·.flatMap (templParams .pbs cwd config options shebang directives)), '\n' ∉ l := by
    have hclient : "client_".toList = ['c', 'l', 'i', 'e', 'n', 't', '_'] := by decide
    rw [hclient] at hlog
    rw [hereDocument_eq]
    simp [templParams, hpath, hlog]
  rw [fill, lines_unlines hlines, hereDocument_eq]
  simp [templParams]

theorem documentParts_valid {path dir : Text} (hpath : Quotable path) (hdir : Quotable dir) :
    ∀ p ∈ documentParts path dir, p.Valid := by
  simp +decide only [documentParts, List.forall_mem_cons, HerePart.Valid, hpath.isHerePlain,
    hdir.isHerePlain, List.not_mem_nil, false_imp_iff, implies_true, and_true]

theorem pinned_ordinary (numCores clientNum : ℕ) :
    ∀ arg ∈ pinned numCores clientNum, arg.all isOrdinary = true ∧ arg ≠ [] := by
  intro arg harg
  rw [pinned] at harg
  split_ifs at harg
  · obtain rfl := Option.mem_some_iff.1 harg
    exact ⟨by decide, by decide⟩
  · cases harg

theorem plain_infoStr {hostname : Text} (hhost : Plain hostname) (portNr : ℕ) :
    Plain (infoStr hostname portNr) := by
  have htcp : Plain "tcp://".toList := by decide
  have hport : Plain (pyStr portNr) := plain_of_isAlphanum fun c hc => .inl (by
    rw [Char.isAlphanum, Nat.isDigit_of_mem_toDigits (by decide) (by decide) hc, Bool.or_true])
  exact List.forall_mem_append.2 ⟨List.forall_mem_append.2 ⟨htcp, hhost⟩,
    List.forall_mem_cons.2 ⟨⟨rfl, rfl⟩, hport⟩⟩

/-! ### The file of the server -/

/-- **The job script knows where the server writes.** -/
theorem serverInfoVar_eq (hcwd : Literal cwd) : serverInfoVar e cwd =
    some (joinPath cwd (workerDir e.jobId) ++ "/server_info.txt".toList) := by
  obtain ⟨sep, hsep, hjoin⟩ := joinPath_eq cwd
  have hfront : Literal (cwd ++ sep ++ "worker_".toList) := (hcwd.append hsep).append (by decide)
  rw [serverInfoVar, hjoin, hfront.readWords (by simp)]
  unfold workerDir
  simp only [hjoin, List.append_assoc]

/-- It reads this file only. -/
theorem operandFiles_eq {path info : Text} (hone : IsOne path) (hglob : NoGlob path)
    (habsolute : path.head? = some '/') (hfile : e.files path = some info) :
    operandFiles g e path = some [info] := by
  rw [operandFiles, hone.fields hglob, if_neg]
  · rw [List.filterMap_cons, hfile]
    rfl
  · rintro (h | ⟨w, hw, hdash⟩)
    · cases h
    · obtain rfl := List.mem_singleton.1 hw
      rw [habsolute] at hdash
      cases hdash

/-- The job script finds what the server has written. -/
theorem operandFiles_serverInfo (hclean : Clean e cwd exprs config) {info : Text}
    (hfile : e.files (joinPath cwd (workerDir e.jobId) ++ "/server_info.txt".toList) = some info) :
    (serverInfoVar e cwd).bind (operandFiles g e) = some [info] := by
  obtain ⟨sep, hsep, hjoin⟩ := joinPath_eq cwd
  have hfront : Literal (cwd ++ sep ++ "worker_".toList) :=
    (hclean.directory.append hsep).append (by decide)
  have hend : Literal "/server_info.txt".toList := by decide
  have hpath : joinPath cwd (workerDir e.jobId) = cwd ++ sep ++ "worker_".toList ++ e.jobId := by
    unfold workerDir
    simp only [hjoin, List.append_assoc]
  have hhead : (cwd ++ sep ++ "worker_".toList).head? = some '/' := by
    rw [List.append_assoc, List.head?_append, hclean.absolute]
    rfl
  have hne : cwd ++ sep ++ "worker_".toList ≠ [] := by
    intro hnil
    rw [hnil] at hhead
    cases hhead
  rw [serverInfoVar_eq hclean.directory, Option.bind_some]
  rw [hpath] at hfile ⊢
  refine operandFiles_eq ⟨by simp, ?_⟩ ?_ ?_ hfile
  · exact List.forall_mem_append.2 ⟨List.forall_mem_append.2
      ⟨hfront.not_ifs, hclean.jobId.1.not_ifs⟩, hend.not_ifs⟩
  · exact (hfront.noGlob.append hclean.jobId.2).append hend.noGlob
  · rw [List.append_assoc, List.head?_append_of_ne_nil _ hne, hhead]

/-! ### A client -/

/-- The parameters of a client give its arguments. -/
theorem from_clientEnv {infos : List Text} {address dir first node uuid : Text} {k : ℕ}
    (hkeys : ∀ d, (keys d).Perm (d.entries.map Prod.fst))
    (hclean : Clean e cwd exprs config)
    (huuid : cutFiles 1 infos = uuid) (hserver : cutFiles 2 infos = address)
    (hdir : joinPath cwd (workerDir e.jobId) = dir ++ ("worker_".toList ++ e.jobId))
    (hfirst : (words e.nodefile).head? = some first)
    (hnode : (clientNodes g e k).headD [] = node) (hmem : node ∈ words e.nodefile) :
    ClientArgs.From
      { server := address
        uuid := uuid
        logPrefix := joinPath cwd (workerDir e.jobId) ++ "/client_".toList
        env := envVars e.grepEnv exprs
        numactl := pinned e.cores k
        hostInfo := if e.cores = 1 then node ++ ":1".toList else [] }
      (clientEnv g e keys infos exprs k) dir where
  uuid := by rw [clientEnv, if_pos rfl, huuid]
  server := by rw [clientEnv, if_neg (by decide), if_pos rfl, hserver]
  env := by
    rw [clientEnv, if_neg (by decide), if_neg (by decide), if_pos rfl,
      substitute_computeEnvVars hclean.expressions fun v hv => (hclean.env v hv).2]
  numactl := by
    have hin := List.mem_of_mem_head? hfirst
    have hnodes := JobEnvironment.nodes_eq (g := g) fun node hnode => (hclean.nodes node hnode).1.2
    rw [clientEnv, if_neg (by decide), if_neg (by decide), if_neg (by decide), if_pos rfl,
      numactlOpt_eq (hnodes ▸ hfirst) (isOne_of_mem_words hin) (hclean.nodes first hin).1.2]
  hostInfo := by
    rw [clientEnv, if_neg (by decide), if_neg (by decide), if_neg (by decide),
      if_neg (by decide), if_pos rfl, hostInfo_eq hkeys e.cores_pos hnode
        (isOne_of_mem_words hmem) (hclean.nodes node hmem).1.2]
  logPrefix := by
    rw [clientEnv, if_neg (by decide), if_neg (by decide), if_neg (by decide),
      if_neg (by decide), if_neg (by decide), if_pos rfl, hdir, List.append_assoc dir]

/-- **A client** is started on the first node of its block. -/
theorem lex_launchClient {Uuid : Type} (ops : UuidText Uuid) (id : Uuid) {address : Text}
    (hkeys : ∀ d, (keys d).Perm (d.entries.map Prod.fst)) (haddress : Plain address)
    (hclean : Clean e cwd exprs config) {k : ℕ} (hk : k < (words e.nodefile).length / e.cores) :
    ∃ node, (words e.nodefile)[k * e.cores]? = some node ∧
      (launchClient g e cwd keys [serverInfo ops id address] exprs config options shebang
        directives k).node = some node ∧
      (launchClient g e cwd keys [serverInfo ops id address] exprs config options shebang
        directives k).input.bind lex =
        some (clientTokens config.path
          { server := address
            uuid := ops.put id
            logPrefix := joinPath cwd (workerDir e.jobId) ++ "/client_".toList
            env := envVars e.grepEnv exprs
            numactl := pinned e.cores k
            hostInfo := if e.cores = 1 then node ++ ":1".toList else [] }) := by
  have hnodes := JobEnvironment.nodes_eq (g := g) fun node hnode => (hclean.nodes node hnode).1.2
  obtain ⟨node, hat, hhead⟩ := head_clientNodes hnodes (fun _ => isOne_of_mem_words)
    (fun node hnode => (hclean.nodes node hnode).1.2) hk
  have hmem : node ∈ words e.nodefile := List.mem_of_getElem? hat
  obtain ⟨⟨hquotable, hglob⟩, hdash⟩ := hclean.nodes node hmem
  obtain ⟨first, hfirst⟩ : ∃ first, (words e.nodefile).head? = some first :=
    Option.isSome_iff_exists.1 (List.isSome_head?.2 (List.ne_nil_of_mem hmem))
  obtain ⟨huuid, hcut⟩ := cutFiles_serverInfo ops id haddress.not_ifs
  obtain ⟨sep, hsep, hjoin⟩ := joinPath_eq cwd
  have hdir : Quotable (cwd ++ sep) := (hclean.directory.append hsep).quotable
  have hinput : (launchClient g e cwd keys [serverInfo ops id address] exprs config options shebang
      directives k).input = some ((documentParts config.path (cwd ++ sep)).flatMap
        (HerePart.value (clientEnv g e keys [serverInfo ops id address] exprs k))) :=
    (congrArg (expandHere _ .text) (fill_hereDocument config options shebang directives
      hjoin)).trans (expandHere_parts
        (documentParts_valid hclean.path.1 hdir))
  have hname : joinPath cwd (workerDir e.jobId) = cwd ++ sep ++ ("worker_".toList ++ e.jobId) :=
    hjoin (workerDir e.jobId)
  have hlog : Quotable (joinPath cwd (workerDir e.jobId) ++ "/client_".toList) := by
    have hworker : Quotable "worker_".toList := by decide
    have hclient : Quotable "/client_".toList := by decide
    rw [hname]
    exact (hdir.append
      (hworker.append hclean.jobId.1.quotable)).append hclient
  refine ⟨node, hat, ?_, ?_⟩
  · show sshNode (fields g ((clientNodes g e k).headD [])) = some node
    rw [hhead, (isOne_of_mem_words hmem).fields hglob, sshNode, if_neg hdash]
  · rw [hinput, Option.bind_some]
    refine lex_document hclean.path.1
      { server := haddress.quotable
        uuid := (plain_put ops id).quotable
        logPrefix := hlog
        env := fun v hv => (hclean.env v hv).1
        numactl := pinned_ordinary e.cores k
        hostInfo := ?_ }
      (from_clientEnv hkeys hclean huuid hcut hname hfirst hhead hmem)
    show Quotable (if e.cores = 1 then node ++ ":1".toList else [])
    split_ifs
    · exact hquotable.append (by decide)
    · decide

end Spec

/-- A job on two nodes. -/
def twoNodes : JobEnvironment where
  numCores := none
  numCores_ne := by simp
  jobId := "12.master".toList
  nodefile := "n1\nn2\n".toList
  grepEnv expr := if expr = "^PBS_".toList then "PBS_O_HOME=/home\n".toList else []
  files path :=
    if path = "/home/worker_12.master/server_info.txt".toList then
      some (serverInfo hexText (Uuid16.filled 1) (infoStr "head".toList 5555))
    else none

/-- The configuration that it is made with. -/
def twoNodesConfig : JobConfig where
  path := "/opt/worker".toList
  workerPort := "5555".toList
  serverStartDelay := "5".toList
  workerEnvVarExprs := "'^VSC_'".toList
  schedulerEnvVarExprs := "'^PBS_'".toList

end Submit
end WorkerNg
