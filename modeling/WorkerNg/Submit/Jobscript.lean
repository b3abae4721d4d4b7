/-
# Job scripts

`create_jobscript` in `scripts/worker/utils.py`, with the templates
`conf/slurm_jobscript.tmpl` and `conf/pbs_jobscript.tmpl`.

A template is given by its lines, a line by the texts and the fields it is made
of, with `{{` and `}}` read as the braces that `str.format` makes of them.  The
first two lines of either template are the shebang and the directives; the lines
behind them have the values of the other fields in them (`createJobscript_eq`).
-/

import WorkerNg.Submit.SubmitOutput

namespace WorkerNg
namespace Submit

open Lines Work

/-- A part of a line of a template: a text or a field. -/
inductive Piece
  | text (s : String)
  | shebang
  | schedulerDirectives
  | workerPath
  | serverInfo
  | serverLogOpt
  | portOpt
  | serverStartDelay
  | workfile
  | clientLogPrefixOpt
  | envVarExprs
  | numCores
  | exitOnClientFail

instance : Coe String Piece := ⟨.text⟩

/-- `conf/slurm_jobscript.tmpl`. -/
def Slurm.template : List (List Piece) :=
  [.shebang] ::
  [.schedulerDirectives] ::
  ["#"] ::
  ["# variables that should be subsituted"] ::
  ["#   * shebang, shebang for this script (", .shebang, ")"] ::
  ["#   * scheduler_directives"] ::
  ["#   * worker_path (", .workerPath, ")"] ::
  ["#   * server_info (", .serverInfo, ")"] ::
  ["#   * server_log_opt, e.g., --log path_to_log_file (", .serverLogOpt, ")"] ::
  ["#   * port_opt, e.g., --port 1234 (", .portOpt, ")"] ::
  ["#   * server_start_delay, 5 (in seconds) (", .serverStartDelay, ")"] ::
  ["#   * workfile (", .workfile, ")"] ::
  ["#   * client_log_prefix_opt, e.g., --log_prefix client_log_prefix (", .clientLogPrefixOpt, ")"] ::
  ["#   * env_var_exprs, e.g., '^VSC' '^PBS_' (", .envVarExprs, ")"] ::
  ["#   * num_cores (", .numCores, ")"] ::
  ["#   * exit_on_client_fail, i.e., true or false (", .exitOnClientFail, ")"] ::
  ["#"] ::
  [] ::
  ["# source worker software environment variables (LD_LIBRARY_PATH et al.)"] ::
  ["env_conf_file=\"", .workerPath, "/conf/worker_env.sh\""] ::
  ["if [ ! -e \"${env_conf_file}\" ]"] ::
  ["then"] ::
  ["    (>&2 echo \"### error: can not read environment configuration file '${env_conf_file}'\")"] ::
  ["    exit 1"] ::
  ["fi"] ::
  ["source \"${env_conf_file}\""] ::
  [] ::
  ["# source worker functions used in this script"] ::
  ["worker_functions_file=\"", .workerPath, "/scripts/worker_functions.sh\""] ::
  ["if [ ! -e \"${worker_functions_file}\" ]"] ::
  ["then"] ::
  ["    (>&2 echo \"### error: can not read worker functions file '${worker_functions_file}'\")"] ::
  ["    exit 1"] ::
  ["fi"] ::
  ["source \"${worker_functions_file}\""] ::
  [] ::
  ["# file to store the server details"] ::
  ["SERVER_INFO=", .serverInfo] ::
  [] ::
  ["# add worker library path to LD_LIBRARY_PATH"] ::
  ["LD_LIBRARY_PATH=\"", .workerPath, "/lib:${LD_LIBRARY_PATH}\""] ::
  [] ::
  ["# check worker server and client"] ::
  ["worker_server_exec=\"", .workerPath, "/bin/worker_server\""] ::
  ["if [ ! -e \"${worker_server_exec}\" ]"] ::
  ["then"] ::
  ["    (>&2 echo \"### error: can not find worker server executable '${worker_server_exec}'\")"] ::
  ["    exit 1"] ::
  ["fi"] ::
  ["worker_client_exec=\"", .workerPath, "/bin/worker_client\""] ::
  ["if [ ! -e \"${worker_client_exec}\" ]"] ::
  ["then"] ::
  ["    (>&2 echo \"### error: can not find worker client executable '${worker_client_exec}'\")"] ::
  ["    exit 1"] ::
  ["fi"] ::
  [] ::
  ["# start the server"] ::
  ["srun --exclusive --het-group=1 --nodes=1 --ntasks=1 --cpus-per-task=1 \\"] ::
  ["    --partition=$SLURM_JOB_PARTITION_HET_GROUP_1 \\"] ::
  ["    \"${worker_server_exec}\" \\"] ::
  ["        ", .serverLogOpt, " \\"] ::
  ["        ", .portOpt, " \\"] ::
  ["        --workfile \"", .workfile, "\" \\"] ::
  ["        --server_info \"$SERVER_INFO\" &"] ::
  ["server_exit=$?"] ::
  ["if [ $server_exit -ne 0 ]"] ::
  ["then"] ::
  [] ::
  ["    (>&2 echo \"### error: failed to launch server\")"] ::
  ["    exit $server_exit"] ::
  ["fi"] ::
  [] ::
  ["# ensure it is up and running and check whether it is actually up"] ::
  ["sleep ", .serverStartDelay] ::
  ["if [ ! -f \"$SERVER_INFO\" ]"] ::
  ["then"] ::
  ["    (>&2 echo \"### error: failed to launch server, no server info file created\")"] ::
  ["    exit 1"] ::
  ["fi"] ::
  [] ::
  ["# determine the server address and UUID for the clients to use"] ::
  ["uuid=$(cut -d ' ' -f 1 \"$SERVER_INFO\")"] ::
  ["server=$(cut -d ' ' -f 2 \"$SERVER_INFO\")"] ::
  [] ::
  ["(>&2 echo \"### info: server launched at '$server' with UUID '$uuid'\")"] ::
  [] ::
  ["export OMP_PROC_BIND=true"] ::
  ["export OMP_PLACES=cores"] ::
  [] ::
  ["for (( client_id=1; client_id <= $SLURM_NTASKS_HET_GROUP_0; client_id++ ))"] ::
  ["do"] ::
  ["    srun --exclusive --het-group=0 \\"] ::
  ["        --ntasks=1 --nodes=1 --cpus-per-task=$SLURM_CPUS_PER_TASK_HET_GROUP_0 \\"] ::
  ["        --partition=$SLURM_JOB_PARTITION_HET_GROUP_0 \\"] ::
  ["        --threads-per-core=1 \\"] ::
  ["            \"${worker_client_exec}\" \\"] ::
  ["                --server \"$server\" --uuid \"$uuid\" ", .clientLogPrefixOpt, " \\"] ::
  ["                $numactl_opt --host_info \"$host_info\" &"] ::
  ["    client_exit=$?"] ::
  ["    if [ $client_exit -eq 0 ]"] ::
  ["    then"] ::
  ["        (>&2 echo \"### info: client $client_id launched\")"] ::
  ["    else"] ::
  ["        (>&2 echo \"### error: client $client_id failed to launch, exit status $client_exit\")"] ::
  ["        if [ ", .exitOnClientFail, " ]"] ::
  ["        then"] ::
  ["            exit $client_exit"] ::
  ["        fi"] ::
  ["    fi"] ::
  ["done"] ::
  [] ::
  ["# wait for the server to finish"] ::
  ["wait"] ::
  []

/-- `conf/pbs_jobscript.tmpl`. -/
def PbsTorque.template : List (List Piece) :=
  [.shebang] ::
  [.schedulerDirectives] ::
  ["#"] ::
  ["# variables that should be subsituted"] ::
  ["#   * shebang, shebang for this script (", .shebang, ")"] ::
  ["#   * scheduler_directives"] ::
  ["#   * worker_path (", .workerPath, ")"] ::
  ["#   * server_info (", .serverInfo, ")"] ::
  ["#   * server_log_opt, e.g., --log path_to_log_file (", .serverLogOpt, ")"] ::
  ["#   * port_opt, e.g., --port 1234 (", .portOpt, ")"] ::
  ["#   * server_start_delay, 5 (in seconds) (", .serverStartDelay, ")"] ::
  ["#   * workfile (", .workfile, ")"] ::
  ["#   * client_log_prefix_opt, e.g., --log_prefix client_log_prefix (", .clientLogPrefixOpt, ")"] ::
  ["#   * env_var_exprs, e.g., '^VSC' '^PBS_' (", .envVarExprs, ")"] ::
  ["#   * num_cores (", .numCores, ")"] ::
  ["#   * exit_on_client_fail, i.e., true or false (", .exitOnClientFail, ")"] ::
  ["#"] ::
  [] ::
  ["# source worker software environment variables (LD_LIBRARY_PATH et al.)"] ::
  ["env_conf_file=\"", .workerPath, "/conf/worker_env.sh\""] ::
  ["if [ ! -e \"${env_conf_file}\" ]"] ::
  ["then"] ::
  ["    (>&2 echo \"### error: can not read environment configuration file '${env_conf_file}'\")"] ::
  ["    exit 1"] ::
  ["fi"] ::
  ["source \"${env_conf_file}\""] ::
  [] ::
  ["# source worker functions used in this script"] ::
  ["source \"", .workerPath, "/scripts/worker_functions.sh\""] ::
  [] ::
  ["# file to store the server details"] ::
  ["SERVER_INFO=", .serverInfo] ::
  [] ::
  ["# start the server"] ::
  ["\"", .workerPath, "/bin/worker_server\" \\"] ::
  ["    ", .serverLogOpt, " \\"] ::
  ["    ", .portOpt, " \\"] ::
  ["    --workfile \"", .workfile, "\" \\"] ::
  ["    --server_info \"", .serverInfo, "\" &"] ::
  ["server_exit=$?"] ::
  ["if [ $server_exit -ne 0 ]"] ::
  ["then"] ::
  [] ::
  ["    (>&2 echo \"### error: failed to launch server\")"] ::
  ["    exit $server_exit"] ::
  ["fi"] ::
  [] ::
  ["# ensure it is up and running"] ::
  ["sleep ", .serverStartDelay] ::
  [] ::
  ["# determine the server address and UUID for the clients to use"] ::
  ["uuid=$(cut -d ' ' -f 1 $SERVER_INFO)"] ::
  ["server=$(cut -d ' ' -f 2 $SERVER_INFO)"] ::
  [] ::
  ["(>&2 echo \"### info: server launched at '$server' with UUID '$uuid'\")"] ::
  [] ::
  ["# determine log directory"] ::
  [] ::
  [] ::
  ["# environment variables will not be available on non-server nodes,"] ::
  ["# so they need to be passed to the client explicitly"] ::
  ["env_variables=$(compute_env_vars ", .envVarExprs, ")"] ::
  [] ::
  ["# launch clients"] ::
  ["nodes=($(cat $PBS_NODEFILE))"] ::
  ["if [ -z \"$num_cores\" ]"] ::
  ["then"] ::
  ["    num_cores=1"] ::
  ["fi"] ::
  ["num_clients=$(( $\x7b#nodes[@]\x7d / $num_cores ))"] ::
  [] ::
  ["# compute numactl arguments"] ::
  ["numactl_args=( $( compute_numactl_args $num_cores $nodes ) )"] ::
  ["numactl_status=$?"] ::
  [] ::
  ["for (( client_num=0; client_num < num_clients; client_num++ ))"] ::
  ["do"] ::
  ["    (>&2 echo \"### info: launching client $client_num\")"] ::
  ["    client_nodes=($\x7bnodes[@]:$(( client_num*num_cores )):$num_cores\x7d)"] ::
  ["    client_node=${client_nodes[0]}"] ::
  ["    host_info=$( compute_host_file $num_cores $client_nodes )"] ::
  ["    numactl_opt=''"] ::
  ["    if [ $numactl_status ]"] ::
  ["    then"] ::
  ["        numactl_opt=\"--numactl ${numactl_args[$client_num]}\""] ::
  ["    fi"] ::
  ["    ssh $client_node << EOF &"] ::
  ["        source \"", .workerPath, "/conf/worker_env.sh\";"] ::
  ["        \"", .workerPath, "/bin/worker_client\" \\"] ::
  ["            --server \"$server\" --uuid \"$uuid\" ", .clientLogPrefixOpt, " \\"] ::
  ["            $env_variables $numactl_opt --host_info \"$host_info\" >> clients.txt"] ::
  ["EOF"] ::
  ["    client_exit=$?"] ::
  ["    if [ $client_exit -eq 0 ]"] ::
  ["    then"] ::
  ["        (>&2 echo \"### info: client launched on '$client_node'\")"] ::
  ["    else"] ::
  ["        (>&2 echo \"### error: client failed to launch on '$client_node', exit status $client_exit\")"] ::
  ["        if [ ", .exitOnClientFail, " ]"] ::
  ["        then"] ::
  ["            exit $client_exit"] ::
  ["        fi"] ::
  ["    fi"] ::
  ["done"] ::
  ["(>&2 echo \"### info: all clients launched\")"] ::
  [] ::
  ["# wait for the server to finish"] ::
  ["wait"] ::
  []

/-- The template that is installed for a scheduler. -/
def template : Scheduler → List (List Piece)
  | .slurm => Slurm.template
  | .pbs => PbsTorque.template

/-! ### Filling a template -/

/-- The configuration of worker, as far as job scripts depend on it. -/
structure JobConfig where
  path : Text
  workerPort : Text
  serverStartDelay : Text
  workerEnvVarExprs : Text
  schedulerEnvVarExprs : Text

/-- The options that a job script depends on. -/
structure JobOptions where
  port : Option ℤ
  numCores : ℤ

/-- `str` of an integer. -/
def intText : ℤ → Text
  | .ofNat n => Nat.toDigits 10 n
  | .negSucc n => '-' :: Nat.toDigits 10 (n + 1)

/-- `str(directory / name)`. -/
def joinPath (directory name : Text) : Text :=
  if directory.getLast? = some '/' then directory ++ name else directory ++ '/' :: name

/-- `parser_result.options.port or config['worker']['worker_port']`. -/
def portText (config : JobConfig) (options : JobOptions) : Text :=
  match options.port with
  | none => config.workerPort
  | some port => if port = 0 then config.workerPort else intText port

section Fill

variable (sch : Scheduler) (cwd : Text) (config : JobConfig) (options : JobOptions)
  (shebang : Option Text) (directives : Text)

/-- `templ_params`; a shebang of `None` is written as such. -/
def templParams : Piece → Text :=
  let workerDirPath := joinPath cwd (getWorkerDirPath sch)
  fun
  | .text s => s.toList
  | .shebang => shebang.getD "None".toList
  | .schedulerDirectives => directives
  | .workerPath => config.path
  | .serverInfo => joinPath workerDirPath "server_info.txt".toList
  | .serverLogOpt =>
      "--log \"".toList ++ joinPath workerDirPath "server.log".toList ++ "\"".toList
  | .portOpt => "--port ".toList ++ portText config options
  | .serverStartDelay => config.serverStartDelay
  | .workfile => joinPath workerDirPath "workerfile.txt".toList
  | .clientLogPrefixOpt =>
      "--log_prefix \"".toList ++ joinPath workerDirPath "client_".toList ++ "\"".toList
  | .envVarExprs => config.workerEnvVarExprs ++ " ".toList ++ config.schedulerEnvVarExprs
  | .numCores => intText options.numCores
  | .exitOnClientFail => "false".toList

/-- The lines of a template, filled in. -/
def fill (lines : List (List Piece)) : Text :=
  unlines '\n' (lines.map (·.flatMap (templParams sch cwd config options shebang directives)))

/-- `create_jobscript`: the text of the file. -/
def createJobscript : Text :=
  printLine (fill sch cwd config options shebang directives (template sch))

/-- What a job script has behind the line break after its directives. -/
def behindDirectives : Text :=
  '\n' :: printLine (fill sch cwd config options shebang directives ((template sch).drop 2))

theorem template_eq :
    template sch = [.shebang] :: [.schedulerDirectives] :: (template sch).drop 2 := by
  cases sch <;> rfl

/-- **A job script is the shebang, the directives and what is behind them.** -/
theorem createJobscript_eq : createJobscript sch cwd config options shebang directives =
    shebang.getD "None".toList ++ '\n' :: (directives ++
      behindDirectives sch cwd config options shebang directives) := by
  unfold createJobscript behindDirectives fill printLine
  rw [template_eq, List.map_cons, List.map_cons, unlines_cons, unlines_cons]
  simp only [List.flatMap_cons, List.flatMap_nil, List.append_nil, templParams, List.append_assoc,
    List.cons_append, List.drop_succ_cons, List.drop_zero]

theorem drop_template_eq : ∃ rest, (template sch).drop 2 = [.text "#"] :: rest := by
  cases sch <;> exact ⟨_, rfl⟩

/-- Behind the directives there are an empty line and a comment. -/
theorem behindDirectives_eq : ∃ t,
    behindDirectives sch cwd config options shebang directives = '\n' :: '#' :: '\n' :: t := by
  obtain ⟨rest, hrest⟩ := drop_template_eq sch
  have hhash : "#".toList = ['#'] := by decide
  refine ⟨printLine (fill sch cwd config options shebang directives rest), ?_⟩
  unfold behindDirectives fill printLine
  rw [hrest, List.map_cons, unlines_cons]
  simp only [List.flatMap_cons, List.flatMap_nil, List.append_nil, templParams, hhash,
    List.cons_append, List.nil_append]

end Fill

end Submit
end WorkerNg
