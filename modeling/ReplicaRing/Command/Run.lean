import ReplicaRing.Command.Demo
import ReplicaRing.Command.FileTree
import ReplicaRing.Command.Help
import ReplicaRing.Command.Report
import ReplicaRing.Topology.File

/-! What the program prints and how it exits. How a file is read is left open: a run of the
program asks for one file at most, and everything else about it is settled here. -/

namespace ReplicaRing.Command

/-- A failure as the user is told of it: what was being done, if anything is to be said of
that, and what went wrong. -/
structure Complaint where
  context : Option String
  cause : String
  deriving DecidableEq, Repr

def printed (lines : List String) : String :=
  String.join (lines.map (· ++ "\n"))

def indented (text : String) : String :=
  "\n".intercalate ((text.splitOn "\n").map ("    " ++ ·))

/-- The complaint as it is printed, with the cause set in under what was being done. -/
def Complaint.report (complaint : Complaint) : String :=
  match complaint.context with
  | some context => printed [s!"Error: {context}", "", "Caused by:", indented complaint.cause]
  | none => printed [s!"Error: {complaint.cause}"]

/-- The lines that a task prints about a topology. -/
def perform (topology : Topology) : Task → Except Complaint (List String)
  | .topology => .ok (Report.topologyLines topology)
  | .route keys partitioner => .ok (Report.routeLines topology partitioner keys)
  | .demo key value =>
    match Demo.run topology key (Utf8.ofString value) 0 with
    | .ok line => .ok [line]
    | .error failure => .error { context := none, cause := failure.message }

/-- The configuration in a file, given what reading the file came to. -/
def load (path : String) (content : Except FileFault String) : Except Complaint Config :=
  let complain (error : Error) : Complaint :=
    { context := some s!"loading topology from {path}", cause := error.message }
  match content with
  | .error fault => .error (complain (.configuration s!"cannot read {path}: {fault.message}"))
  | .ok text => (Config.read text).mapError complain

def build (config : Config) : Except Complaint Topology :=
  (Topology.build config).mapError fun defect =>
    { context := some "building topology", cause := defect.toError.message }

/-- How a run ends: its exit code and what it has printed. -/
structure Ending where
  code : Nat
  stdout : String
  stderr : String
  deriving DecidableEq, Repr

def Ending.ofLines (lines : List String) : Ending where
  code := 0
  stdout := printed lines
  stderr := ""

def execute (path : String) (content : Except FileFault String) (task : Task) : Ending :=
  let outcome := do
    let config ← load path content
    let topology ← build config
    perform topology task
  match outcome with
  | .ok lines => .ofLines lines
  | .error complaint => { code := 1, stdout := "", stderr := complaint.report }

/-- How the program ends when the words on its command line make no sense. -/
def usageEnding : Ending where
  code := 2
  stdout := ""
  stderr := printed ["Usage: ringkv [OPTIONS] <COMMAND>"]

/-- Runs the program on the words of its command line, given a way to read files. -/
def run {m : Type → Type} [Monad m] (read : String → m (Except FileFault String))
    (words : List String) : m Ending :=
  match parse words with
  | .usage => pure usageEnding
  | .help topic => pure (.ofLines (helpLines topic))
  | .version => pure (.ofLines [versionLine])
  | .run path task => do return execute path (← read path) task

end ReplicaRing.Command
