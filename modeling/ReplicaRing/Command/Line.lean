import ReplicaRing.Partition

/-! The command line: which words are options, values and commands, and what the user wants.
Options of the program stand in front of the command, those of a command behind it. No option
may be given twice. -/

namespace ReplicaRing.Command

inductive Task where
  | topology
  | route (keys : List String) (partitioner : Partitioner)
  | demo (key value : String)

inductive Topic where
  | program
  | topology
  | route
  | demo
  | help
  deriving DecidableEq, Repr

inductive Verdict where
  /-- The words make no sense together. -/
  | usage
  | help (topic : Topic)
  | version
  | run (config : String) (task : Task)

inductive Word where
  /-- Two dashes, behind which nothing is an option. -/
  | escape
  /-- A long option, with what follows an equals sign in the same word. -/
  | long (name : String) (value : Option String)
  /-- A short option, with what follows it in the same word. -/
  | short (letter : Char) (rest : List Char)
  | plain (text : String)
  deriving DecidableEq, Repr

/-- Splits a long option at its first equals sign. -/
def splitLong (text : List Char) : Word :=
  match text.span (· ≠ '=') with
  | (name, _ :: value) => .long (String.ofList name) (some (String.ofList value))
  | (name, []) => .long (String.ofList name) none

/-- A lone dash is no option. -/
def Word.of (text : String) : Word :=
  match text.toList with
  | ['-', '-'] => .escape
  | '-' :: '-' :: rest => splitLong rest
  | '-' :: letter :: rest => .short letter rest
  | _ => .plain text

/-- The value written right behind a short option, with or without an equals sign. -/
def attached : List Char → Option String
  | [] => none
  | '=' :: rest => some (String.ofList rest)
  | rest => some (String.ofList rest)

/-- A word that can be the value of the option before it. -/
def asValue (text : String) : Option String :=
  match Word.of text with
  | .plain text => some text
  | _ => none

/-- Gives an option its value unless it has one already. -/
def once {α : Type} (slot : Option α) (value : α) : Option (Option α) :=
  match slot with
  | none => some (some value)
  | some _ => none

-- Each command reads its words one by one, and keeps in mind which option still waits for its value.

/-- The command that shows the topology takes no words of its own. -/
def topologyWords : List String → Option Verdict
  | [] => none
  | word :: rest =>
    match Word.of word with
    | .escape => if rest.isEmpty then none else some .usage
    | .long "help" none => some (.help .topology)
    | .short 'h' _ => some (.help .topology)
    | _ => some .usage

structure RouteWords where
  keys : List String
  hash : Option Partitioner
  awaiting : Bool
  escaped : Bool

/-- The partitioners by the names they have on the command line. -/
def partitionerNamed : String → Option Partitioner
  | "xxh3" => some .xxh3
  | "sip13" => some .sip13
  | _ => none

def RouteWords.setHash (words : RouteWords) (name : String) : Option RouteWords := do
  let hash ← once words.hash (← partitionerNamed name)
  return { words with hash, awaiting := false }

def routeWords (words : RouteWords) : List String → Verdict ⊕ RouteWords
  | [] => if words.awaiting then .inl .usage else .inr words
  | text :: rest =>
    if words.awaiting then
      match (asValue text).bind words.setHash with
      | some words => routeWords words rest
      | none => .inl .usage
    else if words.escaped then routeWords { words with keys := words.keys ++ [text] } rest
    else match Word.of text with
      | .plain key => routeWords { words with keys := words.keys ++ [key] } rest
      | .escape => routeWords { words with escaped := true } rest
      | .long "hash" none => routeWords { words with awaiting := true } rest
      | .long "hash" (some name) =>
        match words.setHash name with
        | some words => routeWords words rest
        | none => .inl .usage
      | .long "help" none => .inl (.help .route)
      | .short 'h' _ => .inl (.help .route)
      | _ => .inl .usage

inductive DemoOption where
  | key
  | value
  deriving DecidableEq, Repr

structure DemoWords where
  key : Option String
  value : Option String
  awaiting : Option DemoOption
  escaped : Bool

def DemoWords.set (words : DemoWords) (option : DemoOption) (text : String) : Option DemoWords :=
  match option with
  | .key => (once words.key text).map fun key => { words with key, awaiting := none }
  | .value => (once words.value text).map fun value => { words with value, awaiting := none }

def DemoOption.named : String → Option DemoOption
  | "key" => some key
  | "value" => some value
  | _ => none

def demoWords (words : DemoWords) : List String → Verdict ⊕ DemoWords
  | [] => if words.awaiting.isSome then .inl .usage else .inr words
  | text :: rest =>
    match words.awaiting with
    | some option =>
      match (asValue text).bind (words.set option) with
      | some words => demoWords words rest
      | none => .inl .usage
    | none =>
      if words.escaped then .inl .usage
      else match Word.of text with
        | .escape => demoWords { words with escaped := true } rest
        | .long "help" none => .inl (.help .demo)
        | .short 'h' _ => .inl (.help .demo)
        | .long name value =>
          match DemoOption.named name, value with
          | some option, none => demoWords { words with awaiting := some option } rest
          | some option, some value =>
            match words.set option value with
            | some words => demoWords words rest
            | none => .inl .usage
          | none, _ => .inl .usage
        | _ => .inl .usage

def Topic.named : String → Option Topic
  | "topology" => some topology
  | "route" => some route
  | "demo" => some demo
  | "help" => some help
  | _ => none

def helpWords : List String → Verdict
  | [] => .help .program
  | [name] =>
    match Topic.named name with
    | some topic => .help topic
    | none => .usage
  | _ => .usage

def commandWords (name : String) (rest : List String) : Verdict ⊕ Task :=
  match Topic.named name with
  | some .topology =>
    match topologyWords rest with
    | some verdict => .inl verdict
    | none => .inr .topology
  | some .route =>
    match routeWords { keys := [], hash := none, awaiting := false, escaped := false } rest with
    | .inl verdict => .inl verdict
    | .inr words =>
      if words.keys.isEmpty then .inl .usage
      else .inr (.route words.keys (words.hash.getD .xxh3))
  | some .demo =>
    match demoWords { key := none, value := none, awaiting := none, escaped := false } rest with
    | .inl verdict => .inl verdict
    | .inr words => .inr (.demo (words.key.getD "k1") (words.value.getD "hello"))
  | some .help => .inl (helpWords rest)
  | _ => .inl .usage

inductive ProgramOption where
  | config
  | logLevel
  deriving DecidableEq, Repr

/-- The options of the program. The last one is held open while its value is a word of its
own: it is judged when another option follows or, in the end, when the command has been read.
So a command that only asks for help is answered whatever is held open in front of it. -/
structure ProgramWords where
  config : Option String
  logLevel : Option String
  heldOpen : Option (ProgramOption × Option String)

def ProgramOption.named : String → Option ProgramOption
  | "config" => some config
  | "log-level" => some logLevel
  | _ => none

namespace ProgramWords

/-- Takes up an option. A file must have a name; any text will do for a log level. -/
def set (words : ProgramWords) (option : ProgramOption) (text : String) : Option ProgramWords :=
  match option with
  | .config =>
    if text.isEmpty then none
    else (once words.config text).map fun config => { words with config }
  | .logLevel => (once words.logLevel text).map fun logLevel => { words with logLevel }

/-- Judges the option that is held open. One without a value cannot be taken up. -/
def settle (words : ProgramWords) : Option ProgramWords :=
  match words.heldOpen with
  | none => some words
  | some (_, none) => none
  | some (option, some text) => { words with heldOpen := none }.set option text

/-- Meets an option, with its value if that is in the same word. -/
def meet (words : ProgramWords) (option : ProgramOption) (value : Option String) :
    Option ProgramWords := do
  let words ← words.settle
  match value with
  | some text => words.set option text
  | none => return { words with heldOpen := some (option, none) }

/-- The option that the next word is the value of. -/
def awaiting (words : ProgramWords) : Option ProgramOption :=
  match words.heldOpen with
  | some (option, none) => some option
  | _ => none

/-- What is wanted, provided that the options in front of it are in order. -/
def answer (words : ProgramWords) (make : ProgramWords → Verdict) : Verdict :=
  match words.settle with
  | some words => make words
  | none => .usage

end ProgramWords

def programWords (words : ProgramWords) : List String → Verdict
  | [] => .usage
  | text :: rest =>
    let meet (option : ProgramOption) (value : Option String) : Verdict :=
      match words.meet option value with
      | some words => programWords words rest
      | none => .usage
    match Word.of text with
    | .plain word =>
      match words.awaiting with
      | some option => programWords { words with heldOpen := some (option, some word) } rest
      | none =>
        match commandWords word rest with
        | .inl verdict => verdict
        | .inr task => words.answer fun words => .run (words.config.getD "topology.json") task
    | .escape => .usage
    | .long "help" none => words.answer fun _ => .help .program
    | .long "version" none => words.answer fun _ => .version
    | .short 'h' _ => words.answer fun _ => .help .program
    | .short 'V' _ => words.answer fun _ => .version
    | .short 'c' behind => meet .config (attached behind)
    | .short _ _ => .usage
    | .long name value =>
      match ProgramOption.named name with
      | some option => meet option value
      | none => .usage

def parse (words : List String) : Verdict :=
  programWords { config := none, logLevel := none, heldOpen := none } words

end ReplicaRing.Command
