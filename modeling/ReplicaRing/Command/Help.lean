import ReplicaRing.Command.Line

/-! The help texts of the command line. -/

namespace ReplicaRing.Command

def versionLine : String := "ringkv 0.1.0"

def programHelp : List String :=
  ["Sharded key-value ring tooling",
    "",
    "Usage: ringkv [OPTIONS] <COMMAND>",
    "",
    "Commands:",
    "  topology  Print every shard's replica triplet",
    "  route     Show the owning shard and failover chain of each key",
    "  demo      Run the topology as an in-process cluster, write one key and wait for every holder to converge",
    "  help      Print this message or the help of the given subcommand(s)",
    "",
    "Options:",
    "  -c, --config <CONFIG>        Topology file (JSON list of node descriptors) [default: topology.json]",
    "      --log-level <LOG_LEVEL>  Log filter used when RUST_LOG is not set [default: info]",
    "  -h, --help                   Print help",
    "  -V, --version                Print version"]

def topologyHelp : List String :=
  ["Print every shard's replica triplet",
    "",
    "Usage: ringkv topology",
    "",
    "Options:",
    "  -h, --help  Print help"]

def routeHelp : List String :=
  ["Show the owning shard and failover chain of each key",
    "",
    "Usage: ringkv route [OPTIONS] <KEYS>...",
    "",
    "Arguments:",
    "  <KEYS>...  ",
    "",
    "Options:",
    "      --hash <HASH>  [default: xxh3] [possible values: xxh3, sip13]",
    "  -h, --help         Print help"]

def demoHelp : List String :=
  ["Run the topology as an in-process cluster, write one key and wait for every holder to converge",
    "",
    "Usage: ringkv demo [OPTIONS]",
    "",
    "Options:",
    "      --key <KEY>      [default: k1]",
    "      --value <VALUE>  [default: hello]",
    "  -h, --help           Print help"]

def helpHelp : List String :=
  ["Print this message or the help of the given subcommand(s)",
    "",
    "Usage: ringkv help [COMMAND]...",
    "",
    "Arguments:",
    "  [COMMAND]...  Print help for the subcommand(s)"]

def helpLines : Topic → List String
  | .program => programHelp
  | .topology => topologyHelp
  | .route => routeHelp
  | .demo => demoHelp
  | .help => helpHelp

end ReplicaRing.Command
