import ReplicaRing.Call
import ReplicaRing.Wire.Format

/-! The layout of everything that is sent: fields in order, cases by number. -/

namespace ReplicaRing.Wire.Layout

open Format

def endpoint : Format Endpoint :=
  text.map Endpoint.mk Endpoint.text

def address : Format Address :=
  (both endpoint endpoint).map (fun (sync, async) => { sync, async })
    fun address => (address.sync, address.async)

def node : Format Node :=
  (both text (both address (both (option address) (option address)))).map
    (fun (name, primary, secondary, tertiary) => { name, primary, secondary, tertiary })
    fun node => (node.name, node.primary, node.secondary, node.tertiary)

def storeId : Format StoreId :=
  word128.map StoreId.mk StoreId.word

def version : Format Version :=
  (both storeId word64).map (fun (store, number) => { store, number })
    fun version => (version.store, version.number)

def bytes : Format Bytes :=
  list byte

def write : Format Write :=
  (both text (both bytes (both (option (list version))
    (both (option word64) (both bool (option version)))))).map
    (fun (key, data, parents, expiresAt, optimistic, assigned) =>
      { key, data, parents, expiresAt, optimistic, assigned })
    fun write => (write.key, write.data, write.parents, write.expiresAt, write.optimistic,
      write.assigned)

def read : Format Read :=
  (both text (option version)).map (fun (key, version) => { key, version })
    fun read => (read.key, read.version)

def removal : Format Removal :=
  (both text (option (list version))).map (fun (key, parents) => { key, parents })
    fun removal => (removal.key, removal.parents)

def written : Format Written :=
  (both (option version) bool).map (fun (version, conflict) => { version, conflict })
    fun written => (written.version, written.conflict)

def value : Format Value :=
  (both text (both version (both bytes (both (list version)
    (both word64 (both (option word64) (block 32))))))).map
    (fun (key, version, data, parents, timestamp, expiresAt, hash) =>
      { key, version, data, parents, timestamp, expiresAt, hash })
    fun value => (value.key, value.version, value.data, value.parents, value.timestamp,
      value.expiresAt, value.hash)

def origin : Format Origin :=
  variants [
    variant node Origin.client fun
      | .client destination => some destination
      | _ => none,
    variant empty (fun _ => Origin.peer) fun
      | .peer => some ()
      | _ => none]

def call : Format Call :=
  variants [
    variant (both origin (list write)) (fun (origin, writes) => .write origin writes) fun
      | .write origin writes => some (origin, writes)
      | _ => none,
    variant (list read) Call.read fun
      | .read reads => some reads
      | _ => none,
    variant (both origin (list removal)) (fun (origin, removals) => .remove origin removals) fun
      | .remove origin removals => some (origin, removals)
      | _ => none,
    variant empty (fun _ => Call.nodes) fun
      | .nodes => some ()
      | _ => none,
    variant endpoint Call.nodeAt fun
      | .nodeAt endpoint => some endpoint
      | _ => none]

def faultKind : Format Fault.Kind :=
  variants [
    variant empty (fun _ => Fault.Kind.configuration) fun
      | .configuration => some ()
      | _ => none,
    variant empty (fun _ => Fault.Kind.invalidArgument) fun
      | .invalidArgument => some ()
      | _ => none,
    variant empty (fun _ => Fault.Kind.storage) fun
      | .storage => some ()
      | _ => none,
    variant empty (fun _ => Fault.Kind.protocol) fun
      | .protocol => some ()
      | _ => none]

def fault : Format Fault :=
  (both faultKind text).map (fun (kind, message) => { kind, message })
    fun fault => (fault.kind, fault.message)

def answer : Format Answer :=
  variants [
    variant (list written) Answer.written fun
      | .written results => some results
      | _ => none,
    variant (list (list value)) Answer.values fun
      | .values found => some found
      | _ => none,
    variant (list bool) Answer.removed fun
      | .removed flags => some flags
      | _ => none,
    variant (list node) Answer.nodes fun
      | .nodes nodes => some nodes
      | _ => none,
    variant (option node) Answer.node fun
      | .node node => some node
      | _ => none,
    variant fault Answer.fault fun
      | .fault fault => some fault
      | _ => none]

def message : Format Message :=
  variants [
    variant (list write) Message.writes fun
      | .writes writes => some writes
      | _ => none,
    variant (list removal) Message.removals fun
      | .removals removals => some removals
      | _ => none]

end ReplicaRing.Wire.Layout
