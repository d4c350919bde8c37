import Yuyu.Config.Yaml

/-!
# Configurations of TCP servers

The conversions between `TcpServerConf` and YAML text in `yuyu/tcp_server.h`. The arguments are
written as a map node and read with `as<std::string>("")`.
-/

namespace Yuyu.Config

open YamlCpp (StringMap)
open Http (Bytes ascii)

structure TcpServerConf where
  address : List Bytes := []
  keepalive : CInt := ⟨0, by decide⟩
  timeout : CInt := ⟨1000 * 2 * 60, by decide⟩
  ssl : CInt := ⟨0, by decide⟩
  id : Bytes := []
  type : Bytes := ascii "http"
  name : Bytes := []
  certFile : Bytes := []
  keyFile : Bytes := []
  acceptWorker : Bytes := []
  ioWorker : Bytes := []
  processWorker : Bytes := []
  args : StringMap := []
deriving DecidableEq

namespace TcpServerConf

variable {Node : Type} (Y : YamlCpp Node)

/-- The assignments in the order of the source; `args` is the node of the
arguments. -/
def assignments (conf : TcpServerConf) (args : Node) : List (Bytes × Node) := [
  (ascii "id", Y.scalar conf.id),
  (ascii "type", Y.scalar conf.type),
  (ascii "name", Y.scalar conf.name),
  (ascii "keepalive", Y.int conf.keepalive),
  (ascii "timeout", Y.int conf.timeout),
  (ascii "ssl", Y.int conf.ssl),
  (ascii "cert_file", Y.scalar conf.certFile),
  (ascii "key_file", Y.scalar conf.keyFile),
  (ascii "accept_worker", Y.scalar conf.acceptWorker),
  (ascii "io_worker", Y.scalar conf.ioWorker),
  (ascii "process_worker", Y.scalar conf.processWorker),
  (ascii "args", args)]

/-- The node of a configuration. -/
def toNode (conf : TcpServerConf) (args : Node) : Node :=
  Y.pushAll (ascii "address") (conf.address.map Y.scalar)
    (Y.assignAll (conf.assignments Y args) Y.new)

/-- `LexicalCast<TcpServerConf, std::string>`. -/
def toString (conf : TcpServerConf) : Option Bytes := do
  let text ← Y.mapToString conf.args
  let args ← Y.load text
  return Y.print (conf.toNode Y args)

/-- The loop over the addresses, if there are any. -/
def readAddress : Option Node → Option (List Bytes)
  | none => some []
  | some n => (List.range (Y.size n)).foldlM (fun read i => do
      let item ← Y.asString (← Y.nth i n)
      return read ++ [item]) []

/-- `LexicalCast<std::string, TcpServerConf>`. -/
def fromString (v : Bytes) : Option TcpServerConf := do
  let node ← Y.load v
  let conf : TcpServerConf := {}
  let id := Y.asStringOr conf.id (← Y.index (ascii "id") node)
  let type := Y.asStringOr conf.type (← Y.index (ascii "type") node)
  let keepalive := Y.asIntOr conf.keepalive (← Y.index (ascii "keepalive") node)
  let timeout := Y.asIntOr conf.timeout (← Y.index (ascii "timeout") node)
  let name := Y.asStringOr conf.name (← Y.index (ascii "name") node)
  let ssl := Y.asIntOr conf.ssl (← Y.index (ascii "ssl") node)
  let certFile := Y.asStringOr conf.certFile (← Y.index (ascii "cert_file") node)
  let keyFile := Y.asStringOr conf.keyFile (← Y.index (ascii "key_file") node)
  let acceptWorker ← Y.asString (← Y.index (ascii "accept_worker") node)
  let ioWorker ← Y.asString (← Y.index (ascii "io_worker") node)
  let processWorker ← Y.asString (← Y.index (ascii "process_worker") node)
  let args ← Y.mapFromString (Y.asStringOr [] (← Y.index (ascii "args") node))
  let address ← readAddress Y (← Y.index (ascii "address") node)
  return {
    address := address, keepalive := keepalive, timeout := timeout, ssl := ssl, id := id
    type := type, name := name, certFile := certFile, keyFile := keyFile
    acceptWorker := acceptWorker, ioWorker := ioWorker, processWorker := processWorker
    args := args }

/-- A configuration that is converted to text and back. -/
def roundTrip (conf : TcpServerConf) : Option TcpServerConf := (conf.toString Y).bind (fromString Y)

/-! ## Round trips -/

variable {Y} (hY : Y.Lawful)
include hY

lemma foldlM_items {items : List Bytes} {l : Node} (hl : Y.Holds (items.map Y.scalar) l) (k : Nat)
    (hk : k ≤ items.length) :
    (List.range k).foldlM (fun read i => do
      let item ← Y.asString (← Y.nth i l)
      return read ++ [item]) [] = some (items.take k) := by
  induction k with
  | zero => rfl
  | succ k ih =>
    have hlt : k < items.length := hk
    have hnth : Y.nth k l = some (some (Y.scalar items[k])) := by
      rw [hl.nth k (by rwa [List.length_map]), List.getElem?_map, List.getElem?_eq_getElem hlt,
        Option.map_some]
    rw [List.range_succ, List.foldlM_append, ih (by omega)]
    simp only [Option.bind_eq_bind, Option.bind_some, List.foldlM_cons, List.foldlM_nil, hnth,
      hY.asString_scalar, Option.pure_def, List.take_succ_eq_append_getElem hlt]

omit hY in
lemma keys_assignments (conf : TcpServerConf) (args : Node) :
    (conf.assignments Y args).map Prod.fst =
      [ascii "id", ascii "type", ascii "name", ascii "keepalive", ascii "timeout", ascii "ssl",
        ascii "cert_file", ascii "key_file", ascii "accept_worker", ascii "io_worker",
        ascii "process_worker", ascii "args"] := rfl

/-- Every assigned key is found. -/
lemma index_assigned (conf : TcpServerConf) (args : Node) :
    ∀ kv ∈ conf.assignments Y args, Y.index kv.1 (conf.toNode Y args) = some (some kv.2) := by
  intro kv h
  have hkeys : ((conf.assignments Y args).map Prod.fst).Nodup := by
    rw [keys_assignments]
    decide
  have hkey : kv.1 ≠ ascii "address" := by
    have hmem := List.mem_map_of_mem (f := Prod.fst) h
    rw [keys_assignments] at hmem
    intro heq
    rw [heq] at hmem
    revert hmem
    decide
  rw [toNode, hY.index_pushAll_of_ne (YamlCpp.Table.start.assignAll _) hkey,
    hY.index_assignAll_of_mem .start hkeys h]

/-- The addresses are read back. -/
lemma readAddress_index (conf : TcpServerConf) (args : Node) :
    ∃ n, Y.index (ascii "address") (conf.toNode Y args) = some n ∧
      readAddress Y n = some conf.address := by
  have hnone : Y.index (ascii "address") (Y.assignAll (conf.assignments Y args) Y.new) =
      some none := by
    rw [hY.index_assignAll_of_notMem .start (by rw [keys_assignments]; decide), hY.index_new]
  by_cases hempty : conf.address = []
  · refine ⟨none, ?_, by rw [hempty]; rfl⟩
    rw [toNode, hempty]
    exact hnone
  obtain ⟨l, hindex, hl⟩ := hY.index_pushAll (YamlCpp.Table.start.assignAll _) hnone
    (show conf.address.map Y.scalar ≠ [] by simpa using hempty)
  refine ⟨some l, hindex, ?_⟩
  have hitems := foldlM_items hY hl conf.address.length le_rfl
  rw [readAddress, hl.size, List.length_map, hitems, List.take_length]

lemma fromString_print (conf : TcpServerConf) {args : Node} (hargs : Y.Table Y.newMap args) :
    fromString Y (Y.print (conf.toNode Y args)) = some { conf with args := [] } := by
  have hfind : ∀ kv ∈ conf.assignments Y args, ∀ f : Option Node → Option TcpServerConf,
      (Y.index kv.1 (conf.toNode Y args) >>= f) = f (some kv.2) := by
    intro kv h f
    rw [index_assigned hY conf args kv h]
    rfl
  simp only [assignments, List.forall_mem_cons] at hfind
  obtain ⟨hid, htype, hname, hkeepalive, htimeout, hssl, hcert, hkey, haccept, hio, hprocess,
    hmap, -⟩ := hfind
  obtain ⟨addressNode, hindex, haddress⟩ := readAddress_index hY conf args
  have hload (f : Node → Option TcpServerConf) (n : Node) : (some n >>= f) = f n := rfl
  rw [fromString, hY.load_print]
  -- the lookups are rewritten from the outside, before the calls that use them
  simp only [↓hload, ↓hid, ↓htype, ↓hname, ↓hkeepalive, ↓htimeout, ↓hssl, ↓hcert, ↓hkey, ↓haccept,
    ↓hio, ↓hprocess, ↓hmap]
  simp only [hindex, haddress, hY.asIntOr_int, hY.asStringOr_scalar, hY.asString_scalar,
    hY.asStringOr_map _ hargs, hY.mapFromString_nil, Option.bind_eq_bind, Option.bind_some,
    Option.pure_def]

lemma roundTrip_eq (conf : TcpServerConf) :
    conf.roundTrip Y = (Y.mapToString conf.args).map fun _ => { conf with args := [] } := by
  cases htext : Y.mapToString conf.args with
  | none => simp [roundTrip, toString, htext]
  | some text =>
    obtain ⟨args, hload, hargs⟩ := hY.load_mapToString htext
    simp [roundTrip, toString, htext, hload, fromString_print hY conf hargs]

end TcpServerConf

/-- A configuration survives the conversion to text and back exactly if it has no
arguments. -/
theorem tcpServerConf_roundTrip_iff {Node : Type} {Y : YamlCpp Node} (hY : Y.Lawful)
    (conf : TcpServerConf) : conf.roundTrip Y = some conf ↔ conf.args = [] := by
  rw [TcpServerConf.roundTrip_eq hY]
  constructor
  · intro h
    obtain ⟨text, -, heq⟩ := Option.map_eq_some_iff.mp h
    rw [← heq]
  · intro hargs
    rw [hargs, show Y.mapToString [] = some (Y.print Y.newMap) from rfl, Option.map_some, ← hargs]

/-- Two addresses and no arguments, through document trees. -/
theorem tcpServerConf_roundTrip_iff_addresses :
    TcpServerConf.roundTrip .documents { address := [ascii "0.0.0.0:80", ascii "[::]:80"] } =
      some { address := [ascii "0.0.0.0:80", ascii "[::]:80"] } :=
  (tcpServerConf_roundTrip_iff YamlCpp.documents_lawful _).mpr rfl

def exampleConf : TcpServerConf where
  address := [ascii "0.0.0.0:80"]
  args := [(ascii "root", [])]

/-- The argument is lost. -/
theorem exampleConf_args_lost :
    exampleConf.roundTrip .documents = some { exampleConf with args := [] } ∧
      exampleConf.roundTrip .documents ≠ some exampleConf := by
  have hlost : exampleConf.roundTrip .documents = some { exampleConf with args := [] } := by
    rw [TcpServerConf.roundTrip_eq YamlCpp.documents_lawful]
    rfl
  refine ⟨hlost, ?_⟩
  rw [hlost]
  decide

end Yuyu.Config
