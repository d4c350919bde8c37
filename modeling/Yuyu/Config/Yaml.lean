import Yuyu.Foundation.Decimal
import Yuyu.Foundation.DocumentTree
import Yuyu.Http.Request

/-!
# The interface to yaml-cpp

The functions of `yaml-cpp`, which is not part of the repository, are the parameters of `YamlCpp`,
and what is assumed of them are the fields of `Lawful`. Trees of scalars, sequences and maps are an
instance.
-/

namespace Yuyu.Config

open Foundation DocumentTree
open Http (Bytes ascii)

/-- The range of an `int`. -/
abbrev CInt := { v : Int // -2 ^ 31 ≤ v ∧ v < 2 ^ 31 }

/-- The functions of `yaml-cpp` that the conversions call.  An exception is an outer `none`, and an
undefined node an inner one. -/
structure YamlCpp (Node : Type) where
  /-- `YAML::Node()`. -/
  new : Node
  /-- `YAML::Node(YAML::NodeType::Map)`. -/
  newMap : Node
  /-- A node that a string is assigned to. -/
  scalar : Bytes → Node
  /-- A node that an `int` is assigned to. -/
  int : CInt → Node
  /-- `node[key] = v`. -/
  assign : Bytes → Node → Node → Node
  /-- `node[key].push_back(v)`. -/
  pushBack : Bytes → Node → Node → Node
  /-- `node[key]`, for reading. -/
  index : Bytes → Node → Option (Option Node)
  /-- `node.size()`. -/
  size : Node → Nat
  /-- `node[i]`. -/
  nth : Nat → Node → Option (Option Node)
  /-- `node.as<std::string>()`. -/
  asString : Option Node → Option Bytes
  /-- `node.as<std::string>(fallback)`. -/
  asStringOr : Bytes → Option Node → Bytes
  /-- `node.as<int>(fallback)`. -/
  asIntOr : CInt → Option Node → CInt
  /-- The pairs `it->first.Scalar()` and `it->second` of an iteration over a node. -/
  pairs : Node → Option (List (Bytes × Node))
  /-- `YAML::Load`. -/
  load : Bytes → Option Node
  /-- `ss << node`. -/
  print : Node → Bytes

namespace YamlCpp

variable {Node : Type} (Y : YamlCpp Node)

/-- The nodes that assignments to keys make of a node. -/
inductive Table (start : Node) : Node → Prop where
  | start : Table start start
  | assign (key : Bytes) (v : Node) {n : Node} (h : Table start n) : Table start (Y.assign key v n)
  | pushBack (key : Bytes) (v : Node) {n : Node} (h : Table start n) :
    Table start (Y.pushBack key v n)

/-- The node is a sequence of the items. -/
structure Holds (items : List Node) (n : Node) : Prop where
  size : Y.size n = items.length
  nth : ∀ i < items.length, Y.nth i n = some items[i]?

/-- What is assumed of `yaml-cpp`. -/
structure Lawful : Prop where
  /-- A node tree is printed and reloaded faithfully. -/
  load_print : ∀ n, Y.load (Y.print n) = some n
  /-- There is nothing to iterate over in the empty text. -/
  pairs_load_nil : (Y.load []).bind Y.pairs = some []
  /-- A new node has no keys. -/
  index_new : ∀ key, Y.index key Y.new = some none
  index_assign_self : ∀ key v {n}, Y.Table Y.new n → Y.index key (Y.assign key v n) = some (some v)
  index_assign_of_ne : ∀ {key key'} v {n}, key' ≠ key → Y.Table Y.new n →
    Y.index key' (Y.assign key v n) = Y.index key' n
  index_pushBack_of_ne : ∀ {key key'} v {n}, key' ≠ key → Y.Table Y.new n →
    Y.index key' (Y.pushBack key v n) = Y.index key' n
  /-- The first item makes a sequence of an undefined node. -/
  index_pushBack_undefined : ∀ {key} v {n}, Y.Table Y.new n → Y.index key n = some none →
    ∃ l, Y.index key (Y.pushBack key v n) = some (some l) ∧ Y.Holds [v] l
  /-- A further item goes to the end of a sequence. -/
  index_pushBack_holds : ∀ {key} v {n l items}, Y.Table Y.new n → Y.index key n = some (some l) →
    items ≠ [] → Y.Holds items l →
      ∃ l', Y.index key (Y.pushBack key v n) = some (some l') ∧ Y.Holds (items ++ [v]) l'
  asString_scalar : ∀ text, Y.asString (some (Y.scalar text)) = some text
  asStringOr_scalar : ∀ fallback text, Y.asStringOr fallback (some (Y.scalar text)) = text
  /-- A map node gives the fallback. -/
  asStringOr_map : ∀ fallback {n}, Y.Table Y.newMap n → Y.asStringOr fallback (some n) = fallback
  asIntOr_int : ∀ fallback v, Y.asIntOr fallback (some (Y.int v)) = v

/-- Assign to a key if the condition holds. -/
def assignIf (c : Prop) [Decidable c] (key : Bytes) (v n : Node) : Node :=
  if c then Y.assign key v n else n

/-- Assign to the keys in turn. -/
def assignAll (kvs : List (Bytes × Node)) (n : Node) : Node :=
  kvs.foldl (fun n kv => Y.assign kv.1 kv.2 n) n

/-- Append the items to the sequence of a key in turn. -/
def pushAll (key : Bytes) (items : List Node) (n : Node) : Node :=
  items.foldl (fun n v => Y.pushBack key v n) n

variable {Y} {start n : Node} {key key' : Bytes} {v : Node}

lemma Table.assignIf (h : Y.Table start n) (c : Prop) [Decidable c] (key : Bytes) (v : Node) :
    Y.Table start (Y.assignIf c key v n) := by
  unfold YamlCpp.assignIf
  split
  · exact h.assign key v
  · exact h

lemma Table.assignAll (h : Y.Table start n) (kvs : List (Bytes × Node)) :
    Y.Table start (Y.assignAll kvs n) := by
  induction kvs generalizing n with
  | nil => exact h
  | cons kv kvs ih => exact ih (h.assign kv.1 kv.2)

namespace Lawful

variable (hY : Y.Lawful) (hn : Y.Table Y.new n)
include hY hn

lemma index_assignIf_self (c : Prop) [Decidable c] (key : Bytes) (v : Node) :
    Y.index key (Y.assignIf c key v n) = if c then some (some v) else Y.index key n := by
  unfold assignIf
  split
  · exact hY.index_assign_self key v hn
  · rfl

lemma index_assignIf_of_ne (h : key' ≠ key) (c : Prop) [Decidable c] (v : Node) :
    Y.index key' (Y.assignIf c key v n) = Y.index key' n := by
  unfold assignIf
  split
  · exact hY.index_assign_of_ne v h hn
  · rfl

lemma index_assignAll_of_notMem {kvs : List (Bytes × Node)} (h : key ∉ kvs.map Prod.fst) :
    Y.index key (Y.assignAll kvs n) = Y.index key n := by
  induction kvs generalizing n with
  | nil => rfl
  | cons kv kvs ih =>
    rw [List.map_cons, List.mem_cons, not_or] at h
    exact (ih (hn.assign kv.1 kv.2) h.2).trans (hY.index_assign_of_ne kv.2 h.1 hn)

/-- Each of several different keys is found. -/
theorem index_assignAll_of_mem {kvs : List (Bytes × Node)} (hnodup : (kvs.map Prod.fst).Nodup)
    (h : (key, v) ∈ kvs) : Y.index key (Y.assignAll kvs n) = some (some v) := by
  induction kvs generalizing n with
  | nil => cases h
  | cons kv kvs ih =>
    rw [List.map_cons, List.nodup_cons] at hnodup
    have hassigned := hn.assign kv.1 kv.2
    obtain heq | hmem := List.mem_cons.mp h
    · subst heq
      exact (hY.index_assignAll_of_notMem hassigned hnodup.1).trans
        (hY.index_assign_self key v hn)
    · exact ih hassigned hnodup.2 hmem

lemma index_pushAll_of_ne (h : key' ≠ key) (items : List Node) :
    Y.index key' (Y.pushAll key items n) = Y.index key' n := by
  induction items generalizing n with
  | nil => rfl
  | cons v items ih => exact (ih (hn.pushBack key v)).trans (hY.index_pushBack_of_ne v h hn)

lemma index_pushAll_holds {front : List Node} {l : Node} (h : Y.index key n = some (some l))
    (hne : front ≠ []) (hl : Y.Holds front l) (items : List Node) :
    ∃ l', Y.index key (Y.pushAll key items n) = some (some l') ∧ Y.Holds (front ++ items) l' := by
  induction items generalizing n front l with
  | nil => exact ⟨l, h, by rwa [List.append_nil]⟩
  | cons v items ih =>
    obtain ⟨l₁, h₁, hl₁⟩ := hY.index_pushBack_holds v hn h hne hl
    obtain ⟨l', h', hl'⟩ := ih (hn.pushBack key v) h₁ (List.append_ne_nil_of_left_ne_nil hne _) hl₁
    exact ⟨l', h', by rwa [List.append_assoc] at hl'⟩

/-- The sequence of a new key has the items, unless there are none. -/
theorem index_pushAll (h : Y.index key n = some none) {items : List Node} (hne : items ≠ []) :
    ∃ l, Y.index key (Y.pushAll key items n) = some (some l) ∧ Y.Holds items l := by
  cases items with
  | nil => exact absurd rfl hne
  | cons v items =>
    obtain ⟨l, hl, hholds⟩ := hY.index_pushBack_undefined v hn h
    exact hY.index_pushAll_holds (hn.pushBack key v) hl (List.cons_ne_nil v []) hholds items

end Lawful

/-! ## Maps of strings -/

/-- A `std::map<std::string, std::string>` in its order. -/
abbrev StringMap := List (Bytes × Bytes)

/-- `map.insert`, which keeps the value of a key that is there. -/
def insert (key val : Bytes) : StringMap → StringMap
  | [] => [(key, val)]
  | (k, v) :: rest =>
    if key < k then (key, val) :: (k, v) :: rest
    else if key = k then (k, v) :: rest
    else (k, v) :: insert key val rest

variable (Y)

/-- `LexicalCast<std::map<std::string, std::string>, std::string>`.  The value of
each entry is itself loaded as YAML. -/
def mapToString (m : StringMap) : Option Bytes :=
  (m.foldlM (fun n e => (Y.load e.2).map fun v => Y.assign e.1 v n) Y.newMap).map Y.print

/-- `LexicalCast<std::string, std::map<std::string, std::string>>`. -/
def mapFromString (text : Bytes) : Option StringMap := do
  let node ← Y.load text
  let pairs ← Y.pairs node
  return pairs.foldl (fun m e => insert e.1 (Y.print e.2) m) []

variable {Y}

lemma Table.foldlM {m : StringMap} {n' : Node} (h : Y.Table start n)
    (hfold : m.foldlM (fun n e => (Y.load e.2).map fun v => Y.assign e.1 v n) n = some n') :
    Y.Table start n' := by
  induction m generalizing n with
  | nil => exact Option.some.inj hfold ▸ h
  | cons e m ih =>
    obtain ⟨n₁, hload, hrest⟩ := Option.bind_eq_some_iff.mp hfold
    obtain ⟨v, -, rfl⟩ := Option.map_eq_some_iff.mp hload
    exact ih (h.assign e.1 v) hrest

lemma Lawful.load_mapToString (hY : Y.Lawful) {m : StringMap} {text : Bytes}
    (h : Y.mapToString m = some text) : ∃ n, Y.load text = some n ∧ Y.Table Y.newMap n := by
  obtain ⟨n, hfold, rfl⟩ := Option.map_eq_some_iff.mp h
  exact ⟨n, hY.load_print n, Table.start.foldlM hfold⟩

lemma Lawful.mapFromString_nil (hY : Y.Lawful) : Y.mapFromString [] = some [] := by
  obtain ⟨n, hload, hpairs⟩ := Option.bind_eq_some_iff.mp hY.pairs_load_nil
  simp [mapFromString, hload, hpairs]

/-- The entries of a node that keys are assigned to. -/
def entries : Document → Entries
  | .map entries => entries
  | _ => []

/-- Document trees as an instance. -/
def documents : YamlCpp Document where
  new := .null
  newMap := .map []
  scalar := .scalar
  int v := .scalar (Decimal.printInt v.1)
  assign key v n := .map ((entries n).assign key v)
  pushBack key v n := .map ((entries n).pushBack key v)
  index key
    | .scalar _ => none
    | n => some ((entries n).find key)
  size
    | .sequence items => items.length
    | .map entries => entries.length
    | _ => 0
  nth i
    | .sequence items => some items[i]?
    | .scalar _ => none
    | _ => some none
  asString
    | some (.scalar text) => some text
    | _ => none
  asStringOr fallback
    | some (.scalar text) => text
    | _ => fallback
  asIntOr fallback
    | some (.scalar text) =>
      match Decimal.readSigned text with
      | some v => if h : -2 ^ 31 ≤ v ∧ v < 2 ^ 31 then ⟨v, h⟩ else fallback
      | none => fallback
    | _ => fallback
  pairs
    | .map entries => some (entries.map fun e =>
        (match e.1 with
          | .scalar text => text
          | _ => [], e.2))
    | .sequence (_ :: _) => none
    | _ => some []
  load := Document.load
  print := Document.print

lemma index_documents {n : Document} (h : documents.Table .null n) :
    documents.index key n = some ((entries n).find key) := by
  cases h <;> rfl

lemma Table.eq_map {n : Document} (h : documents.Table (.map []) n) : ∃ es, n = .map es := by
  cases h with
  | start => exact ⟨[], rfl⟩
  | assign key v => exact ⟨_, rfl⟩
  | pushBack key v => exact ⟨_, rfl⟩

lemma holds_sequence (items : List Document) : documents.Holds items (.sequence items) :=
  ⟨rfl, fun _ _ => rfl⟩

/-- A sequence is known by its items. -/
lemma eq_sequence_of_holds {items : List Document} {l : Document} (hne : items ≠ [])
    (h : documents.Holds items l) : l = .sequence items := by
  have hpos := List.length_pos_iff.mpr hne
  have hfirst := h.nth 0 hpos
  have hsize : documents.size l = items.length := h.size
  cases l with
  | sequence items' =>
    refine congrArg _ (List.ext_getElem? fun i => ?_)
    have hlen : items'.length = items.length := hsize
    by_cases hi : i < items.length
    · exact Option.some.inj (h.nth i hi)
    · rw [List.getElem?_eq_none (by omega), List.getElem?_eq_none (by omega)]
  | null => exact absurd hsize.symm hpos.ne'
  | scalar text => cases hfirst
  | map es =>
    rw [List.getElem?_eq_getElem hpos] at hfirst
    cases hfirst

/-- The assumptions are met by document trees. -/
theorem documents_lawful : documents.Lawful where
  load_print := Document.load_print
  pairs_load_nil := rfl
  index_new _ := rfl
  index_assign_self key v n _ := congrArg some (Entries.find_assign_self key v (entries n))
  index_assign_of_ne v n hne h :=
    (congrArg some (Entries.find_assign_of_ne hne v (entries n))).trans (index_documents h).symm
  index_pushBack_of_ne v n hne h :=
    (congrArg some (Entries.find_pushBack_of_ne hne v (entries n))).trans (index_documents h).symm
  index_pushBack_undefined := by
    intro key v n h hnone
    rw [index_documents h, Option.some.injEq] at hnone
    have hfind : ((entries n).pushBack key v).find key = some (.sequence [v]) := by
      simp [Entries.pushBack, hnone]
    exact ⟨.sequence [v], congrArg some hfind, holds_sequence [v]⟩
  index_pushBack_holds := by
    intro key v n l items h hsome hne hl
    obtain rfl := eq_sequence_of_holds hne hl
    rw [index_documents h, Option.some.injEq] at hsome
    have hfind : ((entries n).pushBack key v).find key = some (.sequence (items ++ [v])) := by
      simp [Entries.pushBack, hsome]
    exact ⟨.sequence (items ++ [v]), congrArg some hfind, holds_sequence _⟩
  asString_scalar _ := rfl
  asStringOr_scalar _ _ := rfl
  asStringOr_map fallback n h := by
    obtain ⟨es, rfl⟩ := h.eq_map
    rfl
  asIntOr_int fallback v := by
    simp only [documents, Decimal.readSigned_printInt, dif_pos v.2]

end YamlCpp
end Yuyu.Config
