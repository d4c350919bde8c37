import Yuyu.Config.Yaml

/-!
# Logger definitions

The conversions between `LogDefine` and YAML text in `yuyu/log.cc`. Levels are written in upper case
and read in lower case only. A definition read with the level `UNKNOW` becomes an empty one. The
appenders are written under `appender` and read from `appenders`, and their level is never read.
-/

namespace Yuyu.Config

open Http (Bytes ascii)

inductive LogLevel where
  | UNKNOW | DEBUG | INFO | WARN | ERROR | FATAL
deriving DecidableEq

namespace LogLevel

def toString : LogLevel → Bytes
  | .DEBUG => ascii "DEBUG"
  | .INFO => ascii "INFO"
  | .WARN => ascii "WARN"
  | .ERROR => ascii "ERROR"
  | .FATAL => ascii "FATAL"
  | .UNKNOW => ascii "UNKONW"

def fromString (str : Bytes) : LogLevel :=
  if str = ascii "debug" then .DEBUG
  else if str = ascii "info" then .INFO
  else if str = ascii "warn" then .WARN
  else if str = ascii "error" then .ERROR
  else if str = ascii "fatal" then .FATAL
  else if str = ascii "debug" then .DEBUG
  else if str = ascii "info" then .INFO
  else if str = ascii "warn" then .WARN
  else if str = ascii "error" then .ERROR
  else if str = ascii "fatal" then .FATAL
  else .UNKNOW

@[simp] lemma fromString_toString (level : LogLevel) : fromString level.toString = .UNKNOW := by
  cases level <;> decide

end LogLevel

/-- `LogAppenderDefine`.  The type is 1 for a file and 2 for standard output. -/
structure LogAppenderDefine where
  type : Int := 0
  level : LogLevel := .UNKNOW
  formatter : Bytes := []
  file : Bytes := []
deriving DecidableEq

structure LogDefine where
  name : Bytes := []
  level : LogLevel := .UNKNOW
  formatter : Bytes := []
  appenders : List LogAppenderDefine := []
deriving DecidableEq

section Conversions

variable {Node : Type} (Y : YamlCpp Node)

/-- The node of an appender. -/
def LogAppenderDefine.toNode (a : LogAppenderDefine) : Node :=
  let na := Y.new
  let na :=
    if a.type = 1 then
      Y.assign (ascii "file") (Y.scalar a.file)
        (Y.assign (ascii "type") (Y.scalar (ascii "FileLogAppender")) na)
    else if a.type = 2 then Y.assign (ascii "type") (Y.scalar (ascii "StdoutLogAppender")) na
    else na
  let na := Y.assignIf (a.level ≠ .UNKNOW) (ascii "level") (Y.scalar a.level.toString) na
  Y.assignIf (a.formatter ≠ []) (ascii "formatter") (Y.scalar a.formatter) na

/-- The assignments to the node of a definition. -/
def LogDefine.toFields (i : LogDefine) : Node :=
  let n := Y.assign (ascii "name") (Y.scalar i.name) Y.new
  let n := Y.assignIf (i.level ≠ .UNKNOW) (ascii "level") (Y.scalar i.level.toString) n
  Y.assignIf (i.formatter ≠ []) (ascii "formatter") (Y.scalar i.formatter) n

/-- The node of a definition, with its appenders. -/
def LogDefine.toNode (i : LogDefine) : Node :=
  Y.pushAll (ascii "appender") (i.appenders.map (LogAppenderDefine.toNode Y)) (i.toFields Y)

/-- `LexicalCast<LogDefine, std::string>`. -/
def LogDefine.toString (i : LogDefine) : Bytes := Y.print (i.toNode Y)

/-! ## Reading -/

/-- The string of a node, or the fallback if it is not defined. -/
def readField (fallback : Bytes) : Option Node → Option Bytes
  | none => some fallback
  | some n => Y.asString (some n)

/-- One round of the loop over the appenders.  The inner `none` is `continue`. -/
def LogAppenderDefine.ofNode (a : Node) : Option (Option LogAppenderDefine) := do
  match ← Y.index (ascii "type") a with
  | none => return none
  | some typeNode =>
    let type ← Y.asString (some typeNode)
    if type = ascii "FileLogAppender" then
      match ← Y.index (ascii "file") a with
      | none => return none
      | some fileNode =>
        let file ← Y.asString (some fileNode)
        let formatter ← readField Y [] (← Y.index (ascii "formatter") a)
        return some { type := 1, file := file, formatter := formatter }
    else if type = ascii "StdoutLogAppender" then
      let formatter ← readField Y [] (← Y.index (ascii "formatter") a)
      return some { type := 2, formatter := formatter }
    else return none

/-- The loop over the appenders. -/
def readAppenders : Option Node → Option (List LogAppenderDefine)
  | none => some []
  | some n => (List.range (Y.size n)).foldlM (fun read x => do
      let a ← Y.nth x n
      -- the subscript of an undefined node throws
      let lad ← a.bind (LogAppenderDefine.ofNode Y)
      return read ++ lad.toList) []

/-- `LexicalCast<std::string, LogDefine>`. -/
def LogDefine.fromString (v : Bytes) : Option LogDefine := do
  let n ← Y.load v
  match ← Y.index (ascii "name") n with
  | none => none
  | some nameNode =>
    let name ← Y.asString (some nameNode)
    let level := LogLevel.fromString (← readField Y [] (← Y.index (ascii "level") n))
    let formatter ← readField Y [] (← Y.index (ascii "formatter") n)
    let appenders ← readAppenders Y (← Y.index (ascii "appenders") n)
    if level = .UNKNOW then return {}
    else return { name := name, level := level, formatter := formatter, appenders := appenders }

namespace LogDefine

variable {Y} (hY : Y.Lawful) (i : LogDefine)

lemma table_name : Y.Table Y.new (Y.assign (ascii "name") (Y.scalar i.name) Y.new) :=
  .assign _ _ .start

lemma table_level : Y.Table Y.new (Y.assignIf (i.level ≠ .UNKNOW) (ascii "level")
    (Y.scalar i.level.toString) (Y.assign (ascii "name") (Y.scalar i.name) Y.new)) :=
  (table_name i).assignIf ..

include hY

lemma index_toNode {key : Bytes} (h : key ≠ ascii "appender") :
    Y.index key (i.toNode Y) = Y.index key (i.toFields Y) :=
  hY.index_pushAll_of_ne ((table_level i).assignIf ..) h _

lemma index_name : Y.index (ascii "name") (i.toNode Y) = some (some (Y.scalar i.name)) := by
  rw [index_toNode hY i (by decide), toFields, hY.index_assignIf_of_ne (table_level i) (by decide),
    hY.index_assignIf_of_ne (table_name i) (by decide), hY.index_assign_self _ _ .start]

lemma index_level : Y.index (ascii "level") (i.toNode Y) =
    some (if i.level ≠ .UNKNOW then some (Y.scalar i.level.toString) else none) := by
  rw [index_toNode hY i (by decide), toFields, hY.index_assignIf_of_ne (table_level i) (by decide),
    hY.index_assignIf_self (table_name i), hY.index_assign_of_ne _ (by decide) .start,
    hY.index_new]
  split <;> rfl

lemma index_formatter : Y.index (ascii "formatter") (i.toNode Y) =
    some (if i.formatter ≠ [] then some (Y.scalar i.formatter) else none) := by
  rw [index_toNode hY i (by decide), toFields, hY.index_assignIf_self (table_level i),
    hY.index_assignIf_of_ne (table_name i) (by decide),
    hY.index_assign_of_ne _ (by decide) .start, hY.index_new]
  split <;> rfl

lemma index_appenders : Y.index (ascii "appenders") (i.toNode Y) = some none := by
  rw [index_toNode hY i (by decide), toFields, hY.index_assignIf_of_ne (table_level i) (by decide),
    hY.index_assignIf_of_ne (table_name i) (by decide),
    hY.index_assign_of_ne _ (by decide) .start, hY.index_new]

lemma readField_level :
    ∃ text, readField Y [] (if i.level ≠ .UNKNOW then some (Y.scalar i.level.toString) else none) =
      some text ∧ LogLevel.fromString text = .UNKNOW := by
  split
  · exact ⟨_, hY.asString_scalar _, LogLevel.fromString_toString i.level⟩
  · exact ⟨[], rfl, by decide⟩

lemma readField_formatter :
    readField Y [] (if i.formatter ≠ [] then some (Y.scalar i.formatter) else none) =
      some i.formatter := by
  split
  · exact hY.asString_scalar _
  · rename_i h
    rw [readField, not_not.mp h]

lemma fromString_toString : fromString Y (i.toString Y) = some {} := by
  obtain ⟨text, htext, hlevel⟩ := readField_level hY i
  simp only [fromString, toString, hY.load_print, index_name hY, index_level hY,
    index_formatter hY, index_appenders hY, htext, hlevel, readField_formatter hY,
    hY.asString_scalar, readAppenders, Option.bind_eq_bind, Option.bind_some, Option.pure_def,
    if_true]

end LogDefine

/-- A definition survives the conversion to text and back exactly if it is the empty one. -/
theorem logDefine_roundTrip_iff {Y : YamlCpp Node} (hY : Y.Lawful) (i : LogDefine) :
    LogDefine.fromString Y (i.toString Y) = some i ↔ i = {} := by
  rw [LogDefine.fromString_toString hY, Option.some.injEq, eq_comm]

end Conversions

/-- The empty definition, through document trees. -/
theorem logDefine_roundTrip_iff_empty :
    LogDefine.fromString .documents (LogDefine.toString .documents {}) = some {} :=
  (logDefine_roundTrip_iff YamlCpp.documents_lawful {}).mpr rfl

def rootDefine : LogDefine where
  name := ascii "root"
  level := .INFO
  formatter := ascii "%d%m%n"
  appenders :=
    [{ type := 1, level := .ERROR, file := ascii "root.txt" },
      { type := 2, formatter := ascii "%m%n" }]

/-- Nothing of the definition comes back. -/
theorem rootDefine_lost :
    LogDefine.fromString .documents (rootDefine.toString .documents) = some {} ∧ rootDefine ≠ {} :=
  ⟨LogDefine.fromString_toString YamlCpp.documents_lawful rootDefine, by decide⟩

end Yuyu.Config
