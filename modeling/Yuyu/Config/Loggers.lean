import Yuyu.Config.LogDefine
import Yuyu.Config.LogFormatter
import Yuyu.Foundation.PointUpdates

/-!
# Loggers and the listener of their configuration

The loggers of `yuyu/log.cc` and the listener that `LogIniter` installs at the variable `log`. It
applies the definitions that are new or changed and clears the loggers of those that are gone.
-/

namespace Yuyu.Config

open List Function
open Foundation
open Http (Bytes ascii)

inductive Sink where
  | file (filename : Bytes)
  | stdout
deriving DecidableEq

structure LogAppender where
  sink : Sink
  level : LogLevel := .DEBUG
  formatter : Option LogFormatter := none
  hasFormatter : Bool := false

def LogAppender.setFormatter (val : Option LogFormatter) (a : LogAppender) : LogAppender :=
  { a with formatter := val, hasFormatter := val.isSome }

/-- `Logger`, as its constructor leaves it. -/
structure Logger where
  level : LogLevel := .DEBUG
  formatter : LogFormatter := LogFormatter.new defaultPattern
  appenders : List LogAppender := []

namespace Logger

def setLevel (val : LogLevel) (l : Logger) : Logger := { l with level := val }

def addAppender (appender : LogAppender) (l : Logger) : Logger :=
  let appender :=
    if appender.formatter.isNone then { appender with formatter := some l.formatter }
    else appender
  { l with appenders := l.appenders ++ [appender] }

def clearAppenders (l : Logger) : Logger := { l with appenders := [] }

def setFormatter (val : LogFormatter) (l : Logger) : Logger :=
  { l with
    formatter := val
    appenders := l.appenders.map fun a =>
      if a.hasFormatter then a else { a with formatter := some val } }

def setPattern (val : Bytes) (l : Logger) : Logger :=
  let newVal := LogFormatter.new val
  if newVal.isError then l else l.setFormatter newVal

end Logger

/-- `LoggerManager`.  A name that was not asked for yet stands for a new logger. -/
abbrev Loggers := Bytes → Logger

def Loggers.initial : Loggers :=
  update (fun _ => {}) (ascii "root") (Logger.addAppender { sink := .stdout } {})

structure LogDefines where
  elems : List LogDefine
  sorted : elems.Pairwise fun i j => i.name < j.name

namespace LogDefines

instance : EmptyCollection LogDefines := ⟨⟨[], List.Pairwise.nil⟩⟩

/-- Equality of sets compares the definitions with `operator==`. -/
instance : DecidableEq LogDefines := fun s t =>
  decidable_of_iff (s.elems = t.elems) ⟨fun h => by cases s; cases t; cases h; rfl, congrArg elems⟩

/-- `find`, which looks at the name only. -/
def find (s : LogDefines) (name : Bytes) : Option LogDefine := s.elems.find? fun d => d.name == name

lemma names_ne (s : LogDefines) : s.elems.Pairwise fun i j => i.name ≠ j.name :=
  s.sorted.imp (S := fun i j => i.name ≠ j.name) fun h heq => List.lt_irrefl _ (heq ▸ h)

lemma find_eq_some_iff {s : LogDefines} {name : Bytes} {d : LogDefine} :
    s.find name = some d ↔ d ∈ s.elems ∧ d.name = name := by
  obtain ⟨l, hl⟩ := s
  have hne : l.Pairwise fun i j => i.name ≠ j.name := names_ne ⟨l, hl⟩
  change l.find? (fun d => d.name == name) = some d ↔ d ∈ l ∧ d.name = name
  clear hl
  induction l with
  | nil => simp
  | cons e l ih =>
    obtain ⟨hfirst, htail⟩ := pairwise_cons.mp hne
    by_cases he : e.name = name
    · rw [List.find?_cons_of_pos (by simpa using he)]
      constructor
      · intro h
        cases h
        exact ⟨mem_cons_self, he⟩
      rintro ⟨hd, hname⟩
      rcases mem_cons.mp hd with rfl | hd
      · rfl
      · exact absurd (he.trans hname.symm) (hfirst d hd)
    rw [List.find?_cons_of_neg (by simpa using he), ih htail]
    constructor
    · exact fun h => ⟨mem_cons_of_mem e h.1, h.2⟩
    rintro ⟨hd, hname⟩
    rcases mem_cons.mp hd with rfl | hd
    · exact absurd hname he
    · exact ⟨hd, hname⟩

lemma find_eq_none_iff {s : LogDefines} {name : Bytes} :
    s.find name = none ↔ ∀ d ∈ s.elems, d.name ≠ name := by
  simp [find]

end LogDefines

/-- The appender built from a definition. A type that is not known leaves the pointer `ap` null, and
`setLevel` dereferences it. -/
def LogAppenderDefine.build (a : LogAppenderDefine) : Option LogAppender := do
  let ap : LogAppender ←
    if a.type = 1 then some { sink := .file a.file }
    else if a.type = 2 then some { sink := .stdout }
    else none
  let ap := { ap with level := a.level }
  if a.formatter ≠ [] then
    let fmt := LogFormatter.new a.formatter
    return if fmt.isError then ap else ap.setFormatter (some fmt)
  else return ap

def Logger.define (i : LogDefine) (logger : Logger) : Option Logger :=
  let logger := logger.setLevel i.level
  let logger := if i.formatter ≠ [] then logger.setPattern i.formatter else logger
  let logger := logger.clearAppenders
  i.appenders.foldlM (fun logger a => a.build.map fun ap => logger.addAppender ap) logger

def Logger.undefine (logger : Logger) : Logger := (logger.setLevel .UNKNOW).clearAppenders

def applyNew (oldValue : LogDefines) (i : LogDefine) (logger : Logger) : Option Logger :=
  if oldValue.find i.name = some i then some logger else logger.define i

def clearOld (newValue : LogDefines) (i : LogDefine) (logger : Logger) : Option Logger :=
  if newValue.find i.name = none then some logger.undefine else some logger

def onChange (oldValue newValue : LogDefines) (g : Loggers) : Option Loggers := do
  let g ← PointUpdates.rewrite LogDefine.name (applyNew oldValue) newValue.elems g
  PointUpdates.rewrite LogDefine.name (clearOld newValue) oldValue.elems g

/-- A pattern that replaces the formatter. -/
def Usable (pattern : Bytes) : Prop := pattern ≠ [] ∧ (LogFormatter.new pattern).isError = false
deriving Decidable

def LogDefine.Known (d : LogDefine) : Prop := ∀ a ∈ d.appenders, a.type = 1 ∨ a.type = 2

instance (d : LogDefine) : Decidable d.Known := inferInstanceAs (Decidable (∀ a ∈ d.appenders, _))

def chooseFormatter (pattern : Bytes) (kept : LogFormatter) : LogFormatter :=
  if Usable pattern then LogFormatter.new pattern else kept

def LogAppender.withDefault (f : LogFormatter) (a : LogAppender) : LogAppender :=
  { a with formatter := some (a.formatter.getD f) }

def LogAppenderDefine.buildWith (f : LogFormatter) (a : LogAppenderDefine) : Option LogAppender :=
  a.build.map (LogAppender.withDefault f)

def LogDefine.loggerWith (d : LogDefine) (f : LogFormatter) : Option Logger :=
  (d.appenders.mapM (LogAppenderDefine.buildWith f)).map fun appenders =>
    { level := d.level, formatter := f, appenders := appenders }

lemma addAppender_eq (ap : LogAppender) (l : Logger) :
    l.addAppender ap = { l with appenders := l.appenders ++ [ap.withDefault l.formatter] } := by
  obtain ⟨sink, level, formatter, hasFormatter⟩ := ap
  cases formatter <;> rfl

lemma foldlM_addAppender (as : List LogAppenderDefine) (l : Logger) :
    as.foldlM (fun l a => a.build.map fun ap => Logger.addAppender ap l) l
      = (as.mapM (LogAppenderDefine.buildWith l.formatter)).map fun added =>
          { l with appenders := l.appenders ++ added } := by
  induction as generalizing l with
  | nil => simp
  | cons a as ih =>
    rw [foldlM_cons, mapM_cons, LogAppenderDefine.buildWith]
    cases hbuild : a.build with
    | none => rfl
    | some ap =>
      simp only [Option.map_some, Option.bind_eq_bind, Option.bind_some, ih]
      rw [addAppender_eq]
      cases as.mapM (LogAppenderDefine.buildWith l.formatter) <;> simp

/-- What a definition makes of a logger. -/
theorem define_eq (i : LogDefine) (l : Logger) :
    l.define i = i.loggerWith (chooseFormatter i.formatter l.formatter) := by
  have hset : ((if i.formatter ≠ [] then (l.setLevel i.level).setPattern i.formatter
        else l.setLevel i.level).clearAppenders)
      = { level := i.level
          formatter := chooseFormatter i.formatter l.formatter
          appenders := [] } := by
    by_cases hempty : i.formatter = []
    · simp [hempty, chooseFormatter, Usable, Logger.clearAppenders, Logger.setLevel]
    cases herror : (LogFormatter.new i.formatter).isError <;>
      simp [hempty, herror, chooseFormatter, Usable, Logger.clearAppenders, Logger.setLevel,
        Logger.setPattern, Logger.setFormatter]
  rw [Logger.define, hset, foldlM_addAppender]
  rfl

lemma loggerWith_formatter {d : LogDefine} {f : LogFormatter} {l : Logger}
    (h : d.loggerWith f = some l) : l.formatter = f := by
  obtain ⟨as, -, rfl⟩ := Option.map_eq_some_iff.mp h
  rfl

lemma define_formatter {i : LogDefine} {l l' : Logger} (h : l.define i = some l') :
    l'.formatter = chooseFormatter i.formatter l.formatter :=
  loggerWith_formatter (define_eq i l ▸ h)

lemma chooseFormatter_idem (pattern : Bytes) (kept : LogFormatter) :
    chooseFormatter pattern (chooseFormatter pattern kept) = chooseFormatter pattern kept := by
  unfold chooseFormatter
  split <;> rfl

lemma define_idem {i : LogDefine} {l l' : Logger} (h : l.define i = some l') :
    l'.define i = some l' := by
  rw [define_eq, define_formatter h, chooseFormatter_idem, ← define_eq, h]

lemma exists_build_iff (a : LogAppenderDefine) :
    (∃ ap, a.build = some ap) ↔ a.type = 1 ∨ a.type = 2 := by
  by_cases hfile : a.type = 1
  · by_cases hempty : a.formatter = [] <;> simp [LogAppenderDefine.build, hfile, hempty]
  by_cases hstdout : a.type = 2
  · by_cases hempty : a.formatter = [] <;> simp [LogAppenderDefine.build, hstdout, hempty]
  · simp [LogAppenderDefine.build, hfile, hstdout]

lemma exists_define_iff (i : LogDefine) (l : Logger) : (∃ l', l.define i = some l') ↔ i.Known := by
  rw [define_eq, LogDefine.loggerWith, LogDefine.Known]
  generalize chooseFormatter i.formatter l.formatter = f
  have hall : ∀ as : List LogAppenderDefine,
      (∃ built, as.mapM (LogAppenderDefine.buildWith f) = some built)
        ↔ ∀ a ∈ as, a.type = 1 ∨ a.type = 2 := by
    intro as
    induction as with
    | nil => simp
    | cons a as ih =>
      rw [forall_mem_cons, ← ih, ← exists_build_iff, mapM_cons, LogAppenderDefine.buildWith]
      cases a.build <;> cases as.mapM (LogAppenderDefine.buildWith f) <;> simp
  rw [← hall]
  cases i.appenders.mapM (LogAppenderDefine.buildWith f) <;> simp

def InForce (s : LogDefines) (g : Loggers) : Prop :=
  ∀ d ∈ s.elems, (g d.name).define d = some (g d.name)

/-- All types of appenders in a set are known. -/
def LogDefines.Known (s : LogDefines) : Prop := ∀ d ∈ s.elems, d.Known

instance (s : LogDefines) : Decidable s.Known := inferInstanceAs (Decidable (∀ d ∈ s.elems, _))

section OnChange

variable {oldValue newValue : LogDefines} {g g' : Loggers}

lemma onChange_loops (h : onChange oldValue newValue g = some g') :
    ∃ g₁, PointUpdates.rewrite LogDefine.name (applyNew oldValue) newValue.elems g = some g₁
      ∧ PointUpdates.rewrite LogDefine.name (clearOld newValue) oldValue.elems g₁ = some g' :=
  Option.bind_eq_some_iff.mp h

lemma clearOld_apply {g₁ : Loggers}
    (h : PointUpdates.rewrite LogDefine.name (clearOld newValue) oldValue.elems g₁ = some g')
    (name : Bytes) :
    g' name = g₁ name ∨ newValue.find name = none ∧ g' name = (g₁ name).undefine := by
  by_cases hold : ∃ d ∈ oldValue.elems, d.name = name
  · obtain ⟨d, hd, rfl⟩ := hold
    have happ := PointUpdates.apply_of_mem oldValue.names_ne h hd
    rw [clearOld] at happ
    by_cases hnew : newValue.find d.name = none
    · rw [if_pos hnew] at happ
      exact Or.inr ⟨hnew, (Option.some.inj happ).symm⟩
    · rw [if_neg hnew] at happ
      exact Or.inl (Option.some.inj happ).symm
  · exact Or.inl (PointUpdates.apply_of_notMem h fun d hd hname => hold ⟨d, hd, hname⟩)

theorem onChange_configured (hforce : InForce oldValue g)
    (h : onChange oldValue newValue g = some g') {d : LogDefine} (hd : d ∈ newValue.elems) :
    (g d.name).define d = some (g' d.name) := by
  obtain ⟨g₁, hfirst, hsecond⟩ := onChange_loops h
  have hfind : newValue.find d.name = some d := LogDefines.find_eq_some_iff.mpr ⟨hd, rfl⟩
  have hkeep : g' d.name = g₁ d.name := by
    rcases clearOld_apply hsecond d.name with hkeep | ⟨hnone, -⟩
    · exact hkeep
    · rw [hfind] at hnone
      cases hnone
  have happ := PointUpdates.apply_of_mem newValue.names_ne hfirst hd
  rw [applyNew] at happ
  rw [hkeep]
  by_cases hold : oldValue.find d.name = some d
  · rw [if_pos hold] at happ
    rw [← happ]
    exact hforce d (LogDefines.find_eq_some_iff.mp hold).1
  · rw [if_neg hold] at happ
    exact happ

/-- What a call of the listener does to the formatters and to the loggers that are configured. -/
theorem onChange_formatter (h : onChange oldValue newValue g = some g') {name : Bytes}
    (hname : newValue.find name = none) : (g' name).formatter = (g name).formatter := by
  obtain ⟨g₁, hfirst, hsecond⟩ := onChange_loops h
  have hkeep : g₁ name = g name :=
    PointUpdates.apply_of_notMem hfirst (LogDefines.find_eq_none_iff.mp hname)
  rcases clearOld_apply hsecond name with heq | ⟨-, heq⟩
  · rw [heq, hkeep]
  · rw [heq, ← hkeep]
    rfl

/-- The listener returns if all types of appenders are known. -/
theorem exists_onChange (hknown : newValue.Known) (oldValue : LogDefines) (g : Loggers) :
    ∃ g', onChange oldValue newValue g = some g' := by
  have happly : ∀ d ∈ newValue.elems, ∀ l, ∃ l', applyNew oldValue d l = some l' := by
    intro d hd l
    rw [applyNew]
    split
    · exact ⟨l, rfl⟩
    · exact (exists_define_iff d l).mpr (hknown d hd)
  have hclear : ∀ d ∈ oldValue.elems, ∀ l, ∃ l', clearOld newValue d l = some l' := by
    intro d _ l
    rw [clearOld]
    split <;> exact ⟨_, rfl⟩
  obtain ⟨g₁, hfirst⟩ := PointUpdates.exists_rewrite happly g
  obtain ⟨g', hsecond⟩ := PointUpdates.exists_rewrite hclear g₁
  exact ⟨g', Option.bind_eq_some_iff.mpr ⟨g₁, hfirst, hsecond⟩⟩

end OnChange

end Yuyu.Config
