import Yuyu.Config.Loggers

/-!
# Appenders that loggers share

An appender can be in the lists of several loggers of `yuyu/log.cc`. The formatter that it takes
from a logger is kept in the same field as one of its own, and `addAppender` sets it only if the
field is empty.
-/

namespace Yuyu.Config
namespace Appenders

open Foundation Function
open Http (ascii)

/-- `LogAppender` with `m_lastTime` of `FileLogAppender`.  Ghost: what `setFormatter` was last
given. -/
structure Appender extends LogAppender where
  lastTime : Nat := 0
  own : Option LogFormatter := none

/-- `Logger`, with the numbers of its appenders. -/
structure Logger where
  level : LogLevel := .DEBUG
  formatter : LogFormatter := LogFormatter.new defaultPattern
  appenders : List Nat := []

/-- The loggers and the appenders.  The root logger is `none`. -/
structure State where
  logger : Option Nat → Logger
  appender : Nat → Appender

namespace State

def modify (s : State) (a : Nat) (f : Appender → Appender) : State :=
  { s with appender := update s.appender a (f (s.appender a)) }

def setList (s : State) (l : Option Nat) (appenders : List Nat) : State :=
  { s with logger := update s.logger l { s.logger l with appenders := appenders } }

def addAppender (s : State) (l : Option Nat) (a : Nat) : State :=
  let appenders := (s.logger l).appenders ++ [a]
  if (s.appender a).formatter.isNone then
    (s.modify a fun x => { x with formatter := some (s.logger l).formatter }).setList l appenders
  else s.setList l appenders

def delAppender (s : State) (l : Option Nat) (a : Nat) : State :=
  s.setList l ((s.logger l).appenders.erase a)

/-- The loop sets the appenders without a formatter of their own. -/
def setFormatter (s : State) (l : Option Nat) (val : LogFormatter) : State where
  logger := update s.logger l { s.logger l with formatter := val }
  appender a :=
    if a ∈ (s.logger l).appenders ∧ (s.appender a).hasFormatter = false then
      { s.appender a with formatter := some val }
    else s.appender a

def setAppenderFormatter (s : State) (a : Nat) (val : Option LogFormatter) : State :=
  s.modify a fun x => { x with toLogAppender := x.toLogAppender.setFormatter val, own := val }

end State

/-- A logger with its appenders as values, as the listener of the configuration has it. -/
def State.view (s : State) (l : Option Nat) : Config.Logger where
  level := (s.logger l).level
  formatter := (s.logger l).formatter
  appenders := (s.logger l).appenders.map fun a => (s.appender a).toLogAppender

/-- Loggers that share no appender do what the operations on values do. -/
theorem view_unshared (s : State) (l : Option Nat) :
    (∀ a, (∀ l', a ∉ (s.logger l').appenders) → (s.addAppender l a).view =
      update s.view l ((s.view l).addAppender (s.appender a).toLogAppender)) ∧
    ((∀ l', l' ≠ l → ∀ a ∈ (s.logger l').appenders, a ∉ (s.logger l).appenders) → ∀ val,
      (s.setFormatter l val).view = update s.view l ((s.view l).setFormatter val)) := by
  refine ⟨fun a hnew => funext fun l' => ?_, fun hapart val => funext fun l' => ?_⟩
  · have hlogger (g : Appender → Appender) : (s.modify a g).logger = s.logger := rfl
    have hself (g : Appender → Appender) : (s.modify a g).appender a = g (s.appender a) := by
      simp [State.modify]
    have hold (l' : Option Nat) (g : Appender → Appender) :
        (s.logger l').appenders.map (fun x => ((s.modify a g).appender x).toLogAppender) =
          (s.logger l').appenders.map fun x => (s.appender x).toLogAppender := by
      refine List.map_congr_left fun x hx => ?_
      have hne : x ≠ a := fun h => hnew l' (h ▸ hx)
      simp [State.modify, hne]
    simp only [State.addAppender, Logger.addAppender]
    by_cases hl : l' = l
    · subst hl
      split
      · simp [State.view, State.setList, hlogger, hold, hself]
      · simp [State.view, State.setList]
    · split
      · simp [State.view, State.setList, hl, hlogger, hold]
      · simp [State.view, State.setList, hl]
  by_cases hl : l' = l
  · subst hl
    simp only [State.view, State.setFormatter, Logger.setFormatter, update_self, List.map_map]
    congr 1
    refine List.map_congr_left fun a ha => ?_
    cases hflag : (s.appender a).hasFormatter <;> simp [ha, hflag]
  · simp only [State.view, State.setFormatter, update_of_ne hl]
    congr 1
    refine List.map_congr_left fun a ha => ?_
    simp [hapart l' hl a ha]

inductive Op where
  | addAppender (l : Option Nat) (a : Nat)
  | delAppender (l : Option Nat) (a : Nat)
  | setFormatter (l : Option Nat) (val : LogFormatter)
  | setAppenderFormatter (a : Nat) (val : Option LogFormatter)

def Op.exec (s : State) : Op → State
  | .addAppender l a => s.addAppender l a
  | .delAppender l a => s.delAppender l a
  | .setFormatter l val => s.setFormatter l val
  | .setAppenderFormatter a val => s.setAppenderFormatter a val

/-- An appender in a list formats with its own formatter, or with that of the logger. -/
def Inherits (s : State) : Prop :=
  ∀ l, ∀ a ∈ (s.logger l).appenders,
    (s.appender a).formatter = some ((s.appender a).own.getD (s.logger l).formatter)

structure Flagged (x : Appender) : Prop where
  flag : x.hasFormatter = x.own.isSome
  field : ∀ f, x.own = some f → x.formatter = some f

def Op.Safe (s : State) : Op → Prop
  | .addAppender l a =>
    (s.appender a).own = none → ∀ f, (s.appender a).formatter = some f → f = (s.logger l).formatter
  | .delAppender _ _ => True
  | .setFormatter l val =>
    ∀ a ∈ (s.logger l).appenders, (s.appender a).own = none →
      ∀ l', l' ≠ l → a ∈ (s.logger l').appenders → (s.logger l').formatter = val
  | .setAppenderFormatter a val => val = none → ∀ l, a ∉ (s.logger l).appenders

section Steps

variable {s : State} {op : Op}

lemma Op.exec_flagged (h : ∀ a, Flagged (s.appender a)) (op : Op) (a : Nat) :
    Flagged ((op.exec s).appender a) := by
  cases op with
  | addAppender l a' =>
    simp only [Op.exec, State.addAppender]
    split
    · rename_i hnone
      by_cases ha : a = a'
      · subst ha
        refine ⟨by simpa [State.setList, State.modify] using (h a).flag, fun f hf => ?_⟩
        have hown : (s.appender a).own = some f := by
          simpa [State.setList, State.modify] using hf
        rw [(h a).field f hown] at hnone
        cases hnone
      · simpa [State.setList, State.modify, ha] using h a
    · exact h a
  | delAppender l a' => exact h a
  | setFormatter l val =>
    simp only [Op.exec, State.setFormatter]
    split
    · rename_i hinherits
      refine ⟨(h a).flag, fun f hf => ?_⟩
      have hflag := (h a).flag
      rw [hinherits.2, show (s.appender a).own = some f from hf] at hflag
      cases hflag
    · exact h a
  | setAppenderFormatter a' val =>
    by_cases ha : a = a'
    · subst ha
      refine ⟨?_, fun f hf => ?_⟩
      · simp [Op.exec, State.setAppenderFormatter, State.modify, LogAppender.setFormatter]
      · simpa [Op.exec, State.setAppenderFormatter, State.modify, LogAppender.setFormatter] using hf
    · simpa [Op.exec, State.setAppenderFormatter, State.modify, ha] using h a

lemma mem_setList {l l' : Option Nat} {appenders : List Nat} {x : Nat} :
    x ∈ ((s.setList l appenders).logger l').appenders ↔
      if l' = l then x ∈ appenders else x ∈ (s.logger l').appenders := by
  by_cases hl : l' = l
  · simp [State.setList, hl]
  · simp [State.setList, hl]

lemma formatter_setList (s : State) (l l' : Option Nat) (appenders : List Nat) :
    ((s.setList l appenders).logger l').formatter = (s.logger l').formatter := by
  by_cases hl : l' = l
  · simp [State.setList, hl]
  · simp [State.setList, hl]

lemma appender_addAppender (s : State) (l : Option Nat) (a x : Nat) :
    ((s.addAppender l a).appender x).own = (s.appender x).own ∧
    ((s.addAppender l a).appender x).formatter =
      if x = a ∧ (s.appender a).formatter = none then some (s.logger l).formatter
      else (s.appender x).formatter := by
  unfold State.addAppender
  split
  · rename_i hnone
    rw [Option.isNone_iff_eq_none] at hnone
    by_cases hx : x = a
    · simp [State.setList, State.modify, hx, hnone]
    · simp [State.setList, State.modify, hx]
  rename_i hsome
  rw [Option.isNone_iff_eq_none] at hsome
  simp [State.setList, hsome]

lemma logger_addAppender (s : State) (l : Option Nat) (a : Nat) :
    (s.addAppender l a).logger = (s.setList l ((s.logger l).appenders ++ [a])).logger := by
  unfold State.addAppender
  split <;> rfl

lemma addAppender_inherits_iff (hflag : ∀ a, Flagged (s.appender a)) (h : Inherits s)
    (l : Option Nat) (a : Nat) : Inherits (s.addAppender l a) ↔ (Op.addAppender l a).Safe s := by
  have hlogger := logger_addAppender s l a
  obtain ⟨hown, hformatter⟩ := appender_addAppender s l a a
  constructor
  · intro hnew hnone f hf
    have hmem : a ∈ ((s.addAppender l a).logger l).appenders := by
      rw [hlogger, mem_setList, if_pos rfl]
      exact List.mem_append_right _ (List.mem_singleton_self a)
    have hhas := hnew l a hmem
    rw [hformatter, hown, hnone, hf, if_neg (by simp), hlogger, formatter_setList] at hhas
    exact Option.some.inj hhas
  intro hsafe l' x hx
  obtain ⟨hown', hformatter'⟩ := appender_addAppender s l a x
  rw [hlogger, mem_setList] at hx
  rw [hformatter', hown', hlogger, formatter_setList]
  have hold : x ∈ (s.logger l').appenders → (if x = a ∧ (s.appender a).formatter = none then
      some (s.logger l).formatter else (s.appender x).formatter) =
        some ((s.appender x).own.getD (s.logger l').formatter) := by
    intro hmem
    rw [if_neg]
    · exact h l' x hmem
    rintro ⟨rfl, hnone⟩
    rw [h l' x hmem] at hnone
    cases hnone
  split at hx
  · rename_i heq
    subst heq
    rcases List.mem_append.mp hx with hmem | hmem
    · exact hold hmem
    obtain rfl := List.mem_singleton.mp hmem
    cases hfield : (s.appender x).formatter with
    | none =>
      have hnone : (s.appender x).own = none := by
        by_contra hsome
        obtain ⟨f, hf⟩ := Option.ne_none_iff_exists'.mp hsome
        rw [(hflag x).field f hf] at hfield
        cases hfield
      simp [hnone]
    | some f =>
      rw [if_neg (by simp)]
      cases hcase : (s.appender x).own with
      | none => rw [hsafe hcase f hfield, Option.getD_none]
      | some g => rw [← hfield, (hflag x).field g hcase, Option.getD_some]
  · exact hold hx

lemma setFormatter_inherits_iff (hflag : ∀ a, Flagged (s.appender a)) (h : Inherits s)
    (l : Option Nat) (val : LogFormatter) :
    Inherits (s.setFormatter l val) ↔ (Op.setFormatter l val).Safe s := by
  have hlist : ∀ l', ((s.setFormatter l val).logger l').appenders = (s.logger l').appenders := by
    intro l'
    by_cases hl : l' = l
    · simp [State.setFormatter, hl]
    · simp [State.setFormatter, hl]
  have hval : ∀ l', ((s.setFormatter l val).logger l').formatter =
      if l' = l then val else (s.logger l').formatter := by
    intro l'
    by_cases hl : l' = l
    · simp [State.setFormatter, hl]
    · simp [State.setFormatter, hl]
  have hset : ∀ a ∈ (s.logger l).appenders, (s.appender a).own = none →
      (s.setFormatter l val).appender a = { s.appender a with formatter := some val } := by
    intro a ha hnone
    exact if_pos ⟨ha, by rw [(hflag a).flag, hnone]; rfl⟩
  have hkeep : ∀ a, ¬(a ∈ (s.logger l).appenders ∧ (s.appender a).own = none) →
      (s.setFormatter l val).appender a = s.appender a := by
    intro a ha
    refine if_neg fun hboth => ha ⟨hboth.1, ?_⟩
    rw [(hflag a).flag, Option.isSome_eq_false_iff, Option.isNone_iff_eq_none] at hboth
    exact hboth.2
  constructor
  · intro hnew a ha hnone l' hl hmem
    have hhas := hnew l' a (by rw [hlist]; exact hmem)
    rw [hset a ha hnone, hval, if_neg hl] at hhas
    simpa [hnone] using hhas.symm
  intro hsafe l' a ha
  rw [hlist] at ha
  rw [hval]
  by_cases hin : a ∈ (s.logger l).appenders ∧ (s.appender a).own = none
  · rw [hset a hin.1 hin.2]
    by_cases hl : l' = l
    · simp [hin.2, hl]
    · simp [hin.2, hsafe a hin.1 hin.2 l' hl ha]
  rw [hkeep a hin, h l' a ha]
  by_cases hl : l' = l
  · subst hl
    obtain ⟨f, hf⟩ := Option.ne_none_iff_exists'.mp fun hnone => hin ⟨ha, hnone⟩
    simp [hf]
  · rw [if_neg hl]

lemma exec_inherits_iff (hflag : ∀ a, Flagged (s.appender a)) (h : Inherits s) (op : Op) :
    Inherits (op.exec s) ↔ op.Safe s := by
  cases op with
  | addAppender l a => exact addAppender_inherits_iff hflag h l a
  | delAppender l a =>
    refine iff_of_true (fun l' x hx => ?_) trivial
    simp only [Op.exec, State.delAppender] at hx ⊢
    rw [mem_setList] at hx
    rw [formatter_setList]
    split at hx
    · rename_i heq
      subst heq
      exact h _ x (List.mem_of_mem_erase hx)
    · exact h l' x hx
  | setFormatter l val => exact setFormatter_inherits_iff hflag h l val
  | setAppenderFormatter a val =>
    constructor
    · rintro hnew rfl l ha
      have hhas := hnew l a ha
      simp [Op.exec, State.setAppenderFormatter, State.modify, LogAppender.setFormatter] at hhas
    intro hsafe l x hx
    by_cases ha : x = a
    · subst ha
      cases val with
      | none => exact absurd hx (hsafe rfl l)
      | some f =>
        simp [Op.exec, State.setAppenderFormatter, State.modify, LogAppender.setFormatter]
    · simpa [Op.exec, State.setAppenderFormatter, State.modify, ha] using h l x hx

end Steps

/-- New loggers and appenders. -/
structure Fresh (s : State) : Prop where
  lists : ∀ l, (s.logger l).appenders = []
  appenders : ∀ a, (s.appender a).formatter = none ∧ (s.appender a).hasFormatter = false ∧
    (s.appender a).own = none

def history (s : State) : List Op → List State
  | [] => [s]
  | op :: ops => s :: history (op.exec s) ops

/-- Every operation is safe where it is executed. -/
def AllSafe (s : State) : List Op → Prop
  | [] => True
  | op :: ops => op.Safe s ∧ AllSafe (op.exec s) ops

lemma history_inherits_iff {s : State} (hflag : ∀ a, Flagged (s.appender a)) (h : Inherits s)
    (ops : List Op) : (∀ s' ∈ history s ops, Inherits s') ↔ AllSafe s ops := by
  induction ops generalizing s with
  | nil => simpa [history, AllSafe] using h
  | cons op ops ih =>
    rw [history, List.forall_mem_cons, AllSafe, ← exec_inherits_iff hflag h op]
    constructor
    · rintro ⟨-, hrest⟩
      have hnext : Inherits (op.exec s) := by
        cases ops with
        | nil => exact hrest _ (List.mem_singleton_self _)
        | cons op' ops => exact hrest _ List.mem_cons_self
      exact ⟨hnext, (ih (op.exec_flagged hflag) hnext).mp hrest⟩
    · rintro ⟨hnext, hsafe⟩
      exact ⟨h, (ih (op.exec_flagged hflag) hnext).mpr hsafe⟩

/-- For every sequence of operations: each appender in a list formats with its own formatter or that
of its logger, exactly if every operation is harmless. -/
theorem formatters_inherited_iff {s : State} (h : Fresh s) (ops : List Op) :
    (∀ s' ∈ history s ops, Inherits s') ↔ AllSafe s ops := by
  refine history_inherits_iff (fun a => ⟨?_, fun f hf => ?_⟩) (fun l a ha => ?_) ops
  · rw [(h.appenders a).2.1, (h.appenders a).2.2]
    rfl
  · rw [(h.appenders a).2.2] at hf
    cases hf
  · rw [h.lists] at ha
    cases ha

def State.new : State := ⟨fun _ => {}, fun _ => { sink := .stdout }⟩

lemma fresh_new : Fresh .new := ⟨fun _ => rfl, fun _ => ⟨rfl, rfl, rfl⟩⟩

theorem formatters_inherited_iff_root :
    Fresh .new ∧ ∀ s' ∈ history .new
        [.addAppender none 0, .setFormatter none (LogFormatter.new (ascii "%m"))], Inherits s' := by
  refine ⟨fresh_new, (formatters_inherited_iff fresh_new _).mpr
    ⟨fun _ f hf => ?_, fun a _ _ l hl ha => ?_, trivial⟩⟩
  · cases hf
  cases l with
  | none => exact absurd rfl hl
  | some i => cases ha

/-- An appender that moves to another logger keeps the formatter of the first, and one in a list has
none after `setFormatter(nullptr)`. -/
theorem formatter_left_behind :
    (∃ s ∈ history .new
      [.setFormatter (some 1) (LogFormatter.new (ascii "%m")), .addAppender (some 1) 0,
        .delAppender (some 1) 0, .addAppender (some 2) 0],
      (s.logger (some 2)).appenders = [0] ∧ (s.appender 0).own = none ∧
        (s.appender 0).formatter = some (LogFormatter.new (ascii "%m")) ∧
        (s.logger (some 2)).formatter = LogFormatter.new defaultPattern) ∧
    ∃ s ∈ history .new [.addAppender (some 1) 0, .setAppenderFormatter 0 none],
      (s.logger (some 1)).appenders = [0] ∧ (s.appender 0).formatter = none :=
  ⟨⟨_, .tail _ (.tail _ (.tail _ (.tail _ (.head _)))), rfl, rfl, rfl, rfl⟩,
    ⟨_, .tail _ (.tail _ (.head _)), rfl, rfl⟩⟩

/-! ## Levels -/

def severity : LogLevel → Nat
  | .UNKNOW => 0
  | .DEBUG => 1
  | .INFO => 2
  | .WARN => 3
  | .ERROR => 4
  | .FATAL => 5

/-- `StdoutLogAppender::log` and `FileLogAppender::log`: the appender afterwards, and whether it
writes the event.  Files can be opened. -/
def Appender.log (x : Appender) (level : LogLevel) (time : Nat) : Appender × Bool :=
  match x.sink with
  | .stdout => (x, decide (severity x.level ≤ severity level))
  | .file _ =>
    if severity x.level ≤ severity level ∧ x.lastTime + 3 ≤ time then
      ({ x with lastTime := time }, true)
    else (x, true)

def logAll (level : LogLevel) (time : Nat) :
    List Nat → (Nat → Appender) → (Nat → Appender) × List Nat
  | [], table => (table, [])
  | a :: rest, table =>
    let r := (table a).log level time
    let more := logAll level time rest (update table a r.1)
    (more.1, if r.2 then a :: more.2 else more.2)

def State.logWith (s : State) (l : Option Nat) (level : LogLevel) (time : Nat)
    (root : State × List Nat) : State × List Nat :=
  if severity (s.logger l).level ≤ severity level then
    if (s.logger l).appenders ≠ [] then
      let r := logAll level time (s.logger l).appenders s.appender
      ({ s with appender := r.1 }, r.2)
    else root
  else (s, [])

def State.log (s : State) (l : Option Nat) (level : LogLevel) (time : Nat) : State × List Nat :=
  let root := s.logWith none level time (s, [])
  match l with
  | none => root
  | some i => s.logWith (some i) level time root

/-- `LogEvent`, and the logger it is given to. -/
structure Event where
  logger : Option Nat
  level : LogLevel
  time : Nat

def run (s : State) : List Event → List (Event × List Nat)
  | [] => []
  | e :: es =>
    let r := s.log e.logger e.level e.time
    (e, r.2) :: run r.1 es

/-- The appenders that an event comes to: those of the logger, or else of the root logger. -/
def reached (s : State) (l : Option Nat) : List Nat :=
  if (s.logger l).appenders = [] then (s.logger none).appenders else (s.logger l).appenders

/-- The loggers on the way let the event pass. -/
def Passes (s : State) (l : Option Nat) (level : LogLevel) : Prop :=
  severity (s.logger l).level ≤ severity level ∧
    ((s.logger l).appenders = [] → severity (s.logger none).level ≤ severity level)

/-- The appender should write the event. -/
def Due (s : State) (e : Event) (a : Nat) : Prop :=
  a ∈ reached s e.logger ∧ Passes s e.logger e.level ∧
    severity (s.appender a).level ≤ severity e.level

def Writes (x : Appender) (level : LogLevel) : Prop :=
  x.sink = .stdout → severity x.level ≤ severity level

section Levels

variable {level : LogLevel} {time : Nat}

lemma log_alike (x : Appender) :
    (x.log level time).1.sink = x.sink ∧ (x.log level time).1.level = x.level := by
  unfold Appender.log
  split
  · exact ⟨rfl, rfl⟩
  · split <;> exact ⟨rfl, rfl⟩

lemma log_writes_iff (x : Appender) : (x.log level time).2 = true ↔ Writes x level := by
  unfold Appender.log Writes
  split
  · rename_i hsink
    simp [hsink]
  · rename_i hsink
    split <;> simp [hsink]

/-- The sinks and the levels are the same. -/
def Alike (t t' : Nat → Appender) : Prop :=
  ∀ a, (t' a).sink = (t a).sink ∧ (t' a).level = (t a).level

lemma Alike.writes_iff {t t' : Nat → Appender} (h : Alike t t') (a : Nat) :
    Writes (t' a) level ↔ Writes (t a) level := by
  rw [Writes, (h a).1, (h a).2, Writes]

lemma Alike.trans {t t' t'' : Nat → Appender} (h : Alike t t') (h' : Alike t' t'') : Alike t t'' :=
  fun a => ⟨(h' a).1.trans (h a).1, (h' a).2.trans (h a).2⟩

lemma alike_update (level : LogLevel) (time : Nat) (t : Nat → Appender) (a : Nat) :
    Alike t (update t a ((t a).log level time).1) := by
  intro x
  by_cases hx : x = a
  · rw [hx, update_self]
    exact log_alike (t a)
  · rw [update_of_ne hx]
    exact ⟨rfl, rfl⟩

lemma logAll_spec (level : LogLevel) (time : Nat) (l : List Nat) (t : Nat → Appender) :
    Alike t (logAll level time l t).1 ∧
      ∀ a, a ∈ (logAll level time l t).2 ↔ a ∈ l ∧ Writes (t a) level := by
  induction l generalizing t with
  | nil => exact ⟨fun _ => ⟨rfl, rfl⟩, by simp [logAll]⟩
  | cons b l ih =>
    have halike := alike_update level time t b
    obtain ⟨hrest, hwrote⟩ := ih (update t b ((t b).log level time).1)
    refine ⟨halike.trans hrest, fun a => ?_⟩
    simp only [logAll, List.mem_cons]
    split
    · rename_i hb
      rw [List.mem_cons, hwrote, halike.writes_iff]
      constructor
      · rintro (rfl | h)
        · exact ⟨.inl rfl, (log_writes_iff _).mp hb⟩
        · exact ⟨.inr h.1, h.2⟩
      rintro ⟨rfl | h, hwrites⟩
      · exact .inl rfl
      · exact .inr ⟨h, hwrites⟩
    rename_i hb
    rw [hwrote, halike.writes_iff]
    constructor
    · rintro ⟨h, hwrites⟩
      exact ⟨.inr h, hwrites⟩
    rintro ⟨rfl | h, hwrites⟩
    · exact absurd ((log_writes_iff _).mpr hwrites) hb
    · exact ⟨h, hwrites⟩

lemma State.log_spec (s : State) (l : Option Nat) (level : LogLevel) (time : Nat) :
    (s.log l level time).1.logger = s.logger ∧ Alike s.appender (s.log l level time).1.appender ∧
      ∀ a, a ∈ (s.log l level time).2 ↔
        a ∈ reached s l ∧ Passes s l level ∧ Writes (s.appender a) level := by
  have hwith : ∀ (l : Option Nat) (root : State × List Nat), root.1.logger = s.logger →
      Alike s.appender root.1.appender →
      (s.logWith l level time root).1.logger = s.logger ∧
        Alike s.appender (s.logWith l level time root).1.appender ∧
        ∀ a, a ∈ (s.logWith l level time root).2 ↔
          severity (s.logger l).level ≤ severity level ∧
            if (s.logger l).appenders = [] then a ∈ root.2
            else a ∈ (s.logger l).appenders ∧ Writes (s.appender a) level := by
    intro l root hroot halike
    obtain ⟨hall, hwrote⟩ := logAll_spec level time (s.logger l).appenders s.appender
    unfold logWith
    split
    · rename_i hlevel
      split
      · exact ⟨rfl, hall, fun a => by simp [hlevel, hwrote]⟩
      · rename_i hempty
        exact ⟨hroot, halike, fun a => by simp [hlevel, not_not.mp hempty]⟩
    · rename_i hlevel
      exact ⟨rfl, fun _ => ⟨rfl, rfl⟩, fun a => by simp [hlevel]⟩
  obtain ⟨hlogger, halike, hroot⟩ := hwith none (s, []) rfl fun _ => ⟨rfl, rfl⟩
  cases l with
  | none =>
    refine ⟨hlogger, halike, fun a => (hroot a).trans ?_⟩
    unfold reached Passes
    by_cases hempty : (s.logger none).appenders = []
    · simp [hempty]
    · simp
      tauto
  | some i =>
    obtain ⟨hlogger', halike', hnamed⟩ := hwith (some i) _ hlogger halike
    refine ⟨hlogger', halike', fun a => (hnamed a).trans ?_⟩
    rw [hroot]
    unfold reached Passes
    by_cases hempty : (s.logger (some i)).appenders = []
    · by_cases hnone : (s.logger none).appenders = []
      · simp [hempty, hnone]
      · simp [hempty]
        tauto
    · simp [hempty]
      tauto

lemma run_spec {s s' : State} (hlogger : s'.logger = s.logger)
    (halike : Alike s.appender s'.appender)
    (es : List Event) : ∀ r ∈ run s' es, ∀ a, a ∈ r.2 ↔
      a ∈ reached s r.1.logger ∧ Passes s r.1.logger r.1.level ∧
        Writes (s.appender a) r.1.level := by
  induction es generalizing s' with
  | nil => simp [run]
  | cons e es ih =>
    obtain ⟨hlogger', halike', hwrote⟩ := s'.log_spec e.logger e.level e.time
    rw [run, List.forall_mem_cons]
    refine ⟨fun a => ?_, ih (hlogger'.trans hlogger) (halike.trans halike')⟩
    rw [hwrote, reached, Passes, hlogger, halike.writes_iff]
    rfl

end Levels

/-- The appenders that write an event are those that should, exactly if the event has the level of
each file appender that it comes to. -/
theorem levels_filter_iff (s : State) (es : List Event) :
    ∀ r ∈ run s es, (∀ a, a ∈ r.2 ↔ Due s r.1 a) ↔
      ∀ a ∈ reached s r.1.logger, Passes s r.1.logger r.1.level →
        (s.appender a).sink ≠ .stdout → severity (s.appender a).level ≤ severity r.1.level := by
  intro r hr
  have hwrote := run_spec rfl (fun _ => ⟨rfl, rfl⟩) es r hr
  constructor
  · intro hdue a ha hpasses hfile
    exact ((hdue a).mp ((hwrote a).mpr ⟨ha, hpasses, fun hstdout => absurd hstdout hfile⟩)).2.2
  intro hfiles a
  rw [hwrote]
  refine and_congr_right fun ha => and_congr_right fun hpasses => ⟨fun hwrites => ?_, fun h _ => h⟩
  by_cases hstdout : (s.appender a).sink = .stdout
  · exact hwrites hstdout
  · exact hfiles a ha hpasses hstdout

def errorsOnly : State where
  logger l := if l = some 1 then { appenders := [0, 1] } else {}
  appender a := { sink := if a = 0 then .file (ascii "log.txt") else .stdout, level := .ERROR }

theorem levels_filter_iff_error :
    (⟨some 1, .ERROR, 100⟩, [0, 1]) ∈ run errorsOnly [⟨some 1, .ERROR, 100⟩] ∧
      ∀ a, a ∈ [0, 1] ↔ Due errorsOnly ⟨some 1, .ERROR, 100⟩ a :=
  ⟨.head _, (levels_filter_iff errorsOnly [⟨some 1, .ERROR, 100⟩] (_, [0, 1]) (.head _)).mpr
    fun _ _ _ _ => le_refl _⟩

/-- An event of level `INFO` is written to the file and not to the terminal. -/
theorem file_level_ignored :
    (run errorsOnly [⟨some 1, .INFO, 100⟩]).map Prod.snd = [[0]] :=
  rfl

end Appenders
end Yuyu.Config
