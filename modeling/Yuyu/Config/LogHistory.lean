import Yuyu.Config.Loggers

/-!
# Histories of the logger configuration

A history is a list of values assigned to the variable `log`. A definition without a valid pattern
leaves the logger with the last one set for its name.
-/

namespace Yuyu.Config

open Http (Bytes ascii)

/-- The variable `log` and the loggers. -/
structure LogVar where
  val : LogDefines
  loggers : Loggers

namespace LogVar

def initial : LogVar := ⟨∅, Loggers.initial⟩

def setValue (v : LogDefines) (s : LogVar) : Option LogVar :=
  if v = s.val then some s
  else (onChange s.val v s.loggers).map fun g => ⟨v, g⟩

def assign (history : List LogDefines) (s : LogVar) : Option LogVar :=
  history.foldlM (fun s v => s.setValue v) s

end LogVar

def LogDefines.patternOf (s : LogDefines) (name kept : Bytes) : Bytes :=
  match s.find name with
  | some d => if Usable d.formatter then d.formatter else kept
  | none => kept

def patternsFrom (patterns : Bytes → Bytes) (history : List LogDefines) : Bytes → Bytes :=
  history.foldl (fun patterns v name => v.patternOf name (patterns name)) patterns

def lastPattern (history : List LogDefines) : Bytes → Bytes :=
  patternsFrom (fun _ => defaultPattern) history

/-- The definitions of the value are in force, and the formatters are those of the
patterns. -/
structure Tracks (s : LogVar) (patterns : Bytes → Bytes) : Prop where
  inForce : InForce s.val s.loggers
  formatter : ∀ name, (s.loggers name).formatter = LogFormatter.new (patterns name)

lemma Tracks.initial : Tracks LogVar.initial fun _ => defaultPattern where
  inForce := fun d hd => nomatch hd
  formatter := by
    intro name
    change (Loggers.initial name).formatter = _
    rw [Loggers.initial]
    by_cases hname : name = ascii "root"
    · rw [hname]
      rfl
    · rw [Function.update_of_ne hname]

variable {s s' : LogVar} {patterns : Bytes → Bytes}

lemma setValue_cases {v : LogDefines} (hforce : InForce s.val s.loggers)
    (h : s.setValue v = some s') : s'.val = v
      ∧ (∀ d ∈ v.elems, (s.loggers d.name).define d = some (s'.loggers d.name))
      ∧ ∀ name, v.find name = none → (s'.loggers name).formatter = (s.loggers name).formatter := by
  rw [LogVar.setValue] at h
  by_cases hsame : v = s.val
  · rw [if_pos hsame] at h
    cases h
    subst hsame
    exact ⟨rfl, hforce, fun _ _ => rfl⟩
  rw [if_neg hsame] at h
  obtain ⟨g, hg, rfl⟩ := Option.map_eq_some_iff.mp h
  exact ⟨rfl, fun d hd => onChange_configured hforce hg hd,
    fun name hname => onChange_formatter hg hname⟩

lemma setValue_tracks {v : LogDefines} (hs : Tracks s patterns) (h : s.setValue v = some s') :
    s'.val = v ∧ Tracks s' fun name => v.patternOf name (patterns name) := by
  obtain ⟨hval, hdefine, hother⟩ := setValue_cases hs.inForce h
  refine ⟨hval, ?_, ?_⟩
  · intro d hd
    exact define_idem (hdefine d (hval ▸ hd))
  intro name
  rw [LogDefines.patternOf]
  cases hfind : v.find name with
  | none => rw [hother name hfind, hs.formatter]
  | some d =>
    obtain ⟨hd, rfl⟩ := LogDefines.find_eq_some_iff.mp hfind
    rw [define_formatter (hdefine d hd), hs.formatter, chooseFormatter]
    dsimp only
    split <;> rfl

lemma exists_setValue_iff (hforce : InForce s.val s.loggers) (v : LogDefines) :
    (∃ s', s.setValue v = some s') ↔ v.Known := by
  constructor
  · rintro ⟨s', h⟩ d hd
    obtain ⟨-, hdefine, -⟩ := setValue_cases hforce h
    exact (exists_define_iff d _).mp ⟨_, hdefine d hd⟩
  intro hknown
  rw [LogVar.setValue]
  by_cases hsame : v = s.val
  · rw [if_pos hsame]
    exact ⟨s, rfl⟩
  obtain ⟨g, hg⟩ := exists_onChange hknown s.val s.loggers
  rw [if_neg hsame, hg]
  exact ⟨⟨v, g⟩, rfl⟩

/-! ## Histories -/

def lastValue (history : List LogDefines) : LogDefines := history.getLastD ∅

lemma assign_tracks (hs : Tracks s patterns)
    {history : List LogDefines} (h : s.assign history = some s') :
    s'.val = history.getLastD s.val ∧ Tracks s' (patternsFrom patterns history) := by
  induction history generalizing s patterns with
  | nil =>
    cases h
    exact ⟨rfl, hs⟩
  | cons v history ih =>
    obtain ⟨s₁, hfirst, hrest⟩ := Option.bind_eq_some_iff.mp h
    obtain ⟨hval, htracks⟩ := setValue_tracks hs hfirst
    obtain ⟨hlast, hend⟩ := ih htracks hrest
    refine ⟨?_, hend⟩
    rw [hlast, hval, List.getLastD_cons]

lemma exists_assign_iff (hs : Tracks s patterns) (history : List LogDefines) :
    (∃ s', s.assign history = some s') ↔ ∀ v ∈ history, v.Known := by
  induction history generalizing s patterns with
  | nil => exact ⟨fun _ v hv => (nomatch hv), fun _ => ⟨s, rfl⟩⟩
  | cons v history ih =>
    rw [List.forall_mem_cons, ← exists_setValue_iff hs.inForce v]
    constructor
    · rintro ⟨s', h⟩
      obtain ⟨s₁, hfirst, hrest⟩ := Option.bind_eq_some_iff.mp h
      exact ⟨⟨s₁, hfirst⟩, (ih (setValue_tracks hs hfirst).2).mp ⟨s', hrest⟩⟩
    rintro ⟨⟨s₁, hfirst⟩, hrest⟩
    obtain ⟨s', h⟩ := (ih (setValue_tracks hs hfirst).2).mpr hrest
    exact ⟨s', Option.bind_eq_some_iff.mpr ⟨s₁, hfirst, h⟩⟩

structure AppenderSettings where
  sink : Sink
  level : LogLevel
  pattern : Option Bytes
deriving DecidableEq

structure Settings where
  level : LogLevel
  pattern : Bytes
  appenders : List AppenderSettings
deriving DecidableEq

def Logger.settings (l : Logger) : Settings where
  level := l.level
  pattern := l.formatter.pattern
  appenders := l.appenders.map fun a => ⟨a.sink, a.level, a.formatter.map LogFormatter.pattern⟩

lemma Tracks.logger (hs : Tracks s patterns) {d : LogDefine} (hd : d ∈ s.val.elems) :
    d.loggerWith (LogFormatter.new (patterns d.name)) = some (s.loggers d.name) := by
  have hforce := hs.inForce d hd
  have hformatter := define_formatter hforce
  rw [define_eq, ← hformatter, hs.formatter] at hforce
  exact hforce

lemma Tracks.settings_pattern (hs : Tracks s patterns)
    (name : Bytes) : (s.loggers name).settings.pattern = patterns name :=
  congrArg LogFormatter.pattern (hs.formatter name)

lemma Tracks.pattern_of_usable (hs : Tracks s patterns)
    {d : LogDefine} (hd : d ∈ s.val.elems) (husable : Usable d.formatter) :
    patterns d.name = d.formatter := by
  have hformatter := define_formatter (hs.inForce d hd)
  rw [chooseFormatter, if_pos husable, hs.formatter] at hformatter
  exact congrArg LogFormatter.pattern hformatter

/-- Two histories leave the loggers the same exactly if they agree on the last usable pattern of
each definition without one of its own. -/
theorem same_settings_iff (history history' : List LogDefines)
    (hlast : lastValue history = lastValue history') :
    (∃ s s', LogVar.initial.assign history = some s ∧ LogVar.initial.assign history' = some s'
        ∧ ∀ d ∈ (lastValue history).elems,
          (s.loggers d.name).settings = (s'.loggers d.name).settings)
      ↔ (∀ v ∈ history, v.Known) ∧ (∀ v ∈ history', v.Known)
        ∧ ∀ d ∈ (lastValue history).elems, ¬ Usable d.formatter →
          lastPattern history d.name = lastPattern history' d.name := by
  constructor
  · rintro ⟨s, s', h, h', hsame⟩
    refine ⟨(exists_assign_iff .initial _).mp ⟨s, h⟩, (exists_assign_iff .initial _).mp ⟨s', h'⟩,
      ?_⟩
    intro d hd _
    calc lastPattern history d.name = (s.loggers d.name).settings.pattern :=
          ((assign_tracks .initial h).2.settings_pattern d.name).symm
      _ = (s'.loggers d.name).settings.pattern := by rw [hsame d hd]
      _ = lastPattern history' d.name := (assign_tracks .initial h').2.settings_pattern d.name
  rintro ⟨hknown, hknown', hpatterns⟩
  obtain ⟨s, h⟩ := (exists_assign_iff .initial history).mpr hknown
  obtain ⟨s', h'⟩ := (exists_assign_iff .initial history').mpr hknown'
  refine ⟨s, s', h, h', ?_⟩
  intro d hd
  obtain ⟨hval, htracks⟩ := assign_tracks .initial h
  obtain ⟨hval', htracks'⟩ := assign_tracks .initial h'
  have hmem : d ∈ s.val.elems := by
    rw [hval]
    exact hd
  have hmem' : d ∈ s'.val.elems := by
    rw [hval']
    rw [hlast] at hd
    exact hd
  have hpattern : lastPattern history d.name = lastPattern history' d.name := by
    by_cases husable : Usable d.formatter
    · exact (htracks.pattern_of_usable hmem husable).trans
        (htracks'.pattern_of_usable hmem' husable).symm
    · exact hpatterns d hd husable
  have hlogger := htracks.logger hmem
  have hlogger' := htracks'.logger hmem'
  change d.loggerWith (LogFormatter.new (lastPattern history d.name)) = _ at hlogger
  change d.loggerWith (LogFormatter.new (lastPattern history' d.name)) = _ at hlogger'
  rw [hpattern, hlogger', Option.some.injEq] at hlogger
  rw [hlogger]

def LogDefines.single (d : LogDefine) : LogDefines := ⟨[d], List.pairwise_singleton _ d⟩

theorem same_settings_after_detour :
    let final : LogDefines := .single { name := [65], level := .INFO, formatter := ascii "%m%n" }
    let detour : LogDefines := .single { name := [65], level := .WARN, formatter := ascii "%p%m" }
    ∃ s s', LogVar.initial.assign [detour, ∅, final] = some s
      ∧ LogVar.initial.assign [final] = some s'
      ∧ ∀ d ∈ (lastValue [detour, ∅, final]).elems,
        (s.loggers d.name).settings = (s'.loggers d.name).settings := by
  intro final detour
  have hknown : ∀ v ∈ [detour, ∅, final], LogDefines.Known v := by decide
  refine (same_settings_iff [detour, ∅, final] [final] rfl).mpr ⟨hknown, ?_, ?_⟩
  · intro v hv
    exact hknown v (List.mem_cons_of_mem _ (List.mem_cons_of_mem _ hv))
  · decide +kernel

/-- A pattern stays after the definition that set it was replaced by one without. -/
theorem pattern_outlives_definition :
    let final : LogDefines := .single { name := [65], level := .INFO }
    let former : LogDefines := .single { name := [65], level := .INFO, formatter := ascii "%m%n" }
    ∃ s s', LogVar.initial.assign [former, final] = some s
      ∧ LogVar.initial.assign [final] = some s'
      ∧ s.val = final ∧ s'.val = final
      ∧ (s.loggers [65]).settings.pattern = ascii "%m%n"
      ∧ (s'.loggers [65]).settings.pattern = defaultPattern := by
  intro final former
  have hknown : ∀ v ∈ [former, final], LogDefines.Known v := by decide
  obtain ⟨s, h⟩ := (exists_assign_iff .initial [former, final]).mpr hknown
  obtain ⟨s', h'⟩ := (exists_assign_iff .initial [final]).mpr fun v hv =>
    hknown v (List.mem_cons_of_mem _ hv)
  obtain ⟨hval, htracks⟩ := assign_tracks .initial h
  obtain ⟨hval', htracks'⟩ := assign_tracks .initial h'
  refine ⟨s, s', h, h', hval, hval', ?_, ?_⟩
  · rw [htracks.settings_pattern]
    decide +kernel
  · rw [htracks'.settings_pattern]
    decide +kernel

end Yuyu.Config
