import Yuyu.Uri.Userinfo

/-!
# Extraction of the components of a URI

The text of a URI is put together from its components and given to `Uri::Create`.
-/

namespace Yuyu.UriParsing

open List
open Foundation.ActionMachine.Expr
open Foundation.Strtol (value digitVal)
open Http (Bytes ascii)

lemma live_queryFragment {b : Branch} {c : UInt8} {w : Bytes}
    (h : Live (seq (questionQuery b) (hashFragment b)) (c :: w)) : c = 63 ∨ c = 35 := by
  have hfirst : Live (seq (questionQuery b) (hashFragment b)) [c] := live_append (v := w) h
  rcases live_seq_singleton.mp hfirst with hquery | ⟨-, hfragment⟩
  · exact Or.inl (live_ch_seq.mp (live_opt.mp hquery)).1
  · exact Or.inr (live_ch_seq.mp (live_opt.mp hfragment)).1

lemma not_fires_relativeRef {u : Bytes} {c : UInt8} {x : Embedding}
    (hchars : ∀ d ∈ u ++ [c], d ≠ 47 ∧ d ≠ 63 ∧ d ≠ 35) : ¬ Fires relativeRef u c x := by
  have hslash {f : Rx} : ¬ Live (seq (ch 47) f) (u ++ [c]) := by
    intro hlive
    cases u with
    | nil => exact (hchars c (by simp)).1 (live_ch_seq.mp hlive).1
    | cons d u => exact (hchars d (by simp)).1 (live_ch_seq.mp hlive).1
  have hword {f : Rx} : u ∉ lang (seq (ch 47) f) := by
    intro hu
    obtain ⟨w, hw, v, -, rfl⟩ := mem_lang_seq.mp hu
    rw [mem_lang_ch.mp hw] at hchars
    exact (hchars 47 (by simp)).1 rfl
  rw [relativeRef, fires_seq, relativePart, fires_alt, leaves_alt,
    or_iff_left (not_fires_of_nil embeddings_otherPaths.2),
    or_iff_left (not_leaves_of_nil embeddings_otherPaths.2)]
  rintro (hfires | ⟨hleaves, -⟩ | ⟨u₁, v₁, rfl, -, hfires⟩)
  · exact hslash hfires.live
  · exact hword hleaves.mem_lang
  have hlive := hfires.live
  cases v₁ with
  | nil | cons =>
    rcases live_queryFragment hlive with rfl | rfl
    · exact (hchars 63 (by simp)).2.1 rfl
    · exact (hchars 35 (by simp)).2.2 rfl

lemma scheme_chars {sch : Bytes} (hsch : sch ∈ lang (scheme .uri)) :
    ∀ d ∈ sch ++ [58], d ≠ 47 ∧ d ≠ 63 ∧ d ≠ 35 := by
  intro d hd
  rcases mem_append.mp hd with hd | hd
  · refine ⟨?_, ?_, ?_⟩
    · rintro rfl
      exact notMem_of_mem_lang hsch uses_scheme.2.1 hd
    · rintro rfl
      exact notMem_of_mem_lang hsch uses_scheme.2.2.1 hd
    · rintro rfl
      exact notMem_of_mem_lang hsch uses_scheme.2.2.2 hd
  · obtain rfl := mem_singleton.mp hd
    decide

lemma not_live_relativeRef {sch : Bytes} (hsch : sch ∈ lang (scheme .uri)) :
    ¬ Live relativeRef (sch ++ [58]) := by
  have hchars := scheme_chars hsch
  have hslash {f : Rx} : ¬ Live (seq (ch 47) f) (sch ++ [58]) := by
    intro hlive
    cases sch with
    | nil => exact absurd (live_ch_seq.mp hlive).1 (by decide)
    | cons d sch => exact (hchars d (by simp)).1 (live_ch_seq.mp hlive).1
  rw [relativeRef, live_seq, relativePart, live_alt, live_alt, live_alt, live_eps]
  rintro ((hlive | hlive | hlive | hnil) | ⟨u, v, happ, hv, -, hlive⟩)
  · exact hslash hlive
  · exact hslash hlive
  · rcases live_seq.mp hlive with hfirst | ⟨u, v, happ, hv, -, hrest⟩
    · have huses := hfirst.uses 58 (by simp)
      cases huses
    cases v with
    | nil => exact hv rfl
    | cons d v =>
      have hd : Live segments [d] := live_append (v := v) hrest
      have hd' := (live_ch_seq.mp (live_star_singleton.mp hd)).1
      exact (hchars d (by simp [happ])).1 hd'
  · simp at hnil
  cases v with
  | nil => exact hv rfl
  | cons d v =>
    have hd := hchars d (by simp [happ])
    rcases live_queryFragment hlive with rfl | rfl
    · exact hd.2.1 rfl
    · exact hd.2.2 rfl

lemma schedule_relativeRef {sch rest : Bytes} (hsch : sch ∈ lang (scheme .uri)) (i : Nat) :
    relativeRef.schedule (sch ++ 58 :: rest) i = [] := by
  have hwhole : sch ++ [58] <+: sch ++ 58 :: rest := ⟨rest, by simp⟩
  have hdead {w : Bytes} (hw : sch ++ [58] <+: w) : ¬ Live relativeRef w := by
    obtain ⟨v, rfl⟩ := hw
    exact fun hlive => not_live_relativeRef hsch (live_append hlive)
  rw [eq_nil_iff_forall_not_mem]
  intro x hx
  rw [mem_schedule] at hx
  rcases position_cases (sch ++ 58 :: rest) i with hi | rfl | ⟨u, c, v, hsplit, rfl⟩
  · exact not_takenAt_beyond hi hx
  · exact hdead hwhole (live_of_mem_lang (takenAt_end.mp hx).mem_lang)
  rw [hsplit] at hx hwhole
  have hfires := takenAt_inside.mp hx
  have hpre : u ++ [c] <+: u ++ c :: v := ⟨v, by simp⟩
  rcases Nat.le_total (u ++ [c]).length (sch ++ [58]).length with hle | hle
  · have hinside := prefix_of_prefix_length_le hpre hwhole hle
    exact not_fires_relativeRef (fun d hd => scheme_chars hsch d (hinside.subset hd)) hfires
  · exact hdead (prefix_of_prefix_length_le hwhole hpre hle) hfires.live

/-! ## Components -/

structure Components where
  scheme : Bytes
  userinfo : Option Bytes
  host : Bytes
  port : Option Bytes
  path : Bytes
  query : Option Bytes
  fragment : Option Bytes
  scheme_mem : scheme ∈ lang (UriParsing.scheme .uri)
  userinfo_mem : UserinfoWord userinfo
  host_mem : host ∈ lang UriParsing.host
  port_mem : PortWord port
  port_lt : PortBound port
  path_mem : path ∈ lang pathAbempty
  query_mem : ∀ w ∈ query, w ∈ lang queryChars
  fragment_mem : ∀ w ∈ fragment, w ∈ lang queryChars

namespace Components

variable (c : Components)

def hierText : Bytes :=
  47 :: 47 :: (userinfoText c.userinfo ++ (c.host ++ portText c.port) ++ c.path)

def tailText : Bytes := delimited 63 c.query ++ delimited 35 c.fragment

/-- `scheme://userinfo@host:port/path?query#fragment`, without the parts that are
absent. -/
def text : Bytes := c.scheme ++ 58 :: (c.hierText ++ c.tailText)

def stored : Uri where
  scheme := c.scheme
  userinfo := userinfoRead c.userinfo []
  host := c.host
  port := portRead c.port 0
  path := pathRead c.port c.path
  query := c.query.getD []
  fragment := c.fragment.getD []

lemma tailText_mem :
    c.tailText ∈ lang (seq (questionQuery .uri) (hashFragment .uri)) :=
  mem_lang_seq.mpr ⟨_, delimited_mem c.query_mem, _, delimited_mem c.fragment_mem, rfl⟩

lemma authorityPath_mem :
    userinfoText c.userinfo ++ (c.host ++ portText c.port) ++ c.path
      ∈ lang (seq (authority .uri) (savedPath .uri)) :=
  mem_lang_seq.mpr ⟨_, mem_lang_authority c.userinfo_mem c.host_mem c.port_mem, _, c.path_mem, rfl⟩

lemma hierText_mem : c.hierText ∈ lang (hierPart .uri) := by
  refine mem_lang_alt.mpr (Or.inl (mem_lang_seq.mpr ⟨[47], mem_lang_ch.mpr rfl, _, ?_, rfl⟩))
  exact mem_lang_seq.mpr ⟨[47], mem_lang_ch.mpr rfl, _, c.authorityPath_mem, rfl⟩

lemma text_mem : c.text ∈ lang uri := by
  refine mem_lang_seq.mpr ⟨c.scheme, c.scheme_mem, _, ?_, rfl⟩
  refine mem_lang_seq.mpr ⟨[58], mem_lang_ch.mpr rfl, _, ?_, rfl⟩
  exact mem_lang_seq.mpr ⟨c.hierText, c.hierText_mem, c.tailText, c.tailText_mem, rfl⟩

lemma tailText_head : ∀ d ∈ c.tailText.head?, digitVal d = none := by
  intro d hd
  rw [tailText] at hd
  cases hquery : c.query with
  | some q =>
    rw [hquery] at hd
    cases hd
    rfl
  | none =>
    cases hfragment : c.fragment with
    | some f =>
      rw [hquery, hfragment] at hd
      cases hd
      rfl
    | none =>
      rw [hquery, hfragment] at hd
      cases hd

lemma readsOnce_scheme :
    ReadsOnce (UriParsing.scheme .uri)
      (seq (ch 58) (seq (hierPart .uri) (seq (questionQuery .uri) (hashFragment .uri))))
      c.scheme (58 :: (c.hierText ++ c.tailText)) := by
  refine .of_delimiter (· = 58) c.scheme_mem ?_ ?_ fun d hd => (live_ch_seq.mp hd).1
  · refine mem_lang_seq.mpr ⟨[58], mem_lang_ch.mpr rfl, _, ?_, rfl⟩
    exact mem_lang_seq.mpr ⟨c.hierText, c.hierText_mem, c.tailText, c.tailText_mem, rfl⟩
  · rintro d rfl
    exact uses_scheme.1

lemma readsOnce_hierPart :
    ReadsOnce (hierPart .uri) (seq (questionQuery .uri) (hashFragment .uri)) c.hierText
      c.tailText := by
  refine .of_delimiter (fun d => d = 63 ∨ d = 35) c.hierText_mem c.tailText_mem ?_
    fun d => live_queryFragment
  rintro d (rfl | rfl)
  · exact uses_hierPart.1
  · exact uses_hierPart.2

lemma readsOnce_tail :
    ReadsOnce (questionQuery .uri) (hashFragment .uri) (delimited 63 c.query)
      (delimited 35 c.fragment) := by
  refine .of_delimiter (· = 35) (delimited_mem c.query_mem) (delimited_mem c.fragment_mem) ?_
    fun d hd => (live_ch_seq.mp (live_opt.mp hd)).1
  rintro d rfl
  exact uses_questionQuery

lemma disjoint_relativeRef : uri.embeddings.Disjoint relativeRef.embeddings :=
  (nodup_alt nodup_uriReference).2.2

lemma disjoint_tail :
    (questionQuery .uri).embeddings.Disjoint (hashFragment .uri).embeddings :=
  (nodup_seq (nodup_seq nodup_hierTail).2.1).2.2

lemma schedule_tail_zero :
    (seq (questionQuery .uri) (hashFragment .uri)).schedule c.tailText 0 = [] := by
  have hquery : (questionQuery .uri).schedule (delimited 63 c.query) 0 = [] :=
    schedule_delimited_zero c.query_mem
  have hfragment : (hashFragment .uri).schedule (delimited 35 c.fragment) 0 = [] :=
    schedule_delimited_zero c.fragment_mem
  rw [tailText, schedule_seq c.readsOnce_tail disjoint_tail, hquery, Nat.zero_sub, hfragment,
    ite_self, ite_self, append_nil]

lemma runs_questionQuery {text rest : Bytes} {base : Nat}
    (htext : text.drop base = delimited 63 c.query ++ rest) (s : Store) (hmark : s.mark = none) :
    runs (perform text) (questionQuery .uri) (delimited 63 c.query) base s
      = some { mark := none, uri := { s.uri with query := c.query.getD s.uri.query } } := by
  cases hquery : c.query with
  | none =>
    refine (runs_delimited_none text base s).trans ?_
    rw [← hmark]
    rfl
  | some q =>
    have hbehind : text.drop (base + 1) = q ++ rest := by
      rw [← drop_drop, htext, hquery]
      rfl
    refine (runs_delimited_some (c.query_mem q hquery) embeddings_queryChars (Or.inl rfl)
      (by decide) text base s).trans ?_
    simp only [Site.action, Action.perform, Option.pure_def, Option.bind_eq_bind,
      Option.bind_some, slice_eq hbehind, Option.getD_some]

lemma runs_hashFragment {text rest : Bytes} {base : Nat}
    (htext : text.drop base = delimited 35 c.fragment ++ rest) (s : Store)
    (hmark : s.mark = none) :
    runs (perform text) (hashFragment .uri) (delimited 35 c.fragment) base s
      = some { mark := none
               uri := { s.uri with fragment := c.fragment.getD s.uri.fragment } } := by
  cases hfragment : c.fragment with
  | none =>
    refine (runs_delimited_none text base s).trans ?_
    rw [← hmark]
    rfl
  | some f =>
    have hbehind : text.drop (base + 1) = f ++ rest := by
      rw [← drop_drop, htext, hfragment]
      rfl
    refine (runs_delimited_some (c.fragment_mem f hfragment) embeddings_queryChars (Or.inl rfl)
      (by decide) text base s).trans ?_
    simp only [Site.action, Action.perform, Option.pure_def, Option.bind_eq_bind,
      Option.bind_some, slice_eq hbehind, Option.getD_some]

lemma runs_tail {text : Bytes} {base : Nat} (htext : text.drop base = c.tailText) (s : Store)
    (hmark : s.mark = none) :
    runs (perform text) (seq (questionQuery .uri) (hashFragment .uri)) c.tailText base s
      = some { mark := none,
               uri := { s.uri with
                 query := c.query.getD s.uri.query
                 fragment := c.fragment.getD s.uri.fragment } } := by
  have hbehind : text.drop (base + (delimited 63 c.query).length)
      = delimited 35 c.fragment ++ [] := by
    rw [← drop_drop, htext, tailText, drop_left, append_nil]
  rw [tailText, runs_seq_of_nil (perform_nil text) c.readsOnce_tail disjoint_tail
      (Or.inr (schedule_delimited_zero c.fragment_mem)),
    c.runs_questionQuery htext s hmark, Option.bind_some, c.runs_hashFragment hbehind _ rfl]

lemma runs_hierPart {text : Bytes} {base : Nat}
    (htext : text.drop base = c.hierText ++ c.tailText) (s : Store) :
    runs (perform text) (hierPart .uri) c.hierText base s
      = some { mark := none,
               uri := { s.uri with
                 userinfo := userinfoRead c.userinfo s.uri.userinfo
                 host := c.host
                 port := portRead c.port s.uri.port
                 path := pathRead c.port c.path } } := by
  have hbehind : text.drop (base + 1 + 1)
      = userinfoText c.userinfo ++ (c.host ++ portText c.port) ++ c.path ++ c.tailText := by
    rw [Nat.add_assoc, ← drop_drop, htext]
    rfl
  have hslashed : 47 :: (userinfoText c.userinfo ++ (c.host ++ portText c.port) ++ c.path)
      ∈ lang (seq (ch 47) (seq (authority .uri) (savedPath .uri))) :=
    mem_lang_seq.mpr ⟨[47], mem_lang_ch.mpr rfl, _, c.authorityPath_mem, rfl⟩
  rw [hierPart, runs_alt_left (embeddings_otherPaths.1 ▸ disjoint_nil_right _)
      (fun i => schedule_of_embeddings_nil embeddings_otherPaths.1 i),
    hierText, runs_ch_seq hslashed, runs_ch_seq c.authorityPath_mem]
  exact runs_authorityPath c.userinfo_mem c.host_mem c.port_mem c.port_lt c.path_mem hbehind
    c.tailText_head s

lemma runs_scheme (s : Store) :
    runs (perform c.text) (UriParsing.scheme .uri) c.scheme 0 s
      = some { mark := none, uri := { s.uri with scheme := c.scheme } } := by
  have htext : c.text.drop 0 = c.scheme ++ (58 :: (c.hierText ++ c.tailText)) := rfl
  rw [UriParsing.scheme, runs_marked_save (mem_lang_marked.mp c.scheme_mem) rfl
    (Or.inl rfl) (by decide)]
  simp only [Site.action, Action.perform, Option.pure_def, Option.bind_eq_bind, Option.bind_some,
    slice_eq htext]

lemma runs_text :
    runs (perform c.text) uriReference c.text 0 {} = some { mark := none, uri := c.stored } := by
  have hhier : c.text.drop (0 + c.scheme.length + 1) = c.hierText ++ c.tailText := by
    rw [Nat.zero_add, ← drop_drop, text, drop_left]
    rfl
  have htail : c.text.drop (0 + c.scheme.length + 1 + c.hierText.length) = c.tailText := by
    rw [← drop_drop, hhier, drop_left]
  have hmem : c.hierText ++ c.tailText
      ∈ lang (seq (hierPart .uri) (seq (questionQuery .uri) (hashFragment .uri))) :=
    mem_lang_seq.mpr ⟨_, c.hierText_mem, _, c.tailText_mem, rfl⟩
  have hbranch : runs (perform c.text) uriReference c.text 0 {}
      = runs (perform c.text) uri c.text 0 {} :=
    runs_alt_left disjoint_relativeRef (schedule_relativeRef c.scheme_mem) _ _
  have hsplit : runs (perform c.text) uri c.text 0 {}
      = (runs (perform c.text) (UriParsing.scheme .uri) c.scheme 0 {}).bind
          (runs (perform c.text) (seq (ch 58) (seq (hierPart .uri)
            (seq (questionQuery .uri) (hashFragment .uri)))) (58 :: (c.hierText ++ c.tailText))
            (0 + c.scheme.length)) :=
    runs_seq_of_nil (perform_nil c.text) c.readsOnce_scheme
      (nodup_seq nodup_uri).2.2 (Or.inr (schedule_ch_seq hmem 0)) _ _
  rw [hbranch, hsplit, runs_scheme, Option.bind_some, runs_ch_seq hmem,
    runs_seq_of_nil (perform_nil c.text) c.readsOnce_hierPart
      (nodup_seq nodup_hierTail).2.2 (Or.inr c.schedule_tail_zero),
    c.runs_hierPart hhier, Option.bind_some, c.runs_tail htail _ rfl]
  rfl

end Components

lemma create_text (c : Components) : create c.text = some (some c.stored) := by
  have hmem : c.text ∈ lang uriReference := mem_lang_alt.mpr (Or.inl c.text_mem)
  rw [create_eq_runs hmem, c.runs_text]
  rfl

/-! ## What the getters return -/

def defaultPort (sch : Bytes) : Option Int :=
  if sch = ascii "http" ∨ sch = ascii "ws" then some 80
  else if sch = ascii "https" ∨ sch = ascii "wss" then some 443
  else none

namespace Components

variable (c : Components)

def portNumber : Int :=
  match c.port with
  | some (d :: ds) => value 10 (d :: ds)
  | _ => (defaultPort c.scheme).getD 0

/-- The getters return the components. -/
structure Returned (u : Uri) : Prop where
  scheme : u.scheme = c.scheme
  userinfo : u.userinfo = c.userinfo.getD []
  host : u.host = c.host
  port : u.getPort = c.portNumber
  path : u.getPath = if c.path = [] then ascii "/" else c.path
  query : u.query = c.query.getD []
  fragment : u.fragment = c.fragment.getD []

/-- The components that survive. -/
structure Extractable : Prop where
  userinfo : ∀ ui ∈ c.userinfo, ¬ DigitBehindColon ui
  path : c.port = some [] → c.path = [] ∨ c.path = ascii "/"
  port : ∀ ds ∈ c.port, ds ≠ [] → value 10 ds = 0 → defaultPort c.scheme = none

lemma stored_userinfo :
    c.stored.userinfo = c.userinfo.getD [] ↔ ∀ ui ∈ c.userinfo, ¬ DigitBehindColon ui := by
  rw [stored]
  cases c.userinfo with
  | none => simp [userinfoRead]
  | some ui =>
    simp only [userinfoRead, Option.getD_some, Option.mem_some_iff, forall_eq',
      ← userinfoMark_ne_zero_iff, not_not]
    constructor
    · intro hdrop
      have hlength := congrArg List.length hdrop
      rw [length_drop] at hlength
      by_cases hne : ui = []
      · rw [hne]
        rfl
      · have hlt := userinfoMark_lt hne
        omega
    · intro hmark
      rw [hmark, drop_zero]

lemma stored_path :
    c.stored.getPath = (if c.path = [] then ascii "/" else c.path)
      ↔ (c.port = some [] → c.path = [] ∨ c.path = ascii "/") := by
  rw [Uri.getPath, stored]
  rcases hport : c.port with _ | _ | ⟨d, ds⟩
  · simp [pathRead]
  · by_cases hpath : c.path = []
    · simp [pathRead, hpath]
    · simp [pathRead, hpath, eq_comm]
  · simp [pathRead]

lemma getPort_of_zero {u : Uri} (hport : u.port = 0) :
    u.getPort = (defaultPort u.scheme).getD 0 := by
  rw [Uri.getPort, if_neg (not_not.mpr hport), defaultPort, hport]
  split_ifs <;> rfl

lemma defaultPort_pos {sch : Bytes} {n : Int} (h : defaultPort sch = some n) : 0 < n := by
  rw [defaultPort] at h
  split_ifs at h <;> cases h <;> decide

lemma stored_port :
    c.stored.getPort = c.portNumber
      ↔ ∀ ds ∈ c.port, ds ≠ [] → value 10 ds = 0 → defaultPort c.scheme = none := by
  have hscheme : c.stored.scheme = c.scheme := rfl
  rcases hport : c.port with _ | _ | ⟨d, ds⟩
  · have hzero : c.stored.port = 0 := by simp [stored, hport, portRead]
    simp [getPort_of_zero hzero, portNumber, hport, hscheme]
  · have hzero : c.stored.port = 0 := by simp [stored, hport, portRead]
    simp [getPort_of_zero hzero, portNumber, hport, hscheme]
  have hstored : c.stored.port = value 10 (d :: ds) := by simp [stored, hport, portRead]
  simp only [portNumber, hport, Option.mem_some_iff, forall_eq', ne_eq, reduceCtorEq,
    not_false_eq_true, true_imp_iff]
  by_cases hvalue : value 10 (d :: ds) = 0
  · have hzero : c.stored.port = 0 := by
      rw [hstored, hvalue]
      rfl
    rw [getPort_of_zero hzero, hvalue, hscheme]
    cases hdefault : defaultPort c.scheme with
    | none => simp
    | some n =>
      have hpos := defaultPort_pos hdefault
      simp only [Option.getD_some, reduceCtorEq, true_imp_iff, iff_false]
      omega
  have hne : c.stored.port ≠ 0 := by
    rw [hstored]
    exact_mod_cast hvalue
  rw [Uri.getPort, if_pos hne, hstored]
  simp [hvalue]

lemma returned_stored : c.Returned c.stored ↔ c.Extractable := by
  constructor
  · intro h
    exact ⟨c.stored_userinfo.mp h.userinfo, c.stored_path.mp h.path, c.stored_port.mp h.port⟩
  intro h
  exact {
    scheme := rfl
    userinfo := c.stored_userinfo.mpr h.userinfo
    host := rfl
    port := c.stored_port.mpr h.port
    path := c.stored_path.mpr h.path
    query := rfl
    fragment := rfl }

end Components

/-- `Create` succeeds on every URI, and when the getters return its components. -/
theorem create_extracts_iff (c : Components) :
    ∃ u, create c.text = some (some u) ∧ (c.Returned u ↔ c.Extractable) :=
  ⟨c.stored, create_text c, c.returned_stored⟩

lemma numericPassword_mem :
    ascii "http" ∈ lang (scheme .uri) ∧ ascii "user:123" ∈ lang userinfo
      ∧ ascii "h" ∈ lang host ∧ ascii "/x" ∈ lang pathAbempty := by
  decide +kernel

def numericPassword : Components where
  scheme := ascii "http"
  userinfo := some (ascii "user:123")
  host := ascii "h"
  port := none
  path := ascii "/x"
  query := none
  fragment := none
  scheme_mem := numericPassword_mem.1
  userinfo_mem := by
    rintro ui ⟨⟩
    exact numericPassword_mem.2.1
  host_mem := numericPassword_mem.2.2.1
  port_mem := nofun
  port_lt := nofun
  path_mem := numericPassword_mem.2.2.2
  query_mem := nofun
  fragment_mem := nofun

/-- Of the user information `user:123`, only `123` is returned. -/
theorem userinfo_cut :
    numericPassword.text = ascii "http://user:123@h/x"
      ∧ ∃ u, create (ascii "http://user:123@h/x") = some (some u)
        ∧ u.userinfo = ascii "123" ∧ ¬ numericPassword.Returned u := by
  have htext : numericPassword.text = ascii "http://user:123@h/x" := by decide +kernel
  have huser : numericPassword.stored.userinfo = ascii "123"
      ∧ ascii "123" ≠ numericPassword.userinfo.getD [] := by
    decide +kernel
  refine ⟨htext, numericPassword.stored, htext ▸ create_text numericPassword, huser.1, fun h => ?_⟩
  have hreturned := h.userinfo
  exact huser.2 hreturned

end Yuyu.UriParsing
