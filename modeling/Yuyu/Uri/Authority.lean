import Yuyu.Uri.Model
import Yuyu.Uri.Words

/-!
# Hosts, ports and paths

The run of the machine over a host, an optional port and a path.  When a port is present and
empty, its mark, its save and the mark of the path meet at one character.  The second mark is then
left out, and the path is lost.
-/

namespace Yuyu.UriParsing

open Foundation (wrap32 wrap32_of_lt)
open Foundation.ActionMachine.Expr List
open Foundation.Strtol (strtol strtol_digits)
open Http (Bytes)

variable {text rest ds h path : Bytes} {base : Nat} {m : Site} {c : UInt8} {p : Option Bytes}

lemma slice_eq {part : Bytes} (h : text.drop base = part ++ rest) :
    slice text base (base + part.length) = part := by
  rw [slice, h, Nat.add_sub_cancel_left, take_left]

def Site.Marks (m : Site) : Prop := m.action = .marku ∨ m.action = .markh

lemma perform_mark (hm : m.Marks) (b : Branch) (text : Bytes) (fpc : Nat) (s : Store) :
    perform text fpc [⟨b, m⟩] s = some { s with mark := some fpc } := by
  rw [perform_singleton]
  rcases hm with hm | hm <;> simp only [hm] <;> rfl

lemma mem_lang_marked {b : Branch} {v : Site} {e : Rx} {y : Bytes} :
    y ∈ lang (marked b m v e) ↔ y ∈ lang e := Iff.rfl

/-- The run of a part that is marked and saved. -/
theorem runs_marked_save {v : Site} {e : Rx} {y : Bytes} (hy : y ∈ lang e)
    (he : e.embeddings = []) (hm : m.Marks) (hv : v.action ≠ m.action) (text : Bytes) (base : Nat)
    (s : Store) :
    runs (perform text) (marked .uri m v e) y base s
      = v.action.perform text (base + y.length) { s with mark := some base } := by
  have hne : (⟨.uri, v⟩ : Embedding) ≠ ⟨.uri, m⟩ := fun h => hv (by rw [(Embedding.mk.inj h).2])
  have hboth := perform_append [⟨.uri, m⟩] [⟨.uri, v⟩] (by simpa using hv) text base s
  rw [marked, runs_marked (perform_nil text) hy he hne]
  cases y with
  | nil =>
    rw [if_pos rfl]
    refine hboth.trans ?_
    rw [perform_mark hm, Option.bind_some, perform_singleton]
    rfl
  | cons c y =>
    rw [if_neg (cons_ne_nil c y), perform_mark hm, Option.bind_some, perform_singleton]

lemma schedule_ch_seq {f : Rx} {v : Bytes} (hv : v ∈ lang f) (i : Nat) :
    (seq (ch c) f).schedule (c :: v) i = if 1 ≤ i then f.schedule v (i - 1) else [] :=
  schedule_sym_seq (p := (· == c)) (beq_self_eq_true c) hv i

lemma runs_ch_seq {f : Rx} {v : Bytes} (hv : v ∈ lang f) (text : Bytes) (base : Nat) (s : Store) :
    runs (perform text) (seq (ch c) f) (c :: v) base s = runs (perform text) f v (base + 1) s :=
  runs_sym_seq (perform_nil text) (p := (· == c)) (beq_self_eq_true c) hv base s

def delimited (d : UInt8) : Option Bytes → Bytes
  | none => []
  | some w => d :: w

section Delimited

variable {d : UInt8} {m v : Site} {e : Rx}

lemma nil_notMem_ch_seq {f : Rx} : [] ∉ lang (seq (ch d) f) := by
  intro h
  obtain ⟨u, hu, w, -, happ⟩ := mem_lang_seq.mp h
  rw [mem_lang_ch.mp hu] at happ
  cases happ

lemma delimited_mem {o : Option Bytes} (ho : ∀ w ∈ o, w ∈ lang e) :
    delimited d o ∈ lang (opt (seq (ch d) (marked .uri m v e))) := by
  cases o with
  | none => exact mem_lang_opt.mpr (Or.inr rfl)
  | some w =>
    exact mem_lang_opt.mpr (Or.inl (mem_lang_seq.mpr ⟨[d], mem_lang_ch.mpr rfl, w, ho w rfl, rfl⟩))

lemma schedule_delimited_none (i : Nat) :
    (opt (seq (ch d) (marked .uri m v e))).schedule (delimited d none) i = [] := by
  rw [schedule_opt]
  exact schedule_nil nil_notMem_ch_seq i

lemma schedule_delimited_some {w : Bytes} (hw : w ∈ lang e) (i : Nat) :
    (opt (seq (ch d) (marked .uri m v e))).schedule (delimited d (some w)) i
      = if 1 ≤ i then (marked .uri m v e).schedule w (i - 1) else [] := by
  rw [schedule_opt]
  exact schedule_ch_seq (mem_lang_marked.mpr hw) i

lemma schedule_delimited_zero {o : Option Bytes} (ho : ∀ w ∈ o, w ∈ lang e) :
    (opt (seq (ch d) (marked .uri m v e))).schedule (delimited d o) 0 = [] := by
  cases o with
  | none => exact schedule_delimited_none 0
  | some w => exact schedule_delimited_some (ho w rfl) 0

lemma runs_delimited_none (text : Bytes) (base : Nat) (s : Store) :
    runs (perform text) (opt (seq (ch d) (marked .uri m v e))) (delimited d none) base s = some s :=
  runs_opt_nil (perform_nil text) nil_notMem_ch_seq base s

lemma runs_delimited_some {w : Bytes} (hw : w ∈ lang e) (he : e.embeddings = [])
    (hm : m.Marks) (hv : v.action ≠ m.action) (text : Bytes) (base : Nat) (s : Store) :
    runs (perform text) (opt (seq (ch d) (marked .uri m v e))) (delimited d (some w)) base s
      = v.action.perform text (base + 1 + w.length) { s with mark := some (base + 1) } := by
  rw [runs_opt, delimited, runs_ch_seq (mem_lang_marked.mpr hw), runs_marked_save hw he hm hv]

end Delimited

def portText : Option Bytes → Bytes := delimited 58

def PortWord (p : Option Bytes) : Prop := ∀ ds ∈ p, ds ∈ lang port

lemma digit_of_port (h : ds ∈ lang port) : ∀ c ∈ ds, digit c = true := (live_of_mem_lang h).uses

lemma portText_mem (hp : PortWord p) : portText p ∈ lang (colonPort .uri) := delimited_mem hp

lemma live_colonPort (h : Live (colonPort .uri) [c]) : c = 58 := (live_ch_seq.mp (live_opt.mp h)).1

lemma readsOnce_hostPort (hh : h ∈ lang host) (hp : PortWord p) :
    ReadsOnce (marked .uri .markHost .saveHost host) (colonPort .uri) h (portText p) where
  first := hh
  second := portText_mem hp
  only := by
    intro u₁ c u₂ happ hu₁ hc
    obtain rfl := live_colonPort hc
    refine host_before_colon hh hu₁ ?_ happ
    cases p with
    | none => exact Or.inl rfl
    | some ds =>
      refine Or.inr ⟨ds, rfl, fun hmem => ?_⟩
      exact absurd (digit_of_port (hp ds rfl) 58 hmem) (by decide)
  ends := by
    intro c v' hv hlive
    have hlive' : Live host (h ++ [c]) := live_enter.mp (live_leave.mp hlive)
    cases p with
    | none => cases hv
    | some ds =>
      obtain ⟨rfl, -⟩ := cons.inj hv
      exact not_live_host_colon hh hlive'

lemma disjoint_hostPort :
    (marked .uri .markHost .saveHost host).embeddings.Disjoint (colonPort .uri).embeddings :=
  (nodup_seq (nodup_seq nodup_unmarkedAuthority).2.1).2.2

lemma runs_host (hh : h ∈ lang host) (htext : text.drop base = h ++ rest) (s : Store) :
    runs (perform text) (marked .uri .markHost .saveHost host) h base s
      = some { mark := some base, uri := { s.uri with host := h } } := by
  rw [runs_marked_save hh embeddings_host (Or.inr rfl) (by decide)]
  simp only [Site.action, Action.perform, slice_eq htext]

lemma atoi_port (hds : ds ∈ lang port) (hne : ds ≠ [])
    (hvalue : Foundation.Strtol.value 10 ds < 2 ^ 31) (htext : text.drop base = ds ++ rest)
    (hrest : ∀ c ∈ rest.head?, Foundation.Strtol.digitVal c = none) :
    wrap32 (strtol 10 (text.drop base)) = Foundation.Strtol.value 10 ds := by
  have hdigits : ∀ c ∈ ds, Foundation.Strtol.isDigit 10 c = true := by
    intro c hc
    have hdigit := digit_of_port hds c hc
    simp only [digit, Bool.and_eq_true, decide_eq_true_eq, UInt8.le_iff_toNat_le] at hdigit
    simp only [Foundation.Strtol.isDigit, Foundation.Strtol.digitVal]
    have hlo : 48 ≤ c.toNat := hdigit.1
    have hhi : c.toNat ≤ 57 := hdigit.2
    rw [if_pos ⟨hlo, hhi⟩, Option.any_some, decide_eq_true_eq]
    omega
  have hmax : (Foundation.Strtol.value 10 ds : Int) ≤ Foundation.Strtol.longMax := by
    unfold Foundation.Strtol.longMax
    omega
  rw [htext, strtol_digits hne (by omega) hdigits hrest, min_eq_left hmax]
  exact wrap32_of_lt (by omega) (by omega)

def portRead : Option Bytes → Int → Int
  | none, old => old
  | some ds, old => if ds = [] then old else Foundation.Strtol.value 10 ds

def PortBound (p : Option Bytes) : Prop := ∀ ds ∈ p, Foundation.Strtol.value 10 ds < 2 ^ 31

lemma runs_colonPort (hp : PortWord p)
    (hbound : PortBound p) (htext : text.drop base = portText p ++ rest)
    (hrest : ∀ c ∈ rest.head?, Foundation.Strtol.digitVal c = none) (s : Store) :
    runs (perform text) (colonPort .uri) (portText p) base s
      = some { mark := if p.isSome then none else s.mark,
               uri := { s.uri with port := portRead p s.uri.port } } := by
  cases p with
  | none => exact runs_delimited_none text base s
  | some ds =>
    have hds := hp ds rfl
    have htext' : text.drop (base + 1) = ds ++ rest := by
      rw [← drop_drop, htext]
      rfl
    rw [colonPort, portText, runs_delimited_some hds embeddings_port (Or.inr rfl) (by decide)]
    simp only [Site.action, Action.perform, Option.some.injEq, Option.isSome_some, if_true,
      portRead]
    by_cases hne : ds = []
    · simp [hne]
    have hpos := length_pos_iff.mpr hne
    rw [if_neg (by omega), if_neg hne]
    simp only [Option.bind_eq_bind, Option.bind_some,
      atoi_port hds hne (hbound ds rfl) htext' hrest]
    rfl

/-- The run over a host and a port. -/
theorem runs_hostPort (hh : h ∈ lang host)
    (hp : PortWord p) (hbound : PortBound p) (htext : text.drop base = h ++ portText p ++ rest)
    (hrest : ∀ c ∈ rest.head?, Foundation.Strtol.digitVal c = none) (s : Store) :
    runs (perform text) (hostPort .uri) (h ++ portText p) base s
      = some { mark := if p.isSome then none else some base,
               uri := { s.uri with host := h, port := portRead p s.uri.port } } := by
  have hhost : text.drop base = h ++ (portText p ++ rest) := by rw [htext, append_assoc]
  have hport : text.drop (base + h.length) = portText p ++ rest := by
    rw [← drop_drop, hhost, drop_left]
  rw [hostPort, runs_seq_of_nil (perform_nil text) (readsOnce_hostPort hh hp) disjoint_hostPort
    (Or.inr (schedule_delimited_zero hp)), runs_host hh hhost, Option.bind_some,
    runs_colonPort hp hbound hport hrest]

/-! ## Paths -/

lemma live_savedPath (h : Live (savedPath .uri) [c]) : c = 47 := by
  have hpath : Live pathAbempty [c] := live_enter.mp (live_leave.mp h)
  rcases live_seq_singleton.mp hpath with hfirst | ⟨-, hrest⟩
  · exact (live_ch_seq.mp (live_opt.mp hfirst)).1
  · exact (live_ch_seq.mp (live_star_singleton.mp hrest)).1

lemma mem_lang_hostPort (hh : h ∈ lang host) (hp : PortWord p) :
    h ++ portText p ∈ lang (hostPort .uri) :=
  mem_lang_seq.mpr ⟨h, hh, portText p, portText_mem hp, rfl⟩

lemma readsOnce_path (hh : h ∈ lang host) (hp : PortWord p) (hpath : path ∈ lang pathAbempty) :
    ReadsOnce (hostPort .uri) (savedPath .uri) (h ++ portText p) path := by
  refine .of_delimiter (· = 47) (mem_lang_hostPort hh hp) hpath ?_ fun c => live_savedPath
  rintro c rfl
  exact uses_hostPort.1

lemma disjoint_path :
    (hostPort .uri).embeddings.Disjoint (savedPath .uri).embeddings := by
  have hsubset : (hostPort .uri).embeddings ⊆ (authority .uri).embeddings :=
    fun _ hx => mem_cons_of_mem _ (mem_append_right _ hx)
  exact disjoint_of_subset_left hsubset (nodup_seq nodup_authorityPath).2.2

lemma schedule_savedPath_zero (hpath : path ∈ lang pathAbempty) :
    (savedPath .uri).schedule path 0
      = ⟨.uri, .markPath⟩ :: (if path = [] then [⟨.uri, .savePath⟩] else []) := by
  have hplan := schedule_marked (a := (⟨.uri, .markPath⟩ : Embedding))
    (b := (⟨.uri, .savePath⟩ : Embedding)) hpath embeddings_pathAbempty (by decide) 0
  refine hplan.trans ?_
  cases path with
  | nil | cons => rfl

lemma schedule_hostPort_end_none (hh : h ∈ lang host) :
    (hostPort .uri).schedule (h ++ portText none) (h ++ portText none).length
      = (if h = [] then [⟨.uri, .markHost⟩] else []) ++ [⟨.uri, .saveHost⟩] := by
  have hp : PortWord none := fun ds hds => nomatch hds
  have hhost := schedule_marked (a := (⟨.uri, .markHost⟩ : Embedding))
    (b := (⟨.uri, .saveHost⟩ : Embedding)) hh embeddings_host (by decide) h.length
  have hport : (colonPort .uri).schedule [] 0 = [] := schedule_delimited_none 0
  rw [hostPort, schedule_seq (readsOnce_hostPort hh hp) disjoint_hostPort]
  simp only [portText, delimited, append_nil, le_refl, if_true, Nat.sub_self]
  refine (congrArg₂ (· ++ ·) hhost hport).trans ?_
  simp only [if_true, append_nil, length_eq_zero_iff]

lemma schedule_hostPort_end_some (hh : h ∈ lang host) (hds : ds ∈ lang port) :
    (hostPort .uri).schedule (h ++ portText (some ds)) (h ++ portText (some ds)).length
      = (if ds = [] then [⟨.uri, .markPort⟩] else []) ++ [⟨.uri, .savePort⟩] := by
  have hp : PortWord (some ds) := by
    rintro _ ⟨⟩
    exact hds
  have hport := schedule_marked (a := (⟨.uri, .markPort⟩ : Embedding))
    (b := (⟨.uri, .savePort⟩ : Embedding)) hds embeddings_port (by decide) ds.length
  have hlength : (h ++ portText (some ds)).length = h.length + (1 + ds.length) := by
    rw [length_append, portText, delimited, length_cons, Nat.add_comm ds.length 1]
  have hdelimited : (colonPort .uri).schedule (portText (some ds)) (1 + ds.length) = _ :=
    schedule_delimited_some hds _
  rw [hostPort, schedule_seq (readsOnce_hostPort hh hp) disjoint_hostPort, hlength,
    if_neg (by omega), if_pos (by omega), Nat.add_sub_cancel_left, nil_append,
    hdelimited, if_pos (by omega), Nat.add_sub_cancel_left]
  refine hport.trans ?_
  simp only [if_true, length_eq_zero_iff]

lemma schedule_hostPort_end (hh : h ∈ lang host) (hp : PortWord p) (hempty : p ≠ some []) :
    let l := (hostPort .uri).schedule (h ++ portText p) (h ++ portText p).length
    l = [⟨.uri, .saveHost⟩] ∨ l = [⟨.uri, .markHost⟩, ⟨.uri, .saveHost⟩]
      ∨ l = [⟨.uri, .savePort⟩] := by
  cases p with
  | none =>
    rw [schedule_hostPort_end_none hh]
    by_cases hnil : h = []
    · exact Or.inr (Or.inl (by rw [if_pos hnil]; rfl))
    · exact Or.inl (by rw [if_neg hnil]; rfl)
  | some ds =>
    rw [schedule_hostPort_end_some hh (hp ds rfl)]
    have hnil : ds ≠ [] := fun hds => hempty (by rw [hds])
    exact Or.inr (Or.inr (by rw [if_neg hnil]; rfl))

lemma perform_join {l : List Embedding}
    (hl : l = [⟨.uri, .saveHost⟩] ∨ l = [⟨.uri, .markHost⟩, ⟨.uri, .saveHost⟩]
      ∨ l = [⟨.uri, .savePort⟩]) (path text : Bytes) (fpc : Nat) (s : Store) :
    perform text fpc (l ++ ⟨.uri, .markPath⟩ :: (if path = [] then [⟨.uri, .savePath⟩] else [])) s
      = (perform text fpc l s).bind (perform text fpc
          (⟨.uri, .markPath⟩ :: (if path = [] then [⟨.uri, .savePath⟩] else []))) := by
  by_cases hpath : path = []
  · rw [if_pos hpath]
    rcases hl with rfl | rfl | rfl
    · exact perform_append _ _ (by decide) text fpc s
    · rfl
    · exact perform_append _ _ (by decide) text fpc s
  rw [if_neg hpath]
  rcases hl with rfl | rfl | rfl
  · exact perform_append _ _ (by decide) text fpc s
  · rfl
  · exact perform_append _ _ (by decide) text fpc s

def pathRead (p : Option Bytes) (path : Bytes) : Bytes := if p = some [] then [] else path

lemma runs_savedPath (hpath : path ∈ lang pathAbempty)
    (htext : text.drop base = path ++ rest) (s : Store) :
    runs (perform text) (savedPath .uri) path base s
      = some { mark := none, uri := { s.uri with path := path } } := by
  rw [savedPath, runs_marked_save hpath embeddings_pathAbempty (Or.inr rfl) (by decide)]
  simp only [Site.action, Action.perform, slice_eq htext, if_pos (Nat.le_add_right base _)]

lemma digitVal_behind_port (hpath : path ∈ lang pathAbempty)
    (hrest : ∀ c ∈ rest.head?, Foundation.Strtol.digitVal c = none) :
    ∀ c ∈ (path ++ rest).head?, Foundation.Strtol.digitVal c = none := by
  cases path with
  | nil => exact hrest
  | cons c path =>
    rintro _ ⟨⟩
    have hlive : Live (savedPath .uri) [c] := live_append (v := path) (live_of_mem_lang hpath)
    rw [live_savedPath hlive]
    rfl

lemma runs_emptyPort (hh : h ∈ lang host)
    (hpath : path ∈ lang pathAbempty) (htext : text.drop base = h ++ rest) (s : Store) :
    runs (perform text) (seq (hostPort .uri) (savedPath .uri)) (h ++ portText (some []) ++ path)
        base s
      = some { mark := none, uri := { s.uri with host := h, path := [] } } := by
  have hp : PortWord (some []) := by
    rintro _ ⟨⟩
    exact nil_mem_lang_star
  have hhost : runFrom (perform text) ((hostPort .uri).schedule (h ++ portText (some []))) base 0
      (h ++ portText (some [])).length s
        = some { mark := some base, uri := { s.uri with host := h } } := by
    rw [← runs_host hh htext s, runs]
    refine (congrArg (fun n => runFrom _ _ base 0 n s) (by simp [portText, delimited])).trans
      (runFrom_congr _ rfl (fun j hj => ?_) s)
    rw [Nat.zero_add, hostPort, schedule_seq (readsOnce_hostPort hh hp) disjoint_hostPort,
      if_pos (by omega)]
    by_cases hj' : h.length ≤ j
    · obtain rfl : j = h.length := by omega
      have hquiet : (colonPort .uri).schedule (portText (some [])) 0 = [] :=
        schedule_delimited_zero hp
      rw [if_pos hj', Nat.sub_self, hquiet, append_nil]
    · rw [if_neg hj', append_nil]
  have htail := runFrom_marked_tail (perform_nil text) (a := (⟨.uri, .markPath⟩ : Embedding))
    (b := (⟨.uri, .savePath⟩ : Embedding)) hpath embeddings_pathAbempty (by decide)
    (base + (h ++ portText (some [])).length)
  rw [runs_seq_split (readsOnce_path hh hp hpath) disjoint_path, hhost, Option.bind_some,
    schedule_hostPort_end_some hh nil_mem_lang_star, schedule_savedPath_zero hpath]
  generalize base + (h ++ portText (some [])).length = fpc at htail
  by_cases hempty : path = []
  · subst hempty
    simp [perform, actionsOf, Site.action, Action.perform, eraseDups_cons, runFrom]
  · simp only [savedPath, marked, htail, if_neg hempty]
    simp [perform, actionsOf, Site.action, Action.perform, eraseDups_cons]

/-- The run over a host, a port and a path. -/
theorem runs_hostPortPath (hh : h ∈ lang host) (hp : PortWord p) (hbound : PortBound p)
    (hpath : path ∈ lang pathAbempty) (htext : text.drop base = h ++ portText p ++ path ++ rest)
    (hrest : ∀ c ∈ rest.head?, Foundation.Strtol.digitVal c = none) (s : Store) :
    runs (perform text) (seq (hostPort .uri) (savedPath .uri)) (h ++ portText p ++ path) base s
      = some { mark := none,
               uri := { s.uri with
                 host := h, port := portRead p s.uri.port, path := pathRead p path } } := by
  by_cases hempty : p = some []
  · subst hempty
    have hhost : text.drop base = h ++ (portText (some []) ++ path ++ rest) := by
      simp only [htext, append_assoc]
    rw [runs_emptyPort hh hpath hhost]
    simp [portRead, pathRead]
  have hauthority : text.drop base = h ++ portText p ++ (path ++ rest) := by
    rw [htext, append_assoc _ path rest]
  have hpathText : text.drop (base + (h ++ portText p).length) = path ++ rest := by
    rw [← drop_drop, hauthority, drop_left]
  have hjoin := perform_join (schedule_hostPort_end hh hp hempty) path text
    (base + (h ++ portText p).length)
  rw [← schedule_savedPath_zero hpath] at hjoin
  rw [runs_seq (readsOnce_path hh hp hpath) disjoint_path hjoin,
    runs_hostPort hh hp hbound hauthority (digitVal_behind_port hpath hrest), Option.bind_some,
    runs_savedPath hpath hpathText, pathRead, if_neg hempty]

end Yuyu.UriParsing
