import Yuyu.Uri.Authority

/-!
# User information

While user information is read, the same characters are followed as a host and a port. A digit
behind the first colon could be the first one of a port, and moves the mark.
-/

namespace Yuyu.UriParsing

open Foundation.ActionMachine.Expr List
open Http (Bytes)

variable {u name ui w hp : Bytes} {c : UInt8} {x : Embedding} {i : Nat}

lemma not_fires_of_nil {e : Rx} (he : e.embeddings = [])
    : ¬ Fires e u c x := by
  intro h
  have hmem := h.mem_embeddings
  rw [he] at hmem
  cases hmem

lemma not_leaves_of_nil {e : Rx} (he : e.embeddings = []) :
    ¬ Leaves e u x := by
  intro h
  have hmem := h.mem_embeddings
  rw [he] at hmem
  cases hmem

section Shadow

variable {u : Bytes} {c : UInt8} {x : Embedding}

lemma fires_marked {m v : Site} {e : Rx} (he : e.embeddings = []) :
    Fires (marked .uri m v e) u c x ↔ u = [] ∧ x = ⟨.uri, m⟩ ∧ Live e [c] := by
  rw [marked, fires_leave, fires_enter, or_iff_right (not_fires_of_nil he)]

lemma leaves_marked {m v : Site} {e : Rx} (he : e.embeddings = []) :
    Leaves (marked .uri m v e) u x
      ↔ (u = [] ∧ x = ⟨.uri, m⟩ ∧ [] ∈ lang e) ∨ (u ∈ lang e ∧ x = ⟨.uri, v⟩) := by
  rw [marked, leaves_leave, leaves_enter, or_iff_right (not_leaves_of_nil he), mem_lang_enter]

lemma live_port : Live port [c] ↔ digit c = true := by
  rw [port, live_star_singleton, live_sym]
  simp

lemma fires_colonPort :
    Fires (colonPort .uri) u c x ↔ u = [58] ∧ x = ⟨.uri, .markPort⟩ ∧ digit c = true := by
  rw [colonPort, opt, fires_alt, or_iff_left (not_fires_of_nil rfl), fires_seq,
    or_iff_right (not_fires_of_nil rfl), or_iff_right fun h => not_leaves_of_nil rfl h.1]
  simp only [mem_lang_ch, fires_marked embeddings_port, live_port]
  constructor
  · rintro ⟨y, v, rfl, rfl, rfl, hx, hc⟩
    exact ⟨rfl, hx, hc⟩
  · rintro ⟨rfl, hx, hc⟩
    exact ⟨[58], [], rfl, rfl, rfl, hx, hc⟩

lemma fires_hostPort :
    Fires (hostPort .uri) u c x
      ↔ (u = [] ∧ x = ⟨.uri, .markHost⟩ ∧ (Live host [c] ∨ c = 58))
        ∨ (c = 58 ∧ x = ⟨.uri, .saveHost⟩ ∧ u ∈ lang host)
        ∨ (x = ⟨.uri, .markPort⟩ ∧ digit c = true ∧ ∃ h ∈ lang host, u = h ++ [58]) := by
  have hcolon : Live (colonPort .uri) [c] ↔ c = 58 := by
    refine ⟨live_colonPort, ?_⟩
    rintro rfl
    exact live_opt.mpr (live_ch_seq.mpr ⟨rfl, live_nil _⟩)
  have hnil : [] ∈ lang host := regName_subset_host nil_mem_lang_star
  rw [hostPort, fires_seq, fires_marked embeddings_host, leaves_marked embeddings_host, hcolon]
  simp only [fires_colonPort, mem_lang_marked]
  constructor
  · rintro (⟨hu, hx, hc⟩ | ⟨⟨hu, hx, -⟩ | ⟨hu, hx⟩, hc⟩ | ⟨h, v, rfl, hh, rfl, hx, hc⟩)
    · exact Or.inl ⟨hu, hx, Or.inl hc⟩
    · exact Or.inl ⟨hu, hx, Or.inr hc⟩
    · exact Or.inr (Or.inl ⟨hc, hx, hu⟩)
    · exact Or.inr (Or.inr ⟨hx, hc, h, hh, rfl⟩)
  rintro (⟨hu, hx, hc | hc⟩ | ⟨hc, hx, hu⟩ | ⟨hx, hc, h, hh, rfl⟩)
  · exact Or.inl ⟨hu, hx, hc⟩
  · exact Or.inr (Or.inl ⟨Or.inl ⟨hu, hx, hnil⟩, hc⟩)
  · exact Or.inr (Or.inl ⟨Or.inr ⟨hu, hx⟩, hc⟩)
  · exact Or.inr (Or.inr ⟨h, [58], rfl, hh, rfl, hx, hc⟩)

end Shadow

/-- Where the mark is when the user information ends: at a digit behind the first colon, or
at the beginning. -/
def userinfoMark (ui : Bytes) : Nat :=
  let name := ui.takeWhile (· != 58)
  match ui[name.length + 1]? with
  | some d => if digit d then name.length + 1 else 0
  | none => 0

lemma takeWhile_name {rest : Bytes} (hname : 58 ∉ name) :
    (name ++ 58 :: rest).takeWhile (· != 58) = name := by
  have hall : ∀ c ∈ name, (c != 58) = true := by
    intro c hc
    simpa using fun h : c = 58 => hname (h ▸ hc)
  rw [takeWhile_append_of_pos hall]
  simp

lemma userinfoMark_colon {rest : Bytes} (hname : 58 ∉ name) (d : UInt8) :
    userinfoMark (name ++ 58 :: d :: rest) = if digit d then name.length + 1 else 0 := by
  rw [userinfoMark, takeWhile_name hname]
  simp

lemma userinfoMark_lastColon (hname : 58 ∉ name) :
    userinfoMark (name ++ [58]) = 0 := by
  rw [userinfoMark, takeWhile_name hname]
  simp

lemma userinfoMark_noColon (hui : 58 ∉ ui) : userinfoMark ui = 0 := by
  have hall : ∀ c ∈ ui, (c != 58) = true := by
    intro c hc
    simpa using fun h : c = 58 => hui (h ▸ hc)
  rw [userinfoMark, takeWhile_eq_self_iff.mpr hall]
  simp

def DigitBehindColon (ui : Bytes) : Prop :=
  ∃ name d rest, ui = name ++ 58 :: d :: rest ∧ 58 ∉ name ∧ digit d = true

lemma userinfoMark_ne_zero_iff (ui : Bytes) : userinfoMark ui ≠ 0 ↔ DigitBehindColon ui := by
  constructor
  · intro hmark
    by_cases hcolon : 58 ∈ ui
    · obtain ⟨name, rest, rfl, hname⟩ := eq_append_cons_of_mem hcolon
      cases rest with
      | nil => exact absurd (userinfoMark_lastColon hname) hmark
      | cons d rest =>
        rw [userinfoMark_colon hname] at hmark
        exact ⟨name, d, rest, rfl, hname, by_contra fun hd => hmark (if_neg hd)⟩
    · exact absurd (userinfoMark_noColon hcolon) hmark
  rintro ⟨name, d, rest, rfl, hname, hd⟩
  rw [userinfoMark_colon hname, if_pos hd]
  exact Nat.succ_ne_zero _

lemma userinfoMark_eq_iff {r : Bytes} (hu : u ≠ []) :
    userinfoMark (u ++ c :: r) = u.length
      ↔ digit c = true ∧ ∃ name, u = name ++ [58] ∧ 58 ∉ name := by
  constructor
  · intro hmark
    have hpos := length_pos_iff.mpr hu
    by_cases hcolon : (58 : UInt8) ∈ u ++ c :: r
    · obtain ⟨name, rest, hsplit, hname⟩ := eq_append_cons_of_mem hcolon
      rw [hsplit] at hmark
      cases rest with
      | nil =>
        rw [userinfoMark_lastColon hname] at hmark
        omega
      | cons d rest =>
        rw [userinfoMark_colon hname] at hmark
        by_cases hd : digit d = true
        · rw [if_pos hd] at hmark
          have happ : u ++ c :: r = (name ++ [58]) ++ d :: rest := by simpa using hsplit
          obtain ⟨hleft, hright⟩ := append_inj happ (by simp [← hmark])
          obtain ⟨rfl, -⟩ := cons.inj hright
          exact ⟨hd, name, hleft, hname⟩
        · rw [if_neg hd] at hmark
          omega
    · rw [userinfoMark_noColon hcolon] at hmark
      omega
  rintro ⟨hc, name, rfl, hname⟩
  rw [append_assoc]
  refine (userinfoMark_colon hname c).trans ?_
  rw [if_pos hc, length_append, length_singleton]

/-- Where a port is marked. -/
theorem fires_markPort_iff {r : Bytes} (hui : u ++ c :: r ∈ lang userinfo) :
    Fires (hostPort .uri) u c ⟨.uri, .markPort⟩
      ↔ u ≠ [] ∧ userinfoMark (u ++ c :: r) = u.length := by
  have hbracket : 91 ∉ u ++ c :: r := notMem_of_mem_lang hui uses_userinfo.2
  constructor
  · intro hfires
    rcases fires_hostPort.mp hfires with ⟨-, hx, -⟩ | ⟨-, hx, -⟩ | ⟨-, hc, h, hh, rfl⟩
    · cases hx
    · cases hx
    have hne : h ++ [58] ≠ [] := by simp
    refine ⟨hne, (userinfoMark_eq_iff hne).mpr ⟨hc, h, rfl, ?_⟩⟩
    rcases host_cases hh with ⟨m, rfl, -⟩ | ⟨hcolon, -⟩
    · exact absurd (by simp) hbracket
    · exact hcolon
  rintro ⟨hu, hmark⟩
  obtain ⟨hc, name, rfl, hname⟩ := (userinfoMark_eq_iff hu).mp hmark
  have hword : name ++ 58 :: (c :: r) ∈ lang userinfo := by simpa using hui
  exact fires_hostPort.mpr (Or.inr (Or.inr
    ⟨rfl, hc, name, regName_subset_host (regName_before_colon hword hname), rfl⟩))

/-! ## The schedule of an authority -/

lemma embeddings_userinfoAt : (userinfoAt .uri).embeddings = [⟨.uri, .saveUserinfo⟩] := by
  rw [userinfoAt, embeddings, embeddings, embeddings_userinfo]
  rfl

lemma saveUserinfo_mem : (⟨.uri, .saveUserinfo⟩ : Embedding) ∈ (userinfoAt .uri).embeddings := by
  rw [embeddings_userinfoAt]
  exact mem_singleton_self _

lemma readsOnce_userinfoAt (hui : ui ∈ lang userinfo) :
    ReadsOnce (leave ⟨.uri, .saveUserinfo⟩ userinfo) (ch 64) ui [64] := by
  refine .of_delimiter (· = 64) hui (mem_lang_ch.mpr rfl) ?_ ?_
  · rintro c rfl
    exact uses_userinfo.1
  · intro c hlive
    simpa [ch] using live_sym.mp hlive

lemma takenAt_userinfoAt (hui : ui ∈ lang userinfo) :
    TakenAt (userinfoAt .uri) (ui ++ [64]) i x ↔ i = ui.length ∧ x = ⟨.uri, .saveUserinfo⟩ := by
  have hplain {e : Rx} (he : e.embeddings = []) {w : Bytes} {j : Nat} : ¬ TakenAt e w j x := by
    intro h
    have hmem := h.mem_embeddings
    rw [he] at hmem
    cases hmem
  rw [userinfoAt, (readsOnce_userinfoAt hui).takenAt_seq, takenAt_leave hui,
    or_iff_right (hplain embeddings_userinfo), or_iff_left fun h => hplain rfl h.2]
  refine ⟨And.right, fun h => ⟨?_, h⟩⟩
  rw [h.1]

lemma mem_lang_userinfoAt :
    w ∈ lang (userinfoAt .uri) ↔ ∃ ui ∈ lang userinfo, w = ui ++ [64] := by
  rw [userinfoAt, mem_lang_seq]
  simp only [mem_lang_leave, mem_lang_ch, exists_eq_left]
  exact exists_congr fun ui => and_congr_right fun _ => eq_comm

lemma readsOnce_authority (hui : ui ∈ lang userinfo) (hhp : hp ∈ lang (hostPort .uri)) :
    ReadsOnce (userinfoAt .uri) (hostPort .uri) (ui ++ [64]) hp where
  first := mem_lang_userinfoAt.mpr ⟨ui, hui, rfl⟩
  second := hhp
  only := by
    intro u₁ c u₂ happ hu₁ _
    obtain ⟨ui', hui', rfl⟩ := mem_lang_userinfoAt.mp hu₁
    have hsplit : ui ++ 64 :: hp = ui' ++ 64 :: (c :: u₂) := by simpa using happ
    rw [(append_cons_inj (notMem_of_mem_lang hui uses_userinfo.1)
      (notMem_of_mem_lang hui' uses_userinfo.1) hsplit).1]
  ends := by
    intro c v' _ hlive
    rw [userinfoAt, live_seq] at hlive
    rcases hlive with hlive | ⟨u, v, happ, hv, hu, hlive⟩
    · have huses := (live_leave.mp hlive).uses 64 (by simp)
      cases huses
    rcases live_sym.mp hlive with hnil | ⟨d, -, rfl⟩
    · exact hv hnil
    · obtain ⟨hleft, -⟩ := append_inj' happ rfl
      exact notMem_of_mem_lang (mem_lang_leave.mp hu) uses_userinfo.1 (by simp [← hleft])

lemma not_takenAt_userinfoAt (hw : 64 ∉ w) :
    ¬ TakenAt (seq (userinfoAt .uri) (hostPort .uri)) w i x := by
  have hword {u v : Bytes} (happ : w = u ++ v) : u ∉ lang (userinfoAt .uri) := by
    intro hu
    obtain ⟨ui, -, rfl⟩ := mem_lang_userinfoAt.mp hu
    exact hw (by simp [happ])
  rcases position_cases w i with hi | rfl | ⟨u, c, rest, rfl, rfl⟩
  · exact not_takenAt_beyond hi
  · rw [takenAt_end, leaves_seq]
    rintro (⟨hleaves, -⟩ | ⟨u, v, happ, hu, -⟩)
    · exact hword (append_nil w).symm hleaves.mem_lang
    · exact hword happ hu
  rw [takenAt_inside, fires_seq]
  rintro (hfires | ⟨hleaves, -⟩ | ⟨u₁, v₁, rfl, hu₁, -⟩)
  · rw [userinfoAt, fires_seq, fires_leave] at hfires
    rcases hfires with hfires | ⟨-, hlive⟩ | ⟨u₁, v₁, -, -, hfires⟩
    · exact not_fires_of_nil embeddings_userinfo hfires
    · have hc : c = 64 := by simpa [ch] using live_sym.mp hlive
      exact hw (by simp [hc])
    · exact not_fires_of_nil rfl hfires
  · exact hword rfl hleaves.mem_lang
  · exact hword (append_assoc ..) hu₁

lemma disjoint_userinfo :
    (userinfoAt .uri).embeddings.Disjoint (hostPort .uri).embeddings :=
  disjoint_of_subset_left (subset_append_left _ _)
    (nodup_seq nodup_unmarkedAuthority).2.2

def unmarkedAuthority : Rx := seq (opt (userinfoAt .uri)) (hostPort .uri)

lemma schedule_authority {a : Bytes} (ha : a ∈ lang unmarkedAuthority) {j : Nat}
    {P : Prop} [Decidable P] (hsave : TakenAt unmarkedAuthority a i ⟨.uri, .saveUserinfo⟩ ↔ P)
    (hrest : ∀ x ∈ (hostPort .uri).embeddings,
      TakenAt unmarkedAuthority a i x ↔ TakenAt (hostPort .uri) w j x) :
    (authority .uri).schedule a i
      = (if i = 0 then [⟨.uri, .markAuthority⟩] else [])
        ++ ((if P then [⟨.uri, .saveUserinfo⟩] else []) ++ (hostPort .uri).schedule w j) := by
  have hemb : unmarkedAuthority.embeddings
      = [⟨.uri, .saveUserinfo⟩] ++ (hostPort .uri).embeddings := by
    rw [unmarkedAuthority, embeddings, opt, embeddings, embeddings_userinfoAt]
    rfl
  have hleft : [(⟨.uri, .saveUserinfo⟩ : Embedding)].filter (· ∈ takenAt unmarkedAuthority a i)
      = if P then [⟨.uri, .saveUserinfo⟩] else [] := by
    by_cases hP : P
    · rw [if_pos hP, filter_cons, if_pos (decide_eq_true (mem_takenAt.mpr (hsave.mpr hP))),
        filter_nil]
    rw [if_neg hP, filter_cons, if_neg, filter_nil]
    rw [decide_eq_true_iff, mem_takenAt, hsave]
    exact hP
  have hright : (hostPort .uri).embeddings.filter (· ∈ takenAt unmarkedAuthority a i)
      = (hostPort .uri).schedule w j := by
    refine (filter_takenAt (P := True) fun x hx => ?_).trans (if_pos trivial)
    rw [hrest x hx, true_and]
  change (enter ⟨.uri, .markAuthority⟩ unmarkedAuthority).schedule a i = _
  rw [schedule_enter ha (nodup_enter nodup_authority).1]
  congr 1
  rw [schedule, inOrder, hemb, filter_append, hleft, hright]

lemma not_takenAt_save :
    ¬ TakenAt (hostPort .uri) w i ⟨.uri, .saveUserinfo⟩ := by
  intro h
  exact disjoint_userinfo saveUserinfo_mem h.mem_embeddings

lemma schedule_authority_none (hhp : hp ∈ lang (hostPort .uri)) (i : Nat) :
    (authority .uri).schedule hp i
      = (if i = 0 then [⟨.uri, .markAuthority⟩] else []) ++ (hostPort .uri).schedule hp i := by
  have hword : hp ∈ lang unmarkedAuthority :=
    mem_lang_seq.mpr ⟨[], mem_lang_opt.mpr (Or.inr rfl), hp, hhp, rfl⟩
  have hat : 64 ∉ hp := notMem_of_mem_lang hhp uses_hostPort.2
  have htaken {x : Embedding} :
      TakenAt unmarkedAuthority hp i x ↔ TakenAt (hostPort .uri) hp i x := by
    rw [unmarkedAuthority, takenAt_opt_seq, or_iff_right (not_takenAt_userinfoAt hat)]
  have hsave : TakenAt unmarkedAuthority hp i ⟨.uri, .saveUserinfo⟩ ↔ False := by
    rw [htaken, iff_false]
    exact not_takenAt_save
  exact schedule_authority hword hsave fun x _ => htaken

lemma not_takenAt_shadow (hi : ui.length ≤ i) :
    ¬ TakenAt (hostPort .uri) (ui ++ [64] ++ hp) i x := by
  have hread (w rest : Bytes) (hw : ui ++ [64] ++ hp = w ++ rest) (hlen : ui.length < w.length) :
      ¬ Live (hostPort .uri) w := by
    intro hlive
    have hpre : ui ++ [64] <+: w := by
      refine prefix_of_prefix_length_le (prefix_append _ hp) ?_ ?_
      · exact hw ▸ prefix_append w rest
      · rw [length_append]
        exact hlen
    have huses := hlive.uses 64 (hpre.subset (by simp))
    cases huses
  rcases position_cases (ui ++ [64] ++ hp) i with hbeyond | rfl | ⟨u, c, rest, hw, rfl⟩
  · exact not_takenAt_beyond hbeyond
  · rw [takenAt_end]
    intro hleaves
    exact hread _ [] (append_nil _).symm (by simp) (live_of_mem_lang hleaves.mem_lang)
  rw [hw, takenAt_inside]
  intro hfires
  refine hread (u ++ [c]) rest ?_ ?_ hfires.live
  · rw [hw]
    simp
  · rw [length_append, length_singleton]
    omega

lemma schedule_authority_some (hui : ui ∈ lang userinfo)
    (hhp : hp ∈ lang (hostPort .uri)) (i : Nat) :
    (authority .uri).schedule (ui ++ [64] ++ hp) i
      = (if i = 0 then [⟨.uri, .markAuthority⟩] else [])
        ++ ((if i = ui.length then [⟨.uri, .saveUserinfo⟩] else [])
          ++ (if i ≤ ui.length then (hostPort .uri).schedule (ui ++ [64] ++ hp) i
              else (hostPort .uri).schedule hp (i - (ui.length + 1)))) := by
  have hword : ui ++ [64] ++ hp ∈ lang unmarkedAuthority :=
    mem_lang_seq.mpr ⟨ui ++ [64],
      mem_lang_opt.mpr (Or.inl (mem_lang_userinfoAt.mpr ⟨ui, hui, rfl⟩)), hp, hhp, rfl⟩
  have htaken {x : Embedding} :
      TakenAt unmarkedAuthority (ui ++ [64] ++ hp) i x
        ↔ ((i = ui.length ∧ x = ⟨.uri, .saveUserinfo⟩)
            ∨ (ui.length + 1 ≤ i ∧ TakenAt (hostPort .uri) hp (i - (ui.length + 1)) x))
          ∨ TakenAt (hostPort .uri) (ui ++ [64] ++ hp) i x := by
    rw [unmarkedAuthority, takenAt_opt_seq, (readsOnce_authority hui hhp).takenAt_seq,
      takenAt_userinfoAt hui, length_append, length_singleton]
    refine or_congr_left (or_congr_left ⟨And.right, fun h => ⟨?_, h⟩⟩)
    omega
  have hsave : TakenAt unmarkedAuthority (ui ++ [64] ++ hp) i ⟨.uri, .saveUserinfo⟩
      ↔ i = ui.length := by
    rw [htaken, or_iff_left not_takenAt_save, or_iff_left fun h => not_takenAt_save h.2,
      and_iff_left rfl]
  have hother {x : Embedding} (hx : x ∈ (hostPort .uri).embeddings) :
      ¬ (i = ui.length ∧ x = ⟨.uri, .saveUserinfo⟩) := by
    rintro ⟨-, rfl⟩
    exact disjoint_userinfo saveUserinfo_mem hx
  by_cases hi : i ≤ ui.length
  · rw [if_pos hi]
    refine schedule_authority hword hsave fun x hx => ?_
    rw [htaken, or_iff_right (hother hx), or_iff_right fun h => absurd h.1 (by omega)]
  rw [if_neg hi]
  refine schedule_authority hword hsave fun x hx => ?_
  rw [htaken, or_iff_right (hother hx), or_iff_left (not_takenAt_shadow (by omega)),
    and_iff_right (by omega)]

/-! ## Runs -/

lemma foldlM_shadow {as : List Action} (has : ∀ a ∈ as, a = .markh ∨ a = .saveHost)
    (text : Bytes) (fpc : Nat) (s : Store) :
    ∃ host, as.foldlM (fun s a => a.perform text fpc s) s
      = some { mark := if .markh ∈ as then some fpc else s.mark,
               uri := { s.uri with host := host } } := by
  induction as generalizing s with
  | nil => exact ⟨s.uri.host, rfl⟩
  | cons a as ih =>
    have ih := fun s => ih (fun b hb => has b (mem_cons_of_mem a hb)) s
    rcases has a mem_cons_self with rfl | rfl
    · obtain ⟨host, hrun⟩ := ih { s with mark := some fpc }
      refine ⟨host, hrun.trans ?_⟩
      simp
    cases hmark : s.mark with
    | none =>
      obtain ⟨host, hrun⟩ := ih s
      refine ⟨host, ?_⟩
      simpa [foldlM_cons, Action.perform, hmark] using hrun
    | some mark =>
      obtain ⟨host, hrun⟩ := ih { s with uri := { s.uri with host := slice text mark fpc } }
      refine ⟨host, ?_⟩
      simpa [foldlM_cons, Action.perform, hmark] using hrun

lemma mem_actionsOf {l : List Embedding} {a : Action} :
    a ∈ actionsOf l ↔ ∃ x ∈ l, x.site.action = a := by
  rw [actionsOf, mem_eraseDups, mem_map]

section Runs

variable {ui hp : Bytes} (text : Bytes) (base : Nat)

lemma perform_shadow (hp : Bytes) (hui : ui ∈ lang userinfo) {i : Nat} (hi : i < ui.length)
    (s : Store) :
    ∃ host, perform text (base + i)
        ((if i = 0 then [⟨.uri, .markAuthority⟩] else [])
          ++ (hostPort .uri).schedule (ui ++ [64] ++ hp) i) s
      = some { mark := if i = 0 ∨ userinfoMark ui = i then some (base + i) else s.mark,
               uri := { s.uri with host := host } } := by
  obtain ⟨u, c, rest, rfl, rfl⟩ : ∃ u c rest, ui = u ++ c :: rest ∧ i = u.length := by
    rcases position_cases ui i with h | h | h
    · omega
    · omega
    · exact h
  have hword : u ++ c :: rest ++ [64] ++ hp = u ++ c :: (rest ++ [64] ++ hp) := by simp
  have hmem {x : Embedding} : x ∈ (hostPort .uri).schedule (u ++ c :: rest ++ [64] ++ hp) u.length
      ↔ Fires (hostPort .uri) u c x := by
    rw [hword, mem_schedule, takenAt_inside]
  generalize (hostPort .uri).schedule (u ++ c :: rest ++ [64] ++ hp) u.length = shadow at hmem
  have has : ∀ a ∈ actionsOf ((if u.length = 0 then [⟨.uri, .markAuthority⟩] else []) ++ shadow),
      a = .markh ∨ a = .saveHost := by
    intro a ha
    obtain ⟨x, hx, rfl⟩ := mem_actionsOf.mp ha
    rcases mem_append.mp hx with hx | hx
    · split at hx
      · obtain rfl := mem_singleton.mp hx
        exact Or.inl rfl
      · cases hx
    rcases fires_hostPort.mp (hmem.mp hx) with ⟨-, rfl, -⟩ | ⟨-, rfl, -⟩ | ⟨rfl, -⟩
    · exact Or.inl rfl
    · exact Or.inr rfl
    · exact Or.inl rfl
  have hmark :
      .markh ∈ actionsOf ((if u.length = 0 then [⟨.uri, .markAuthority⟩] else []) ++ shadow)
      ↔ u.length = 0 ∨ userinfoMark (u ++ c :: rest) = u.length := by
    rw [mem_actionsOf]
    constructor
    · rintro ⟨x, hx, haction⟩
      rcases mem_append.mp hx with hx | hx
      · split at hx
        · next hzero => exact Or.inl hzero
        · cases hx
      have hfires := hmem.mp hx
      rcases fires_hostPort.mp hfires with ⟨rfl, -⟩ | ⟨-, rfl, -⟩ | ⟨rfl, -⟩
      · exact Or.inl rfl
      · cases haction
      · exact Or.inr ((fires_markPort_iff hui).mp hfires).2
    by_cases hzero : u.length = 0
    · intro _
      exact ⟨⟨.uri, .markAuthority⟩, by simp [hzero], rfl⟩
    intro h
    have hne : u ≠ [] := fun hu => hzero (by simp [hu])
    have hfires := (fires_markPort_iff hui).mpr ⟨hne, h.resolve_left hzero⟩
    exact ⟨_, mem_append_right _ (hmem.mpr hfires), rfl⟩
  obtain ⟨host, hrun⟩ := foldlM_shadow has text (base + u.length) s
  refine ⟨host, hrun.trans ?_⟩
  simp only [hmark]

def shadowMark (ui : Bytes) (n : Nat) (old : Option Nat) : Option Nat :=
  if n = 0 then old else some (base + if userinfoMark ui < n then userinfoMark ui else 0)

lemma shadowMark_succ (n : Nat) (old : Option Nat) :
    (if n = 0 ∨ userinfoMark ui = n then some (base + n) else shadowMark base ui n old)
      = shadowMark base ui (n + 1) old := by
  rw [shadowMark, shadowMark, if_neg (Nat.succ_ne_zero n)]
  by_cases hzero : n = 0
  · have hmark : (if userinfoMark ui < n + 1 then userinfoMark ui else 0) = 0 := by
      split <;> omega
    rw [if_pos (Or.inl hzero), hmark, hzero]
  by_cases hmark : userinfoMark ui = n
  · rw [if_pos (Or.inr hmark), if_pos (by omega), hmark]
  rw [if_neg (by omega), if_neg hzero]
  by_cases hlt : userinfoMark ui < n
  · rw [if_pos hlt, if_pos (by omega)]
  · rw [if_neg hlt, if_neg (by omega)]

lemma runs_shadow (hui : ui ∈ lang userinfo) (hhp : hp ∈ lang (hostPort .uri)) {n : Nat}
    (hn : n ≤ ui.length) (s : Store) :
    ∃ host, runFrom (perform text) ((authority .uri).schedule (ui ++ [64] ++ hp)) base 0 n s
      = some { mark := shadowMark base ui n s.mark, uri := { s.uri with host := host } } := by
  induction n with
  | zero => exact ⟨s.uri.host, rfl⟩
  | succ n ih =>
    obtain ⟨host, hrun⟩ := ih (by omega)
    obtain ⟨host', hstep⟩ := perform_shadow text base hp hui (show n < ui.length by omega)
      { mark := shadowMark base ui n s.mark, uri := { s.uri with host := host } }
    refine ⟨host', ?_⟩
    rw [runFrom_add, hrun, Option.bind_some, Nat.zero_add, runFrom_one,
      schedule_authority_some hui hhp, if_neg (show n ≠ ui.length by omega),
      if_pos (show n ≤ ui.length by omega), nil_append, hstep, shadowMark_succ]

lemma userinfoMark_lt (hne : ui ≠ []) : userinfoMark ui < ui.length := by
  have hpos := length_pos_iff.mpr hne
  rw [userinfoMark]
  split
  · next d hd =>
      have hlt := (List.getElem?_eq_some_iff.mp hd).1
      split
      · exact hlt
      · exact hpos
  · exact hpos

/-- The run over user information. -/
theorem runs_userinfo {rest : Bytes} (hui : ui ∈ lang userinfo) (hhp : hp ∈ lang (hostPort .uri))
    (htext : text.drop base = ui ++ rest) (s : Store) :
    ∃ host, runFrom (perform text) ((authority .uri).schedule (ui ++ [64] ++ hp)) base 0
        (ui.length + 1) s
      = some { mark := none,
               uri := { s.uri with userinfo := ui.drop (userinfoMark ui), host := host } } := by
  have hshadow : (hostPort .uri).schedule (ui ++ [64] ++ hp) ui.length = [] := by
    rw [eq_nil_iff_forall_not_mem]
    intro x hx
    exact not_takenAt_shadow (le_refl _) (mem_schedule.mp hx)
  obtain ⟨host, hrun⟩ := runs_shadow text base hui hhp (le_refl ui.length) s
  refine ⟨host, ?_⟩
  rw [runFrom_add, hrun, Option.bind_some, Nat.zero_add, runFrom_one,
    schedule_authority_some hui hhp, if_pos rfl, if_pos (le_refl _), hshadow, append_nil]
  by_cases hne : ui = []
  · subst hne
    simp [perform, actionsOf, Site.action, Action.perform, eraseDups_cons, slice]
  have hlt := userinfoMark_lt hne
  have hslice : slice text (base + userinfoMark ui) (base + ui.length)
      = ui.drop (userinfoMark ui) := by
    rw [slice, ← drop_drop, htext, drop_append_of_le_length hlt.le,
      Nat.add_sub_add_left, ← length_drop, take_left]
  rw [if_neg fun h => hne (length_eq_zero_iff.mp h), nil_append, perform_singleton,
    shadowMark, if_neg fun h => hne (length_eq_zero_iff.mp h), if_pos hlt]
  simp only [Site.action, Action.perform, hslice]

end Runs

/-! ## Authorities and paths -/

section AuthorityPath

variable {a h path rest : Bytes} {p : Option Bytes}

lemma disjoint_authorityPath :
    (authority .uri).embeddings.Disjoint (savedPath .uri).embeddings :=
  (nodup_seq nodup_authorityPath).2.2

lemma readsOnce_authorityPath (ha : a ∈ lang (authority .uri)) (hpath : path ∈ lang pathAbempty) :
    ReadsOnce (authority .uri) (savedPath .uri) a path := by
  refine .of_delimiter (· = 47) ha hpath ?_ fun c => live_savedPath
  rintro c rfl
  exact uses_authority

def userinfoText : Option Bytes → Bytes
  | none => []
  | some ui => ui ++ [64]

def UserinfoWord (ui : Option Bytes) : Prop := ∀ u ∈ ui, u ∈ lang userinfo

lemma mem_lang_authority {ui : Option Bytes} (hui : UserinfoWord ui) (hh : h ∈ lang host)
    (hp : PortWord p) : userinfoText ui ++ (h ++ portText p) ∈ lang (authority .uri) := by
  refine mem_lang_seq.mpr ⟨userinfoText ui, mem_lang_opt.mpr ?_, _, mem_lang_hostPort hh hp, rfl⟩
  cases ui with
  | none => exact Or.inr rfl
  | some ui => exact Or.inl (mem_lang_userinfoAt.mpr ⟨ui, hui ui rfl, rfl⟩)

lemma schedule_hostPortPath_zero (hh : h ∈ lang host) (hp : PortWord p)
    (hpath : path ∈ lang pathAbempty) :
    ∃ l, (seq (hostPort .uri) (savedPath .uri)).schedule (h ++ portText p ++ path) 0
      = ⟨.uri, .markHost⟩ :: l := by
  have hhost := schedule_marked (a := (⟨.uri, .markHost⟩ : Embedding))
    (b := (⟨.uri, .saveHost⟩ : Embedding)) hh embeddings_host (by decide) 0
  rw [schedule_seq (readsOnce_path hh hp hpath) disjoint_path, if_pos (Nat.zero_le _), hostPort,
    schedule_seq (readsOnce_hostPort hh hp) disjoint_hostPort, if_pos (Nat.zero_le _), marked,
    hhost]
  exact ⟨_, rfl⟩

lemma perform_markAuthority (text : Bytes) (fpc : Nat) (l : List Embedding) (s : Store) :
    perform text fpc (⟨.uri, .markAuthority⟩ :: ⟨.uri, .markHost⟩ :: l) s
      = perform text fpc (⟨.uri, .markHost⟩ :: l) s := by
  have hactions : actionsOf (⟨.uri, .markAuthority⟩ :: ⟨.uri, .markHost⟩ :: l)
      = actionsOf (⟨.uri, .markHost⟩ :: l) := by
    simp [actionsOf, eraseDups_cons, Site.action]
  rw [perform, hactions, perform]

lemma runs_authorityPath_none (text : Bytes) (base : Nat) (hh : h ∈ lang host) (hp : PortWord p)
    (hpath : path ∈ lang pathAbempty) (s : Store) :
    runs (perform text) (seq (authority .uri) (savedPath .uri)) (h ++ portText p ++ path) base s
      = runs (perform text) (seq (hostPort .uri) (savedPath .uri)) (h ++ portText p ++ path)
          base s := by
  have hhp := mem_lang_hostPort hh hp
  have ha : h ++ portText p ∈ lang (authority .uri) :=
    mem_lang_authority (show UserinfoWord none from fun u hu => nomatch hu) hh hp
  have hplan (i : Nat) :
      (seq (authority .uri) (savedPath .uri)).schedule (h ++ portText p ++ path) i
        = (if i = 0 then [⟨.uri, .markAuthority⟩] else [])
          ++ (seq (hostPort .uri) (savedPath .uri)).schedule (h ++ portText p ++ path) i := by
    rw [schedule_seq (readsOnce_authorityPath ha hpath) disjoint_authorityPath,
      schedule_seq (readsOnce_path hh hp hpath) disjoint_path, schedule_authority_none hhp]
    by_cases hi : i ≤ (h ++ portText p).length
    · rw [if_pos hi, if_pos hi, append_assoc]
    · have hzero : i ≠ 0 := by omega
      rw [if_neg hi, if_neg hi, if_neg hzero, nil_append, nil_append]
  obtain ⟨l, hzero⟩ := schedule_hostPortPath_zero hh hp hpath
  rw [runs, runs, runFrom, runFrom, hplan, if_pos rfl, hzero, singleton_append,
    perform_markAuthority]
  congr 1
  funext s'
  refine runFrom_congr _ rfl (fun j _ => ?_) s'
  rw [hplan, if_neg (by omega), nil_append]

lemma runs_authorityPath_some {ui : Bytes} (text : Bytes) (base : Nat)
    (hui : ui ∈ lang userinfo) (hh : h ∈ lang host) (hp : PortWord p)
    (hpath : path ∈ lang pathAbempty) (htext : text.drop base = ui ++ rest) (s : Store) :
    ∃ host, runs (perform text) (seq (authority .uri) (savedPath .uri))
        (ui ++ [64] ++ (h ++ portText p) ++ path) base s
      = runs (perform text) (seq (hostPort .uri) (savedPath .uri)) (h ++ portText p ++ path)
          (base + (ui.length + 1))
          { mark := none,
            uri := { s.uri with userinfo := ui.drop (userinfoMark ui), host := host } } := by
  have hhp := mem_lang_hostPort hh hp
  have ha : ui ++ [64] ++ (h ++ portText p) ∈ lang (authority .uri) :=
    mem_lang_authority (show UserinfoWord (some ui) by rintro _ ⟨⟩; exact hui) hh hp
  have hplan := schedule_seq (readsOnce_authorityPath ha hpath) disjoint_authorityPath
  have hlength : (ui ++ [64] ++ (h ++ portText p)).length
      = ui.length + 1 + (h ++ portText p).length := by
    rw [length_append, length_append, length_singleton]
  obtain ⟨host, hrun⟩ := runs_userinfo text base hui hhp htext s
  refine ⟨host, ?_⟩
  have htotal : (ui ++ [64] ++ (h ++ portText p) ++ path).length + 1
      = (ui.length + 1) + ((h ++ portText p ++ path).length + 1) := by
    simp only [length_append] at hlength ⊢
    omega
  have hfirst : runFrom (perform text) ((seq (authority .uri) (savedPath .uri)).schedule
      (ui ++ [64] ++ (h ++ portText p) ++ path)) base 0 (ui.length + 1) s
        = runFrom (perform text)
          ((authority .uri).schedule (ui ++ [64] ++ (h ++ portText p))) base 0
          (ui.length + 1) s := by
    refine runFrom_congr _ rfl (fun j hj => ?_) s
    rw [Nat.zero_add, hplan, hlength]
    by_cases hend : ui.length + 1 + (h ++ portText p).length ≤ j
    · omega
    · rw [if_pos (by omega), if_neg hend, append_nil]
  rw [runs, htotal, runFrom_add, hfirst, hrun, Option.bind_some, runs]
  refine runFrom_congr _ (by omega) (fun j _ => ?_) _
  rw [hplan, schedule_seq (readsOnce_path hh hp hpath) disjoint_path, hlength]
  have hbehind : (authority .uri).schedule (ui ++ [64] ++ (h ++ portText p))
      (0 + (ui.length + 1) + j) = (hostPort .uri).schedule (h ++ portText p) (0 + j) := by
    rw [schedule_authority_some hui hhp, if_neg (by omega), if_neg (by omega), if_neg (by omega),
      nil_append, nil_append]
    congr 1
    omega
  rw [hbehind]
  congr 1
  · refine if_congr (by omega) rfl rfl
  refine if_congr (by omega) ?_ rfl
  congr 1
  omega

def userinfoRead : Option Bytes → Bytes → Bytes
  | none, old => old
  | some ui, _ => ui.drop (userinfoMark ui)

/-- The run over an authority and a path. -/
theorem runs_authorityPath {ui : Option Bytes} {text : Bytes} {base : Nat} (hui : UserinfoWord ui)
    (hh : h ∈ lang host) (hp : PortWord p) (hbound : PortBound p) (hpath : path ∈ lang pathAbempty)
    (htext : text.drop base = userinfoText ui ++ (h ++ portText p) ++ path ++ rest)
    (hrest : ∀ c ∈ rest.head?, Foundation.Strtol.digitVal c = none) (s : Store) :
    runs (perform text) (seq (authority .uri) (savedPath .uri))
        (userinfoText ui ++ (h ++ portText p) ++ path) base s
      = some { mark := none,
               uri := { s.uri with
                 userinfo := userinfoRead ui s.uri.userinfo
                 host := h
                 port := portRead p s.uri.port
                 path := pathRead p path } } := by
  cases ui with
  | none =>
    exact (runs_authorityPath_none text base hh hp hpath s).trans
      (runs_hostPortPath hh hp hbound hpath htext hrest s)
  | some ui =>
    have hfirst : text.drop base = ui ++ (64 :: (h ++ portText p ++ path ++ rest)) := by
      simp [htext, userinfoText]
    have hbehind : text.drop (base + (ui.length + 1)) = h ++ portText p ++ path ++ rest := by
      rw [← drop_drop, hfirst, append_cons,
        show ui.length + 1 = (ui ++ [64]).length by simp, drop_left]
    obtain ⟨host, hrun⟩ := runs_authorityPath_some text base (hui ui rfl) hh hp hpath hfirst s
    exact hrun.trans (runs_hostPortPath hh hp hbound hpath hbehind hrest _)

end AuthorityPath

end Yuyu.UriParsing
