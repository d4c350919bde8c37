import Yuyu.Http.Pool

/-!
# Who owns a connection of a pool

A connection is created by a client, moves between `m_conns` and the hands of clients, and is
deleted by a client.
-/

namespace Yuyu.Http
namespace Pool

open Foundation List Function

def Pc.hands : Pc → List Nat
  | .purge left _ ptr => left ++ ptr.toList
  | .created c | .holding c | .releasing c | .dropping c | .pushing c => [c]
  | .idle | .lookup _ | .connecting | .dropped => []

variable {n : Nat} {lim : Limits} {start : Nat} {s s' : State n} {i : Fin n} {c : Nat}

structure Owned (s : State n) : Prop where
  once : ∀ c, s.conns.count c + ∑ i, (s.pc i).hands.count c = (s.table c).live.toNat
  fresh : ∀ c, s.nextConn ≤ c → (s.table c).live = false

lemma owned_initial (start : Nat) : Owned (State.initial (n := n) start) where
  once c := by simp [State.initial, Pc.hands]
  fresh _ _ := rfl

lemma Owned.sole (h : Owned s) (hc : c ∈ (s.pc i).hands) :
    c ∉ s.conns ∧ (s.pc i).hands.count c = 1 ∧ (∀ j, j ≠ i → c ∉ (s.pc j).hands) ∧
      (s.table c).live = true := by
  have honce := h.once c
  have hle : (s.table c).live.toNat ≤ 1 := Bool.toNat_le _
  have hpos : (s.pc i).hands.count c ≠ 0 := (count_pos_iff.mpr hc).ne'
  have hplaces : s.conns.count c + ∑ j, (s.pc j).hands.count c ≤ 1 := by omega
  obtain ⟨hzero, hone, hothers⟩ := sole_of_sum_le_one hplaces hpos
  refine ⟨count_eq_zero.mp hzero, hone, fun j hj => count_eq_zero.mp (hothers j hj), ?_⟩
  have hsum : (s.pc i).hands.count c ≤ ∑ j, (s.pc j).hands.count c :=
    Finset.single_le_sum (f := fun j => (s.pc j).hands.count c) (fun _ _ => Nat.zero_le _)
      (Finset.mem_univ i)
  rw [← Bool.toNat_eq_one]
  omega

lemma Owned.of_move (h : Owned s) {p : Pc} (hpc : s'.pc = update s.pc i p)
    (hmove : ∀ c, s'.conns.count c + p.hands.count c + (s.table c).live.toNat =
      s.conns.count c + (s.pc i).hands.count c + (s'.table c).live.toNat)
    (hfresh : ∀ c, s'.nextConn ≤ c → (s'.table c).live = false) : Owned s' where
  once c := by
    have hsum := sum_update_add (fun p => p.hands.count c) s.pc i p
    have honce := h.once c
    have hm := hmove c
    rw [hpc]
    omega
  fresh := hfresh

lemma Owned.notMem_of_fresh (h : Owned s) (hc : s.nextConn ≤ c) :
    c ∉ s.conns ∧ ∀ i, c ∉ (s.pc i).hands := by
  have honce := h.once c
  rw [h.fresh c hc, Bool.toNat_false] at honce
  refine ⟨count_eq_zero.mp (by omega), fun i => count_eq_zero.mp ?_⟩
  have hsum : ∑ j, (s.pc j).hands.count c = 0 := by omega
  exact Finset.sum_eq_zero_iff.mp hsum i (Finset.mem_univ i)

lemma Owned.lt_nextConn (h : Owned s) (hc : c ∈ (s.pc i).hands) : c < s.nextConn := by
  by_contra hle
  exact (h.notMem_of_fresh (Nat.le_of_not_lt hle)).2 i hc

lemma count_popLoop (lim : Limits) (table : Nat → Conn) (now : Nat) (conns : List Nat) (c : Nat) :
    (popLoop lim table now conns).2.2.count c +
        ((popLoop lim table now conns).1 ++ (popLoop lim table now conns).2.1.toList).count c =
      conns.count c := by
  have hsplit := congrArg (List.count c) (popLoop_eq lim table now conns)
  rw [count_append] at hsplit
  omega

lemma live_delete (s : State n) (c c' : Nat) :
    ((s.delete c).table c').live = if c' = c then false else (s.table c').live := by
  by_cases hc : c' = c
  · simp [State.delete, State.modify, hc]
  · simp [State.delete, State.modify, hc]

lemma live_modify (s : State n) (c c' : Nat) {g : Conn → Conn}
    (hg : ∀ conn, (g conn).live = conn.live) :
    ((s.modify c g).table c').live = (s.table c').live :=
  State.modify_rel (R := fun a b => a.live = b.live) (fun _ => rfl) hg s c c'

lemma Owned.delete (h : Owned s) {p : Pc} (hhands : (s.pc i).hands = c :: p.hands) :
    Owned ((s.delete c).move i p) := by
  have hlive : (s.table c).live = true := (h.sole (by rw [hhands]; exact mem_cons_self)).2.2.2
  refine h.of_move rfl (fun c' => ?_) (fun c' hc' => ?_)
  · change s.conns.count c' + p.hands.count c' + (s.table c').live.toNat =
      s.conns.count c' + (s.pc i).hands.count c' + ((s.delete c).table c').live.toNat
    rw [hhands, live_delete, count_cons]
    by_cases hc : c' = c
    · subst hc
      simp [hlive, Nat.add_assoc]
    · simp [hc, Ne.symm hc]
  change ((s.delete c).table c').live = false
  rw [live_delete]
  split
  · rfl
  · exact h.fresh c' hc'

lemma Owned.of_same (h : Owned s) {p : Pc} (hpc : s'.pc = update s.pc i p)
    (hhands : p.hands = (s.pc i).hands) (hconns : s'.conns = s.conns)
    (hnext : s'.nextConn = s.nextConn) (hlive : ∀ c, (s'.table c).live = (s.table c).live) :
    Owned s' := by
  refine h.of_move hpc (fun c => ?_) (fun c hc => ?_)
  · rw [hhands, hconns, hlive]
  · rw [hlive]
    exact h.fresh c (hnext ▸ hc)

lemma live_handOut (s : State n) (i : Fin n) (c c' : Nat) :
    ((s.handOut i c).table c').live = (s.table c').live :=
  live_modify s c c' (g := fun conn => { conn with handed := conn.handed + 1 }) fun _ => rfl

lemma Owned.create (h : Owned s) (hhands : (s.pc i).hands = []) : Owned (s.create i) := by
  refine h.of_move rfl (fun c => ?_) (fun c hc => ?_)
  · rw [hhands]
    by_cases hc : c = s.nextConn
    · subst hc
      simp [State.create, State.move, Pc.hands, h.fresh s.nextConn le_rfl]
    · simp [State.create, State.move, Pc.hands, hc, Ne.symm hc]
  have hlt : s.nextConn < c := hc
  have hne : c ≠ s.nextConn := hlt.ne'
  simpa [State.create, State.move, hne] using h.fresh c hlt.le

lemma Owned.moved (h : Owned s) (hmoved : s.Moved lim i s') : Owned s' := by
  cases hmoved with
  | search now r hpc hr =>
    subst hr
    refine h.of_move rfl (fun c => ?_) h.fresh
    have hcount := count_popLoop lim s.table now s.conns c
    rw [hpc]
    simp only [State.move, State.discard, Pc.hands, count_nil] at hcount ⊢
    omega
  | purge c left size ptr hpc | delete c hpc => exact h.delete (by rw [hpc]; rfl)
  | reuse size c hpc | count c hpc =>
    exact h.of_same rfl (by rw [hpc]; rfl) rfl rfl fun c' => live_handOut _ i c c'
  | connect hpc => exact h.create (by rw [hpc]; rfl)
  | release c hpc =>
    refine h.of_same rfl (by rw [hpc]; rfl) rfl rfl fun c' => ?_
    exact live_modify s c c' (g := fun conn => { conn with request := conn.request + 1 })
      fun _ => rfl
  | push c hpc =>
    refine h.of_move rfl (fun c' => ?_) h.fresh
    rw [hpc]
    simp [State.move, Pc.hands, count_append]
  | enter hpc | miss size hpc | refuse hpc | drop c hpc | keep c hpc | uncount hpc =>
    exact h.of_same rfl (by rw [hpc]; rfl) rfl rfl fun _ => rfl

lemma Owned.step (h : Owned s) {a : Action n} (hstep : s.step lim a = some s') : Owned s' := by
  obtain ⟨i, hmoved⟩ | ⟨c, rfl⟩ | ⟨clock, -, -, rfl⟩ := State.step_cases hstep
  · exact h.moved hmoved
  · have hlive := fun c' => live_modify s c c' (g := fun conn => { conn with connected := false })
      fun _ => rfl
    refine ⟨fun c' => ?_, fun c' hc' => ?_⟩
    · rw [hlive]
      exact h.once c'
    · rw [hlive]
      exact h.fresh c' hc'
  · exact ⟨h.once, h.fresh⟩

/-- The connections of a client that `m_total` counts. Deleted ones are not subtracted before the
list is empty. -/
def Pc.counted : Pc → Nat
  | .purge _ size ptr => size + ptr.toList.length
  | .holding _ | .releasing _ | .dropping _ | .dropped | .pushing _ => 1
  | .idle | .lookup _ | .connecting | .created _ => 0

/-- `m_total` counts the idle connections and those of the clients. -/
def Tallied (s : State n) : Prop := s.total = wrap32 (s.conns.length + ∑ i, (s.pc i).counted : Nat)

lemma tallied_initial (start : Nat) : Tallied (State.initial (n := n) start) := by
  simp [Tallied, State.initial, Pc.counted, wrap32]

lemma Tallied.of_move (h : Tallied s) {p : Pc} {k : Int}
    (hpc : s'.pc = update s.pc i p) (htotal : s'.total = wrap32 (s.total + k))
    (hcount : (s'.conns.length + p.counted : Int) =
      s.conns.length + (s.pc i).counted + k) : Tallied s' := by
  have hsum := sum_update_add Pc.counted s.pc i p
  rw [Tallied, htotal, h, wrap32_wrap32_add, hpc]
  congr 1
  push_cast
  push_cast [← @Nat.cast_inj Int] at hsum
  omega

lemma Tallied.of_same (h : Tallied s) {p : Pc} (hpc : s'.pc = update s.pc i p)
    (htotal : s'.total = s.total)
    (hcount : s'.conns.length + p.counted = s.conns.length + (s.pc i).counted) : Tallied s' := by
  have hsum := sum_update_add Pc.counted s.pc i p
  rw [Tallied, htotal, h, hpc]
  congr 2
  omega

lemma length_popLoop (lim : Limits) (table : Nat → Conn) (now : Nat) (conns : List Nat) :
    (popLoop lim table now conns).2.2.length + ((popLoop lim table now conns).1.length +
      (popLoop lim table now conns).2.1.toList.length) = conns.length := by
  have hsplit := congrArg List.length (popLoop_eq lim table now conns)
  rw [length_append, length_append] at hsplit
  omega

lemma Tallied.moved (h : Tallied s) (hmoved : s.Moved lim i s') : Tallied s' := by
  cases hmoved with
  | search now r hpc hr =>
    subst hr
    refine h.of_same rfl rfl ?_
    rw [hpc]
    exact length_popLoop lim s.table now s.conns
  | reuse size c hpc | miss size hpc =>
    refine h.of_move rfl rfl ?_
    rw [hpc]
    simp only [State.handOut, State.move, State.modify, State.addTotal, Pc.counted,
      Option.toList_some, Option.toList_none, length_singleton, length_nil]
    omega
  | count c hpc | uncount hpc =>
    refine h.of_move rfl rfl ?_
    rw [hpc]
    simp [State.handOut, State.move, State.modify, State.addTotal, Pc.counted]
  | push c hpc =>
    refine h.of_same rfl rfl ?_
    rw [hpc]
    simp [State.move, Pc.counted]
  | enter hpc | purge c left size ptr hpc | connect hpc | refuse hpc | release c hpc | drop c hpc
  | keep c hpc | delete c hpc =>
    exact h.of_same rfl rfl (by rw [hpc]; rfl)

lemma Tallied.step (h : Tallied s) {a : Action n} (hstep : s.step lim a = some s') :
    Tallied s' := by
  obtain ⟨i, hmoved⟩ | ⟨c, rfl⟩ | ⟨clock, -, -, rfl⟩ := State.step_cases hstep
  · exact h.moved hmoved
  · exact h
  · exact h

/-! ## The number of hand-outs -/

def Conn.Reusable (lim : Limits) (conn : Conn) : Prop :=
  conn.handed = conn.request ∧ conn.request < lim.maxRequest

def Pc.Worn (lim : Limits) (table : Nat → Conn) : Pc → Prop
  | .purge _ _ ptr => ∀ c ∈ ptr, (table c).Reusable lim
  | .created c => (table c).handed = 0 ∧ (table c).request = 0
  | .holding c => (table c).handed = (table c).request + 1
  | .releasing c => (table c).handed = (table c).request
  | .pushing c => (table c).Reusable lim
  | .idle | .lookup _ | .connecting | .dropping _ | .dropped => True

structure Worn (lim : Limits) (s : State n) : Prop where
  bound : ∀ c, (s.table c).handed ≤ max 1 lim.maxRequest
  idle : ∀ c ∈ s.conns, (s.table c).Reusable lim
  client : ∀ i, (s.pc i).Worn lim s.table

lemma worn_initial (start : Nat) : Worn lim (State.initial (n := n) start) where
  bound _ := Nat.zero_le _
  idle c hc := by simp [State.initial] at hc
  client _ := trivial

def Conn.SameCounts (a b : Conn) : Prop := a.handed = b.handed ∧ a.request = b.request

lemma Pc.Worn.congr {p : Pc} {table table' : Nat → Conn} (h : p.Worn lim table)
    (hsame : ∀ c ∈ p.hands, (table' c).SameCounts (table c)) : p.Worn lim table' := by
  cases p with
  | purge left size ptr =>
    intro c hc
    have hmem : c ∈ left ++ ptr.toList := mem_append_right left (Option.mem_toList.mpr hc)
    obtain ⟨hhanded, hrequest⟩ := hsame c hmem
    obtain ⟨heq, hlt⟩ := h c hc
    exact ⟨by rw [hhanded, hrequest, heq], by rw [hrequest]; exact hlt⟩
  | pushing c =>
    obtain ⟨hhanded, hrequest⟩ := hsame c mem_cons_self
    exact ⟨by rw [hhanded, hrequest, h.1], by rw [hrequest]; exact h.2⟩
  | created c | holding c | releasing c =>
    obtain ⟨hhanded, hrequest⟩ := hsame c mem_cons_self
    simpa [Pc.Worn, hhanded, hrequest] using h
  | idle | lookup now | connecting | dropping c | dropped => trivial

lemma Worn.of_same (h : Worn lim s) {p : Pc} (hpc : s'.pc = update s.pc i p)
    (hsame : ∀ c, (s'.table c).SameCounts (s.table c))
    (hconns : ∀ c ∈ s'.conns, (s.table c).Reusable lim) (hp : p.Worn lim s.table) :
    Worn lim s' where
  bound c := (hsame c).1 ▸ h.bound c
  idle c hc := by
    obtain ⟨heq, hlt⟩ := hconns c hc
    exact ⟨by rw [(hsame c).1, (hsame c).2, heq], by rw [(hsame c).2]; exact hlt⟩
  client j := by
    rw [hpc]
    by_cases hj : j = i
    · subst hj
      rw [update_self]
      exact hp.congr fun c _ => hsame c
    · rw [update_of_ne hj]
      exact (h.client j).congr fun c _ => hsame c

lemma Worn.of_own (h : Worn lim s) {p : Pc} {conn : Conn}
    (hpc : s'.pc = update s.pc i p) (htable : s'.table = update s.table c conn)
    (hconns : s'.conns = s.conns) (hidle : c ∉ s.conns)
    (hothers : ∀ j, j ≠ i → c ∉ (s.pc j).hands) (hbound : conn.handed ≤ max 1 lim.maxRequest)
    (hp : p.Worn lim s'.table) : Worn lim s' where
  bound c' := by
    by_cases hc : c' = c
    · rw [htable, hc, update_self]
      exact hbound
    · rw [htable, update_of_ne hc]
      exact h.bound c'
  idle c' hc' := by
    rw [hconns] at hc'
    have hne : c' ≠ c := fun heq => hidle (heq ▸ hc')
    rw [htable, update_of_ne hne]
    exact h.idle c' hc'
  client j := by
    rw [hpc]
    by_cases hj : j = i
    · subst hj
      rw [update_self]
      exact hp
    rw [update_of_ne hj, htable]
    refine (h.client j).congr fun c' hc' => ?_
    have hne : c' ≠ c := fun heq => hothers j hj (heq ▸ hc')
    rw [update_of_ne hne]
    exact ⟨rfl, rfl⟩

lemma sameCounts_modify (s : State n) (c c' : Nat) {g : Conn → Conn}
    (hg : ∀ conn, (g conn).SameCounts conn) : ((s.modify c g).table c').SameCounts (s.table c') :=
  State.modify_rel (fun _ => ⟨rfl, rfl⟩) hg s c c'

lemma sameCounts_delete (s : State n) (c c' : Nat) :
    ((s.delete c).table c').SameCounts (s.table c') := sameCounts_modify s c c' fun _ => ⟨rfl, rfl⟩

lemma Worn.handOut (h : Worn lim s) (ho : Owned s) (hc : c ∈ (s.pc i).hands)
    (hequal : (s.table c).handed = (s.table c).request)
    (hbound : (s.table c).handed + 1 ≤ max 1 lim.maxRequest) (k : Int) :
    Worn lim ((s.addTotal k).handOut i c) := by
  obtain ⟨hidle, -, hothers, -⟩ := ho.sole hc
  refine h.of_own rfl rfl rfl hidle hothers hbound ?_
  simp [Pc.Worn, State.handOut, State.move, State.modify, State.addTotal, hequal]

lemma Worn.moved (h : Worn lim s) (ho : Owned s) (hmoved : s.Moved lim i s') : Worn lim s' := by
  have hi := h.client i
  cases hmoved with
  | search now r hpc hr =>
    subst hr
    have hmem := mem_of_popLoop lim s.table now s.conns
    exact h.of_same rfl (fun _ => ⟨rfl, rfl⟩) (fun c hc => h.idle c (hmem.2 c hc))
      fun c hc => h.idle c (hmem.1 c hc)
  | purge c left size ptr hpc =>
    rw [hpc] at hi
    exact h.of_same rfl (sameCounts_delete s c) h.idle hi
  | reuse size c hpc =>
    rw [hpc] at hi
    obtain ⟨hequal, hlt⟩ := hi c rfl
    refine h.handOut ho (by rw [hpc]; exact mem_singleton_self c) hequal ?_ _
    have hle : (s.table c).handed + 1 ≤ lim.maxRequest := by omega
    exact hle.trans (le_max_right _ _)
  | connect =>
    obtain ⟨hidle, hothers⟩ := ho.notMem_of_fresh (le_refl s.nextConn)
    refine h.of_own rfl rfl rfl hidle (fun j _ => hothers j) (Nat.zero_le _) ?_
    simp [Pc.Worn, State.create, State.move]
  | count c hpc =>
    rw [hpc] at hi
    refine h.handOut ho (by rw [hpc]; exact mem_singleton_self c) (hi.1.trans hi.2.symm) ?_ _
    rw [hi.1]
    exact le_max_left _ _
  | release c hpc =>
    obtain ⟨hidle, -, hothers, -⟩ := ho.sole (i := i) (by rw [hpc]; exact mem_singleton_self c)
    rw [hpc] at hi
    refine h.of_own rfl rfl rfl hidle hothers (h.bound c) ?_
    simpa [Pc.Worn, State.move, State.modify] using hi
  | keep c hpc hdrops =>
    rw [hpc] at hi
    refine h.of_same rfl (fun _ => ⟨rfl, rfl⟩) h.idle ⟨hi, ?_⟩
    simp only [Limits.drops, Bool.or_eq_true, not_or, decide_eq_true_eq] at hdrops
    omega
  | delete c => exact h.of_same rfl (sameCounts_delete s c) h.idle trivial
  | push c hpc =>
    rw [hpc] at hi
    refine h.of_same rfl (fun _ => ⟨rfl, rfl⟩) (fun c' hc' => ?_) trivial
    rcases mem_append.mp hc' with hold | hnew
    · exact h.idle c' hold
    · rw [mem_singleton.mp hnew]
      exact hi
  | _ => exact h.of_same rfl (fun _ => ⟨rfl, rfl⟩) h.idle trivial

lemma Worn.step (h : Worn lim s) (ho : Owned s) {a : Action n}
    (hstep : s.step lim a = some s') : Worn lim s' := by
  obtain ⟨i, hmoved⟩ | ⟨c, rfl⟩ | ⟨clock, -, -, rfl⟩ := State.step_cases hstep
  · exact h.moved ho hmoved
  · have hsame := fun c' => sameCounts_modify s c c'
      (g := fun conn => { conn with connected := false }) fun _ => ⟨rfl, rfl⟩
    refine ⟨fun c' => ?_, fun c' hc' => ?_, fun i => ?_⟩
    · rw [(hsame c').1]
      exact h.bound c'
    · rw [Conn.Reusable, (hsame c').1, (hsame c').2]
      exact h.idle c' hc'
    · exact (h.client i).congr fun c' _ => hsame c'
  · exact ⟨h.bound, h.idle, h.client⟩

def Quiet (s : State n) : Prop := ∀ i, s.pc i = .idle ∨ ∃ c, s.pc i = .holding c

lemma Owned.place (h : Owned s) (c : Nat) :
    ((s.table c).live = true →
      (s.conns.count c = 1 ∧ ∀ i, c ∉ (s.pc i).hands) ∨
      (c ∉ s.conns ∧ ∃ i, (s.pc i).hands.count c = 1 ∧ ∀ j, j ≠ i → c ∉ (s.pc j).hands)) ∧
    ((s.table c).live = false → c ∉ s.conns ∧ ∀ i, c ∉ (s.pc i).hands) := by
  have honce := h.once c
  constructor
  · intro hlive
    rw [hlive, Bool.toNat_true] at honce
    by_cases hheld : ∃ i, c ∈ (s.pc i).hands
    · obtain ⟨i, hi⟩ := hheld
      obtain ⟨hidle, hone, hothers, -⟩ := h.sole hi
      exact .inr ⟨hidle, i, hone, hothers⟩
    have hnone : ∀ i, c ∉ (s.pc i).hands := fun i hi => hheld ⟨i, hi⟩
    have hsum : ∑ i, (s.pc i).hands.count c = 0 :=
      Finset.sum_eq_zero fun i _ => count_eq_zero.mpr (hnone i)
    exact .inl ⟨by omega, hnone⟩
  intro hdead
  refine ⟨fun hidle => ?_, fun i hi => ?_⟩
  · have hpos := count_pos_iff.mpr hidle
    rw [hdead, Bool.toNat_false] at honce
    omega
  have hlive := (h.sole hi).2.2.2
  rw [hdead] at hlive
  contradiction

lemma Tallied.quiet (h : Tallied s) (hquiet : Quiet s) :
    s.total = wrap32 (s.conns.length + ∑ i, (s.pc i).hands.length : Nat) := by
  have hsum : ∑ i, (s.pc i).counted = ∑ i, (s.pc i).hands.length := by
    refine Finset.sum_congr rfl fun i _ => ?_
    obtain hidle | ⟨c, hholding⟩ := hquiet i
    · rw [hidle]
      rfl
    · rw [hholding]
      rfl
  rw [h, hsum]

lemma invariants_of_reachable (h : (poolSystem n lim start).Reachable s) :
    Owned s ∧ Tallied s ∧ Worn lim s := by
  refine TransitionSystem.Reachable.invariant
    (I := fun s => Owned s ∧ Tallied s ∧ Worn lim s) ?_ ?_ h
  · rintro s rfl
    exact ⟨owned_initial start, tallied_initial start, worn_initial start⟩
  · rintro s a s' ⟨howned, htallied, hworn⟩ hstep
    exact ⟨howned.step hstep, htallied.step hstep, hworn.step howned hstep⟩

/-- In every run a connection that is alive is in `m_conns` once or in the hands of one client, and
between calls `m_total` is the number of connections. -/
theorem pool_ownership (h : (poolSystem n lim start).Reachable s) :
    (∀ c,
      ((s.table c).live = true →
        (s.conns.count c = 1 ∧ ∀ i, c ∉ (s.pc i).hands) ∨
        (c ∉ s.conns ∧ ∃ i, (s.pc i).hands.count c = 1 ∧ ∀ j, j ≠ i → c ∉ (s.pc j).hands)) ∧
      ((s.table c).live = false → c ∉ s.conns ∧ ∀ i, c ∉ (s.pc i).hands)) ∧
    (Quiet s → s.total = wrap32 (s.conns.length + ∑ i, (s.pc i).hands.length : Nat)) ∧
    ∀ c, (s.table c).handed ≤ max 1 lim.maxRequest := by
  obtain ⟨howned, htallied, hworn⟩ := invariants_of_reachable h
  exact ⟨howned.place, htallied.quiet, hworn.bound⟩

def checkout (i : Fin n) : List (Action n) :=
  [.run i true, .run i true, .run i true, .run i true, .run i true]

def giveBack (i : Fin n) : List (Action n) := [.run i true, .run i true, .run i true]

theorem pool_ownership_two :
    ∃ s, (poolSystem 2 ⟨10, 30, 5⟩ 1000).run (.initial 1000)
        (checkout 0 ++ checkout 1 ++ giveBack 0) = some s ∧
      s.conns = [0] ∧ s.pc 1 = .holding 1 ∧ Quiet s ∧ s.total = 2 ∧
      ∀ c, (s.table c).handed ≤ 5 := by
  have hrun : (poolSystem 2 ⟨10, 30, 5⟩ 1000).run (.initial 1000)
      (checkout 0 ++ checkout 1 ++ giveBack 0) = some _ := rfl
  have hreach := TransitionSystem.reachable_of_run rfl hrun
  refine ⟨_, hrun, rfl, rfl, ?_, rfl, (pool_ownership hreach).2.2⟩
  exact Fin.forall_fin_two.mpr ⟨.inl rfl, .inr ⟨1, rfl⟩⟩

end Pool
end Yuyu.Http
