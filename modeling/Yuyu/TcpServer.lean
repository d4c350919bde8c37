import Mathlib.Tactic.Common

/-!
# Binding a TCP server

`TcpServer::bind` makes a socket for each address, and appends it to `m_socks` if it listens.  At
the end it looks at `fails`, which the caller passes in, and clears `m_socks` if it is not empty.
-/

namespace Yuyu.TcpServer

variable {α : Type}

inductive Outcome where
  | bindFails
  | listenFails
  | listens
deriving DecidableEq

structure Socket (α : Type) where
  number : Nat
  addr : α
  ssl : Bool
deriving DecidableEq

/-- The members of a server that `bind` uses, and the number of sockets made so far. -/
structure Server (α : Type) where
  socks : List (Socket α)
  ssl : Bool
  created : Nat
deriving DecidableEq

namespace Server

/-- The loop of `bind` over the addresses with the outcomes for them: the server and `fails`. -/
def bindLoop (ssl : Bool) : List (α × Outcome) → Server α → List α → Server α × List α
  | [], s, fails => (s, fails)
  | (addr, outcome) :: rest, s, fails =>
    let sock : Socket α := ⟨s.created, addr, ssl⟩
    let s := { s with created := s.created + 1 }
    match outcome with
    | .bindFails | .listenFails => bindLoop ssl rest s (fails ++ [addr])
    | .listens => bindLoop ssl rest { s with socks := s.socks ++ [sock] } fails

/-- The returned value, the server and `fails`. -/
def bind (s : Server α) (addrs : List (α × Outcome)) (fails : List α) (ssl : Bool) :
    Bool × Server α × List α :=
  let r := bindLoop ssl addrs { s with ssl := ssl } fails
  if r.2.isEmpty then (true, r) else (false, { r.1 with socks := [] }, r.2)

def failed (addrs : List (α × Outcome)) : List α :=
  (addrs.filter fun a => a.2 ≠ .listens).map Prod.fst

/-- The sockets that listen, when `k` sockets were made before. -/
def listening (ssl : Bool) : Nat → List (α × Outcome) → List (Socket α)
  | _, [] => []
  | k, (addr, outcome) :: rest =>
    if outcome = .listens then ⟨k, addr, ssl⟩ :: listening ssl (k + 1) rest
    else listening ssl (k + 1) rest

variable {ssl : Bool} {addrs : List (α × Outcome)}

lemma bindLoop_eq (s : Server α) (fails : List α) :
    bindLoop ssl addrs s fails = ({ s with
          socks := s.socks ++ listening ssl s.created addrs
          created := s.created + addrs.length }, fails ++ failed addrs) := by
  induction addrs generalizing s fails with
  | nil => simp [bindLoop, listening, failed]
  | cons a rest ih =>
    obtain ⟨addr, outcome⟩ := a
    cases outcome with
    | bindFails | listenFails | listens =>
      rw [bindLoop, ih]
      simp [listening, failed, Nat.add_assoc, Nat.add_comm 1]

lemma addr_listening (h : failed addrs = []) (k : Nat) :
    (listening ssl k addrs).map Socket.addr = addrs.map Prod.fst := by
  induction addrs generalizing k with
  | nil => rfl
  | cons a rest ih =>
    obtain ⟨addr, outcome⟩ := a
    simp only [failed, List.map_eq_nil_iff, List.filter_eq_nil_iff, List.mem_cons] at h ih
    have hout : outcome = .listens := by simpa using h _ (Or.inl rfl)
    rw [listening, if_pos hout, List.map_cons, List.map_cons, ih fun b hb => h b (Or.inr hb)]

lemma mem_listening {k : Nat} {sock : Socket α} (h : sock ∈ listening ssl k addrs) :
    k ≤ sock.number ∧ sock.ssl = ssl := by
  induction addrs generalizing k with
  | nil => contradiction
  | cons a rest ih =>
    rw [listening] at h
    split at h
    · rcases List.mem_cons.mp h with rfl | hmem
      · exact ⟨Nat.le_refl _, rfl⟩
      · exact (ih hmem).imp_left (Nat.le_of_succ_le)
    · exact (ih h).imp_left (Nat.le_of_succ_le)

/-- The call returns true iff no address failed, and then has a socket for each; else the sockets
are as before, and `fails` has got those that failed. -/
structure AllOrNothing (s : Server α) (addrs : List (α × Outcome)) (fails : List α) (ssl : Bool) :
    Prop where
  returned : (s.bind addrs fails ssl).1 = true ↔ failed addrs = []
  appended : (s.bind addrs fails ssl).1 = true → ∃ new,
    (s.bind addrs fails ssl).2.1.socks = s.socks ++ new ∧
      new.map Socket.addr = addrs.map Prod.fst ∧
      ∀ sock ∈ new, s.created ≤ sock.number ∧ sock.ssl = ssl
  kept : (s.bind addrs fails ssl).1 = false →
    (s.bind addrs fails ssl).2.1.socks = s.socks ∧
      (s.bind addrs fails ssl).2.2 = fails ++ failed addrs

/-- For every server, address list, pattern of failures and content of `fails`. -/
theorem bind_all_or_nothing_iff (s : Server α) (addrs : List (α × Outcome)) (fails : List α)
    (ssl : Bool) : AllOrNothing s addrs fails ssl ↔
      (failed addrs = [] → fails = []) ∧ (failed addrs ≠ [] → s.socks = []) := by
  have hbind : s.bind addrs fails ssl =
      (decide (fails ++ failed addrs = []),
        { socks :=
            if fails ++ failed addrs = [] then s.socks ++ listening ssl s.created addrs else []
          ssl := ssl, created := s.created + addrs.length }, fails ++ failed addrs) := by
    rw [bind, bindLoop_eq]
    split <;> rename_i h <;> simp_all
  constructor
  · intro h
    refine ⟨fun hnone => ?_, fun hsome => ?_⟩
    · have hret := h.returned.mpr hnone
      rw [hbind] at hret
      exact (List.append_eq_nil_iff.mp (of_decide_eq_true hret)).1
    have hne : fails ++ failed addrs ≠ [] := by simp [hsome]
    have hkept := h.kept
    rw [hbind] at hkept
    simpa [hne, eq_comm] using hkept
  rintro ⟨hnone, hsome⟩
  have hiff : fails ++ failed addrs = [] ↔ failed addrs = [] := by
    rw [List.append_eq_nil_iff]
    exact ⟨fun h => h.2, fun h => ⟨hnone h, h⟩⟩
  refine ⟨?_, fun hret => ?_, fun hret => ?_⟩
  · rw [hbind]
    simpa using hiff
  · rw [hbind] at hret ⊢
    have hnil := of_decide_eq_true hret
    refine ⟨_, if_pos hnil, addr_listening (hiff.mp hnil) _, fun sock => mem_listening⟩
  rw [hbind] at hret ⊢
  have hne := of_decide_eq_false hret
  simp [hne, hsome (hiff.not.mp hne)]

/-- A call for an address in use drops the socket bound before, and one that succeeds returns false
for a caller whose `fails` is not empty. -/
theorem bind_drops_sockets :
    ((⟨[], false, 0⟩ : Server Nat).bind [(80, .listens)] [] false).2.1.socks = [⟨0, 80, false⟩] ∧
      (⟨[⟨0, 80, false⟩], false, 1⟩ : Server Nat).bind [(81, .bindFails)] [] false =
        (false, ⟨[], false, 2⟩, [81]) ∧
      (⟨[], false, 2⟩ : Server Nat).bind [(82, .listens)] [81] false =
        (false, ⟨[], false, 3⟩, [81]) := by
  decide

end Server
end Yuyu.TcpServer
