import Yuyu.Http.ChunkReassembly
import Yuyu.Http.ResponsePieces

/-!
# Printed responses are read back

The reader puts headers, cookies and the connection flag into one map, in which the last line with a
name counts.
-/

namespace Yuyu.Http

open Foundation List
open Foundation.Decimal (decimal)
open ClientAutomaton (httpclientParserStart httpclientParserFirstFinal)

def bodyNames : List Bytes :=
  [ascii "content-length", ascii "content-encoding", ascii "transfer-encoding"]

/-- A response with a listed status and version, plain headers and cookies, and no headers that
describe the body. -/
structure PlainResponse (rsp : FullResponse) : Prop where
  websocket : rsp.websocket = false
  status : rsp.status ∈ httpStatusMap.map (·.1)
  version : rsp.version = 0x10 ∨ rsp.version = 0x11
  reason : ∀ c ∈ rsp.reason, c ≠ 10 ∧ c ≠ 13
  headers : ∀ e ∈ rsp.headers, PlainHeader e
  sorted : OrderedMap.Sorted strcasecmp rsp.headers
  noBody : ∀ e ∈ rsp.headers, ∀ name ∈ bodyNames, strcasecmp e.1 name ≠ .eq
  cookies : ∀ cookie ∈ rsp.cookies, PlainHeader (ascii "Set-Cookie", cookie)
  /-- The text is a `std::string`. -/
  size : rsp.dump.length ≤ stringMaxSize

instance (rsp : FullResponse) : Decidable (PlainResponse rsp) :=
  decidable_of_iff
    (rsp.websocket = false ∧ rsp.status ∈ httpStatusMap.map (·.1) ∧
      (rsp.version = 0x10 ∨ rsp.version = 0x11) ∧
      (rsp.reason.all fun c => decide (c ≠ 10 ∧ c ≠ 13)) = true ∧
      (∀ e ∈ rsp.headers, PlainHeader e) ∧ OrderedMap.Sorted strcasecmp rsp.headers ∧
      (∀ e ∈ rsp.headers, ∀ name ∈ bodyNames, strcasecmp e.1 name ≠ .eq) ∧
      (∀ cookie ∈ rsp.cookies, PlainHeader (ascii "Set-Cookie", cookie)) ∧
      rsp.dump.length ≤ stringMaxSize)
    ⟨fun ⟨h₁, h₂, h₃, h₄, h₅, h₆, h₇, h₈, h₉⟩ =>
      ⟨h₁, h₂, h₃, by simpa only [all_eq_true, decide_eq_true_eq] using h₄, h₅, h₆, h₇, h₈, h₉⟩,
     fun ⟨h₁, h₂, h₃, h₄, h₅, h₆, h₇, h₈, h₉⟩ =>
      ⟨h₁, h₂, h₃, by simpa only [all_eq_true, decide_eq_true_eq] using h₄, h₅, h₆, h₇, h₈, h₉⟩⟩

namespace FullResponse

def printedReason (rsp : FullResponse) : Bytes :=
  if rsp.reason = [] then httpStatusToString rsp.status else rsp.reason

def addedEntries (rsp : FullResponse) : List (Bytes × Bytes) :=
  rsp.cookieEntries ++ ([(ascii "connection", connectionValue rsp.close)] ++ lengthEntry rsp.body)

lemma entries_eq (rsp : FullResponse) :
    rsp.entries = printedEntries rsp.headers ++ rsp.addedEntries := by
  simp only [entries, addedEntries, cookieEntries, append_assoc]

def readHeaders (rsp : FullResponse) : MapType := OrderedMap.insertAll strcasecmp [] rsp.entries

def readHead (rsp : FullResponse) : HttpResponse where
  status := rsp.status
  version := rsp.version
  reason := rsp.printedReason
  body := []
  headers := rsp.readHeaders

end FullResponse

/-! ## The header section -/

section Head

variable {rsp : FullResponse}

lemma PlainResponse.status_bounds (h : PlainResponse rsp) :
    0 ≤ rsp.status ∧ rsp.status < 2 ^ 31 := by
  have htable : ∀ s ∈ httpStatusMap.map (·.1), 0 ≤ s ∧ s < 2 ^ 31 := by decide
  exact htable rsp.status h.status

lemma exists_statusText {status : Int} (h : status ∈ httpStatusMap.map (·.1)) :
    ∃ entry ∈ httpStatusMap, httpStatusToString status = ascii entry.2 := by
  obtain ⟨entry, hmem, rfl⟩ := mem_map.mp h
  have hsome : (httpStatusMap.find? fun e => e.1 == entry.1).isSome = true :=
    List.find?_isSome.mpr ⟨entry, hmem, beq_self_eq_true entry.1⟩
  obtain ⟨found, hfind⟩ := Option.isSome_iff_exists.mp hsome
  refine ⟨found, mem_of_find?_eq_some hfind, ?_⟩
  rw [httpStatusToString, hfind]

lemma PlainResponse.printedReason_line (h : PlainResponse rsp) :
    rsp.printedReason ≠ [] ∧ ∀ c ∈ rsp.printedReason, c ≠ 10 ∧ c ≠ 13 := by
  unfold FullResponse.printedReason
  split
  · obtain ⟨entry, hmem, htext⟩ := exists_statusText h.status
    rw [htext]
    exact isLine_statusText entry hmem
  · next hne => exact ⟨hne, h.reason⟩

lemma PlainResponse.clientMoves_statusLine (h : PlainResponse rsp) :
    ClientMoves httpclientParserStart rsp.statusLine 20 fun d =>
      ((d.setVersion rsp.version).setStatus rsp.status).setReason rsp.printedReason := by
  obtain ⟨hlow, hhigh⟩ := h.status_bounds
  obtain ⟨hne, hline⟩ := h.printedReason_line
  have hmod : ((rsp.status % 2 ^ 32).toNat : Int) = rsp.status := by omega
  have hmoves := (clientMoves_version h.version).trans
    ((clientMoves_status (n := (rsp.status % 2 ^ 32).toNat) (by omega)).trans
      (clientMoves_reason hne hline))
  have htext : rsp.statusLine = ascii "HTTP/" ++ versionNumber rsp.version ++ [32] ++
      (decimal (rsp.status % 2 ^ 32).toNat ++ [32] ++ (rsp.printedReason ++ crlf)) := by
    have hspace : ascii " " = [32] := rfl
    simp only [FullResponse.statusLine, FullResponse.printedReason, hspace, append_assoc]
  rw [hmod] at hmoves
  rw [htext]
  exact hmoves

lemma PlainResponse.ordinary (h : PlainResponse rsp) :
    ∀ e ∈ printedEntries rsp.headers ++ rsp.cookieEntries,
      PlainHeader e ∧ ∀ known ∈ knownNames, strcasecmp e.1 known ≠ .eq := by
  intro e he
  rcases mem_append.mp he with hprinted | hcookie
  · obtain ⟨hmem, hname⟩ := mem_filter.mp hprinted
    refine ⟨h.headers e hmem, fun known hknown => ?_⟩
    simp only [knownNames, mem_cons, not_mem_nil, or_false] at hknown
    rcases hknown with rfl | rfl | rfl
    · simpa using hname
    · exact h.noBody e hmem _ (by simp [bodyNames])
    · exact h.noBody e hmem _ (by simp [bodyNames])
  obtain ⟨cookie, hmem, rfl⟩ := mem_map.mp hcookie
  have hother : ∀ known ∈ knownNames, strcasecmp (ascii "Set-Cookie") known ≠ .eq := by
    decide
  exact ⟨h.cookies cookie hmem, hother⟩

lemma PlainResponse.clientMoves_lines (h : PlainResponse rsp) :
    ∃ t ∈ lineStates,
      ClientMoves httpclientParserStart (rsp.statusLine ++ headerLines rsp.entries) t
      fun d => (((d.setVersion rsp.version).setStatus rsp.status).setReason
        rsp.printedReason).setHeaders rsp.entries := by
  obtain ⟨s, hs, hconnection⟩ := clientMoves_connection rsp.close
  obtain ⟨t, ht, hlength⟩ := clientMoves_length hs rsp.body
  have hordinary := clientMoves_headerLines (fun e he => (h.ordinary e he).1)
    fun e he => (h.ordinary e he).2
  have hentries : rsp.entries = printedEntries rsp.headers ++ rsp.cookieEntries ++
      ([(ascii "connection", connectionValue rsp.close)] ++ lengthEntry rsp.body) := by
    simp only [FullResponse.entries, FullResponse.cookieEntries, append_assoc]
  have hmoves := hordinary.trans (hconnection.trans hlength)
  rw [← headerLines_append, ← headerLines_append, ← hentries, ← ResponseData.setHeaders_append,
    ← ResponseData.setHeaders_append, ← hentries] at hmoves
  exact ⟨t, ht, h.clientMoves_statusLine.trans hmoves⟩

lemma HttpResponseParser.execute_new (memory : HttpclientParser) (data : Bytes) (chunk : Bool) :
    (new memory).execute data chunk = (new memory).execute data true := by
  have hinit : (new memory).mapParser HttpclientParser.init = new memory := rfl
  cases chunk with
  | false => simp only [execute, Bool.false_eq_true, if_false, if_true, hinit]
  | true => rfl

lemma PlainResponse.execute_head (h : PlainResponse rsp) (memory : HttpclientParser) (tail : Bytes)
    (hlen : (rsp.head ++ tail).length < 2 ^ 31) :
    ∃ k, (HttpResponseParser.new memory).execute (rsp.head ++ tail) false =
      .ok (parserAt k httpclientParserFirstFinal ⟨rsp.readHead, 0, false⟩, tail) := by
  obtain ⟨t, ht, hmoves⟩ := h.clientMoves_lines
  have hmax : (rsp.head ++ tail).length ≤ stringMaxSize := by
    unfold stringMaxSize
    omega
  have hstream : rsp.head ++ tail =
      rsp.statusLine ++ headerLines rsp.entries ++ (crlf ++ tail) := by
    rw [FullResponse.head, append_assoc]
  have hinit : parserAt memory.init httpclientParserStart ⟨.default, 0, false⟩ =
      (HttpResponseParser.new memory).inState httpclientParserStart := rfl
  obtain ⟨k₁, hrun⟩ := hmoves (rsp.head ++ tail) (crlf ++ tail) memory.init 0 ⟨.default, 0, false⟩
    hmax (by rw [drop_zero, hstream])
  obtain ⟨k₂, hend⟩ := clientRun_end ht (rsp.head ++ tail) tail k₁
    (0 + (rsp.statusLine ++ headerLines rsp.entries).length) ⟨rsp.readHead, 0, false⟩
  have hsize : rsp.head.length = (rsp.statusLine ++ headerLines rsp.entries).length + 2 :=
    length_append
  have hne : rsp.head ++ tail ≠ [] := by simp [FullResponse.head, crlf]
  have hexec : HttpResponseParser.exec (rsp.head ++ tail) 0 (rsp.head ++ tail)
      ((HttpResponseParser.new memory).inState httpclientParserStart) =
      .ok (parserAt k₂ httpclientParserFirstFinal ⟨rsp.readHead, 0, false⟩, rsp.head.length) := by
    rw [← hstream, clientRun, hinit] at hrun
    rw [hsize, ← Nat.zero_add (rsp.statusLine ++ headerLines rsp.entries).length, hrun]
    exact hend
  refine ⟨k₂, ?_⟩
  rw [HttpResponseParser.execute_new, HttpResponseParser.execute_of_exec hne hlen hexec, drop_left]

end Head

section Lookup

variable {rsp : FullResponse} {key : Bytes}

lemma PlainResponse.find_readHeaders (h : PlainResponse rsp) (key : Bytes) :
    rsp.readHeaders.find key = (OrderedMap.find strcasecmp rsp.addedEntries.reverse key).or
        (OrderedMap.find strcasecmp (printedEntries rsp.headers) key) := by
  have hsorted : OrderedMap.Sorted strcasecmp (printedEntries rsp.headers) := h.sorted.filter _
  rw [MapType.find_eq, FullResponse.readHeaders, FullResponse.entries_eq,
    OrderedMap.insertAll_append, OrderedMap.find_insertAll, OrderedMap.insertAll_sorted hsorted]

lemma FullResponse.find_addedEntries (rsp : FullResponse) (key : Bytes) :
    OrderedMap.find strcasecmp rsp.addedEntries.reverse key =
      (OrderedMap.find strcasecmp (lengthEntry rsp.body) key).or
        ((OrderedMap.find strcasecmp [(ascii "connection", connectionValue rsp.close)] key).or
          (OrderedMap.find strcasecmp rsp.cookieEntries.reverse key)) := by
  have hlength : (lengthEntry rsp.body).reverse = lengthEntry rsp.body := by
    unfold lengthEntry
    split <;> rfl
  rw [addedEntries, reverse_append, reverse_append, hlength, reverse_singleton,
    OrderedMap.find_append, OrderedMap.find_append, Option.or_assoc]

lemma find_lengthEntry (body : Bytes) {key : Bytes}
    (h : strcasecmp (ascii "content-length") key ≠ .eq) :
    OrderedMap.find strcasecmp (lengthEntry body) key = none := by
  refine OrderedMap.find_eq_none fun e he => ?_
  rw [lengthEntry] at he
  split at he
  · cases he
  · rw [mem_singleton.mp he]
    exact h

lemma FullResponse.find_cookieEntries_of_ne (rsp : FullResponse)
    (h : strcasecmp (ascii "Set-Cookie") key ≠ .eq) :
    OrderedMap.find strcasecmp rsp.cookieEntries.reverse key = none := by
  refine OrderedMap.find_eq_none fun e he => ?_
  obtain ⟨cookie, _, rfl⟩ := mem_map.mp (mem_reverse.mp he)
  exact h

lemma FullResponse.find_cookieEntries (rsp : FullResponse)
    (h : strcasecmp (ascii "Set-Cookie") key = .eq) :
    OrderedMap.find strcasecmp rsp.cookieEntries.reverse key = rsp.cookies.getLast? := by
  rw [cookieEntries, ← map_reverse, ← List.head?_reverse]
  cases rsp.cookies.reverse with
  | nil => rfl
  | cons cookie rest => exact OrderedMap.find_cons_eq h

lemma PlainResponse.find_connection (h : PlainResponse rsp) :
    rsp.readHeaders.find (ascii "connection") = some (connectionValue rsp.close) := by
  rw [h.find_readHeaders, rsp.find_addedEntries, find_lengthEntry rsp.body (by decide),
    OrderedMap.find_cons_eq (by decide)]
  rfl

lemma PlainResponse.find_cookie (h : PlainResponse rsp) :
    rsp.readHeaders.find (ascii "Set-Cookie") = rsp.cookies.getLast?.or
      (OrderedMap.find strcasecmp (printedEntries rsp.headers) (ascii "Set-Cookie")) := by
  rw [h.find_readHeaders, rsp.find_addedEntries, find_lengthEntry rsp.body (by decide),
    OrderedMap.find_cons_ne (by decide), rsp.find_cookieEntries (by decide)]
  rfl

lemma PlainResponse.find_length (h : PlainResponse rsp) :
    rsp.readHeaders.find (ascii "content-length") =
      if rsp.body = [] then none else some (decimal rsp.body.length) := by
  have hprinted : OrderedMap.find strcasecmp (printedEntries rsp.headers)
      (ascii "content-length") = none :=
    OrderedMap.find_eq_none fun e he =>
      h.noBody e (mem_of_mem_filter he) _ (by simp [bodyNames])
  rw [h.find_readHeaders, rsp.find_addedEntries, hprinted, OrderedMap.find_cons_ne (by decide),
    rsp.find_cookieEntries_of_ne (by decide), lengthEntry]
  split
  · rfl
  · rw [OrderedMap.find_cons_eq (by decide)]
    rfl

lemma PlainResponse.find_encoding (h : PlainResponse rsp) :
    rsp.readHeaders.find (ascii "content-encoding") = none := by
  have hprinted : OrderedMap.find strcasecmp (printedEntries rsp.headers)
      (ascii "content-encoding") = none :=
    OrderedMap.find_eq_none fun e he =>
      h.noBody e (mem_of_mem_filter he) _ (by simp [bodyNames])
  rw [h.find_readHeaders, rsp.find_addedEntries, hprinted, find_lengthEntry rsp.body (by decide),
    OrderedMap.find_cons_ne (by decide), rsp.find_cookieEntries_of_ne (by decide)]
  rfl

lemma PlainResponse.find_header (h : PlainResponse rsp) {e : Bytes × Bytes} (he : e ∈ rsp.headers)
    (hconnection : strcasecmp e.1 (ascii "connection") ≠ .eq) :
    rsp.readHeaders.find e.1 =
      (OrderedMap.find strcasecmp rsp.cookieEntries.reverse e.1).or (some e.2) := by
  have hsorted : OrderedMap.Sorted strcasecmp (printedEntries rsp.headers) := h.sorted.filter _
  have hmem : e ∈ printedEntries rsp.headers := mem_filter.mpr ⟨he, by simpa using hconnection⟩
  have hlength : strcasecmp (ascii "content-length") e.1 ≠ .eq :=
    fun heq => h.noBody e he _ (by simp [bodyNames]) (Std.OrientedCmp.eq_symm heq)
  have hconnection' : strcasecmp (ascii "connection") e.1 ≠ .eq :=
    fun heq => hconnection (Std.OrientedCmp.eq_symm heq)
  rw [h.find_readHeaders, rsp.find_addedEntries, find_lengthEntry rsp.body hlength,
    OrderedMap.find_cons_ne hconnection', OrderedMap.find_of_mem hsorted hmem]
  rfl

end Lookup

/-- No two lines with one name differ: neither the cookies nor the headers `Set-Cookie` and
`connection` of the map. -/
structure FullResponse.Agrees (rsp : FullResponse) : Prop where
  cookies : ∀ c ∈ rsp.cookies, ∀ c' ∈ rsp.cookies, c = c'
  setCookie : ∀ e ∈ rsp.headers, strcasecmp e.1 (ascii "Set-Cookie") = .eq →
    ∀ c ∈ rsp.cookies, e.2 = c
  connection : ∀ e ∈ rsp.headers, strcasecmp e.1 (ascii "connection") = .eq →
    e.2 = connectionValue rsp.close

instance (rsp : FullResponse) : Decidable rsp.Agrees :=
  decidable_of_iff
    ((∀ c ∈ rsp.cookies, ∀ c' ∈ rsp.cookies, c = c') ∧
      (∀ e ∈ rsp.headers, strcasecmp e.1 (ascii "Set-Cookie") = .eq → ∀ c ∈ rsp.cookies, e.2 = c) ∧
      ∀ e ∈ rsp.headers, strcasecmp e.1 (ascii "connection") = .eq →
        e.2 = connectionValue rsp.close)
    ⟨fun ⟨h₁, h₂, h₃⟩ => ⟨h₁, h₂, h₃⟩, fun ⟨h₁, h₂, h₃⟩ => ⟨h₁, h₂, h₃⟩⟩

/-- The response that was read has everything of the one that was printed. -/
structure ReadsBack (rsp : FullResponse) (r : HttpResponse) : Prop where
  status : r.status = rsp.status
  version : r.version = rsp.version
  body : r.body = rsp.body
  headers : ∀ e ∈ rsp.headers, r.headers.find e.1 = some e.2
  cookies : ∀ c ∈ rsp.cookies, r.headers.find (ascii "Set-Cookie") = some c

def FullResponse.received (rsp : FullResponse) : HttpResponse :=
  { rsp.readHead with body := rsp.body }

section Agreement

variable {rsp : FullResponse}

lemma PlainResponse.agrees_of_readsBack (h : PlainResponse rsp)
    (hread : ReadsBack rsp rsp.received) : rsp.Agrees where
  cookies c hc c' hc' := Option.some.inj ((hread.cookies c hc).symm.trans (hread.cookies c' hc'))
  setCookie e he hname c hc := by
    have hfind : rsp.readHeaders.find e.1 = some e.2 := hread.headers e he
    rw [MapType.find_eq, OrderedMap.find_congr hname] at hfind
    exact Option.some.inj (hfind.symm.trans (hread.cookies c hc))
  connection e he hname := by
    have hfind : rsp.readHeaders.find e.1 = some e.2 := hread.headers e he
    rw [MapType.find_eq, OrderedMap.find_congr hname] at hfind
    exact Option.some.inj (hfind.symm.trans h.find_connection)

lemma PlainResponse.find_header_of_agrees (h : PlainResponse rsp) (hagrees : rsp.Agrees)
    {e : Bytes × Bytes} (he : e ∈ rsp.headers) : rsp.readHeaders.find e.1 = some e.2 := by
  by_cases hconnection : strcasecmp e.1 (ascii "connection") = .eq
  · rw [MapType.find_eq, OrderedMap.find_congr hconnection, hagrees.connection e he hconnection]
    exact h.find_connection
  rw [h.find_header he hconnection]
  by_cases hcookie : strcasecmp e.1 (ascii "Set-Cookie") = .eq
  · rw [rsp.find_cookieEntries (Std.OrientedCmp.eq_symm hcookie)]
    cases hlast : rsp.cookies.getLast? with
    | none => rfl
    | some c => rw [hagrees.setCookie e he hcookie c (mem_of_getLast? hlast), Option.some_or]
  · rw [rsp.find_cookieEntries_of_ne fun heq => hcookie (Std.OrientedCmp.eq_symm heq)]
    rfl

lemma PlainResponse.readsBack_of_agrees (h : PlainResponse rsp) (hagrees : rsp.Agrees) :
    ReadsBack rsp rsp.received where
  status := rfl
  version := rfl
  body := rfl
  headers _ he := h.find_header_of_agrees hagrees he
  cookies c hc := by
    have hfind := h.find_cookie
    cases hlast : rsp.cookies.getLast? with
    | none =>
      rw [List.getLast?_eq_none_iff] at hlast
      rw [hlast] at hc
      cases hc
    | some c' =>
      rw [hlast, Option.some_or, hagrees.cookies c' (mem_of_getLast? hlast) c hc] at hfind
      exact hfind

end Agreement

/-! ## Receiving -/

section Receive

variable {cfg : ClientConfig} {rsp : FullResponse}

def ClientConfig.firstRead (cfg : ClientConfig) : Nat := min cfg.bufferSize maxRwCount

def FullResponse.missing (cfg : ClientConfig) (rsp : FullResponse) : Nat :=
  rsp.dump.length - cfg.firstRead

def FullResponse.heldBody (cfg : ClientConfig) (rsp : FullResponse) : Bytes :=
  rsp.body.take (cfg.firstRead - rsp.head.length)

def FullResponse.afterFirst (cfg : ClientConfig) (rsp : FullResponse) : Socket :=
  if rsp.dump.length ≤ cfg.firstRead then [] else [rsp.body.drop (cfg.firstRead - rsp.head.length)]

lemma PlainResponse.recv_dump (h : PlainResponse rsp) (hhead : rsp.head.length ≤ cfg.firstRead) :
    Socket.recv cfg.bufferSize [rsp.dump] = (rsp.head ++ rsp.heldBody cfg, rsp.afterFirst cfg) := by
  have htake : rsp.dump.take cfg.firstRead = rsp.head ++ rsp.heldBody cfg := by
    rw [FullResponse.dump_eq h.websocket, take_append, take_of_length_le hhead]
    rfl
  have hdrop : rsp.dump.drop cfg.firstRead = rsp.body.drop (cfg.firstRead - rsp.head.length) := by
    rw [FullResponse.dump_eq h.websocket, drop_append, drop_of_length_le hhead, nil_append]
  rw [Socket.recv, ← ClientConfig.firstRead, Segments.read, htake, hdrop]
  rfl

lemma PlainResponse.recvResponseHeader_dump (h : PlainResponse rsp) (memory : HttpclientParser)
    (hbuffer : cfg.bufferSize < 2 ^ 31) (hhead : rsp.head.length ≤ cfg.firstRead) :
    ∃ k, recvResponseHeader cfg (Socket.unread [rsp.dump] + 1) (.new memory) [] [rsp.dump] =
      .ok (some (parserAt k httpclientParserFirstFinal ⟨rsp.readHead, 0, false⟩,
        rsp.heldBody cfg, rsp.afterFirst cfg)) := by
  have hpos : 0 < rsp.head.length := by simp [FullResponse.head, crlf]
  have hfirst : cfg.firstRead ≤ cfg.bufferSize := Nat.min_le_left _ _
  have hheld : (rsp.heldBody cfg).length ≤ cfg.firstRead - rsp.head.length := length_take_le _ _
  have hlen : (rsp.head ++ rsp.heldBody cfg).length < 2 ^ 31 := by
    rw [length_append]
    omega
  obtain ⟨k, hexecute⟩ := h.execute_head memory (rsp.heldBody cfg) hlen
  have hne : (rsp.head ++ rsp.heldBody cfg).length ≠ 0 := by
    rw [length_append]
    omega
  have hfull : ((rsp.heldBody cfg).length : Int) ≠ toInt32 cfg.bufferSize := by
    rw [toInt32_of_lt hbuffer]
    omega
  refine ⟨k, ?_⟩
  rw [recvResponseHeader, HeaderParser.recv]
  simp only [length_nil, Nat.sub_zero, h.recv_dump hhead, if_neg hne, nil_append,
    hexecute, if_neg hfull]
  rfl

lemma Socket.readFixSize_segment {segment : Bytes} (hne : segment ≠ []) :
    Socket.readFixSize segment.length [segment] = (toInt32 segment.length, segment, []) := by
  have hproper : Segments.Proper [segment] := by
    intro x hx
    rwa [mem_singleton.mp hx]
  have hflat : [segment].flatten = segment := by simp
  have hskip : Segments.skip segment.length [segment] = [] := by
    rw [Segments.skip_cons (length_pos_iff.mpr hne), if_pos (Nat.le_refl _),
      Nat.sub_self, Segments.skip_zero]
  have hunread : segment.length ≤ Socket.unread [segment] := by
    rw [Socket.unread, hflat]
  rw [Socket.readFixSize, Socket.readLoop_eq hproper (Nat.le_refl _) hunread, hflat, hskip,
    take_length]

lemma PlainResponse.length_dump (h : PlainResponse rsp) :
    rsp.dump.length = rsp.head.length + rsp.body.length := by
  rw [FullResponse.dump_eq h.websocket, length_append]

lemma PlainResponse.recvLength_dump (h : PlainResponse rsp) (hcast : ReadsDecimal cfg.lexicalCast)
    (hhead : rsp.head.length ≤ cfg.firstRead) (k : HttpclientParser) (cs : Nat) :
    recvLength cfg (parserAt k cs ⟨rsp.readHead, 0, false⟩) (rsp.heldBody cfg)
        (rsp.afterFirst cfg) =
      .ok (if rsp.missing cfg = 0 ∨ 0 < toInt32 (rsp.missing cfg) then some (rsp.body, [])
        else none) := by
  have hdump := h.length_dump
  have hsize := h.size
  have hmax : ¬ stringMaxSize < rsp.body.length := by omega
  unfold stringMaxSize at hsize
  have hlength : ((parserAt k cs ⟨rsp.readHead, 0, false⟩).getContentLength
      cfg.lexicalCast).toBitVec.toInt = rsp.body.length := by
    rw [HttpResponseParser.getContentLength, HttpResponse.getHeaderAs_eq]
    have hpos : 0 < rsp.head.length := by simp [FullResponse.head, crlf]
    exact length_of_find hcast (by omega) h.find_length
  have htake : (rsp.heldBody cfg).take rsp.body.length = rsp.heldBody cfg := by
    rw [FullResponse.heldBody, take_take, Nat.min_comm, take_eq_take_min, Nat.min_assoc]
    simp
  simp only [recvLength, hlength, Int.toNat_natCast, htake]
  by_cases hfits : rsp.dump.length ≤ cfg.firstRead
  · -- everything has been read
    have hmissing : rsp.missing cfg = 0 := Nat.sub_eq_zero_of_le hfits
    have hall : rsp.heldBody cfg = rsp.body := take_of_length_le (by omega)
    rw [FullResponse.afterFirst, if_pos hfits, hall, if_pos (Or.inl hmissing)]
    by_cases hbody : rsp.body = []
    · rw [hbody]
      rfl
    have hpos : (0 : Int) < rsp.body.length := by
      have := length_pos_iff.mpr hbody
      omega
    rw [if_pos hpos, if_neg hmax, if_neg (by omega)]
  have hleft : (rsp.body.length : Int) - (rsp.heldBody cfg).length = rsp.missing cfg := by
    rw [FullResponse.heldBody, length_take, FullResponse.missing]
    omega
  have hmissing : 0 < rsp.missing cfg := by
    rw [FullResponse.missing]
    omega
  have hpos : (0 : Int) < rsp.body.length := by omega
  have hlast : (rsp.body.drop (cfg.firstRead - rsp.head.length)).length = rsp.missing cfg := by
    rw [length_drop, FullResponse.missing]
    omega
  have hread := Socket.readFixSize_segment (length_pos_iff.mp (hlast ▸ hmissing))
  rw [hlast] at hread
  simp only [hleft, if_pos hpos, if_neg hmax, Int.natCast_pos.mpr hmissing, if_true,
    FullResponse.afterFirst, if_neg hfits, Int.toNat_natCast, hread, hmissing.ne', false_or]
  by_cases hint : 0 < toInt32 (rsp.missing cfg)
  · rw [if_neg (by omega), if_pos hint, FullResponse.heldBody, take_append_drop]
  · rw [if_pos (by omega), if_neg hint]

lemma PlainResponse.recvResponse_dump (h : PlainResponse rsp) (memory : HttpclientParser)
    (hcast : ReadsDecimal cfg.lexicalCast) (hbuffer : cfg.bufferSize < 2 ^ 31)
    (hhead : rsp.head.length ≤ cfg.firstRead) :
    recvResponse cfg memory [rsp.dump] =
      .ok (if rsp.missing cfg = 0 ∨ 0 < toInt32 (rsp.missing cfg) then some (rsp.received, [])
        else none) := by
  obtain ⟨k, hheader⟩ := h.recvResponseHeader_dump memory hbuffer hhead
  have hdata : (parserAt k httpclientParserFirstFinal ⟨rsp.readHead, 0, false⟩).data =
      rsp.readHead := rfl
  have hplain : rsp.readHead.NotEncoded := by
    rw [HttpResponse.NotEncoded, HttpResponse.getHeader, FullResponse.readHead, h.find_encoding]
    decide
  rw [recvResponse, hheader]
  simp only [recvResponseBody]
  rw [if_neg (by exact Bool.false_ne_true), h.recvLength_dump hcast hhead, hdata]
  split_ifs
  · dsimp only
    rw [setDecodedBody_eq cfg hplain rfl]
    rfl
  · rfl

/-- When a response received in one piece is read back as it was printed. -/
theorem response_roundTrip_iff (cfg : ClientConfig) (memory : HttpclientParser) (rsp : FullResponse)
    (hcast : ReadsDecimal cfg.lexicalCast) (hbuffer : cfg.bufferSize < 2 ^ 31)
    (h : PlainResponse rsp) (hhead : rsp.head.length ≤ cfg.firstRead) :
    (∃ r sock, recvResponse cfg memory [rsp.dump] = .ok (some (r, sock)) ∧ ReadsBack rsp r) ↔
      rsp.Agrees ∧ (rsp.missing cfg = 0 ∨ 0 < toInt32 (rsp.missing cfg)) := by
  rw [h.recvResponse_dump memory hcast hbuffer hhead]
  constructor
  · rintro ⟨r, sock, hrecv, hread⟩
    by_cases hmissing : rsp.missing cfg = 0 ∨ 0 < toInt32 (rsp.missing cfg)
    · rw [if_pos hmissing] at hrecv
      cases hrecv
      exact ⟨h.agrees_of_readsBack hread, hmissing⟩
    · rw [if_neg hmissing] at hrecv
      cases hrecv
  · rintro ⟨hagrees, hmissing⟩
    exact ⟨rsp.received, [], by rw [if_pos hmissing], h.readsBack_of_agrees hagrees⟩

def exampleResponse : FullResponse :=
  FullResponse.setCookie (fun _ => [])
    { FullResponse.new 0x11 false with
      headers := [(ascii "Content-Type", ascii "text/plain"), (ascii "Server", ascii "yuyu/1.0")]
      body := ascii "hello" }
    (ascii "id") (ascii "7") 0 [] [] false

theorem response_roundTrip_iff_cookie :
    PlainResponse exampleResponse ∧
      ∃ r sock, recvResponse (decimalClient 4096) .zeroed [exampleResponse.dump] =
        .ok (some (r, sock)) ∧ ReadsBack exampleResponse r :=
  ⟨by decide +kernel,
    (response_roundTrip_iff (decimalClient 4096) .zeroed exampleResponse readsDecimal_readUnsigned
      (by decide +kernel) (by decide +kernel) (by decide +kernel)).mpr (by decide +kernel)⟩

def twoCookies : FullResponse :=
  exampleResponse.setCookie (fun _ => []) (ascii "lang") (ascii "en") 0 [] [] false

theorem response_cookie_lost :
    PlainResponse twoCookies ∧
      (recvResponse (decimalClient 4096) .zeroed [twoCookies.dump]).toOption.join.map
          (fun r => r.1.headers.find (ascii "Set-Cookie")) = some (some (ascii "lang=en")) ∧
      ascii "id=7" ∈ twoCookies.cookies ∧
      ¬∃ r sock, recvResponse (decimalClient 4096) .zeroed [twoCookies.dump] =
        .ok (some (r, sock)) ∧ ReadsBack twoCookies r := by
  have hplain : PlainResponse twoCookies := by decide +kernel
  refine ⟨hplain, by decide +kernel, by decide +kernel, ?_⟩
  rintro ⟨r, sock, hrecv, hread⟩
  rw [hplain.recvResponse_dump .zeroed readsDecimal_readUnsigned (by decide +kernel)
    (by decide +kernel),
    if_pos (by decide +kernel)] at hrecv
  cases hrecv
  have hagrees := hplain.agrees_of_readsBack hread
  revert hagrees
  decide +kernel

end Receive

end Yuyu.Http
