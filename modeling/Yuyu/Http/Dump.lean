import Yuyu.Foundation.Decimal
import Yuyu.Foundation.OrderedMap
import Yuyu.Http.Response

/-!
# Printing requests and responses

`HttpRequest::dump` and `HttpResponse::dump`. The header `connection` is always printed from
`m_close` and `content-length` from the body; a response has a list of cookies beside its header
map, which is ordered by `strcasecmp`.
-/

namespace Yuyu.Http

open Foundation List
open Foundation.Decimal (decimal)

def sMethodString : List Bytes := httpMethodMap.map fun entry => ascii entry.2

def httpMethodToString (m : HttpMethod) : Bytes := sMethodString.getD m.ctorIdx (ascii "<unknown>")

def httpStatusMap : List (Int × String) := [
  (100, "Continue"), (101, "Switching Protocols"), (102, "Processing"), (200, "OK"),
  (201, "Created"), (202, "Accepted"), (203, "Non-Authoritative Information"),
  (204, "No Content"), (205, "Reset Content"), (206, "Partial Content"), (207, "Multi-Status"),
  (208, "Already Reported"), (226, "IM Used"), (300, "Multiple Choices"),
  (301, "Moved Permanently"), (302, "Found"), (303, "See Other"), (304, "Not Modified"),
  (305, "Use Proxy"), (307, "Temporary Redirect"), (308, "Permanent Redirect"),
  (400, "Bad Request"), (401, "Unauthorized"), (402, "Payment Required"), (403, "Forbidden"),
  (404, "Not Found"), (405, "Method Not Allowed"), (406, "Not Acceptable"),
  (407, "Proxy Authentication Required"), (408, "Request Timeout"), (409, "Conflict"),
  (410, "Gone"), (411, "Length Required"), (412, "Precondition Failed"),
  (413, "Payload Too Large"), (414, "URI Too Long"), (415, "Unsupported Media Type"),
  (416, "Range Not Satisfiable"), (417, "Expectation Failed"), (421, "Misdirected Request"),
  (422, "Unprocessable Entity"), (423, "Locked"), (424, "Failed Dependency"),
  (426, "Upgrade Required"), (428, "Precondition Required"), (429, "Too Many Requests"),
  (431, "Request Header Fields Too Large"), (451, "Unavailable For Legal Reasons"),
  (500, "Internal Server Error"), (501, "Not Implemented"), (502, "Bad Gateway"),
  (503, "Service Unavailable"), (504, "Gateway Timeout"), (505, "HTTP Version Not Supported"),
  (506, "Variant Also Negotiates"), (507, "Insufficient Storage"), (508, "Loop Detected"),
  (510, "Not Extended"), (511, "Network Authentication Required")]

def httpStatusToString (s : Int) : Bytes :=
  match httpStatusMap.find? fun entry => entry.1 == s with
  | some entry => ascii entry.2
  | none => ascii "<unknown>"

def IsLine (s : String) : Prop := ascii s ≠ [] ∧ ∀ c ∈ ascii s, c ≠ 10 ∧ c ≠ 13

-- Stated for the list of characters: a literal unifies with it, and is never decoded.
lemma isLine_ofList {chars : List Char} (hne : chars ≠ [])
    (h : (chars.all fun ch => 13 < ch.toNat && ch.toNat < 256) = true) :
    IsLine (String.ofList chars) := by
  rw [IsLine, ascii, String.toList_ofList]
  refine ⟨by simpa using hne, fun c hc => ?_⟩
  obtain ⟨ch, hch, rfl⟩ := mem_map.mp hc
  have hrange := all_eq_true.mp h ch hch
  simp only [Bool.and_eq_true, decide_eq_true_eq] at hrange
  have hbyte : (UInt8.ofNat ch.toNat).toNat = ch.toNat := by
    rw [UInt8.toNat_ofNat', Nat.mod_eq_of_lt hrange.2]
  have hne_small : ∀ b : UInt8, b.toNat ≤ 13 → UInt8.ofNat ch.toNat ≠ b := by
    rintro b hb rfl
    omega
  exact ⟨hne_small 10 (by decide), hne_small 13 (by decide)⟩

lemma isLine_statusText : ∀ entry ∈ httpStatusMap, IsLine entry.2 := by
  simp only [httpStatusMap, forall_mem_cons, not_mem_nil, false_implies, implies_true, and_true]
  repeat' with_reducible apply And.intro
  all_goals exact isLine_ofList (by decide) (by decide)

def crlf : Bytes := [13, 10]

def headerLine (name value : Bytes) : Bytes := name ++ ascii ": " ++ value ++ crlf

def headerLines (entries : List (Bytes × Bytes)) : Bytes :=
  entries.flatMap fun entry => headerLine entry.1 entry.2

def connectionValue (close : Bool) : Bytes := if close then ascii "close" else ascii "keep-alive"

def versionNumber (version : Nat) : Bytes :=
  decimal (version / 16) ++ ascii "." ++ decimal (version % 16)

/-- The loop over `m_headers`, which skips the header `connection` unless the
connection is a websocket. -/
def printHeaders (websocket : Bool) (headers : MapType) : Bytes :=
  headers.flatMap fun entry =>
    if !websocket && strcasecmp entry.1 (ascii "connection") == .eq then []
    else headerLine entry.1 entry.2

/-- The line printed for `m_close`. -/
def printConnection (websocket close : Bool) : Bytes :=
  if websocket then [] else headerLine (ascii "connection") (connectionValue close)

def printBody (body : Bytes) : Bytes :=
  if body = [] then crlf
  else ascii "content-length: " ++ decimal body.length ++ crlf ++ crlf ++ body

/-- `HttpRequest` with the member that only printing reads. -/
structure FullRequest extends HttpRequest where
  websocket : Bool
deriving DecidableEq, Repr

namespace FullRequest

def requestLine (req : FullRequest) : Bytes :=
  httpMethodToString req.method ++ ascii " " ++ req.path
    ++ (if req.query = [] then [] else ascii "?") ++ req.query
    ++ (if req.fragment = [] then [] else ascii "#") ++ req.fragment
    ++ ascii " HTTP/" ++ versionNumber req.version ++ crlf

def dump (req : FullRequest) : Bytes :=
  req.requestLine ++ printConnection req.websocket req.close
    ++ printHeaders req.websocket req.headers ++ printBody req.body

end FullRequest

/-- `HttpResponse` with the members that only printing reads. -/
structure FullResponse extends HttpResponse where
  close : Bool
  websocket : Bool
  cookies : List Bytes
deriving DecidableEq, Repr

namespace FullResponse

def new (version : Nat) (close : Bool) : FullResponse where
  status := 200
  version := version
  reason := []
  body := []
  headers := []
  close := close
  websocket := false
  cookies := []

def cookieText (time2Str : Int → Bytes) (key val : Bytes) (expired : Int) (path domain : Bytes)
    (secure : Bool) : Bytes :=
  key ++ ascii "=" ++ val
    ++ (if expired > 0 then ascii ";expires=" ++ time2Str expired ++ ascii " GMT" else [])
    ++ (if domain = [] then [] else ascii ";domain=" ++ domain)
    ++ (if path = [] then [] else ascii ";path=" ++ path)
    ++ (if secure then ascii ";secure" else [])

def setCookie (time2Str : Int → Bytes) (rsp : FullResponse) (key val : Bytes) (expired : Int)
    (path domain : Bytes) (secure : Bool) : FullResponse :=
  { rsp with cookies := rsp.cookies ++ [cookieText time2Str key val expired path domain secure] }

def statusLine (rsp : FullResponse) : Bytes :=
  ascii "HTTP/" ++ versionNumber rsp.version ++ ascii " " ++ decimal (rsp.status % 2 ^ 32).toNat
    ++ ascii " " ++ (if rsp.reason = [] then httpStatusToString rsp.status else rsp.reason) ++ crlf

def dump (rsp : FullResponse) : Bytes :=
  rsp.statusLine ++ printHeaders rsp.websocket rsp.headers
    ++ (rsp.cookies.flatMap fun cookie => headerLine (ascii "Set-Cookie") cookie)
    ++ printConnection rsp.websocket rsp.close ++ printBody rsp.body

end FullResponse

def printedEntries (headers : MapType) : List (Bytes × Bytes) :=
  headers.filter fun entry => strcasecmp entry.1 (ascii "connection") != .eq

def lengthEntry (body : Bytes) : List (Bytes × Bytes) :=
  if body = [] then [] else [(ascii "content-length", decimal body.length)]

lemma headerLines_append (xs ys : List (Bytes × Bytes)) :
    headerLines (xs ++ ys) = headerLines xs ++ headerLines ys := flatMap_append

lemma headerLines_cons (e : Bytes × Bytes) (es : List (Bytes × Bytes)) :
    headerLines (e :: es) = headerLine e.1 e.2 ++ headerLines es := flatMap_cons

lemma printHeaders_eq (headers : MapType) :
    printHeaders false headers = headerLines (printedEntries headers) := by
  induction headers with
  | nil => rfl
  | cons e headers ih =>
    have hentries : printedEntries (e :: headers) =
        if strcasecmp e.1 (ascii "connection") != .eq then e :: printedEntries headers
        else printedEntries headers :=
      filter_cons
    rw [printHeaders, flatMap_cons, ← printHeaders, ih, hentries]
    cases hname : strcasecmp e.1 (ascii "connection") <;> simp [headerLines_cons]

lemma printBody_eq (body : Bytes) :
    printBody body = headerLines (lengthEntry body) ++ crlf ++ body := by
  by_cases hbody : body = []
  · simp [printBody, lengthEntry, hbody, headerLines]
  · have hname : ascii "content-length: " = ascii "content-length" ++ ascii ": " := by decide
    simp [printBody, lengthEntry, hbody, headerLines, headerLine, hname]

namespace FullRequest

def entries (req : FullRequest) : List (Bytes × Bytes) :=
  (ascii "connection", connectionValue req.close) :: printedEntries req.headers
    ++ lengthEntry req.body

def head (req : FullRequest) : Bytes := req.requestLine ++ headerLines req.entries ++ crlf

/-- The header lines are those of one list of entries. -/
theorem dump_eq {req : FullRequest} (h : req.websocket = false) :
    req.dump = req.head ++ req.body := by
  simp only [dump, h, printHeaders_eq, printBody_eq, printConnection, head, entries,
    headerLines_append, headerLines_cons, Bool.false_eq_true, if_false, append_assoc,
    cons_append]

end FullRequest

namespace FullResponse

def cookieEntries (rsp : FullResponse) : List (Bytes × Bytes) :=
  rsp.cookies.map fun cookie => (ascii "Set-Cookie", cookie)

def entries (rsp : FullResponse) : List (Bytes × Bytes) :=
  printedEntries rsp.headers ++ rsp.cookies.map (fun cookie => (ascii "Set-Cookie", cookie))
    ++ [(ascii "connection", connectionValue rsp.close)] ++ lengthEntry rsp.body

def head (rsp : FullResponse) : Bytes := rsp.statusLine ++ headerLines rsp.entries ++ crlf

theorem dump_eq {rsp : FullResponse} (h : rsp.websocket = false) :
    rsp.dump = rsp.head ++ rsp.body := by
  have hcookies : (rsp.cookies.flatMap fun cookie => headerLine (ascii "Set-Cookie") cookie) =
      headerLines (rsp.cookies.map fun cookie => (ascii "Set-Cookie", cookie)) := by
    rw [headerLines, flatMap_map]
  have hone : headerLines [(ascii "connection", connectionValue rsp.close)] =
      headerLine (ascii "connection") (connectionValue rsp.close) := by
    rw [headerLines_cons, headerLines, flatMap_nil, append_nil]
  simp only [dump, h, printHeaders_eq, printBody_eq, printConnection, head, entries, hcookies,
    hone, headerLines_append, Bool.false_eq_true, if_false, append_assoc]

end FullResponse

/-! ## Header maps -/

lemma compareLower_eq (as bs : Bytes) :
    compareLower as bs = List.compareLex (compareOn toLower) as bs := by
  induction as generalizing bs with
  | nil => cases bs <;> rfl
  | cons a as ih =>
    cases bs with
    | nil => rfl
    | cons b bs =>
      rw [compareLower, ih, List.compareLex_cons_cons]
      rfl

/-- `CaseInsensitiveLess` comes from a comparator. -/
instance : Std.TransCmp strcasecmp where
  eq_swap {a b} := by
    simp only [strcasecmp, compareLower_eq]
    exact Std.OrientedCmp.eq_swap
  isLE_trans {a b c} := by
    simp only [strcasecmp, compareLower_eq]
    exact Std.TransCmp.isLE_trans

lemma MapType.set_eq (key val : Bytes) (m : MapType) :
    MapType.set key val m = OrderedMap.insert strcasecmp key val m := by
  induction m with
  | nil => rfl
  | cons e rest ih =>
    unfold set OrderedMap.insert
    cases strcasecmp key e.1 with
    | lt | eq => rfl
    | gt => exact congrArg (e :: ·) ih

lemma MapType.find_eq (m : MapType) (key : Bytes) :
    m.find key = OrderedMap.find strcasecmp m key := rfl

def ReadsDecimal (lexicalCast : Bytes → Option UInt64) : Prop :=
  ∀ n < 2 ^ 64, lexicalCast (Decimal.decimal n) = some (UInt64.ofNat n)

lemma readsDecimal_readUnsigned : ReadsDecimal Decimal.readUnsigned :=
  fun _ hn => Decimal.readUnsigned_decimal hn

lemma HttpRequest.getHeaderAs_eq (lexicalCast : Bytes → Option UInt64) (req : HttpRequest)
    (key : Bytes) (def_ : UInt64) :
    req.getHeaderAs lexicalCast key def_ =
      (req.headers.find key).elim def_ fun v => (lexicalCast v).getD def_ := by
  rw [getHeaderAs]
  cases req.headers.find key <;> rfl

lemma HttpResponse.getHeaderAs_eq (lexicalCast : Bytes → Option UInt64) (rsp : HttpResponse)
    (key : Bytes) (def_ : UInt64) :
    rsp.getHeaderAs lexicalCast key def_ =
      (rsp.headers.find key).elim def_ fun v => (lexicalCast v).getD def_ := by
  rw [getHeaderAs]
  cases rsp.headers.find key <;> rfl

lemma length_of_find {lexicalCast : Bytes → Option UInt64} (hcast : ReadsDecimal lexicalCast)
    {body : Bytes} (hbody : body.length < 2 ^ 63) {found : Option Bytes}
    (hfound : found = if body = [] then none else some (decimal body.length)) :
    (found.elim 0 fun v => (lexicalCast v).getD 0).toBitVec.toInt = body.length := by
  by_cases hnil : body = []
  · rw [hfound, if_pos hnil, hnil]
    rfl
  rw [hfound, if_neg hnil, Option.elim_some, hcast _ (by omega), Option.getD_some,
    UInt64.toBitVec_ofNat', BitVec.toInt_ofNat']
  exact Int.bmod_eq_of_le (by omega) (by omega)

/-- The bytes of a token: ASCII without control characters, blanks and separators. -/
def tokenClass : Automaton.ByteClass :=
  [(33, 33), (35, 39), (42, 43), (45, 46), (48, 57), (65, 90), (94, 122), (124, 124), (126, 126)]

def textClass : Automaton.ByteClass := [(32, 126), (128, 255)]

lemma has_text_of_ne {c : UInt8} (h : textClass.has c = true) (hne : c ≠ 32) :
    Automaton.ByteClass.has [(33, 126), (128, 255)] c = true := by
  have htoNat : c.toNat ≠ 32 := fun heq => hne (UInt8.toNat_inj.mp heq)
  simp [Automaton.ByteClass.has, textClass] at h ⊢
  omega

/-- A header whose name is a token and whose value has no control characters and no
leading blank. -/
structure PlainHeader (entry : Bytes × Bytes) : Prop where
  name_ne : entry.1 ≠ []
  name : ∀ c ∈ entry.1, tokenClass.has c = true
  value : ∀ c ∈ entry.2, textClass.has c = true
  head : entry.2.head? ≠ some 32

-- The tests run over the bytes of the lists, not over all bytes.
instance (entry : Bytes × Bytes) : Decidable (PlainHeader entry) :=
  decidable_of_iff
    (entry.1 ≠ [] ∧ entry.1.all tokenClass.has = true ∧ entry.2.all textClass.has = true ∧
      entry.2.head? ≠ some 32)
    ⟨fun h => ⟨h.1, all_eq_true.mp h.2.1, all_eq_true.mp h.2.2.1, h.2.2.2⟩,
     fun h => ⟨h.1, all_eq_true.mpr h.2, all_eq_true.mpr h.3, h.4⟩⟩

lemma has_digit_of_isDigit {c : UInt8} (h : Strtol.isDigit 10 c = true) :
    Automaton.digit.has c = true := by
  unfold Strtol.isDigit Strtol.digitVal at h
  simp only [Automaton.ByteClass.has, Automaton.digit, any_cons, any_nil, Bool.or_false,
    Bool.and_eq_true, decide_eq_true_eq]
  split at h
  · omega
  split at h
  · simp at h
    omega
  split at h
  · simp at h
    omega
  · cases h

lemma has_text_of_isDigit {c : UInt8} (h : Strtol.isDigit 10 c = true) :
    textClass.has c = true := by
  unfold Strtol.isDigit Strtol.digitVal at h
  simp only [Automaton.ByteClass.has, textClass, any_cons, any_nil, Bool.or_false,
    Bool.or_eq_true, Bool.and_eq_true, decide_eq_true_eq]
  split at h
  · omega
  split at h
  · omega
  split at h
  · omega
  · cases h

lemma plain_connection (close : Bool) :
    PlainHeader (ascii "connection", connectionValue close) := by
  cases close <;> decide

lemma plain_lengthEntry (body : Bytes) : ∀ e ∈ lengthEntry body, PlainHeader e := by
  intro e he
  rw [lengthEntry] at he
  split at he
  · cases he
  rw [mem_singleton] at he
  subst he
  have hname : ascii "content-length" ≠ [] ∧
      ∀ c ∈ ascii "content-length", tokenClass.has c = true := by decide +kernel
  refine ⟨hname.1, hname.2, ?_, ?_⟩
  · exact fun c hc => has_text_of_isDigit (Decimal.isDigit_of_mem_decimal hc)
  intro hhead
  have hdigit := Decimal.isDigit_of_mem_decimal (mem_of_mem_head? hhead)
  revert hdigit
  decide

lemma plain_printedEntries {headers : MapType} (h : ∀ e ∈ headers, PlainHeader e) :
    ∀ e ∈ printedEntries headers, PlainHeader e := fun e he => h e (mem_of_mem_filter he)

end Yuyu.Http
