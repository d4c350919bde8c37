import Mathlib.Tactic.Common
import Mathlib.Data.List.TakeWhile

/-!
# HTTP requests

The request object of `http.cc`: the method names, the header map with its case-insensitive order,
and the members that parsing fills in.  `boost::lexical_cast` is a parameter here.
-/

namespace Yuyu.Http

abbrev Bytes := List UInt8

def ascii (s : String) : Bytes := s.toList.map fun c => UInt8.ofNat c.toNat

inductive HttpMethod where
  | DELETE | GET | HEAD | POST | PUT | CONNECT | OPTIONS | TRACE
  | COPY | LOCK | MKCOL | MOVE | PROPFIND | PROPPATCH | SEARCH | UNLOCK
  | BIND | REBIND | UNBIND | ACL | REPORT | MKACTIVITY | CHECKOUT | MERGE
  | MSEARCH | NOTIFY | SUBSCRIBE | UNSUBSCRIBE | PATCH | PURGE | MKCALENDAR
  | LINK | UNLINK | SOURCE | INVALID_METHOD
deriving DecidableEq, Repr

/-- The names in the order in which they are tried. -/
def httpMethodMap : List (HttpMethod × String) := [
  (.DELETE, "DELETE"), (.GET, "GET"), (.HEAD, "HEAD"), (.POST, "POST"), (.PUT, "PUT"),
  (.CONNECT, "CONNECT"), (.OPTIONS, "OPTIONS"), (.TRACE, "TRACE"), (.COPY, "COPY"),
  (.LOCK, "LOCK"), (.MKCOL, "MKCOL"), (.MOVE, "MOVE"), (.PROPFIND, "PROPFIND"),
  (.PROPPATCH, "PROPPATCH"), (.SEARCH, "SEARCH"), (.UNLOCK, "UNLOCK"), (.BIND, "BIND"),
  (.REBIND, "REBIND"), (.UNBIND, "UNBIND"), (.ACL, "ACL"), (.REPORT, "REPORT"),
  (.MKACTIVITY, "MKACTIVITY"), (.CHECKOUT, "CHECKOUT"), (.MERGE, "MERGE"),
  (.MSEARCH, "M-SEARCH"), (.NOTIFY, "NOTIFY"), (.SUBSCRIBE, "SUBSCRIBE"),
  (.UNSUBSCRIBE, "UNSUBSCRIBE"), (.PATCH, "PATCH"), (.PURGE, "PURGE"),
  (.MKCALENDAR, "MKCALENDAR"), (.LINK, "LINK"), (.UNLINK, "UNLINK"), (.SOURCE, "SOURCE")]

/-- The first name that the bytes at `m` begin with, wherever the token in the buffer ends. -/
def charsToHttpMethod (m : Bytes) : HttpMethod :=
  match httpMethodMap.find? fun entry => (ascii entry.2).isPrefixOf m with
  | some entry => entry.1
  | none => .INVALID_METHOD

def toLower (c : UInt8) : UInt8 := if 65 ≤ c ∧ c ≤ 90 then c + 32 else c

/-- `c_str()` as the C library reads it: up to the first NUL. -/
def cStr (s : Bytes) : Bytes := s.takeWhile (· ≠ 0)

lemma cStr_of_notMem {s : Bytes} (h : 0 ∉ s) : cStr s = s := by
  refine List.takeWhile_eq_self_iff.mpr fun c hc => ?_
  simpa using fun heq : c = 0 => h (heq ▸ hc)

def compareLower : Bytes → Bytes → Ordering
  | [], [] => .eq
  | [], _ :: _ => .lt
  | _ :: _, [] => .gt
  | a :: as, b :: bs => (compare (toLower a) (toLower b)).then (compareLower as bs)

def strcasecmp (a b : Bytes) : Ordering := compareLower (cStr a) (cStr b)

def strncmpEq : Bytes → Bytes → Nat → Bool
  | _, _, 0 => true
  | a :: as, b :: bs, n + 1 => a == b && (a == 0 || strncmpEq as bs n)
  | _, _, _ + 1 => false

/-- The entries of a map ordered by `CaseInsensitiveLess`, in the order of iteration. -/
abbrev MapType := List (Bytes × Bytes)

namespace MapType

/-- `m[key] = val`.  An existing key keeps its spelling. -/
def set (key val : Bytes) : MapType → MapType
  | [] => [(key, val)]
  | (k, v) :: rest =>
    match strcasecmp key k with
    | .lt => (key, val) :: (k, v) :: rest
    | .eq => (k, val) :: rest
    | .gt => (k, v) :: set key val rest

/-- The value that `find(key)` points at. -/
def find (m : MapType) (key : Bytes) : Option Bytes :=
  (List.find? (fun entry => strcasecmp entry.1 key == .eq) m).map (·.2)

end MapType

structure HttpRequest where
  method : HttpMethod
  version : Nat
  close : Bool
  path : Bytes
  query : Bytes
  fragment : Bytes
  body : Bytes
  headers : MapType
deriving DecidableEq, Repr

namespace HttpRequest

def new (version : Nat) (close : Bool) : HttpRequest where
  method := .GET
  version := version
  close := close
  path := ascii "/"
  query := []
  fragment := []
  body := []
  headers := []

/-- `HttpRequest()` with the default arguments of its declaration. -/
def default : HttpRequest := new 0x11 true

def getHeader (req : HttpRequest) (key def_ : Bytes) : Bytes := (req.headers.find key).getD def_

def setHeader (req : HttpRequest) (key val : Bytes) : HttpRequest :=
  { req with headers := MapType.set key val req.headers }

/-- `getHeaderAs<uint64_t>`: the default when the header is missing or
`lexical_cast` throws. -/
def getHeaderAs (lexicalCast : Bytes → Option UInt64) (req : HttpRequest) (key : Bytes)
    (def_ : UInt64) : UInt64 :=
  match req.headers.find key with
  | none => def_
  | some v => (lexicalCast v).getD def_

def init (req : HttpRequest) : HttpRequest :=
  let conn := req.getHeader (ascii "connection") []
  if conn = [] then req
  else { req with close := strcasecmp conn (ascii "keep-alive") != .eq }

lemma init_body (req : HttpRequest) : req.init.body = req.body := by
  simp only [init]
  split <;> rfl

end HttpRequest

end Yuyu.Http
