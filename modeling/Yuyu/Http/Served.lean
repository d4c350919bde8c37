import Yuyu.Http.KeepAlive
import Yuyu.Http.RequestRoundTrip

/-!
# Printed requests on a keep-alive connection

A client prints its requests with `HttpRequest::dump`, one after the other.  The loop of
`HttpServer::handleClient` passes on just these requests.
-/

namespace Yuyu.Http

open List Foundation
open Automaton (httpParserStart httpParserFirstFinal)

namespace FullRequest

def sent (req : FullRequest) : SentRequest := ⟨req.head, req.body⟩

/-- The request as it is read back. -/
def received (req : FullRequest) : HttpRequest :=
  { req.toHttpRequest with headers := req.readHeaders }

end FullRequest

namespace Printable

variable {req : FullRequest} (h : Printable false req) (hsearch : req.method ≠ .MSEARCH)
include h

lemma bytes_sent : req.sent.bytes = req.dump := (FullRequest.dump_eq h.websocket).symm

include hsearch

lemma data_sent : req.sent.data = req.headData := by
  obtain ⟨k, hlex⟩ := h.lexRun_head hsearch []
  rw [append_nil] at hlex
  exact congrArg Prod.fst hlex

lemma request_sent : req.sent.request = req.received := by
  rw [SentRequest.request, h.data_sent hsearch]
  exact req.init_headData

lemma wellFormed_sent {cfg : Config} (hcast : ReadsDecimal cfg.lexicalCast)
    (hclose : req.close = false) : req.sent.WellFormed cfg where
  complete := by
    obtain ⟨k, hlex⟩ := h.lexRun_head hsearch []
    rw [append_nil] at hlex
    have hstop := congrArg Prod.snd hlex
    exact ⟨(congrArg Lexer.cs hstop).ge, congrArg Lexer.pos hstop⟩
  accepted := congrArg CallbackData.error (h.data_sent hsearch)
  contentLength := by
    have hbody : req.body.length < 2 ^ 64 := by
      have hsize := h.size
      rw [FullRequest.dump_eq h.websocket, length_append, stringMaxSize] at hsize
      omega
    have hfind : req.headData.data.headers.find (ascii "content-length") = _ := h.find_length
    rw [h.data_sent hsearch, HttpRequest.getHeaderAs_eq, hfind]
    change _ = req.body.length
    split
    · next hnil =>
      rw [hnil]
      rfl
    · rw [Option.elim_some, hcast _ hbody, Option.getD_some, UInt64.toNat_ofNat_of_lt' hbody]
  keepAlive := (congrArg HttpRequest.close (h.request_sent hsearch)).trans hclose

end Printable

/-- Keep-alive requests of the grammar, printed one after the other, are given to the servlets
exactly if each read at the start of one ends inside it. -/
theorem dumped_requests_served {cfg : Config} (memory : Nat → HttpParser) (reqs : List FullRequest)
    {sock : Socket} (hcast : ReadsDecimal cfg.lexicalCast)
    (hreqs : ∀ req ∈ reqs, Printable false req ∧ req.method ≠ .MSEARCH ∧ req.close = false)
    (hsock : Segments.Proper sock)
    (hstream : sock.flatten = (reqs.map FullRequest.dump).flatten)
    (hwhole : AlongStream (SentRequest.HeaderWhole cfg) (reqs.map FullRequest.sent) sock) :
    handleClient cfg true memory sock = reqs.map (fun req => (req.received, [])) ↔
      AlongStream (SentRequest.Fits cfg) (reqs.map FullRequest.sent) sock := by
  have hwf : ∀ r ∈ reqs.map FullRequest.sent, r.WellFormed cfg := by
    refine forall_mem_map.mpr fun req hreq => ?_
    obtain ⟨hprint, hsearch, hclose⟩ := hreqs req hreq
    exact hprint.wellFormed_sent hsearch hcast hclose
  have hbytes : reqs.map FullRequest.dump = (reqs.map FullRequest.sent).map SentRequest.bytes := by
    rw [map_map]
    exact map_congr_left fun req hreq => (hreqs req hreq).1.bytes_sent.symm
  have hresult : reqs.map (fun req => (req.received, ([] : Bytes))) =
      (reqs.map FullRequest.sent).map fun r => (r.request, []) := by
    rw [map_map]
    refine map_congr_left fun req hreq => ?_
    rw [Function.comp, (hreqs req hreq).1.request_sent (hreqs req hreq).2.1]
  rw [hbytes] at hstream
  rw [hresult]
  refine handleLoop_iff _ (Nat.le_succ_of_le ?_) hwf hsock hstream hwhole
  have hne : Segments.Proper ((reqs.map FullRequest.sent).map SentRequest.bytes) :=
    forall_mem_map.mpr fun r hr hnil =>
      (hwf r hr).complete.ne_nil (append_eq_nil_iff.mp hnil).1
  rw [Socket.unread, hstream, ← length_map SentRequest.bytes]
  exact hne.length_le

theorem dumped_requests_served_twice :
    handleClient (decimalConfig 4096) true (fun _ => zeroMemory)
        [exampleRequest.dump, exampleRequest.head ++ ascii "he", ascii "llo"] =
      [(exampleRequest.received, []), (exampleRequest.received, [])] :=
  (dumped_requests_served _ [exampleRequest, exampleRequest] readsDecimal_readUnsigned
    (by decide +kernel) (by decide +kernel) (by decide +kernel) (by decide +kernel)).mpr
    (by decide +kernel)

end Yuyu.Http
