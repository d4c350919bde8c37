import Yuyu.Foundation.ActionMachine
import Yuyu.Http.Request

/-!
# The grammar of URIs

The machine `uri_parser` of `yuyu/uri.rl` under the names it has there. Embeddings are told apart by
the place and by the branch of `URI_reference` they are in. Quotation marks are missing around one
digit of `dec_octet`.
-/

namespace Yuyu.UriParsing

open Foundation.ActionMachine (Expr)
open Foundation.ActionMachine.Expr
open Http (ascii)

inductive Action where
  | marku
  | markh
  | saveScheme
  | saveUserinfo
  | saveHost
  | savePort
  | savePath
  | saveQuery
  | saveFragment
deriving DecidableEq

inductive Site where
  | markScheme
  | saveScheme
  | markAuthority
  | saveUserinfo
  | markHost
  | saveHost
  | markPort
  | savePort
  | markPath
  | savePath
  | markQuery
  | saveQuery
  | markFragment
  | saveFragment
deriving DecidableEq

def Site.action : Site → Action
  | .markScheme => .marku
  | .saveScheme => .saveScheme
  | .markAuthority => .markh
  | .saveUserinfo => .saveUserinfo
  | .markHost => .markh
  | .saveHost => .saveHost
  | .markPort => .markh
  | .savePort => .savePort
  | .markPath => .markh
  | .savePath => .savePath
  | .markQuery => .marku
  | .saveQuery => .saveQuery
  | .markFragment => .marku
  | .saveFragment => .saveFragment

/-- The branches of `URI_reference`. -/
inductive Branch where
  | uri
  | relativeRef
deriving DecidableEq

structure Embedding where
  branch : Branch
  site : Site
deriving DecidableEq

abbrev Rx := Expr UInt8 Embedding

def alpha (c : UInt8) : Bool := (65 ≤ c && c ≤ 90) || (97 ≤ c && c ≤ 122)

def digit (c : UInt8) : Bool := 48 ≤ c && c ≤ 57

def xdigit (c : UInt8) : Bool := digit c || (65 ≤ c && c ≤ 70) || (97 ≤ c && c ≤ 102)

def subDelims (c : UInt8) : Bool := c ∈ ascii "!$&'()*+,;="

def unreserved (c : UInt8) : Bool := alpha c || digit c || c ∈ ascii "-._~"

def ch (c : UInt8) : Rx := sym (· == c)

def pctEncoded : Rx := seq (ch 37) (seq (sym xdigit) (sym xdigit))

def userinfo : Rx := star (alt (sym unreserved) (alt pctEncoded (alt (sym subDelims) (ch 58))))

def decOctet : Rx :=
  alt (sym digit)
    (alt (seq (sym fun c => 49 ≤ c && c ≤ 57) (sym digit))
      (alt (seq (ch 49) (times (sym digit) 2))
        (alt (seq (ch 2) (seq (sym fun c => 48 ≤ c && c ≤ 52) (sym digit)))
          (seq (ch 50) (seq (ch 53) (sym fun c => 48 ≤ c && c ≤ 53))))))

def ipv4Address : Rx :=
  seq decOctet (seq (ch 46) (seq decOctet (seq (ch 46) (seq decOctet (seq (ch 46) decOctet)))))

def h16 : Rx := between (sym xdigit) 1 3

/-- `h16 ":"`. -/
def h16Colon : Rx := seq h16 (ch 58)

def ls32 : Rx := alt (seq h16 (seq (ch 58) h16)) ipv4Address

/-- `((h16 ":")\x7bn\x7d h16)? "::"` with what follows. -/
def compressed (n : Nat) (e : Rx) : Rx :=
  seq (opt (seq (times h16Colon n) h16)) (seq (ch 58) (seq (ch 58) e))

def ipv6Address : Rx :=
  alt (seq (times h16Colon 6) ls32)
    (alt (seq (ch 58) (seq (ch 58) (seq (times h16Colon 5) ls32)))
      (alt (compressed 0 (seq (times h16Colon 4) ls32))
        (alt (compressed 1 (seq (times h16Colon 3) ls32))
          (alt (compressed 2 (seq (times h16Colon 2) ls32))
            (alt (compressed 3 (seq (times h16Colon 1) ls32))
              (alt (compressed 4 ls32)
                (alt (compressed 5 h16) (compressed 6 eps))))))))

def ipvFuture : Rx :=
  seq (ch 118) (seq (plus (sym xdigit))
    (seq (ch 46) (plus (alt (sym unreserved) (alt (sym subDelims) (ch 58))))))

def ipLiteral : Rx := seq (ch 91) (seq (alt ipv6Address ipvFuture) (ch 93))

def regName : Rx := star (alt (sym unreserved) (alt pctEncoded (sym subDelims)))

def host : Rx := alt ipLiteral (alt ipv4Address regName)

def port : Rx := star (sym digit)

def pchar : Rx :=
  alt (sym fun c => 128 ≤ c) (alt (sym unreserved)
    (alt pctEncoded (alt (sym subDelims) (alt (ch 58) (ch 64)))))

/-- `pchar - ":"`. -/
def pcharNoColon : Rx :=
  alt (sym fun c => 128 ≤ c) (alt (sym unreserved)
    (alt pctEncoded (alt (sym subDelims) (ch 64))))

def segment : Rx := star pchar

/-- `("/" segment)*`. -/
def segments : Rx := star (seq (ch 47) segment)

def pathAbempty : Rx := seq (opt (seq (ch 47) segment)) segments

def pathAbsolute : Rx := seq (ch 47) (opt (seq (plus pchar) segments))

def pathNoscheme : Rx := seq (plus pcharNoColon) segments

def pathRootless : Rx := seq (plus pchar) segments

def queryChars : Rx := star (alt pchar (alt (ch 47) (ch 63)))

section Machine

variable (b : Branch)

def marked (enterSite leaveSite : Site) (e : Rx) : Rx :=
  leave ⟨b, leaveSite⟩ (enter ⟨b, enterSite⟩ e)

def scheme : Rx :=
  marked b .markScheme .saveScheme
    (seq (sym alpha) (star (alt (sym alpha) (alt (sym digit) (alt (ch 43) (alt (ch 45) (ch 46)))))))

/-- `userinfo %save_userinfo "@"`. -/
def userinfoAt : Rx := seq (leave ⟨b, .saveUserinfo⟩ userinfo) (ch 64)

/-- `(":" port >markh %save_port)?`. -/
def colonPort : Rx := opt (seq (ch 58) (marked b .markPort .savePort port))

/-- `host >markh %save_host (":" port >markh %save_port)?`. -/
def hostPort : Rx := seq (marked b .markHost .saveHost host) (colonPort b)

def authority : Rx := enter ⟨b, .markAuthority⟩ (seq (opt (userinfoAt b)) (hostPort b))

def query : Rx := marked b .markQuery .saveQuery queryChars

def fragment : Rx := marked b .markFragment .saveFragment queryChars

/-- `( "?" query )?`. -/
def questionQuery : Rx := opt (seq (ch 63) (query b))

/-- `( "#" fragment )?`. -/
def hashFragment : Rx := opt (seq (ch 35) (fragment b))

/-- `path_abempty > markh %save_path`. -/
def savedPath : Rx := marked b .markPath .savePath pathAbempty

def hierPart : Rx :=
  alt (seq (ch 47) (seq (ch 47) (seq (authority b) (savedPath b))))
    (alt pathAbsolute (alt pathRootless eps))

/-- `relative_part`.  Its path is not saved. -/
def relativePart : Rx :=
  alt (seq (ch 47) (seq (ch 47) (seq (authority b) pathAbempty)))
    (alt pathAbsolute (alt pathNoscheme eps))

end Machine

def relativeRef : Rx :=
  seq (relativePart .relativeRef)
    (seq (questionQuery .relativeRef) (hashFragment .relativeRef))

def uri : Rx :=
  seq (scheme .uri)
    (seq (ch 58) (seq (hierPart .uri) (seq (questionQuery .uri) (hashFragment .uri))))

/-- `URI_reference`, which is `main`. -/
def uriReference : Rx := alt uri relativeRef

lemma embeddings_parts :
    userinfo.embeddings = [] ∧ host.embeddings = [] ∧ port.embeddings = []
      ∧ pathAbempty.embeddings = [] ∧ queryChars.embeddings = []
      ∧ (alt pathAbsolute (alt pathRootless eps)).embeddings = []
      ∧ (alt pathAbsolute (alt pathNoscheme eps)).embeddings = [] := by
  decide +kernel

lemma embeddings_userinfo : userinfo.embeddings = [] := embeddings_parts.1

lemma embeddings_host : host.embeddings = [] := embeddings_parts.2.1

lemma embeddings_port : port.embeddings = [] := embeddings_parts.2.2.1

lemma embeddings_pathAbempty : pathAbempty.embeddings = [] := embeddings_parts.2.2.2.1

lemma embeddings_queryChars : queryChars.embeddings = [] := embeddings_parts.2.2.2.2.1

lemma embeddings_otherPaths :
    (alt pathAbsolute (alt pathRootless eps)).embeddings = []
      ∧ (alt pathAbsolute (alt pathNoscheme eps)).embeddings = [] := embeddings_parts.2.2.2.2.2

lemma nodup_uriReference : uriReference.embeddings.Nodup := by decide +kernel

lemma nodup_uri : uri.embeddings.Nodup := (nodup_alt nodup_uriReference).1

lemma nodup_hierTail :
    (seq (hierPart .uri) (seq (questionQuery .uri) (hashFragment .uri))).embeddings.Nodup :=
  (nodup_seq (nodup_seq nodup_uri).2.1).2.1

lemma nodup_authorityPath : (seq (authority .uri) (savedPath .uri)).embeddings.Nodup :=
  (nodup_seq (nodup_seq (nodup_alt (nodup_seq nodup_hierTail).1).1).2.1).2.1

lemma nodup_authority : (authority .uri).embeddings.Nodup := (nodup_seq nodup_authorityPath).1

lemma nodup_unmarkedAuthority :
    (seq (opt (userinfoAt .uri)) (hostPort .uri)).embeddings.Nodup :=
  (nodup_enter nodup_authority).2

end Yuyu.UriParsing
