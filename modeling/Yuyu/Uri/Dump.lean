import Yuyu.Foundation.Decimal
import Yuyu.Uri.Extraction

/-!
# Printing a URI

`Uri::dump` leaves out an empty part and a port that the scheme implies, and prints `/` for an empty
path.  What it prints is a text that `Uri::Create` reads.
-/

namespace Yuyu.UriParsing

open List
open Foundation.ActionMachine.Expr
open Foundation.Strtol (digitVal isDigit)
open Foundation.Decimal (decimal printInt isDigit_of_mem_decimal value_decimal decimal_ne_nil)
open Http (Bytes ascii)

namespace Uri

def isDefaultPort (u : Uri) : Bool :=
  if u.port = 0 then true
  else if u.scheme = ascii "http" ∨ u.scheme = ascii "ws" then u.port = 80
  else if u.scheme = ascii "https" ∨ u.scheme = ascii "wss" then u.port = 443
  else false

def dump (u : Uri) : Bytes :=
  u.scheme ++ ascii "://" ++ u.userinfo ++ (if u.userinfo = [] then [] else ascii "@") ++ u.host ++
    (if u.isDefaultPort then [] else ascii ":" ++ printInt u.port) ++ u.getPath ++
    (if u.query = [] then [] else ascii "?") ++ u.query ++
    (if u.fragment = [] then [] else ascii "#") ++ u.fragment

/-- The members are words of the grammar. -/
structure WellFormed (u : Uri) : Prop where
  scheme : u.scheme ∈ lang (UriParsing.scheme .uri)
  userinfo : u.userinfo ∈ lang UriParsing.userinfo
  host : u.host ∈ lang UriParsing.host
  port : 0 ≤ u.port ∧ u.port < 2 ^ 31
  path : u.path ∈ lang pathAbempty
  query : u.query ∈ lang queryChars
  fragment : u.fragment ∈ lang queryChars

end Uri

/-- A part that is printed unless it is empty. -/
def nonempty (w : Bytes) : Option Bytes := if w = [] then none else some w

lemma nonempty_mem {w v : Bytes} {e : Rx} (h : w ∈ lang e) (hv : v ∈ nonempty w) : v ∈ lang e := by
  rw [nonempty] at hv
  split at hv <;> cases hv
  exact h

lemma getD_nonempty (w : Bytes) : (nonempty w).getD [] = w := by
  rw [nonempty]
  split <;> simp_all

lemma decimal_mem_port (n : Nat) : decimal n ∈ lang port := by
  have hword : ∀ w : Bytes, (∀ c ∈ w, digit c = true) → w ∈ lang port := by
    intro w hw
    induction w with
    | nil => exact nil_mem_lang_star
    | cons c w ih =>
      refine append_mem_lang_star (w := [c]) ?_ (ih fun d hd => hw d (by simp [hd]))
      simpa using hw c (by simp)
  refine hword _ fun c hc => ?_
  have hdigit := isDigit_of_mem_decimal hc
  simp only [isDigit, digitVal] at hdigit
  simp only [digit, UInt8.le_iff_toNat_le, Bool.and_eq_true, decide_eq_true_eq]
  split_ifs at hdigit <;> simp_all <;> omega

/-- The port that is printed. -/
def Uri.portPart (u : Uri) : Option Bytes :=
  if u.isDefaultPort then none else some (decimal u.port.natAbs)

lemma portWord_portPart (u : Uri) : PortWord u.portPart := by
  intro ds hds
  rw [Uri.portPart] at hds
  split at hds <;> cases hds
  exact decimal_mem_port _

namespace Uri.WellFormed

variable {u : Uri} (h : u.WellFormed)
include h

lemma getPath_mem : u.getPath ∈ lang pathAbempty := by
  rw [Uri.getPath]
  split
  · exact (by decide +kernel : ascii "/" ∈ lang pathAbempty)
  · exact h.path

lemma portBound : PortBound u.portPart := by
  intro ds hds
  rw [portPart] at hds
  split at hds <;> cases hds
  rw [value_decimal]
  have := h.port
  omega

def components : Components where
  scheme := u.scheme
  userinfo := nonempty u.userinfo
  host := u.host
  port := u.portPart
  path := u.getPath
  query := nonempty u.query
  fragment := nonempty u.fragment
  scheme_mem := h.scheme
  userinfo_mem _ := nonempty_mem h.userinfo
  host_mem := h.host
  port_mem := portWord_portPart u
  port_lt := h.portBound
  path_mem := h.getPath_mem
  query_mem _ := nonempty_mem h.query
  fragment_mem _ := nonempty_mem h.fragment

lemma text_components : h.components.text = u.dump := by
  have hport :
      portText u.portPart = if u.isDefaultPort then [] else ascii ":" ++ printInt u.port := by
    have hpos : ¬ u.port < 0 := by
      have := h.port
      omega
    rw [portPart]
    split
    · rfl
    · simp [portText, delimited, printInt, hpos, show ascii ":" = [58] from rfl]
  have hcolon : ascii "://" = [58, 47, 47] := by decide
  have huser : userinfoText (nonempty u.userinfo) =
      u.userinfo ++ if u.userinfo = [] then [] else ascii "@" := by
    rw [nonempty]
    split
    · simp_all [userinfoText]
    · rfl
  have hpart : ∀ (d : UInt8) (w : Bytes), delimited d (nonempty w) =
      (if w = [] then [] else [d]) ++ w := by
    intro d w
    rw [nonempty]
    split <;> simp_all [delimited]
  simp only [Components.text, Components.hierText, Components.tailText, components, Uri.dump, huser,
    hport, hpart, hcolon]
  simp [show ascii "?" = [63] from rfl, show ascii "#" = [35] from rfl]

lemma stored_getPort : h.components.stored.getPort = u.getPort := by
  by_cases hdefault : u.isDefaultPort = true
  · have hzero : h.components.stored.port = 0 := by
      simp [Components.stored, components, portPart, hdefault, portRead]
    rw [Components.getPort_of_zero hzero, Uri.getPort]
    change (defaultPort u.scheme).getD 0 = _
    simp only [Uri.isDefaultPort, defaultPort] at hdefault ⊢
    split_ifs at hdefault ⊢ <;> simp_all
  · have hport : h.components.stored.port = u.port := by
      have hlow := h.port
      simp [Components.stored, components, portPart, hdefault, portRead, decimal_ne_nil,
        value_decimal, hlow.1]
    rw [Uri.getPort, Uri.getPort, hport]
    rfl

lemma stored_getPath : h.components.stored.getPath = u.getPath := by
  have hpath : h.components.stored.path = u.getPath := by
    refine if_neg fun hempty => ?_
    change u.portPart = some [] at hempty
    rw [portPart] at hempty
    split at hempty
    · cases hempty
    · exact decimal_ne_nil _ (Option.some.inj hempty)
  have hne : u.getPath ≠ [] := by
    rw [Uri.getPath]
    split
    · decide
    · assumption
  rw [Uri.getPath, hpath, if_neg hne]

lemma stored_userinfo :
    h.components.stored.userinfo = u.userinfo ↔ ¬ DigitBehindColon u.userinfo := by
  have hget : h.components.userinfo.getD [] = u.userinfo := getD_nonempty _
  have hread := h.components.stored_userinfo
  rw [hget] at hread
  rw [hread]
  change (∀ ui ∈ nonempty u.userinfo, ¬ DigitBehindColon ui) ↔ _
  by_cases hempty : u.userinfo = []
  · have hnone : ¬ DigitBehindColon [] := by
      rintro ⟨name, d, rest, hnil, -⟩
      simp at hnil
    simp [nonempty, hempty, hnone]
  · simp [nonempty, hempty]

end Uri.WellFormed

/-- Every URI of the grammar is printed as a text that `Create` accepts, and when it is read back as
it was. -/
theorem dump_roundTrip {u : Uri} (h : u.WellFormed) :
    ∃ v, create u.dump = some (some v) ∧ v.scheme = u.scheme ∧ v.host = u.host ∧
      v.getPort = u.getPort ∧ v.getPath = u.getPath ∧ v.query = u.query ∧ v.fragment = u.fragment ∧
      (v.userinfo = u.userinfo ↔ ¬ DigitBehindColon u.userinfo) :=
  ⟨h.components.stored, h.text_components ▸ create_text _, rfl, rfl, h.stored_getPort,
    h.stored_getPath, getD_nonempty _, getD_nonempty _, h.stored_userinfo⟩

def secureHost : Uri :=
  { scheme := ascii "https", userinfo := ascii "me", host := ascii "h", query := ascii "q=1",
    port := 8443 }

lemma secureHost_wellFormed : secureHost.WellFormed := by
  refine ⟨?_, ?_, ?_, by decide, ?_, ?_, ?_⟩ <;> decide +kernel

theorem dump_roundTrip_port :
    secureHost.dump = ascii "https://me@h:8443/?q=1" ∧
      ∃ v, create secureHost.dump = some (some v) ∧ v.getPort = 8443 := by
  obtain ⟨v, hv, -, -, hport, -⟩ := dump_roundTrip secureHost_wellFormed
  exact ⟨by decide +kernel, v, hv, hport⟩

end Yuyu.UriParsing
