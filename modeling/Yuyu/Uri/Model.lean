import Yuyu.Foundation.ActionSchedule
import Yuyu.Foundation.MachineInt
import Yuyu.Foundation.Strtol
import Yuyu.Uri.Grammar

/-!
# URIs and their construction

`Uri::Create` and the getters of `yuyu/uri.rl`. The machine is executed by the rules of its
generator: all alternatives are followed at the same time, and the actions at a character take
effect once each, in the order of their embedding.
-/

namespace Yuyu.UriParsing

open Foundation (wrap32)
open Foundation.ActionMachine.Expr List
open Foundation.Strtol (strtol)
open Http (Bytes ascii)

/-- `Uri`, as its constructor leaves it. -/
structure Uri where
  scheme : Bytes := []
  userinfo : Bytes := []
  host : Bytes := []
  path : Bytes := []
  query : Bytes := []
  fragment : Bytes := []
  port : Int := 0
deriving DecidableEq

namespace Uri

def getPath (u : Uri) : Bytes := if u.path = [] then ascii "/" else u.path

def getPort (u : Uri) : Int :=
  if u.port ≠ 0 then u.port
  else if u.scheme = ascii "http" ∨ u.scheme = ascii "ws" then 80
  else if u.scheme = ascii "https" ∨ u.scheme = ascii "wss" then 443
  else u.port

end Uri

/-- The pointer `mark`, as an index in the text, and the object. -/
structure Store where
  mark : Option Nat := none
  uri : Uri := {}
deriving DecidableEq

def slice (text : Bytes) (mark fpc : Nat) : Bytes := (text.drop mark).take (fpc - mark)

/-- An action at the position `fpc`.  To build a string from a null pointer throws, and
`atoi` must not be given one. -/
def Action.perform (text : Bytes) (fpc : Nat) (s : Store) : Action → Option Store
  | .marku => some { s with mark := some fpc }
  | .markh => some { s with mark := some fpc }
  | .saveScheme => do
      let mark ← s.mark
      return { mark := none, uri := { s.uri with scheme := slice text mark fpc } }
  | .savePort =>
    if s.mark = some fpc then some { s with mark := none }
    else do
      let mark ← s.mark
      return { mark := none, uri := { s.uri with port := wrap32 (strtol 10 (text.drop mark)) } }
  | .saveUserinfo =>
    match s.mark with
    | some mark =>
      some { mark := none, uri := { s.uri with userinfo := slice text mark fpc } }
    | none => some s
  | .saveHost =>
    -- the mark stays
    match s.mark with
    | some mark => some { s with uri := { s.uri with host := slice text mark fpc } }
    | none => some s
  | .savePath =>
    match s.mark with
    | some mark =>
      some { mark := none,
             uri := { s.uri with path := if mark ≤ fpc then slice text mark fpc else [] } }
    | none => some { mark := none, uri := { s.uri with path := [] } }
  | .saveQuery => do
      let mark ← s.mark
      return { mark := none, uri := { s.uri with query := slice text mark fpc } }
  | .saveFragment => do
      let mark ← s.mark
      return { mark := none, uri := { s.uri with fragment := slice text mark fpc } }

def actionsOf (l : List Embedding) : List Action := (l.map fun x => x.site.action).eraseDups

def perform (text : Bytes) (fpc : Nat) (l : List Embedding) (s : Store) : Option Store :=
  (actionsOf l).foldlM (fun s a => a.perform text fpc s) s

lemma perform_nil (text : Bytes) (fpc : Nat) (s : Store) : perform text fpc [] s = some s := rfl

lemma perform_singleton (text : Bytes) (fpc : Nat) (x : Embedding) (s : Store) :
    perform text fpc [x] s = x.site.action.perform text fpc s := by
  rw [perform, actionsOf, map_singleton, eraseDups_cons, filter_nil, eraseDups_nil, foldlM_cons]
  exact bind_pure _

lemma perform_append (l l' : List Embedding)
    (h : ∀ x ∈ l', ∀ y ∈ l, x.site.action ≠ y.site.action) (text : Bytes) (fpc : Nat) (s : Store) :
    perform text fpc (l ++ l') s = (perform text fpc l s).bind (perform text fpc l') := by
  have hnone : (l'.map fun x => x.site.action).removeAll (l.map fun x => x.site.action)
      = l'.map fun x => x.site.action := by
    refine filter_eq_self.mpr fun a ha => ?_
    obtain ⟨x, hx, rfl⟩ := mem_map.mp ha
    simpa using fun y hy => (h x hx y hy).symm
  rw [perform, actionsOf, map_append, eraseDups_append, hnone, foldlM_append]
  rfl

/-- `Uri::Create`.  The outer `none` is an exception, the inner one a null pointer. -/
def create (uristr : Bytes) : Option (Option Uri) :=
  (exec (perform uristr) uriReference [uriReference] 0 uristr {}).map (Option.map Store.uri)

/-- On a text of the grammar, `Create` performs the actions position by position. -/
theorem create_eq_runs {uristr : Bytes} (h : uristr ∈ lang uriReference) :
    create uristr
      = (runs (perform uristr) uriReference uristr 0 {}).map fun s => some s.uri := by
  rw [create, exec_eq h, Option.map_map]
  rfl

end Yuyu.UriParsing
