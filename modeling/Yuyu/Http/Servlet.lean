import Yuyu.Foundation.RecentTable
import Yuyu.Http.Request
import Mathlib.Order.Nat

/-!
# Servlet routing

`ServletDispatch` keeps servlets for exact paths in a hash map and servlets for patterns in a
vector, in which registering a pattern again moves it to the end.
-/

namespace Yuyu.Http
namespace Routing

open Foundation Foundation.RecentTable Function

/-- Servlets: `S` are the objects of the program, `C` the callbacks of `FunctionServlet`. -/
inductive Servlet (S C : Type)
  | custom (slt : S)
  | function (cb : C)
  | notFound (name : String)

inductive Creator (S C T : Type)
  | hold (slt : Servlet S C)
  | servlet (t : T)

variable {S C T : Type}

def Creator.get (create : T → S) : Creator S C T → Servlet S C
  | .hold slt => slt
  | .servlet t => .custom (create t)

structure ServletDispatch (S C T : Type) where
  datas : Bytes → Option (Creator S C T)
  globs : List (Bytes × Creator S C T)
  default : Servlet S C

namespace ServletDispatch

def new : ServletDispatch S C T :=
  { datas := fun _ => none, globs := [], default := .notFound "yuyu/1.0" }

def addServletCreator (d : ServletDispatch S C T) (uri : Bytes) (creator : Creator S C T) :
    ServletDispatch S C T := { d with datas := update d.datas uri (some creator) }

def addServlet (d : ServletDispatch S C T) (uri : Bytes) (slt : Servlet S C) :
    ServletDispatch S C T := { d with datas := update d.datas uri (some (.hold slt)) }

def addServletFunction (d : ServletDispatch S C T) (uri : Bytes) (cb : C) :
    ServletDispatch S C T :=
  { d with datas := update d.datas uri (some (.hold (.function cb))) }

def addGlobServletCreator (d : ServletDispatch S C T) (uri : Bytes) (creator : Creator S C T) :
    ServletDispatch S C T := { d with globs := d.globs.eraseP (·.1 = uri) ++ [(uri, creator)] }

def addGlobServlet (d : ServletDispatch S C T) (uri : Bytes) (slt : Servlet S C) :
    ServletDispatch S C T := { d with globs := d.globs.eraseP (·.1 = uri) ++ [(uri, .hold slt)] }

def addGlobServletFunction (d : ServletDispatch S C T) (uri : Bytes) (cb : C) :
    ServletDispatch S C T := d.addGlobServlet uri (.function cb)

def delServlet (d : ServletDispatch S C T) (uri : Bytes) : ServletDispatch S C T :=
  { d with datas := update d.datas uri none }

def delGlobServlet (d : ServletDispatch S C T) (uri : Bytes) : ServletDispatch S C T :=
  { d with globs := d.globs.eraseP (·.1 = uri) }

def setDefault (d : ServletDispatch S C T) (v : Servlet S C) : ServletDispatch S C T :=
  { d with default := v }

end ServletDispatch

inductive Call (S C T : Type)
  | addServlet (uri : Bytes) (slt : Servlet S C)
  | addServletFunction (uri : Bytes) (cb : C)
  | addServletCreator (uri : Bytes) (creator : Creator S C T)
  | addGlobServlet (uri : Bytes) (slt : Servlet S C)
  | addGlobServletFunction (uri : Bytes) (cb : C)
  | addGlobServletCreator (uri : Bytes) (creator : Creator S C T)
  | delServlet (uri : Bytes)
  | delGlobServlet (uri : Bytes)
  | setDefault (v : Servlet S C)

namespace Call

def apply (d : ServletDispatch S C T) : Call S C T → ServletDispatch S C T
  | .addServlet uri slt => d.addServlet uri slt
  | .addServletFunction uri cb => d.addServletFunction uri cb
  | .addServletCreator uri creator => d.addServletCreator uri creator
  | .addGlobServlet uri slt => d.addGlobServlet uri slt
  | .addGlobServletFunction uri cb => d.addGlobServletFunction uri cb
  | .addGlobServletCreator uri creator => d.addGlobServletCreator uri creator
  | .delServlet uri => d.delServlet uri
  | .delGlobServlet uri => d.delGlobServlet uri
  | .setDefault v => d.setDefault v

def exact : Call S C T → Option (Bytes × Option (Creator S C T))
  | .addServlet uri slt => some (uri, some (.hold slt))
  | .addServletFunction uri cb => some (uri, some (.hold (.function cb)))
  | .addServletCreator uri creator => some (uri, some creator)
  | .delServlet uri => some (uri, none)
  | _ => none

end Call

def run (calls : List (Call S C T)) : ServletDispatch S C T := calls.foldl Call.apply .new

variable {calls : List (Call S C T)} {path : Bytes}

variable {create : T → S} {fnmatch : Bytes → Bytes → Bool} {slt : Servlet S C}

end Routing
end Yuyu.Http
