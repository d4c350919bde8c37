import Yuyu.Hook.FreshContext
import Yuyu.Hook.Model

/-!
# Send and receive timeouts

Every hooked function hands `SO_RCVTIMEO` to `do_io`, the writing ones too. `do_io` arms its timer
with the whole timeout again whenever the function still blocks after the descriptor was reported
ready.
-/

namespace Yuyu.Hook

open Foundation

/-- A valid `timeval` whose milliseconds fit in a `long`. -/
structure Timeval where
  sec : Nat
  usec : Nat
  usec_lt : usec < 10 ^ 6
  fits : sec * 1000 + usec / 1000 < 2 ^ 63
deriving DecidableEq

namespace Timeval

def us (t : Timeval) : Nat := t.sec * 10 ^ 6 + t.usec

def ms (t : Timeval) : Nat := t.sec * 1000 + t.usec / 1000

end Timeval

/-- A call of `setsockopt` with one of the two timeouts. -/
structure SetTimeout where
  so : TimeoutSo
  value : Timeval
deriving DecidableEq

def lastTimeout (so : TimeoutSo) : List SetTimeout → Option Timeval
  | [] => none
  | c :: history => (lastTimeout so history).or (if c.so = so then some c.value else none)

/-- The delay with which `do_io` arms its timer if the function would block, and `none`
if it waits without a timer. -/
def FdCtx.delay (ctx : FdCtx) (fn : IoFun) : Option Nat :=
  let timeout := (Call.io fn).timeout ctx
  if timeout ≠ noTimeout then some timeout else none

/-- The time that a call of `do_io` waits altogether, `none` if for ever. The list has the lengths
of the suspensions after which the function blocks again. -/
def FdCtx.waits (ctx : FdCtx) (fn : IoFun) : List Nat → Option Nat
  | [] => ctx.delay fn
  | d :: wakes =>
    if ∃ t ∈ ctx.delay fn, t ≤ d then ctx.delay fn
    else (ctx.waits fn wakes).map (d + ·)

def FdCtx.after (ctx : FdCtx) (history : List SetTimeout) : FdCtx :=
  { ctx with
    recvTimeout := ((lastTimeout .rcv history).map Timeval.ms).getD ctx.recvTimeout
    sendTimeout := ((lastTimeout .snd history).map Timeval.ms).getD ctx.sendTimeout }

end Yuyu.Hook
