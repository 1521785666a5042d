import LibNekit.Library.Program
import LibNekit.Source.ThirdParty.HttpParser.Types

/-!
# `http_parser`: marks, callbacks and early returns

The parser is a program that asks for its callbacks: a data callback is told which
part of `data` it is given, and each callback answers with its return value and
whether it paused the parser.

A delegate may edit the Buffer that `data` points into, but only in a callback that
also pauses the parser, after which `data` is not read again. So `data` is a value.
-/
namespace LibNekit.Source.HttpParser

open LibNekit.Library

inductive Callback where
  | notify (callback : NotifyCallback)
  /-- `at = data + start` -/
  | data (callback : DataCallback) (start length : Nat)
  deriving DecidableEq, Repr

/-- What a callback returned, and whether it called `http_parser_pause(parser, 1)`. -/
structure Reply where
  code : Int := 0
  paused : Bool := false
  deriving DecidableEq, Repr

/-- The parser stops when a callback failed or paused it. -/
def Reply.Stops (reply : Reply) : Prop := reply.code ≠ 0 ∨ reply.paused = true

/-- `FOR##_mark` for each data callback, as an index into `data`. -/
abbrev Marks := DataCallback → Option Nat

/-- The locals of the loop. -/
structure Frame where
  p : Nat
  parser : HttpParser
  marks : Marks

/-- How a piece of the function ends: it falls through, or it returns. -/
inductive Flow (α : Type) where
  | next (a : α)
  | exit (consumed : Nat) (parser : HttpParser)

def Run (α : Type) : Type := Program Callback Reply Fault (Flow α)

namespace Run

variable {α β : Type}

def next (a : α) : Run α := Program.done (.next a)

/-- `RETURN(consumed)` -/
def exit (consumed : Nat) (parser : HttpParser) : Run α := Program.done (.exit consumed parser)

def fault (e : Fault) : Run α := Program.fail e

def ask (callback : Callback) (next : Reply → Run α) : Run α := Program.ask callback next

def bind (step : Run α) (f : α → Run β) : Run β :=
  Program.bind step fun
    | .next a => f a
    | .exit consumed parser => Run.exit consumed parser

instance : Monad Run where
  pure := Run.next
  bind := Run.bind

instance : MonadLift Checked Run where
  monadLift
    | .ok a => Run.next a
    | .error e => Run.fault e

/-- What the caller of the parser gets. -/
def result (run : Run Frame) : Program Callback Reply Fault (Nat × HttpParser) :=
  Program.bind run fun
    | .exit consumed parser => .done (consumed, parser)
    | .next f => .done (f.p, f.parser)

@[simp] theorem next_bind (a : α) (f : α → Run β) : (Run.next a >>= f) = f a := rfl
@[simp] theorem exit_bind (n : Nat) (parser : HttpParser) (f : α → Run β) :
    (Run.exit n parser >>= f) = Run.exit n parser := rfl
@[simp] theorem fault_bind (e : Fault) (f : α → Run β) : (Run.fault e >>= f) = Run.fault e := rfl
@[simp] theorem ask_bind (callback : Callback) (next : Reply → Run α) (f : α → Run β) :
    (Run.ask callback next >>= f) = Run.ask callback fun r => next r >>= f := rfl
@[simp] theorem lift_ok (a : α) : (liftM (.ok a : Checked α) : Run α) = Run.next a := rfl
@[simp] theorem lift_error (e : Fault) :
    (liftM (.error e : Checked α) : Run α) = Run.fault e := rfl

theorem bind_assoc {γ : Type} (step : Run α) (f : α → Run β) (g : β → Run γ) :
    (step >>= f >>= g) = step >>= fun a => f a >>= g := by
  refine (Program.bind_assoc _ _ _).trans (congrArg (Program.bind step) (funext fun flow => ?_))
  cases flow <;> rfl

end Run

namespace Frame

@[simps] def goTo (f : Frame) (state : ParserState) : Frame :=
  { f with parser := f.parser.goTo state }

/-- `goto error` -/
def error {α : Type} (f : Frame) (errno : HttpErrno) : Run α :=
  Run.exit f.p (f.parser.setErrno errno)

/-- `MARK(callback)` -/
def mark (f : Frame) (callback : DataCallback) : Frame :=
  if (f.marks callback).isSome then f
  else { f with marks := Function.update f.marks callback (some f.p) }

/-- `COUNT_HEADER_SIZE(count)` -/
def countHeaderSize (f : Frame) (count : Nat) : Run Frame :=
  let f := { f with parser := f.parser.counted count }
  if maxHeaderSize < f.parser.nread then f.error .headerOverflow else Run.next f

end Frame

/-! ## Callbacks -/

/-- `http_errno` after a callback. -/
def Reply.errno (reply : Reply) (failed : HttpErrno) : HttpErrno :=
  if reply.code ≠ 0 then failed else if reply.paused then .paused else .ok

/-- `CALLBACK_NOTIFY_(callback, er)` -/
def callbackNotify (callback : NotifyCallback) (er : Nat) (f : Frame) : Run Frame :=
  if f.parser.httpErrno ≠ .ok then Run.fault .assertion
  else Run.ask (.notify callback) fun reply =>
    let parser := f.parser.setErrno (reply.errno (.cbNotify callback))
    if parser.httpErrno ≠ .ok then Run.exit er parser else Run.next { f with parser }

/-- `CALLBACK_DATA_(callback, stop - mark, er)` -/
def callbackDataTo (callback : DataCallback) (stop er : Nat) (f : Frame) : Run Frame :=
  if f.parser.httpErrno ≠ .ok then Run.fault .assertion
  else
    match f.marks callback with
    | none => Run.next f
    | some start => Run.ask (.data callback start (stop - start)) fun reply =>
      let parser := f.parser.setErrno (reply.errno (.cbData callback))
      if parser.httpErrno ≠ .ok then Run.exit er parser
      else Run.next { f with parser, marks := Function.update f.marks callback none }

/-- `CALLBACK_DATA(callback)` -/
def callbackData (callback : DataCallback) (f : Frame) : Run Frame :=
  callbackDataTo callback f.p (f.p + 1) f

/-- `CALLBACK_DATA_NOADVANCE(callback)` -/
def callbackDataNoAdvance (callback : DataCallback) (f : Frame) : Run Frame :=
  callbackDataTo callback f.p f.p f

end LibNekit.Source.HttpParser
