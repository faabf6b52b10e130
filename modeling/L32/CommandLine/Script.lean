import L32.CommandLine.Report

set_option autoImplicit false

/-! # Scripts: what is asked of the system, in order

A `Script` is a piece of work as a tree of steps: to read the standard input or a file, to print a
text, to write a file, to end with a fault. The answer to a step decides how it goes on. Nothing
stands in the way of a script that prints first and fails then; that none of ours does so is a
theorem and not a matter of types.

The steps are taken by a `System`, of which nothing is assumed: it answers as it likes, depending on
its state, and only a file that is written changes that state. `Script.run` is what comes of it: the
`Event`s in their order, the state in the end, and the result. -/

namespace L32

/-- Work that ends with a value or a fault. What cannot be read or written is answered by a message
of the operating system. -/
inductive Script (α : Type) where
  | done (value : α)
  | fail (fault : Fault)
  | stdin (next : Except String String → Script α)
  | read (path : String) (next : Except String String → Script α)
  | print (text : String) (next : Script α)
  | write (path text : String) (next : Except String Unit → Script α)

namespace Script

variable {α β ε : Type}

def bind : Script α → (α → Script β) → Script β
  | done a, f => f a
  | fail fault, _ => fail fault
  | stdin next, f => stdin fun answer => (next answer).bind f
  | read path next, f => read path fun answer => (next answer).bind f
  | print text next, f => print text (next.bind f)
  | write path text next, f => write path text fun answer => (next answer).bind f

instance : Monad Script where
  pure := done
  bind := bind

/-- Goes on with a result; an error ends the script. -/
def ensure (toFault : ε → Fault) : Except ε α → Script α
  | .ok a => done a
  | .error e => fail (toFault e)

def printAll : List String → Script Unit
  | [] => done ()
  | t :: ts => print t (printAll ts)

end Script

/-! ## Taking the steps -/

/-- What answers a script: what is on the standard input, what is found at a path, and which state a
write leads to. One that fails leads to none. -/
structure System (σ : Type) where
  stdin : Except String String
  read : σ → String → Except String String
  write : σ → String → String → Except String σ

/-- A step that was taken. A write is one that succeeded. -/
inductive Event where
  | stdin
  | read (path : String)
  | print (text : String)
  | write (path text : String)
  deriving DecidableEq, Repr

namespace Event

/-- Whether a step can be noticed by nobody but the script. -/
def isInput : Event → Bool
  | stdin | read _ => true
  | print _ | write _ _ => false

def printed? : Event → Option String
  | print text => some text
  | _ => none

def written? : Event → Option (String × String)
  | write path text => some (path, text)
  | _ => none

end Event

/-- All that comes of a script. The result is there when all events have happened. -/
structure Run (σ α : Type) where
  events : List Event
  state : σ
  result : Except Fault α

namespace Run

variable {σ α β : Type}

/-- A run with one more event in front. -/
def after (event : Event) (run : Run σ α) : Run σ α :=
  { run with events := event :: run.events }

/-- A run that goes on with the result of a first one, from the state in which that has ended. -/
def andThen (run : Run σ α) (next : α → σ → Run σ β) : Run σ β :=
  match run.result with
  | .ok a => { next a run.state with events := run.events ++ (next a run.state).events }
  | .error fault => ⟨run.events, run.state, .error fault⟩

def fault (run : Run σ α) : Option Fault :=
  match run.result with
  | .ok _ => none
  | .error fault => some fault

def failure (run : Run σ α) : Option Failure := run.fault.map Fault.failure

def message (wording : Wording) (run : Run σ α) : Option String :=
  run.fault.map (Fault.message wording)

def exitCode (run : Run σ α) : Nat := (run.fault.map Fault.exitCode).getD 0

def stdout (run : Run σ α) : String := String.join (run.events.filterMap Event.printed?)

/-- The files that were written, with what was written to them. -/
def written (run : Run σ α) : List (String × String) := run.events.filterMap Event.written?

end Run

namespace Script

variable {σ α : Type}

/-- **Runs a script** on a system in a state. -/
def run (system : System σ) : Script α → σ → Run σ α
  | done a, s => ⟨[], s, .ok a⟩
  | fail fault, s => ⟨[], s, .error fault⟩
  | stdin next, s => (run system (next system.stdin) s).after .stdin
  | read path next, s => (run system (next (system.read s path)) s).after (.read path)
  | print text next, s => (run system next s).after (.print text)
  | write path text next, s =>
    match system.write s path text with
    | .ok s' => (run system (next (.ok ())) s').after (.write path text)
    | .error message => run system (next (.error message)) s

/-- What a script comes to on a system in a state. -/
def answer (system : System σ) (s : σ) (script : Script α) : Except Fault α :=
  (script.run system s).result

end Script

end L32
