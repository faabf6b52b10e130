import L32.CommandLine.Script
import Mathlib.Tactic.Common

set_option autoImplicit false

/-! # What comes of a script

The events of a run are steps of its script, so what all steps of a script satisfy, all events
satisfy (`Takes.forall_events`). The state is changed by writes alone (`state_of_written_eq_nil`).

`OutputsLast` says of a script that it cannot fail any more once it has printed or written
something. It is a property of the tree of steps. What it means for a run is `OutputsLast.of_fault`:
a run that ends with a fault has neither printed nor written anything, on whatever system. The
property is built up along the script: first it only reads, and then it never fails, except that a
write may be refused (`OutputsLast.bind`, `NeverFails.printAll`). -/

namespace L32

/-! ## Runs one after the other -/

theorem Fault.exitCode_ne_zero (fault : Fault) : fault.exitCode ≠ 0 := by
  cases fault <;> simp [exitCode, failure, Failure.exitCode]

namespace Run

variable {σ α β : Type}

theorem after_andThen (event : Event) (run : Run σ α) (next : α → σ → Run σ β) :
    (run.after event).andThen next = (run.andThen next).after event := by
  unfold andThen
  simp only [after]
  cases run.result <;> rfl

/-- The exit code is zero exactly if there is a result. -/
theorem exitCode_eq_zero_iff {run : Run σ α} : run.exitCode = 0 ↔ ∃ a, run.result = .ok a := by
  unfold exitCode Run.fault
  cases run.result with
  | ok a => simp
  | error fault => simp [fault.exitCode_ne_zero]

end Run

/-! ## Events that can be noticed by nobody -/

namespace Event

theorem printed?_of_isInput (e : Event) (h : e.isInput = true) : e.printed? = none := by
  cases e <;> trivial

theorem written?_of_isInput (e : Event) (h : e.isInput = true) : e.written? = none := by
  cases e <;> trivial

theorem filterMap_of_inputs {γ : Type} {f : Event → Option γ}
    (hf : ∀ e : Event, e.isInput = true → f e = none) {es : List Event}
    (h : ∀ e ∈ es, e.isInput = true) : es.filterMap f = [] :=
  List.filterMap_eq_nil_iff.2 fun e he => hf e (h e he)

end Event

namespace Run

variable {σ α : Type} {es : List Event}

theorem stdout_append (h : ∀ e ∈ es, e.isInput = true) (es' : List Event) (s : σ)
    (r : Except Fault α) : stdout ⟨es ++ es', s, r⟩ = stdout ⟨es', s, r⟩ := by
  unfold stdout
  rw [List.filterMap_append, Event.filterMap_of_inputs Event.printed?_of_isInput h, List.nil_append]

theorem written_append (h : ∀ e ∈ es, e.isInput = true) (es' : List Event) (s : σ)
    (r : Except Fault α) : written ⟨es ++ es', s, r⟩ = written ⟨es', s, r⟩ := by
  unfold written
  rw [List.filterMap_append, Event.filterMap_of_inputs Event.written?_of_isInput h, List.nil_append]

theorem stdout_of_inputs {run : Run σ α} (h : ∀ e ∈ run.events, e.isInput = true) :
    run.stdout = "" := by
  unfold stdout
  rw [Event.filterMap_of_inputs Event.printed?_of_isInput h, String.join_nil]

theorem written_of_inputs {run : Run σ α} (h : ∀ e ∈ run.events, e.isInput = true) :
    run.written = [] :=
  Event.filterMap_of_inputs Event.written?_of_isInput h

/-- All that can be seen of a run that has only read and then failed. -/
theorem fails_of_eq {run : Run σ α} {s : σ} {fault : Fault} (h : run = ⟨es, s, .error fault⟩)
    (hes : ∀ e ∈ es, e.isInput = true) (wording : Wording) :
    (run.failure = some fault.failure ∧ run.stdout = "" ∧ run.state = s)
      ∧ run.message wording = some (fault.message wording) := by
  subst h
  exact ⟨⟨rfl, stdout_of_inputs hes, rfl⟩, rfl⟩

theorem stdout_prints (ts : List String) (s : σ) (r : Except Fault α) :
    stdout ⟨ts.map .print, s, r⟩ = String.join ts := by
  unfold stdout
  rw [List.filterMap_map]
  exact congrArg String.join List.filterMap_some

end Run

namespace Script

variable {σ α β ε : Type} {system : System σ}

theorem run_bind (x : Script α) (f : α → Script β) (s : σ) :
    (x >>= f).run system s = (x.run system s).andThen fun a s' => (f a).run system s' := by
  induction x generalizing s with
  | done a => rfl
  | fail fault => rfl
  | stdin next ih =>
      rw [run, Run.after_andThen, ← ih]
      rfl
  | read path next ih =>
      rw [run, Run.after_andThen, ← ih]
      rfl
  | print text next ih =>
      rw [run, Run.after_andThen, ← ih]
      rfl
  | write path text next ih =>
      show run system (write path text fun answer => next answer >>= f) s = _
      rw [run, run]
      cases system.write s path text with
      | ok s' =>
          simp only
          rw [ih, Run.after_andThen]
      | error message => exact ih _ s

theorem join_singleton (t : String) : String.join [t] = t := by
  rw [String.join_cons, String.join_nil, String.append_empty]

theorem run_printAll (ts : List String) (s : σ) :
    (printAll ts).run system s = ⟨ts.map .print, s, .ok ()⟩ := by
  induction ts with
  | nil => rfl
  | cons t ts ih =>
      rw [printAll, run, ih]
      rfl

@[simp] theorem answer_done (a : α) (s : σ) : (done a).answer system s = .ok a := rfl

@[simp] theorem answer_fail (fault : Fault) (s : σ) :
    (fail fault : Script α).answer system s = .error fault := rfl

@[simp] theorem answer_ensure (toFault : ε → Fault) (r : Except ε α) (s : σ) :
    (ensure toFault r).answer system s = r.mapError toFault := by
  cases r <;> rfl

/-- Only a write changes the state. -/
theorem state_of_written_eq_nil (x : Script α) {s : σ} (h : (x.run system s).written = []) :
    (x.run system s).state = s := by
  induction x generalizing s with
  | done a => rfl
  | fail fault => rfl
  | stdin next ih => exact ih _ h
  | read path next ih => exact ih _ h
  | print text next ih => exact ih h
  | write path text next ih =>
      rw [run] at h ⊢
      cases hwrite : system.write s path text with
      | ok s' =>
          rw [hwrite] at h
          cases h
      | error message =>
          rw [hwrite] at h
          exact ih _ h

/-! ## The steps that a script can take -/

/-- All steps that a script can take satisfy `P`, whatever it is answered. -/
def Takes (P : Event → Prop) : Script α → Prop
  | done _ | fail _ => True
  | stdin next => P .stdin ∧ ∀ answer, (next answer).Takes P
  | read path next => P (.read path) ∧ ∀ answer, (next answer).Takes P
  | print text next => P (.print text) ∧ next.Takes P
  | write path text next => P (.write path text) ∧ ∀ answer, (next answer).Takes P

section Takes

variable {P : Event → Prop} {x : Script α}

theorem Takes.mono {Q : Event → Prop} (hx : x.Takes P) (h : ∀ e, P e → Q e) : x.Takes Q := by
  induction x with
  | done a => trivial
  | fail fault => trivial
  | stdin next ih => exact ⟨h _ hx.1, fun answer => ih answer (hx.2 answer)⟩
  | read path next ih => exact ⟨h _ hx.1, fun answer => ih answer (hx.2 answer)⟩
  | print text next ih => exact ⟨h _ hx.1, ih hx.2⟩
  | write path text next ih => exact ⟨h _ hx.1, fun answer => ih answer (hx.2 answer)⟩

theorem Takes.bind {f : α → Script β} (hx : x.Takes P) (hf : ∀ a, (f a).Takes P) :
    (x >>= f).Takes P := by
  induction x with
  | done a => exact hf a
  | fail fault => exact hx
  | stdin next ih => exact ⟨hx.1, fun answer => ih answer (hx.2 answer)⟩
  | read path next ih => exact ⟨hx.1, fun answer => ih answer (hx.2 answer)⟩
  | print text next ih => exact ⟨hx.1, ih hx.2⟩
  | write path text next ih => exact ⟨hx.1, fun answer => ih answer (hx.2 answer)⟩

theorem Takes.ensure (toFault : ε → Fault) (r : Except ε α) : (ensure toFault r).Takes P := by
  cases r <;> trivial

theorem Takes.printAll {ts : List String} (h : ∀ t ∈ ts, P (.print t)) :
    (printAll ts).Takes P := by
  induction ts with
  | nil => trivial
  | cons t ts ih => exact ⟨h t List.mem_cons_self, ih fun u hu => h u (List.mem_cons_of_mem t hu)⟩

/-- **What is true of the steps of a script is true of the events of its runs.** -/
theorem Takes.forall_events (h : x.Takes P) (s : σ) : ∀ e ∈ (x.run system s).events, P e := by
  induction x generalizing s with
  | done a => exact fun _ he => nomatch he
  | fail fault => exact fun _ he => nomatch he
  | stdin next ih => exact List.forall_mem_cons.2 ⟨h.1, ih _ (h.2 _) s⟩
  | read path next ih => exact List.forall_mem_cons.2 ⟨h.1, ih _ (h.2 _) s⟩
  | print text next ih => exact List.forall_mem_cons.2 ⟨h.1, ih h.2 s⟩
  | write path text next ih =>
      rw [run]
      cases system.write s path text with
      | ok s' => exact List.forall_mem_cons.2 ⟨h.1, ih _ (h.2 _) s'⟩
      | error message => exact ih _ (h.2 _) s

end Takes

/-! ## Scripts that only read -/

/-- Nothing is printed or written. -/
def OnlyReads (x : Script α) : Prop := x.Takes fun e => e.isInput = true

section OnlyReads

variable {x : Script α} {s : σ}

theorem OnlyReads.forall_events (hx : x.OnlyReads) :
    ∀ e ∈ (x.run system s).events, e.isInput = true :=
  Takes.forall_events hx s

theorem OnlyReads.writesNothing (hx : x.OnlyReads) : x.Takes fun e => e.written? = none :=
  Takes.mono hx Event.written?_of_isInput

theorem OnlyReads.state_eq (hx : x.OnlyReads) : (x.run system s).state = s :=
  state_of_written_eq_nil x (Run.written_of_inputs hx.forall_events)

/-- What is done with the result of reading happens in the state in which the reading happened. -/
theorem OnlyReads.answer_bind (hx : x.OnlyReads) (f : α → Script β) :
    (x >>= f).answer system s = x.answer system s >>= fun a => (f a).answer system s := by
  unfold answer
  rw [run_bind, Run.andThen, hx.state_eq]
  cases (x.run system s).result <;> rfl

/-- A script that reads and then prints prints nothing if the reading fails. -/
theorem OnlyReads.run_of_error (hx : x.OnlyReads) {fault : Fault}
    (h : x.answer system s = .error fault) (texts : α → List String) :
    (x >>= fun a => printAll (texts a)).run system s
      = ⟨(x.run system s).events, s, .error fault⟩ := by
  unfold answer at h
  rw [run_bind, Run.andThen, hx.state_eq, h]

/-- Otherwise it prints, and leaves the state alone. -/
theorem OnlyReads.run_of_ok (hx : x.OnlyReads) {a : α} (h : x.answer system s = .ok a)
    (texts : α → List String) :
    (x >>= fun a => printAll (texts a)).run system s
      = ⟨(x.run system s).events ++ (texts a).map .print, s, .ok ()⟩ := by
  unfold answer at h
  rw [run_bind, Run.andThen, hx.state_eq, h]
  simp only [run_printAll]

theorem OnlyReads.exists_of_exitCode (hx : x.OnlyReads) {texts : α → List String}
    (h : ((x >>= fun a => printAll (texts a)).run system s).exitCode = 0) :
    ∃ a, x.answer system s = .ok a
      ∧ ((x >>= fun a => printAll (texts a)).run system s).stdout = String.join (texts a) := by
  cases hanswer : x.answer system s with
  | ok a =>
      refine ⟨a, rfl, ?_⟩
      rw [hx.run_of_ok hanswer, Run.stdout_append hx.forall_events, Run.stdout_prints]
  | error fault =>
      rw [hx.run_of_error hanswer] at h
      exact absurd h fault.exitCode_ne_zero

end OnlyReads

/-! ## Every fault comes before the first output -/

/-- Whatever it is answered, the script does not end with a fault. -/
def NeverFails : Script α → Prop
  | done _ => True
  | fail _ => False
  | stdin next | read _ next => ∀ answer, (next answer).NeverFails
  | print _ next => next.NeverFails
  | write _ _ next => ∀ answer, (next answer).NeverFails

/-- After the first text that is printed and the first file that is written, the script does not end
with a fault. A write that is refused is no output. -/
def OutputsLast : Script α → Prop
  | done _ | fail _ => True
  | stdin next | read _ next => ∀ answer, (next answer).OutputsLast
  | print _ next => next.NeverFails
  | write _ _ next => (next (.ok ())).NeverFails ∧ ∀ message, (next (.error message)).OutputsLast

section OutputsLast

variable {x : Script α}

theorem NeverFails.printAll (ts : List String) : (printAll ts).NeverFails := by
  induction ts with
  | nil => trivial
  | cons t ts ih => exact ih

theorem NeverFails.outputsLast (h : x.NeverFails) : x.OutputsLast := by
  induction x with
  | done a => trivial
  | fail fault => trivial
  | stdin next ih => exact fun answer => ih answer (h answer)
  | read path next ih => exact fun answer => ih answer (h answer)
  | print text next _ => exact h
  | write path text next ih => exact ⟨h _, fun message => ih _ (h _)⟩

/-- After some reading it goes on with outputs last. -/
theorem OutputsLast.bind {f : α → Script β} (hx : x.OnlyReads) (hf : ∀ a, (f a).OutputsLast) :
    (x >>= f).OutputsLast := by
  induction x with
  | done a => exact hf a
  | fail fault => trivial
  | stdin next ih => exact fun answer => ih answer (hx.2 answer)
  | read path next ih => exact fun answer => ih answer (hx.2 answer)
  -- what only reads takes neither of the other steps
  | print text next _ => exact absurd hx.1 Bool.false_ne_true
  | write path text next _ => exact absurd hx.1 Bool.false_ne_true

theorem NeverFails.exists_result (h : x.NeverFails) (s : σ) :
    ∃ a, (x.run system s).result = .ok a := by
  induction x generalizing s with
  | done a => exact ⟨a, rfl⟩
  | fail fault => exact h.elim
  | stdin next ih => exact ih _ (h _) s
  | read path next ih => exact ih _ (h _) s
  | print text next ih => exact ih h s
  | write path text next ih =>
      rw [run]
      cases system.write s path text with
      | ok s' => exact ih _ (h _) s'
      | error message => exact ih _ (h _) s

/-- **A run that ends with a fault has only read.** -/
theorem OutputsLast.of_fault (h : x.OutputsLast) {s : σ} {fault : Fault}
    (hfault : (x.run system s).result = .error fault) :
    ∀ e ∈ (x.run system s).events, e.isInput = true := by
  induction x generalizing s with
  | done a => exact fun _ he => nomatch he
  | fail fault => exact fun _ he => nomatch he
  | stdin next ih => exact List.forall_mem_cons.2 ⟨rfl, ih _ (h _) hfault⟩
  | read path next ih => exact List.forall_mem_cons.2 ⟨rfl, ih _ (h _) hfault⟩
  | print text next _ =>
      -- there is an output, so there is no fault
      obtain ⟨a, ha⟩ := NeverFails.exists_result h s
      rw [show (run system (print text next) s).result = _ from ha] at hfault
      cases hfault
  | write path text next ih =>
      rw [run] at hfault ⊢
      cases hwrite : system.write s path text with
      | ok s' =>
          rw [hwrite] at hfault
          obtain ⟨a, ha⟩ := NeverFails.exists_result h.1 s'
          rw [show (Run.after _ (run system (next (.ok ())) s')).result = _ from ha] at hfault
          cases hfault
      | error message =>
          -- nothing was written, so the fault may still come
          rw [hwrite] at hfault
          exact ih _ (h.2 message) hfault

end OutputsLast

end Script

end L32
