import Prephv.Defs
import Prephv.Lib.SafeList
import Mathlib.Logic.Function.Basic

/-!
# Time — Model

The timer queue of `time.c`: `reqs`, kept in order of `when`, and `time_handle`, which fires what is
due and programs the decrementer for the earliest request left.

What the hardware and the callbacks do is an environment `TimeEnv`: the reading each `mftb` gives,
and for each call of a callback the script of what it does and what it returns.  A script may move
the request's own `when` and may call `time_enqueue` and `time_dequeue`; a `time_enqueue` runs a
`time_handle` of its own inside the outer one.  `time_handle` takes fuel, one unit for each visit
of a loop and each level of nesting; running out is an error of its own, `TimeErr.fuel`.

Following the link of a removed request, or removing one that is not queued, touches
`LIST_POISON1` or `LIST_POISON2` and takes a page fault, `TimeErr.fault`.

The state carries two ghost fields: `log`, what the handlers did so far, and `last`, the last
reading of the `time_handle` that returned last.  `name` and `ctx` of a request are left out, and
so is the masking of interrupts.
-/

set_option autoImplicit false

namespace Prephv

open SafeList

/-! ### Requests, callbacks and the environment -/

/-- `DEC_DISABLE`. -/
def decDisable : U64 := 0x7fffffff

/-- A `time_req_t *`. -/
abbrev TimeReq := U64

/-- What a callback does to the timers. -/
inductive CbOp where
  /-- It writes `when` of its own request. -/
  | rearm (when : U64)
  /-- It calls `time_enqueue`. -/
  | enqueue (t : TimeReq)
  /-- It calls `time_dequeue`. -/
  | dequeue (t : TimeReq)
  deriving DecidableEq, Repr

/-- One call of a callback: what it does in order, and whether its request is to be queued again. -/
structure CbRun where
  ops : List CbOp
  again : Bool
  deriving DecidableEq, Repr

/-- The time base, by number of the reading, and the callbacks, by number of the call. -/
structure TimeEnv where
  mftb : Nat → U64
  cb : Nat → TimeReq → CbRun

/-! ### The state -/

/-- A callback's return: its request, its answer, the saved next entry of the loop that called it,
and the queue and the deadlines then. -/
structure CbReturn where
  t : TimeReq
  again : Bool
  n : Cursor TimeReq
  reqs : List TimeReq
  when : TimeReq → U64

/-- What the handlers do, as the ghost log records it. -/
inductive TimeEvent where
  /-- A loop comes to a request, and finds it queued or not. -/
  | visit (t : TimeReq) (queued : Bool)
  /-- A request is fired at a reading. -/
  | fire (t : TimeReq) (when now : U64)
  /-- A callback moves its own deadline, and the queue is in order after that or not. -/
  | rearm (t : TimeReq) (ordered : Bool)
  /-- A callback returns. -/
  | ret (r : CbReturn)

structure TimeState where
  reqs : List TimeReq
  when : TimeReq → U64
  dec : U64
  ticks : Nat
  calls : Nat
  last : U64
  log : List TimeEvent

/-- Why a run stops before it returns, with the state then. -/
inductive TimeErr where
  | bug | fault | fuel
  deriving DecidableEq, Repr

abbrev TimeRes (α : Type) := Except (TimeErr × TimeState) α

/-- The run does not fault, and what it returns meets `Q`. -/
def Ends {α : Type} (Q : α → Prop) : TimeRes α → Prop
  | .error (e, _) => e ≠ .fault
  | .ok a => Q a

theorem Ends.imp {α : Type} {Q Q' : α → Prop} {x : TimeRes α} (h : Ends Q x)
    (himp : ∀ a, Q a → Q' a) : Ends Q' x := by
  cases x with
  | error e => exact h
  | ok a => exact himp a h

/-- The key the queue is in order of. -/
def TimeState.key (s : TimeState) (t : TimeReq) : Nat := (s.when t).toNat

/-- The return of the callback of `t`, in the state it leaves. -/
def TimeState.ret (s : TimeState) (t : TimeReq) (again : Bool) (n : Cursor TimeReq) : CbReturn :=
  ⟨t, again, n, s.reqs, s.when⟩

def TimeState.emit (s : TimeState) (e : TimeEvent) : TimeState := { s with log := s.log ++ [e] }

/-! ### `time_enqueue_int`, `time_dequeue` -/

/-- `time_init`, from any memory. -/
def timeInit (s : TimeState) : TimeState := { s with reqs := [] }

/-- `time_prep`, which leaves a request off the queue with its deadline set. -/
def timePrep (when : U64) (t : TimeReq) (s : TimeState) : TimeState :=
  { s with when := Function.update s.when t when }

/-- `time_enqueue_int`. -/
def timeEnqueueInt (t : TimeReq) (s : TimeState) : TimeState :=
  { s with reqs := enqueue s.key t s.reqs }

/-- `time_dequeue`. -/
def timeDequeue (t : TimeReq) (s : TimeState) : TimeState :=
  { s with reqs := s.reqs.erase t }

/-- `list_del(&t->link)`. -/
def listDel (t : TimeReq) (s : TimeState) : TimeRes TimeState :=
  if t ∈ s.reqs then .ok { s with reqs := s.reqs.erase t } else .error (.fault, s)

/-! ### `time_handle` -/

/-- `t->when = w`, in the callback of `t`. -/
def rearm (t : TimeReq) (w : U64) (s : TimeState) : TimeState :=
  let s := { s with when := Function.update s.when t w }
  s.emit (.rearm t (decide (Sorted s.key s.reqs)))

theorem rearm_log (t : TimeReq) (w : U64) (s : TimeState) :
    ∃ q, (rearm t w s).log = s.log ++ [.rearm t q] :=
  ⟨_, rfl⟩

/-- A callback's script, where `enq` is `time_enqueue`. -/
def runOps (enq : TimeReq → TimeState → TimeRes TimeState) (t : TimeReq) :
    List CbOp → TimeState → TimeRes TimeState
  | [], s => .ok s
  | .rearm w :: ops, s => runOps enq t ops (rearm t w s)
  | .enqueue r :: ops, s => enq r s >>= runOps enq t ops
  | .dequeue r :: ops, s => runOps enq t ops (timeDequeue r s)

/-- `t->cb(t)`, called by a loop whose saved next entry is `n`. -/
def runCb (env : TimeEnv) (enq : TimeReq → TimeState → TimeRes TimeState) (t : TimeReq)
    (n : Cursor TimeReq) (s : TimeState) : TimeRes (Bool × TimeState) := do
  let run := env.cb s.calls t
  let s ← runOps enq t run.ops { s with calls := s.calls + 1 }
  .ok (run.again, s.emit (.ret (s.ret t run.again n)))

/-- `now = mftb()`, in a loop that is at `t`. -/
def visit (t : TimeReq) (s : TimeState) : TimeState :=
  { s with ticks := s.ticks + 1 }.emit (.visit t (decide (t ∈ s.reqs)))

/-- The loop's body after the callback of `t` returned, where `n` is the saved next entry and `loop`
the rest of the loop. -/
def afterCb (loop : Cursor TimeReq → TimeState → TimeRes (Cursor TimeReq × U64 × TimeState))
    (t : TimeReq) (n : Cursor TimeReq) (now : U64) :
    Bool × TimeState → TimeRes (Cursor TimeReq × U64 × TimeState)
  | (true, s) =>
    if s.when t ≤ now then .error (.bug, s)
    else
      let s := timeEnqueueInt t s
      match n with
      | .head => .ok (.entry t, now, s)
      | .poison => .error (.fault, s)
      | .entry m => loop (.entry (if s.when t < s.when m then t else m)) s
  | (false, s) => loop n s

/-- The loop of `time_handle` from the cursor `t` on: where it ends, and `now` there. -/
def handleLoop (env : TimeEnv) (enq : TimeReq → TimeState → TimeRes TimeState) :
    Nat → Cursor TimeReq → U64 → TimeState → TimeRes (Cursor TimeReq × U64 × TimeState)
  | 0, _, _, s => .error (.fuel, s)
  | _ + 1, .head, now, s => .ok (.head, now, s)
  | _ + 1, .poison, _, s => .error (.fault, s)
  | fuel + 1, .entry t, _, s =>
    let n := next s.reqs t
    let now := env.mftb s.ticks
    let s := visit t s
    if s.when t ≤ now then do
      let s ← listDel t s
      let r ← runCb env enq t n (s.emit (.fire t (s.when t) now))
      afterCb (fun n s => handleLoop env enq fuel n now s) t n now r
    else .ok (.entry t, now, s)

/-- The end of `time_handle`, where the loop left its cursor at `t`. -/
def setDec (t : Cursor TimeReq) (now : U64) (s : TimeState) : TimeRes TimeState :=
  match t with
  | .head => .ok { s with dec := decDisable, last := now }
  | .entry t =>
    .ok { s with
          dec := if s.when t - now < decDisable then s.when t - now else decDisable
          last := now }
  | .poison => .error (.fault, s)

/-- `time_handle`. -/
def timeHandle (env : TimeEnv) : Nat → TimeState → TimeRes TimeState
  | 0, s => .error (.fuel, s)
  | fuel + 1, s => do
    let now := env.mftb s.ticks
    let s := { s with ticks := s.ticks + 1 }
    let (t, now, s) ←
      handleLoop env (fun r s => timeHandle env fuel (timeEnqueueInt r s)) fuel (first s.reqs) now s
    setDec t now s

theorem timeHandle_succ (env : TimeEnv) (fuel : Nat) (s : TimeState) :
    timeHandle env (fuel + 1) s =
      (handleLoop env (fun r s => timeHandle env fuel (timeEnqueueInt r s)) fuel (first s.reqs)
        (env.mftb s.ticks) { s with ticks := s.ticks + 1 } >>= fun r => setDec r.1 r.2.1 r.2.2) :=
  rfl

/-- `time_enqueue`. -/
def timeEnqueue (env : TimeEnv) (fuel : Nat) (t : TimeReq) (s : TimeState) : TimeRes TimeState :=
  timeHandle env fuel (timeEnqueueInt t s)

/-! ### The queue's invariant -/

/-- The queue is in order of `when`, and holds no request twice. -/
structure TimeState.Queue (s : TimeState) : Prop where
  sorted : Sorted s.key s.reqs
  nodup : s.reqs.Nodup

@[simp] theorem emit_reqs (s : TimeState) (e : TimeEvent) : (s.emit e).reqs = s.reqs := rfl
@[simp] theorem emit_when (s : TimeState) (e : TimeEvent) : (s.emit e).when = s.when := rfl
@[simp] theorem emit_log (s : TimeState) (e : TimeEvent) : (s.emit e).log = s.log ++ [e] := rfl
@[simp] theorem visit_reqs (t : TimeReq) (s : TimeState) : (visit t s).reqs = s.reqs := rfl
@[simp] theorem visit_when (t : TimeReq) (s : TimeState) : (visit t s).when = s.when := rfl

@[simp] theorem timeEnqueueInt_when (t : TimeReq) (s : TimeState) :
    (timeEnqueueInt t s).when = s.when := rfl

@[simp] theorem timeEnqueueInt_log (t : TimeReq) (s : TimeState) :
    (timeEnqueueInt t s).log = s.log := rfl

/-- No request is due when the first one is not. -/
theorem TimeState.Queue.lt_of_first {s : TimeState} (h : s.Queue) {t : TimeReq} {now : U64}
    (hfirst : first s.reqs = .entry t) (hlt : now < s.when t) : ∀ r ∈ s.reqs, now < s.when r := by
  obtain ⟨rest, hreqs⟩ := first_eq_entry.mp hfirst
  have hsorted := h.sorted
  rw [hreqs] at hsorted ⊢
  exact fun r hr => Nat.lt_of_lt_of_le hlt (hsorted.head_le hr)

/-- The invariant only looks at the queue, and at the deadlines in it. -/
theorem TimeState.Queue.congr {s s' : TimeState} (h : s.Queue) (hreqs : s'.reqs = s.reqs)
    (hwhen : ∀ r ∈ s.reqs, s'.when r = s.when r) : s'.Queue := by
  refine ⟨?_, by rw [hreqs]; exact h.nodup⟩
  rw [hreqs]
  exact h.sorted.congr fun r hr => congrArg BitVec.toNat (hwhen r hr)

theorem TimeState.Queue.timeEnqueueInt {s : TimeState} (h : s.Queue) (t : TimeReq) :
    (Prephv.timeEnqueueInt t s).Queue :=
  ⟨h.sorted.enqueue, h.sorted.enqueue_nodup h.nodup⟩

theorem TimeState.Queue.timeDequeue {s : TimeState} (h : s.Queue) (t : TimeReq) :
    (Prephv.timeDequeue t s).Queue :=
  ⟨h.sorted.erase t, h.nodup.erase t⟩

/-- Queuing a request that is queued already changes nothing. -/
theorem TimeState.Queue.timeEnqueueInt_of_mem {s : TimeState} (h : s.Queue) {t : TimeReq}
    (ht : t ∈ s.reqs) : Prephv.timeEnqueueInt t s = s := by
  rw [Prephv.timeEnqueueInt, h.sorted.enqueue_of_mem ht]

/-! ### The loop at the first request of the queue -/

/-- Where the loop goes on after it queued the request `t` of its callback again. -/
def resumeAt (t : TimeReq) (n : Cursor TimeReq) (when : TimeReq → U64) : Cursor TimeReq :=
  match n with
  | .head => .entry t
  | .entry m => .entry (if when t < when m then t else m)
  | .poison => .poison

/-- The queue when the callback returned, with its request back in it if it is to be. -/
def CbReturn.queue (c : CbReturn) : List TimeReq :=
  if c.again then enqueue (fun r => (c.when r).toNat) c.t c.reqs else c.reqs

/-- The entry the loop goes on from is the first one of the queue. -/
def CbReturn.Resumes (c : CbReturn) : Prop :=
  (if c.again then resumeAt c.t c.n c.when else c.n) = first c.queue

/-- The state in which the loop calls back the request it fires. -/
def fired (env : TimeEnv) (t : TimeReq) (rest : List TimeReq) (s : TimeState) : TimeState :=
  { visit t s with reqs := rest }.emit (.fire t (s.when t) (env.mftb s.ticks))

section Loop

variable {env : TimeEnv} {enq : TimeReq → TimeState → TimeRes TimeState}

theorem handleLoop_entry (fuel : Nat) (t : TimeReq) (now : U64) (s : TimeState) :
    handleLoop env enq (fuel + 1) (.entry t) now s =
      if s.when t ≤ env.mftb s.ticks then
        listDel t (visit t s) >>= fun s' =>
          runCb env enq t (next s.reqs t) (s'.emit (.fire t (s'.when t) (env.mftb s.ticks))) >>=
            afterCb (fun n s' => handleLoop env enq fuel n (env.mftb s.ticks) s') t (next s.reqs t)
              (env.mftb s.ticks)
      else .ok (.entry t, env.mftb s.ticks, visit t s) :=
  rfl

/-- The loop stops at a request that is not due. -/
theorem handleLoop_of_lt {t : TimeReq} {s : TimeState} (h : ¬ s.when t ≤ env.mftb s.ticks)
    (fuel : Nat) (now : U64) :
    handleLoop env enq (fuel + 1) (.entry t) now s = .ok (.entry t, env.mftb s.ticks, visit t s) := by
  rw [handleLoop_entry, if_neg h]

/-- The loop fires the first request of the queue. -/
theorem handleLoop_of_le {t : TimeReq} {rest : List TimeReq} {s : TimeState}
    (hreqs : s.reqs = t :: rest) (h : s.when t ≤ env.mftb s.ticks) (fuel : Nat) (now : U64) :
    handleLoop env enq (fuel + 1) (.entry t) now s =
      (runCb env enq t (first rest) (fired env t rest s) >>=
        afterCb (fun n s' => handleLoop env enq fuel n (env.mftb s.ticks) s') t (first rest)
          (env.mftb s.ticks)) := by
  have hdel : listDel t (visit t s) = .ok { visit t s with reqs := rest } := by
    simp [listDel, hreqs]
  rw [handleLoop_entry, if_pos h, hdel, hreqs, next_cons_self]
  rfl

/-- Where a callback returns and the loop resumes at the first request, the loop goes on from
there, or ends there, or its assertion fires. -/
theorem afterCb_cases {loop : Cursor TimeReq → TimeState → TimeRes (Cursor TimeReq × U64 × TimeState)}
    {t : TimeReq} {again : Bool} {n : Cursor TimeReq} (now : U64) {s : TimeState}
    (hr : (s.ret t again n).Resumes) :
    afterCb loop t n now (again, s) = .error (.bug, s) ∨
    ∃ s', s' = { s with reqs := (s.ret t again n).queue } ∧ (again = true → now < s.when t) ∧
      (afterCb loop t n now (again, s) = loop (first s'.reqs) s' ∨
        again = true ∧ first s'.reqs = .entry t ∧
          afterCb loop t n now (again, s) = .ok (first s'.reqs, now, s')) := by
  cases again with
  | false =>
    have hn : n = first s.reqs := hr
    exact Or.inr ⟨s, rfl, nofun, Or.inl (by rw [hn]; rfl)⟩
  | true =>
    by_cases hle : s.when t ≤ now
    · exact Or.inl (if_pos hle)
    · have hr : resumeAt t n s.when = first (timeEnqueueInt t s).reqs := hr
      refine Or.inr ⟨timeEnqueueInt t s, rfl, fun _ => BitVec.not_le.mp hle, ?_⟩
      rw [← hr]
      cases n with
      | head => exact Or.inr ⟨rfl, rfl, if_neg hle⟩
      | entry m => exact Or.inl (if_neg hle)
      | poison => exact absurd hr.symm (first_ne_poison _)

end Loop

/-- The decrementer's value for a queue in order, at a reading: the time to its first request, or
`DEC_DISABLE` where that is further off or there is none. -/
def decValue (s : TimeState) (now : U64) : U64 :=
  match s.reqs with
  | [] => decDisable
  | t :: _ => if s.when t - now < decDisable then s.when t - now else decDisable

theorem decValue_nil {s : TimeState} (h : s.reqs = []) (now : U64) :
    decValue s now = decDisable := by
  rw [decValue, h]

theorem decValue_cons {s : TimeState} {t : TimeReq} {rest : List TimeReq} {now : U64}
    (h : s.reqs = t :: rest) (hlt : now < s.when t) :
    (decValue s now).toNat = min ((s.when t).toNat - now.toNat) decDisable.toNat := by
  have hsub : (s.when t - now).toNat = (s.when t).toNat - now.toNat :=
    BitVec.toNat_sub_of_le (Nat.le_of_lt hlt)
  rw [decValue, h]
  dsimp only
  split
  · next hd =>
    have hd : (s.when t - now).toNat < decDisable.toNat := hd
    omega
  · next hd =>
    have hd : ¬ (s.when t - now).toNat < decDisable.toNat := hd
    omega

/-- `time_handle` programs `decValue` when its loop ends at the first request of the queue. -/
theorem setDec_first (now : U64) (s : TimeState) :
    setDec (first s.reqs) now s = .ok { s with dec := decValue s now, last := now } := by
  unfold setDec decValue
  cases s.reqs <;> simp

end Prephv
