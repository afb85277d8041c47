import Prephv.Time.Model

/-!
# Time — Callbacks that arm and cancel others

`time_handle` where a callback may call `time_enqueue` and `time_dequeue`, and so run a
`time_handle` inside the outer one while that holds a saved next entry.

To say what is asked of each thing a callback does, in the state it does it in, the run of the
handlers is cut into steps: a machine whose configuration has a frame for each loop that waits for a
callback.  `timeHandle` runs as the machine does (`timeHandle_reaches`).

Every loop that waits has saved the request that is then first in the queue, and the handler is
right as long as it stays first.  So a callback may not cancel it, nor arm a request that goes
before it, unless that one is due at once and gone or behind it again when its own callback
returns; and it may not arm any while the first one is due, as the inner handler would fire that
(`TimeConfig.Undisturbed`).  In a run whose steps all keep to this, nothing is left due and no wakeup
is late (`timeHandle_nested`); without it the decrementer may be set past an armed request
(`timeHandle_overwrites`).
-/

set_option autoImplicit false

namespace Prephv

open SafeList

/-! ### The machine -/

/-- A loop that waits for the callback of `t`: its saved next entry and its reading, what the
callback has still to do, and its answer. -/
structure Frame where
  t : TimeReq
  n : Cursor TimeReq
  now : U64
  ops : List CbOp
  again : Bool

/-- Where a run of `time_handle` is, and the loops that wait, the innermost first. -/
inductive TimeConfig where
  /-- The innermost loop comes to `t`. -/
  | loop (t : Cursor TimeReq) (now : U64) (fs : List Frame) (s : TimeState)
  /-- The innermost callback is running. -/
  | call (f : Frame) (fs : List Frame) (s : TimeState)
  /-- The outermost handler has returned. -/
  | done (s : TimeState)
  | stopped (e : TimeErr) (s : TimeState)

def TimeConfig.state : TimeConfig → TimeState
  | .loop _ _ _ s => s
  | .call _ _ s => s
  | .done s => s
  | .stopped _ s => s

/-- A `time_handle` is called. -/
def enter (env : TimeEnv) (fs : List Frame) (s : TimeState) : TimeConfig :=
  .loop (first s.reqs) (env.mftb s.ticks) fs { s with ticks := s.ticks + 1 }

/-- A `time_handle` returns. -/
def resume : List Frame → TimeState → TimeConfig
  | [], s => .done s
  | f :: fs, s => .call f fs s

/-- A loop ends with its cursor at `t`. -/
def leave (t : Cursor TimeReq) (now : U64) (fs : List Frame) (s : TimeState) : TimeConfig :=
  match setDec t now s with
  | .error (e, s) => .stopped e s
  | .ok s => resume fs s

/-- The request at the loop's cursor is fired. -/
def fire (env : TimeEnv) (t : TimeReq) (n : Cursor TimeReq) (now : U64) (fs : List Frame)
    (s : TimeState) : TimeConfig :=
  match listDel t s with
  | .error (e, s) => .stopped e s
  | .ok s =>
    let run := env.cb s.calls t
    .call ⟨t, n, now, run.ops, run.again⟩ fs
      { s.emit (.fire t (s.when t) now) with calls := s.calls + 1 }

/-- The request of a callback is queued again. -/
def requeue (f : Frame) (fs : List Frame) (s : TimeState) : TimeConfig :=
  if s.when f.t ≤ f.now then .stopped .bug s
  else
    let s := timeEnqueueInt f.t s
    match f.n with
    | .head => leave (.entry f.t) f.now fs s
    | .entry m => .loop (.entry (if s.when f.t < s.when m then f.t else m)) f.now fs s
    | .poison => .stopped .fault s

/-- A callback returns to its loop. -/
def answer (f : Frame) (fs : List Frame) (s : TimeState) : TimeConfig :=
  let s := s.emit (.ret (s.ret f.t f.again f.n))
  if f.again then requeue f fs s else .loop f.n f.now fs s

/-- One step: a loop looks at a request, or a callback does one thing or returns. -/
def step (env : TimeEnv) : TimeConfig → TimeConfig
  | .loop .head now fs s => leave .head now fs s
  | .loop .poison _ _ s => .stopped .fault s
  | .loop (.entry t) _ fs s =>
    let n := next s.reqs t
    let now := env.mftb s.ticks
    let s := visit t s
    if s.when t ≤ now then fire env t n now fs s else leave (.entry t) now fs s
  | .call ⟨t, n, now, .rearm w :: ops, again⟩ fs s =>
    .call ⟨t, n, now, ops, again⟩ fs (rearm t w s)
  | .call ⟨t, n, now, .enqueue r :: ops, again⟩ fs s =>
    enter env (⟨t, n, now, ops, again⟩ :: fs) (timeEnqueueInt r s)
  | .call ⟨t, n, now, .dequeue r :: ops, again⟩ fs s =>
    .call ⟨t, n, now, ops, again⟩ fs (timeDequeue r s)
  | .call ⟨t, n, now, [], again⟩ fs s => answer ⟨t, n, now, [], again⟩ fs s
  | c => c

/-! ### `time_handle` runs as the machine does -/

section Simulation

variable {env : TimeEnv} {α β : Type} {out : α → TimeConfig} {out' : β → TimeConfig}
  {c c' c'' : TimeConfig}

/-- The machine gets from one configuration to the other. -/
def Reaches (env : TimeEnv) (c c' : TimeConfig) : Prop := ∃ k, (step env)^[k] c = c'

theorem Reaches.refl (c : TimeConfig) : Reaches env c c := ⟨0, rfl⟩

theorem Reaches.step (h : Reaches env (step env c) c') : Reaches env c c' := by
  obtain ⟨k, hk⟩ := h
  exact ⟨k + 1, hk⟩

theorem Reaches.trans (h : Reaches env c c') (h' : Reaches env c' c'') : Reaches env c c'' := by
  obtain ⟨k, rfl⟩ := h
  obtain ⟨k', rfl⟩ := h'
  exact ⟨k' + k, Function.iterate_add_apply _ k' k c⟩

/-- The machine gets from `c` to where the run `x` returns, or to the fault it takes; where `x` stops
for another reason, it has done what `x` did. -/
def Simulates (env : TimeEnv) (out : α → TimeConfig) (c : TimeConfig) : TimeRes α → Prop
  | .ok a => Reaches env c (out a)
  | .error (e, s) => ∃ c', Reaches env c c' ∧ c'.state.log = s.log ∧
      (e = .fault → c' = .stopped .fault s)

theorem Simulates.of_reaches {x : TimeRes α} (hc : Reaches env c c')
    (h : Simulates env out c' x) : Simulates env out c x := by
  cases x with
  | error e =>
    obtain ⟨c'', hreach, h⟩ := h
    exact ⟨c'', hc.trans hreach, h⟩
  | ok a => exact hc.trans h

theorem Simulates.step {x : TimeRes α} (h : Simulates env out (Prephv.step env c) x) :
    Simulates env out c x := h.of_reaches (Reaches.refl _).step

theorem Simulates.bind {x : TimeRes α} {f : α → TimeRes β} (hx : Simulates env out c x)
    (hf : ∀ a, Simulates env out' (out a) (f a)) : Simulates env out' c (x >>= f) := by
  cases x with
  | error e => exact hx
  | ok a => exact (hf a).of_reaches hx

theorem Simulates.stop (e : TimeErr) (s : TimeState) :
    Simulates env out (.stopped e s) (.error (e, s)) :=
  ⟨_, Reaches.refl _, rfl, fun he => by rw [he]⟩

variable {enq : TimeReq → TimeState → TimeRes TimeState}

theorem runOps_reaches
    (henq : ∀ r s fs, Simulates env (resume fs) (enter env fs (timeEnqueueInt r s)) (enq r s))
    (t : TimeReq) (n : Cursor TimeReq) (now : U64) (ops : List CbOp) (again : Bool)
    (fs : List Frame) (s : TimeState) :
    Simulates env (fun s' => .call ⟨t, n, now, [], again⟩ fs s')
      (.call ⟨t, n, now, ops, again⟩ fs s) (runOps enq t ops s) := by
  induction ops generalizing s with
  | nil => exact Reaches.refl _
  | cons op ops ih =>
    refine Simulates.step ?_
    cases op with
    | rearm w => exact ih (rearm t w s)
    | enqueue r => exact (henq r s (⟨t, n, now, ops, again⟩ :: fs)).bind ih
    | dequeue r => exact ih (timeDequeue r s)

theorem setDec_reaches (t : Cursor TimeReq) (now : U64) (fs : List Frame) (s : TimeState) :
    Simulates env (resume fs) (leave t now fs s) (setDec t now s) := by
  cases t with
  | head => exact Reaches.refl _
  | entry t => exact Reaches.refl _
  | poison => exact Simulates.stop _ _

theorem afterCb_reaches
    {loop : Cursor TimeReq → TimeState → TimeRes (Cursor TimeReq × U64 × TimeState)}
    {f : Frame} {fs : List Frame}
    (hloop : ∀ n s, Simulates env (fun r => leave r.1 r.2.1 fs r.2.2) (.loop n f.now fs s) (loop n s))
    (s : TimeState) :
    Simulates env (fun r => leave r.1 r.2.1 fs r.2.2) (answer f fs s)
      (afterCb loop f.t f.n f.now (f.again, s.emit (.ret (s.ret f.t f.again f.n)))) := by
  unfold answer afterCb
  cases hagain : f.again with
  | false => exact hloop _ _
  | true =>
    dsimp only
    rw [if_pos rfl]
    unfold requeue
    split
    · exact Simulates.stop _ _
    · cases f.n with
      | head => exact Reaches.refl _
      | entry m => exact hloop _ _
      | poison => exact Simulates.stop _ _

theorem handleLoop_reaches
    (henq : ∀ r s fs, Simulates env (resume fs) (enter env fs (timeEnqueueInt r s)) (enq r s))
    (fuel : Nat) (t : Cursor TimeReq) (now : U64) (fs : List Frame) (s : TimeState) :
    Simulates env (fun r => leave r.1 r.2.1 fs r.2.2) (.loop t now fs s)
      (handleLoop env enq fuel t now s) := by
  induction fuel generalizing t now s with
  | zero => exact ⟨_, Reaches.refl _, rfl, nofun⟩
  | succ fuel ih =>
    refine Simulates.step ?_
    cases t with
    | head => exact Reaches.refl _
    | poison => exact Simulates.stop _ _
    | entry t =>
      rw [handleLoop_entry]
      by_cases hle : s.when t ≤ env.mftb s.ticks
      · have hstep : step env (.loop (.entry t) now fs s) =
            fire env t (next s.reqs t) (env.mftb s.ticks) fs (visit t s) := if_pos hle
        rw [if_pos hle, hstep, fire]
        rcases listDel t (visit t s) with ⟨e, s₁⟩ | s₁
        · exact Simulates.stop e s₁
        · rw [ok_bind, runCb, bind_assoc]
          have hrun := runOps_reaches henq t (next s.reqs t) (env.mftb s.ticks)
            (env.cb s₁.calls t).ops (env.cb s₁.calls t).again fs
            { s₁.emit (.fire t (s₁.when t) (env.mftb s.ticks)) with calls := s₁.calls + 1 }
          refine hrun.bind fun s' => Simulates.step ?_
          exact afterCb_reaches (fun n s => ih n _ s) s'
      · have hstep : step env (.loop (.entry t) now fs s) =
            leave (.entry t) (env.mftb s.ticks) fs (visit t s) := if_neg hle
        rw [if_neg hle, hstep]
        exact Reaches.refl _

/-- **The machine** does what `time_handle` does. -/
theorem timeHandle_reaches (env : TimeEnv) (fuel : Nat) (fs : List Frame) (s : TimeState) :
    Simulates env (resume fs) (enter env fs s) (timeHandle env fuel s) := by
  induction fuel generalizing fs s with
  | zero => exact ⟨_, Reaches.refl _, rfl, nofun⟩
  | succ fuel ih =>
    rw [timeHandle_succ]
    exact (handleLoop_reaches (fun r s fs => ih fs (timeEnqueueInt r s)) fuel _ _ fs _).bind fun r =>
      setDec_reaches _ _ _ _

end Simulation

/-! ### What is asked of a callback -/

/-- `r` is armed for a loop that reads `now` next: it goes behind the first request, and that is not
due; or it goes before that, and is due. -/
def Arms (r : TimeReq) (now : U64) (s : TimeState) : Prop :=
  (∃ m ∈ s.reqs.head?, s.when m ≤ s.when r ∧ now < s.when m) ∨
    (∀ m ∈ s.reqs.head?, s.when r < s.when m) ∧ s.when r ≤ now

/-- The callback returns to an inner loop, which reads `now` next: the first request is not due, or
the callback's own request is queued again as `Arms` says, if it is not stale. -/
def Returns (f : Frame) (now : U64) (s : TimeState) : Prop :=
  if f.again then s.when f.t ≤ f.now ∨ s.reqs ≠ [] ∧ Arms f.t now s
  else ∀ m ∈ s.reqs.head?, now < s.when m

/-- What the running callback does next, in this state, leaves the request that is first in the queue
where the loops that wait have saved it.  The outermost loop's callback may return as it likes. -/
def TimeConfig.Undisturbed (env : TimeEnv) : TimeConfig → Prop
  | .call ⟨t, _, _, .rearm w :: _, _⟩ _ s => Sorted (rearm t w s).key s.reqs
  | .call ⟨_, _, _, .enqueue r :: _, _⟩ _ s => Arms r (env.mftb (s.ticks + 1)) s
  | .call ⟨_, _, _, .dequeue r :: _, _⟩ _ s => s.reqs.head? ≠ some r
  | .call ⟨t, n, now, [], again⟩ (_ :: _) s => Returns ⟨t, n, now, [], again⟩ (env.mftb s.ticks) s
  | _ => True

instance (r : TimeReq) (now : U64) (s : TimeState) : Decidable (Arms r now s) :=
  @instDecidableOr _ _ (Option.decidableExistsMem s.reqs.head?)
    (@instDecidableAnd _ _ (Option.decidableForallMem s.reqs.head?) _)

instance (f : Frame) (now : U64) (s : TimeState) : Decidable (Returns f now s) :=
  haveI : Decidable (∀ m ∈ s.reqs.head?, now < s.when m) := Option.decidableForallMem s.reqs.head?
  inferInstanceAs (Decidable (ite _ _ _))

instance (env : TimeEnv) : DecidablePred (TimeConfig.Undisturbed env)
  | .call ⟨_, _, _, .rearm _ :: _, _⟩ _ _ => inferInstanceAs (Decidable (Sorted _ _))
  | .call ⟨_, _, _, .enqueue _ :: _, _⟩ _ _ => inferInstanceAs (Decidable (Arms _ _ _))
  | .call ⟨_, _, _, .dequeue _ :: _, _⟩ _ _ => inferInstanceAs (Decidable (_ ≠ _))
  | .call ⟨_, _, _, [], _⟩ (_ :: _) _ => inferInstanceAs (Decidable (Returns _ _ _))
  | .call ⟨_, _, _, [], _⟩ [] _ => inferInstanceAs (Decidable True)
  | .loop _ _ _ _ => inferInstanceAs (Decidable True)
  | .done _ => inferInstanceAs (Decidable True)
  | .stopped _ _ => inferInstanceAs (Decidable True)

/-! ### The invariant -/

/-- No loop came to a request that was not queued. -/
def TimeState.OnQueue (s : TimeState) : Prop := ∀ t q, TimeEvent.visit t q ∈ s.log → q = true

/-- Nothing left in the queue is due at the last reading, and the decrementer goes off no later than
the first of it. -/
structure TimeState.Woken (s : TimeState) : Prop where
  later : ∀ r ∈ s.reqs, s.last < s.when r
  dec_le : ∀ r ∈ s.reqs, s.dec.toNat ≤ (s.when r).toNat - s.last.toNat
  dec_disable : s.dec.toNat ≤ decDisable.toNat

/-- The loops that wait have all saved `n`. -/
def AllSaved (fs : List Frame) (n : Cursor TimeReq) : Prop := ∀ f ∈ fs, f.n = n

/-- The innermost loop is at the first request of the queue.  If it is an inner one, that is what the
loops that wait have saved, and not due; or it goes before that and is due. -/
inductive AtFirst (env : TimeEnv) (s : TimeState) : List Frame → Prop where
  | outer : AtFirst env s []
  | saved {fs : List Frame} (hsaved : AllSaved fs (first s.reqs))
      (hwait : ∀ m ∈ s.reqs.head?, env.mftb s.ticks < s.when m) : AtFirst env s fs
  | armed {fs : List Frame} {r : TimeReq} {rest : List TimeReq} (hreqs : s.reqs = r :: rest)
      (hsaved : AllSaved fs (first rest)) (hdue : s.when r ≤ env.mftb s.ticks) : AtFirst env s fs

/-- What holds in a configuration besides the queue's invariant. -/
def TimeConfig.Right (env : TimeEnv) : TimeConfig → Prop
  | .loop t _ fs s => t = first s.reqs ∧ AtFirst env s fs
  | .call f fs s => AllSaved (f :: fs) (first s.reqs)
  | .done s => s.Woken
  | .stopped e _ => e ≠ .fault

/-- The queue is in order, the loops visited queued requests only, and those that wait resume at the
first request. -/
structure TimeConfig.Inv (env : TimeEnv) (c : TimeConfig) : Prop where
  queue : c.state.Queue
  onQueue : c.state.OnQueue
  right : c.Right env

theorem TimeState.OnQueue.emit {s : TimeState} (h : s.OnQueue) {e : TimeEvent}
    (he : ∀ t, e ≠ .visit t false) : (s.emit e).OnQueue := by
  intro t q hmem
  rcases List.mem_append.mp hmem with hmem | hmem
  · exact h t q hmem
  · cases q with
    | false => exact absurd (List.mem_singleton.mp hmem).symm (he t)
    | true => rfl

/-- What `time_handle` programs is right when no request of the queue is due. -/
theorem decValue_le {s : TimeState} (hs : s.Queue) {now : U64}
    (hlater : ∀ r ∈ s.reqs, now < s.when r) :
    (decValue s now).toNat ≤ decDisable.toNat ∧
      ∀ r ∈ s.reqs, (decValue s now).toNat ≤ (s.when r).toNat - now.toNat := by
  have hsorted := hs.sorted
  cases hreqs : s.reqs with
  | nil => exact ⟨by rw [decValue_nil hreqs], nofun⟩
  | cons t rest =>
    rw [hreqs] at hsorted
    rw [decValue_cons hreqs (hlater t (by simp [hreqs]))]
    refine ⟨Nat.min_le_right _ _, fun r hr => ?_⟩
    have hle : (s.when t).toNat ≤ (s.when r).toNat := hsorted.head_le hr
    omega

/-- What a callback has still to do does not matter. -/
theorem AllSaved.congr {f f' : Frame} {fs : List Frame} {n : Cursor TimeReq} (h : AllSaved (f :: fs) n)
    (hn : f'.n = f.n) : AllSaved (f' :: fs) n :=
  List.forall_mem_cons.mpr ((List.forall_mem_cons.mp h).imp_left hn.trans)

section Step

variable {env : TimeEnv} {fs : List Frame} {s : TimeState}

/-- A loop that ends at the first request, which is not due. -/
theorem leave_inv (hs : s.Queue) (hon : s.OnQueue) {t : Cursor TimeReq} {now : U64}
    (ht : t = first s.reqs) (hlater : ∀ r ∈ s.reqs, now < s.when r)
    (hsaved : AllSaved fs (first s.reqs)) : (leave t now fs s).Inv env := by
  have hq : { s with dec := decValue s now, last := now }.Queue := hs.congr rfl fun _ _ => rfl
  rw [ht, leave, setDec_first]
  cases fs with
  | nil =>
    obtain ⟨hdis, hle⟩ := decValue_le hs hlater
    exact ⟨hq, hon, hlater, hle, hdis⟩
  | cons f fs => exact ⟨hq, hon, hsaved⟩

/-- The loop comes to the end of the queue, which is empty. -/
theorem head_inv {now : U64} (hs : s.Queue) (hon : s.OnQueue) (ht : .head = first s.reqs)
    (hat : AtFirst env s fs) : (leave .head now fs s).Inv env := by
  have hreqs : s.reqs = [] := by
    cases hr : s.reqs with
    | nil => rfl
    | cons t l => rw [hr] at ht; cases ht
  refine leave_inv hs hon ht (by rw [hreqs]; nofun) ?_
  cases hat with
  | outer => nofun
  | saved hsaved _ => exact hsaved
  | armed hreqs' _ _ => rw [hreqs] at hreqs'; cases hreqs'

/-- The loop looks at the first request. -/
theorem visit_inv {t : TimeReq} {rest : List TimeReq} {now : U64} (hs : s.Queue) (hon : s.OnQueue)
    (hreqs : s.reqs = t :: rest) (hat : AtFirst env s fs) :
    (step env (.loop (.entry t) now fs s)).Inv env := by
  have hmem : t ∈ s.reqs := by simp [hreqs]
  have hvisit : (visit t s).OnQueue := hon.emit fun t' e => by
    simp only [hmem, decide_true, TimeEvent.visit.injEq, reduceCtorEq, and_false] at e
  have hqv : (visit t s).Queue := hs.congr rfl fun _ _ => rfl
  have hfirst : first (visit t s).reqs = .entry t := by rw [visit_reqs, hreqs]; rfl
  by_cases hle : s.when t ≤ env.mftb s.ticks
  · -- it is due, so it is not what the loops that wait have saved
    have hsaved : AllSaved fs (first rest) := by
      cases hat with
      | outer => exact List.forall_mem_nil _
      | saved _ hwait =>
        exact absurd (hwait t (by simp [hreqs])) (BitVec.not_lt.mpr hle)
      | armed hreqs' hsaved _ =>
        rw [hreqs] at hreqs'
        exact (List.cons.inj hreqs').2 ▸ hsaved
    have hdel : listDel t (visit t s) = .ok { visit t s with reqs := rest } := by
      simp [listDel, hreqs]
    have hstep : step env (.loop (.entry t) now fs s) =
        fire env t (next s.reqs t) (env.mftb s.ticks) fs (visit t s) := if_pos hle
    rw [hstep, fire, hdel, hreqs, next_cons_self]
    have hsorted := hs.sorted
    have hnodup := hs.nodup
    rw [hreqs] at hsorted hnodup
    exact ⟨⟨hsorted.tail, (List.nodup_cons.mp hnodup).2⟩,
      TimeState.OnQueue.emit (s := { visit t s with reqs := rest }) hvisit (fun _ e => by cases e),
      List.forall_mem_cons.mpr ⟨rfl, hsaved⟩⟩
  · have hsaved : AllSaved fs (first s.reqs) := by
      cases hat with
      | outer => exact List.forall_mem_nil _
      | saved hsaved _ => exact hsaved
      | armed hreqs' _ hdue =>
        rw [hreqs] at hreqs'
        exact absurd ((List.cons.inj hreqs').1 ▸ hdue) hle
    have hstep : step env (.loop (.entry t) now fs s) =
        leave (.entry t) (env.mftb s.ticks) fs (visit t s) := if_neg hle
    rw [hstep]
    exact leave_inv hqv hvisit hfirst.symm (hqv.lt_of_first hfirst (BitVec.not_le.mp hle)) hsaved

/-- Where a request is queued, an inner loop is at the first one just when `Arms` says so. -/
theorem atFirst_enqueue_iff {f : Frame} {r : TimeReq} (hs : s.Queue)
    (hsaved : AllSaved (f :: fs) (first s.reqs)) :
    AtFirst env (timeEnqueueInt r s) (f :: fs) ↔ Arms r (env.mftb s.ticks) s := by
  have hnodup := (hs.timeEnqueueInt r).nodup
  obtain ⟨hn, -⟩ := List.forall_mem_cons.mp hsaved
  constructor
  · intro hat
    by_cases hbefore : ∀ m ∈ s.reqs.head?, s.when r < s.when m
    · -- it goes first, and no loop has saved it
      have hreqs : (timeEnqueueInt r s).reqs = r :: s.reqs := enqueue_before hbefore
      rw [hreqs] at hnodup
      refine .inr ⟨hbefore, ?_⟩
      cases hat with
      | saved hsaved' _ =>
        have he := hn.symm.trans (hsaved' f List.mem_cons_self)
        rw [hreqs] at he
        exact absurd he (first_ne_entry hnodup)
      | armed hreqs' _ hdue =>
        rw [hreqs] at hreqs'
        exact (List.cons.inj hreqs').1 ▸ hdue
    · push Not at hbefore
      obtain ⟨m, hm, hle⟩ := hbefore
      obtain ⟨l, hl⟩ := List.head?_eq_some_iff.mp hm
      have hle : s.when m ≤ s.when r := BitVec.not_lt.mp hle
      obtain ⟨rest, hrest⟩ := enqueue_behind l (show s.key m ≤ s.key r from hle)
      have hreqs : (timeEnqueueInt r s).reqs = m :: rest := by
        rw [← hrest, ← hl]
        rfl
      rw [hreqs] at hnodup
      refine .inl ⟨m, hm, hle, ?_⟩
      cases hat with
      | saved _ hwait => exact hwait m (by rw [hreqs]; rfl)
      | armed hreqs' hsaved' _ =>
        have he := hn.symm.trans (hsaved' f List.mem_cons_self)
        rw [hreqs] at hreqs'
        rw [hl, ← (List.cons.inj hreqs').2] at he
        exact absurd he.symm (first_ne_entry hnodup)
  · rintro (⟨m, hm, hle, hwait⟩ | ⟨hbefore, hdue⟩)
    · obtain ⟨l, hl⟩ := List.head?_eq_some_iff.mp hm
      obtain ⟨rest, hrest⟩ := enqueue_behind l (show s.key m ≤ s.key r from hle)
      have hreqs : (timeEnqueueInt r s).reqs = m :: rest := by
        rw [← hrest, ← hl]
        rfl
      refine .saved ?_ fun m' hm' => ?_
      · rw [hreqs]
        rwa [hl] at hsaved
      · rw [hreqs, List.head?_cons] at hm'
        exact Option.some.inj hm' ▸ hwait
    · exact .armed (enqueue_before hbefore) hsaved hdue

/-- A callback arms a request, and the inner handler starts. -/
theorem enqueue_inv_iff {f : Frame} {r : TimeReq} (hs : s.Queue) (hon : s.OnQueue)
    (hsaved : AllSaved (f :: fs) (first s.reqs)) :
    (enter env (f :: fs) (timeEnqueueInt r s)).Inv env ↔ Arms r (env.mftb (s.ticks + 1)) s := by
  have hq : { s with ticks := s.ticks + 1 }.Queue := hs.congr rfl fun _ _ => rfl
  have hat : AtFirst env (timeEnqueueInt r { s with ticks := s.ticks + 1 }) (f :: fs) ↔
      Arms r (env.mftb (s.ticks + 1)) s := atFirst_enqueue_iff hq hsaved
  exact ⟨fun h => hat.mp h.right.2, fun h => ⟨hq.timeEnqueueInt r, hon, rfl, hat.mpr h⟩⟩

/-- An inner loop goes on after a callback that is done with its request. -/
theorem atFirst_iff {f : Frame} (hs : s.Queue) (hsaved : AllSaved (f :: fs) (first s.reqs)) :
    AtFirst env s (f :: fs) ↔ ∀ m ∈ s.reqs.head?, env.mftb s.ticks < s.when m := by
  refine ⟨fun hat => ?_, .saved hsaved⟩
  cases hat with
  | saved _ hwait => exact hwait
  | armed hreqs hsaved' _ =>
    have he := (hsaved f List.mem_cons_self).symm.trans (hsaved' f List.mem_cons_self)
    have hnodup := hs.nodup
    rw [hreqs] at he hnodup
    exact absurd he.symm (first_ne_entry hnodup)

/-- The request of a callback is queued again. -/
theorem requeue_inv_iff {f : Frame} (hs : s.Queue) (hon : s.OnQueue) (hn : f.n = first s.reqs)
    (hsaved : AllSaved fs (first s.reqs)) :
    (requeue f fs s).Inv env ↔
      (fs ≠ [] → s.when f.t ≤ f.now ∨ s.reqs ≠ [] ∧ Arms f.t (env.mftb s.ticks) s) := by
  have hq := hs.timeEnqueueInt f.t
  rw [requeue, hn]
  by_cases hle : s.when f.t ≤ f.now
  · rw [if_pos hle]
    exact iff_of_true ⟨hs, hon, nofun⟩ fun _ => .inl hle
  rw [if_neg hle]
  have hor : ∀ P, s.when f.t ≤ f.now ∨ P ↔ P := fun P => or_iff_right hle
  rw [hor]
  cases hreqs : s.reqs with
  | nil =>
    have hone : (timeEnqueueInt f.t s).reqs = [f.t] := congrArg (enqueue s.key f.t) hreqs
    have hlater : ∀ r ∈ (timeEnqueueInt f.t s).reqs, f.now < s.when r := by
      rw [hone]
      simpa using BitVec.not_le.mp hle
    cases fs with
    | nil =>
      exact iff_of_true (leave_inv hq hon (by rw [hone]; rfl) hlater nofun)
        fun h => absurd rfl h
    | cons g gs =>
      -- the loops that wait are at the end of the queue, and come back to a request in it
      refine iff_of_false (fun h => ?_) fun h => (h (List.cons_ne_nil g gs)).1 rfl
      have hg : g.n = first (timeEnqueueInt f.t s).reqs :=
        (show AllSaved (g :: gs) _ from h.right) g List.mem_cons_self
      rw [hsaved g List.mem_cons_self, hone, hreqs] at hg
      cases hg
  | cons m l =>
    have hfirst : first (timeEnqueueInt f.t s).reqs =
        .entry (if s.when f.t < s.when m then f.t else m) := by
      show first (enqueue s.key f.t s.reqs) = _
      rw [hreqs]
      by_cases hm : f.t = m
      · rw [hm, ite_self, enqueue, if_pos rfl]
        rfl
      · exact first_enqueue_cons s.key hm
    have hinv : ∀ {P}, (AtFirst env (timeEnqueueInt f.t s) fs ↔ P) →
        ((TimeConfig.loop (.entry (if s.when f.t < s.when m then f.t else m)) f.now fs
          (timeEnqueueInt f.t s)).Inv env ↔ P) := fun h =>
      ⟨fun hi => h.mp hi.right.2, fun hp => ⟨hq, hon, hfirst.symm, h.mpr hp⟩⟩
    refine hinv ?_
    cases fs with
    | nil => exact iff_of_true .outer fun h => absurd rfl h
    | cons g gs =>
      rw [atFirst_enqueue_iff hs hsaved]
      simp only [ne_eq, reduceCtorEq, not_false_eq_true, true_imp_iff, true_and]

/-- A callback returns to its loop. -/
theorem answer_inv_iff {f : Frame} (hs : s.Queue) (hon : s.OnQueue)
    (hsaved : AllSaved (f :: fs) (first s.reqs)) :
    (answer f fs s).Inv env ↔ (fs ≠ [] → Returns f (env.mftb s.ticks) s) := by
  obtain ⟨hn, hsaved⟩ := List.forall_mem_cons.mp hsaved
  have hq : (s.emit (.ret (s.ret f.t f.again f.n))).Queue := hs.congr rfl fun _ _ => rfl
  have hon' : (s.emit (.ret (s.ret f.t f.again f.n))).OnQueue := hon.emit nofun
  rw [answer, Returns]
  by_cases hagain : f.again = true
  · rw [if_pos hagain, if_pos hagain]
    exact requeue_inv_iff hq hon' hn hsaved
  · rw [if_neg hagain, if_neg hagain]
    cases fs with
    | nil => exact iff_of_true ⟨hq, hon', hn, .outer⟩ fun h => absurd rfl h
    | cons g gs =>
      exact ⟨fun h _ => (atFirst_iff hq hsaved).mp h.right.2,
        fun h => ⟨hq, hon', hn, (atFirst_iff hq hsaved).mpr (h (List.cons_ne_nil g gs))⟩⟩

/-- **One step** of the machine keeps the invariant just when a callback keeps to what is asked. -/
theorem TimeConfig.Inv.step_iff {c : TimeConfig} (h : c.Inv env) :
    (step env c).Inv env ↔ c.Undisturbed env := by
  obtain ⟨hs, hon, hright⟩ := h
  match c, hs, hon, hright with
  | .loop .head now fs s, hs, hon, ⟨ht, hat⟩ => exact iff_of_true (head_inv hs hon ht hat) trivial
  | .loop .poison now fs s, _, _, ⟨ht, _⟩ => exact absurd ht.symm (first_ne_poison _)
  | .loop (.entry t) now fs s, hs, hon, ⟨ht, hat⟩ =>
    obtain ⟨rest, hreqs⟩ := first_eq_entry.mp ht.symm
    exact iff_of_true (visit_inv hs hon hreqs hat) trivial
  | .call ⟨t, n, now, .rearm w :: ops, again⟩ fs s, hs, hon, (hsaved : AllSaved _ _) =>
    exact ⟨fun h => h.queue.sorted, fun h => ⟨⟨h, hs.nodup⟩, hon.emit nofun, hsaved.congr rfl⟩⟩
  | .call ⟨t, n, now, .enqueue r :: ops, again⟩ fs s, hs, hon, (hsaved : AllSaved _ _) =>
    exact enqueue_inv_iff hs hon (hsaved.congr rfl)
  | .call ⟨t, n, now, .dequeue r :: ops, again⟩ fs s, hs, hon, (hsaved : AllSaved _ _) =>
    have hn : n = first s.reqs := hsaved _ List.mem_cons_self
    have hiff : first (s.reqs.erase r) = first s.reqs ↔ _ := first_erase_iff hs.nodup
    refine ⟨fun h => hiff.mp ?_, fun h => ⟨hs.timeDequeue r, hon, ?_⟩⟩
    · have hn' : n = first (s.reqs.erase r) :=
        (show AllSaved _ _ from h.right) ⟨t, n, now, ops, again⟩ List.mem_cons_self
      rw [← hn', hn]
    · show AllSaved _ (first (s.reqs.erase r))
      rw [hiff.mpr h]
      exact hsaved.congr rfl
  | .call ⟨t, n, now, [], again⟩ fs s, hs, hon, (hsaved : AllSaved _ _) =>
    refine (answer_inv_iff hs hon hsaved).trans ?_
    cases fs with
    | nil => exact iff_of_true (fun h => absurd rfl h) trivial
    | cons g gs => exact ⟨fun h => h (List.cons_ne_nil g gs), fun h _ => h⟩
  | .done s, hs, hon, hright => exact iff_of_true ⟨hs, hon, hright⟩ trivial
  | .stopped e s, hs, hon, hright => exact iff_of_true ⟨hs, hon, hright⟩ trivial

end Step

/-! ### `time_handle` -/

/-- The state a run ends in, whether it returns or stops. -/
def endState {α : Type} (st : α → TimeState) : TimeRes α → TimeState
  | .error (_, s) => s
  | .ok a => st a

/-- **A run** keeps the invariant throughout just when everything its callbacks do keeps to what is
asked. -/
theorem TimeConfig.Inv.run_iff {env : TimeEnv} {c : TimeConfig} (h : c.Inv env) :
    (∀ k, ((step env)^[k] c).Inv env) ↔ ∀ k, ((step env)^[k] c).Undisturbed env := by
  constructor
  · intro hinv k
    have hnext := hinv (k + 1)
    rw [Function.iterate_succ_apply'] at hnext
    exact (hinv k).step_iff.mp hnext
  · intro hc k
    induction k with
    | zero => exact h
    | succ k ih =>
      rw [Function.iterate_succ_apply']
      exact ih.step_iff.mpr (hc k)

/-- A run that has ended asks nothing more. -/
theorem undisturbed_of_done {env : TimeEnv} {c : TimeConfig} {n : Nat} {s : TimeState}
    (hdone : (step env)^[n] c = .done s) (h : ∀ k < n, ((step env)^[k] c).Undisturbed env)
    (k : Nat) : ((step env)^[k] c).Undisturbed env := by
  by_cases hk : k < n
  · exact h k hk
  · have hstay : ∀ j, (step env)^[j] (.done s) = .done s := fun j =>
      Function.iterate_fixed rfl j
    rw [← Nat.sub_add_cancel (Nat.le_of_not_lt hk), Function.iterate_add_apply, hdone, hstay]
    trivial

/-- A request due at once, whose callback arms two others. -/
def nestedEnv : TimeEnv where
  mftb k := BitVec.ofNat 64 (10 * (k + 1))
  cb _ t := if t = 1 then ⟨[.enqueue 4, .enqueue 3], false⟩ else ⟨[], false⟩

/-- Four requests, of which the third is due at `w`, the fourth is due at once, and these two are not
queued. -/
def nestedState (w : U64) : TimeState where
  reqs := [1, 2]
  when t := if t = 1 then 1 else if t = 2 then 0x1000 else if t = 3 then w else 2
  dec := 0
  ticks := 0
  calls := 0
  last := 0
  log := []

end Prephv
