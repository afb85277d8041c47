import Prephv.Time.Model

/-!
# Time — Callbacks that only move their own deadline

`time_handle` where a callback changes nothing but `when` of its own request.  Its loop is then
always at the first request of an ordered queue (`handleLoop_quiet`): a one-shot request leaves, so
the saved next one is first, and a request that is queued again either goes before the saved next
one, to which the loop moves back, or stays behind it.

From this, for every state a run of calls reaches (`TimeReachable.handle_ok`): the queue is in
order with no request twice, and a `time_handle` that returns has fired what was due, in order, kept
all but the one-shot requests it fired, and set the decrementer for the first one left.
-/

set_option autoImplicit false

namespace Prephv

open SafeList

/-- Callbacks that only write `when` of their own request. -/
def TimeEnv.Quiet (env : TimeEnv) : Prop :=
  ∀ k t, ∀ op ∈ (env.cb k t).ops, ∃ w, op = .rearm w

/-! ### What a handler did -/

/-- The deadlines of the requests fired, in the order they were. -/
def deadlines (evs : List TimeEvent) : List U64 :=
  evs.filterMap fun
    | .fire _ w _ => some w
    | _ => none

/-- The request was fired as a one-shot one: its callback returned false. -/
def OneShot (r : TimeReq) (evs : List TimeEvent) : Prop :=
  ∃ c : CbReturn, .ret c ∈ evs ∧ c.t = r ∧ c.again = false

/-- A handler got from `s` to `s'` and did `evs`: it fired each request at a reading no earlier than
its deadline, in order of the deadlines and none before the queue's first, and kept every request
but the one-shot ones it fired. -/
structure Fired (s s' : TimeState) (evs : List TimeEvent) : Prop where
  log : s'.log = s.log ++ evs
  reading : ∀ t w now, .fire t w now ∈ evs → w ≤ now
  order : (deadlines evs).Pairwise (· ≤ ·)
  bound : ∀ b : U64, (∀ r ∈ s.reqs, b ≤ s.when r) → ∀ w ∈ deadlines evs, b ≤ w
  kept : ∀ r, r ∈ s'.reqs ↔ r ∈ s.reqs ∧ ¬ OneShot r evs

theorem deadlines_append (evs evs' : List TimeEvent) :
    deadlines (evs ++ evs') = deadlines evs ++ deadlines evs' :=
  List.filterMap_append

theorem oneShot_append {r : TimeReq} {evs evs' : List TimeEvent} :
    OneShot r (evs ++ evs') ↔ OneShot r evs ∨ OneShot r evs' := by
  constructor
  · rintro ⟨c, hc, h⟩
    exact (List.mem_append.mp hc).imp (fun hc => ⟨c, hc, h⟩) fun hc => ⟨c, hc, h⟩
  · rintro (⟨c, hc, h⟩ | ⟨c, hc, h⟩)
    · exact ⟨c, List.mem_append_left _ hc, h⟩
    · exact ⟨c, List.mem_append_right _ hc, h⟩

/-- A handler that only looked. -/
theorem Fired.visit (t : TimeReq) (s : TimeState) :
    Fired s (visit t s) [.visit t (decide (t ∈ s.reqs))] where
  log := rfl
  reading := by simp
  order := List.Pairwise.nil
  bound := by simp [deadlines]
  kept := by simp [OneShot]

/-- A handler that found the queue empty. -/
theorem Fired.refl (s : TimeState) : Fired s s [] where
  log := (List.append_nil _).symm
  reading := by simp
  order := List.Pairwise.nil
  bound := by simp [deadlines]
  kept := by simp [OneShot]

/-- Two stretches in a row, where nothing left in between was due before what the first fired. -/
theorem Fired.trans {s s₁ s' : TimeState} {evs evs' : List TimeEvent} (h : Fired s s₁ evs)
    (h' : Fired s₁ s' evs') (hmid : ∀ w ∈ deadlines evs, ∀ r ∈ s₁.reqs, w ≤ s₁.when r)
    (hle : ∀ b : U64, (∀ r ∈ s.reqs, b ≤ s.when r) → ∀ r ∈ s₁.reqs, b ≤ s₁.when r) :
    Fired s s' (evs ++ evs') where
  log := by rw [h'.log, h.log, List.append_assoc]
  reading t w now hmem := (List.mem_append.mp hmem).elim (h.reading t w now) (h'.reading t w now)
  order := by
    rw [deadlines_append]
    exact List.pairwise_append.mpr
      ⟨h.order, h'.order, fun w hw w' hw' => h'.bound w (hmid w hw) w' hw'⟩
  bound b hb w hw := by
    rw [deadlines_append] at hw
    exact (List.mem_append.mp hw).elim (h.bound b hb w) (h'.bound b (hle b hb) w)
  kept r := by rw [h'.kept, h.kept, oneShot_append, not_or, and_assoc]

/-! ### The callback -/

/-- A script of own deadlines leaves the queue and the other deadlines alone. -/
theorem runOps_quiet (enq : TimeReq → TimeState → TimeRes TimeState) (t : TimeReq)
    {ops : List CbOp} (hops : ∀ op ∈ ops, ∃ w, op = .rearm w) (s : TimeState) :
    ∃ s' evs, runOps enq t ops s = .ok s' ∧ s'.reqs = s.reqs ∧
      (∀ r, r ≠ t → s'.when r = s.when r) ∧ s'.log = s.log ++ evs ∧
      ∀ e ∈ evs, ∃ q, e = .rearm t q := by
  induction ops generalizing s with
  | nil => exact ⟨s, [], rfl, rfl, fun _ _ => rfl, (List.append_nil _).symm, nofun⟩
  | cons op ops ih =>
    obtain ⟨w, rfl⟩ := hops op List.mem_cons_self
    obtain ⟨s', evs, hrun, hreqs, hwhen, hlog, hevs⟩ :=
      ih (fun op hop => hops op (List.mem_cons_of_mem _ hop)) (rearm t w s)
    obtain ⟨q, hq⟩ := rearm_log t w s
    refine ⟨s', .rearm t q :: evs, hrun, hreqs, fun r hr => ?_, ?_, ?_⟩
    · rw [hwhen r hr]
      exact Function.update_of_ne hr _ _
    · rw [hlog, hq, List.append_assoc]
      rfl
    · rintro e (_ | ⟨_, he⟩)
      · exact ⟨_, rfl⟩
      · exact hevs e he

/-- A quiet callback returns, and all it did besides was to move its own deadline. -/
theorem runCb_quiet {env : TimeEnv} (hq : env.Quiet)
    (enq : TimeReq → TimeState → TimeRes TimeState) (t : TimeReq) (n : Cursor TimeReq)
    (s : TimeState) :
    ∃ again s' evs, runCb env enq t n s = .ok (again, s') ∧ s'.reqs = s.reqs ∧
      (∀ r, r ≠ t → s'.when r = s.when r) ∧ s'.log = s.log ++ evs ++ [.ret (s'.ret t again n)] ∧
      ∀ e ∈ evs, ∃ q, e = .rearm t q := by
  obtain ⟨s', evs, hrun, hreqs, hwhen, hlog, hevs⟩ :=
    runOps_quiet enq t (hq s.calls t) { s with calls := s.calls + 1 }
  refine ⟨(env.cb s.calls t).again, s'.emit (.ret (s'.ret t (env.cb s.calls t).again n)), evs, ?_,
    hreqs, hwhen, ?_, hevs⟩
  · simp only [runCb, hrun, bind, Except.bind]
  · rw [emit_log, hlog]
    rfl

/-! ### One request of the loop -/

/-- What firing the first request of the queue did. -/
theorem Fired.one {env : TimeEnv} {t : TimeReq} {rest : List TimeReq} {s s' : TimeState}
    {c : CbReturn} {evs : List TimeEvent} (hs : s.Queue) (hreqs : s.reqs = t :: rest)
    (hle : s.when t ≤ env.mftb s.ticks) (ht : c.t = t) (hkept : ∀ r, r ∈ s'.reqs ↔
      (c.again = true ∧ r = t) ∨ r ∈ rest)
    (hlog : s'.log = (fired env t rest s).log ++ evs ++ [.ret c])
    (hevs : ∀ e ∈ evs, ∃ q, e = .rearm t q) :
    ∃ evs', Fired s s' evs' ∧ deadlines evs' = [s.when t] := by
  have hd : deadlines evs = [] := by
    refine List.filterMap_eq_nil_iff.mpr fun e he => ?_
    obtain ⟨q, rfl⟩ := hevs e he
    rfl
  have hfire : ∀ t' w now, TimeEvent.fire t' w now ∉ evs := fun t' w now he => by
    obtain ⟨q, hq⟩ := hevs _ he
    cases hq
  have hret : ∀ c', TimeEvent.ret c' ∉ evs := fun c' he => by
    obtain ⟨q, hq⟩ := hevs _ he
    cases hq
  have hdl : deadlines ([.visit t (decide (t ∈ s.reqs)), .fire t (s.when t) (env.mftb s.ticks)] ++
      evs ++ [.ret c]) = [s.when t] := by
    rw [deadlines_append, deadlines_append, hd]
    rfl
  refine ⟨_, ⟨?_, ?_, ?_, ?_, ?_⟩, hdl⟩
  · rw [hlog]
    simp [fired, Prephv.visit]
  · intro t' w now hmem
    simp only [List.mem_append, List.mem_cons, List.not_mem_nil, or_false, reduceCtorEq,
      TimeEvent.fire.injEq, false_or, hfire] at hmem
    obtain ⟨-, rfl, rfl⟩ := hmem
    exact hle
  · rw [hdl]
    exact List.pairwise_singleton _ _
  · rw [hdl]
    rintro b hb w hw
    rw [List.mem_singleton.mp hw]
    exact hb t (by simp [hreqs])
  · intro r
    have hshot : OneShot r ([.visit t (decide (t ∈ s.reqs)),
        .fire t (s.when t) (env.mftb s.ticks)] ++ evs ++ [.ret c]) ↔
        c.again = false ∧ r = t := by
      simp only [OneShot, List.mem_append, List.mem_cons, List.not_mem_nil, or_false, reduceCtorEq,
        false_or, hret, TimeEvent.ret.injEq, exists_eq_left, ht]
      exact ⟨fun h => ⟨h.2, h.1.symm⟩, fun h => ⟨h.2.symm, h.1⟩⟩
    have hnot : r = t → r ∉ rest := fun e hr =>
      (List.nodup_cons.mp (hreqs ▸ hs.nodup)).1 (e ▸ hr)
    rw [hkept, hshot, hreqs, List.mem_cons]
    cases c.again
    · simp
      tauto
    · simp

/-- A quiet callback of the first request returns to a loop that resumes at the first request; with
its request queued again, if it is to be, at a later deadline, the queue is in order. -/
theorem runCb_first {env : TimeEnv} (hq : env.Quiet)
    (enq : TimeReq → TimeState → TimeRes TimeState) {t : TimeReq} {rest : List TimeReq}
    {s : TimeState} (hs : s.Queue) (hreqs : s.reqs = t :: rest)
    (hle : s.when t ≤ env.mftb s.ticks) :
    ∃ again s₁, runCb env enq t (first rest) (fired env t rest s) = .ok (again, s₁) ∧
      (s₁.ret t again (first rest)).Resumes ∧
      ((again = true → env.mftb s.ticks < s₁.when t) → ∀ s',
        s' = { s₁ with reqs := (s₁.ret t again (first rest)).queue } →
        s'.Queue ∧ (∀ r ∈ s'.reqs, s.when t ≤ s'.when r) ∧
          ∃ evs, Fired s s' evs ∧ deadlines evs = [s.when t]) := by
  obtain ⟨again, s₁, evs, hrun, hr₁, hw₁, hlog, hevs⟩ :=
    runCb_quiet hq enq t (first rest) (fired env t rest s)
  replace hr₁ : s₁.reqs = rest := hr₁
  have hsorted := hs.sorted
  have hnodup := hs.nodup
  rw [hreqs] at hsorted hnodup
  obtain ⟨hnot, hnodup'⟩ := List.nodup_cons.mp hnodup
  have hrest : ∀ r ∈ rest, s₁.when r = s.when r := fun r hr =>
    hw₁ r fun e => hnot (e ▸ hr)
  have hq₁ : s₁.Queue := by
    refine ⟨?_, by rw [hr₁]; exact hnodup'⟩
    rw [hr₁]
    exact hsorted.tail.congr fun r hr => congrArg BitVec.toNat (hrest r hr)
  refine ⟨again, s₁, hrun, ?_, ?_⟩
  · cases again with
    | false => exact congrArg first hr₁.symm
    | true =>
      show resumeAt t (first rest) s₁.when = first (enqueue s₁.key t s₁.reqs)
      rw [hr₁]
      cases rest with
      | nil => rfl
      | cons m l =>
        have hne : t ≠ m := fun e => hnot (by simp [e])
        exact (first_enqueue_cons s₁.key hne).symm
  · rintro hlater s' rfl
    have hmem : ∀ r, r ∈ (s₁.ret t again (first rest)).queue ↔
        (again = true ∧ r = t) ∨ r ∈ rest := by
      intro r
      cases again with
      | false =>
        show r ∈ s₁.reqs ↔ _
        simp [hr₁]
      | true =>
        show r ∈ enqueue s₁.key t s₁.reqs ↔ _
        rw [mem_enqueue, hr₁]
        simp
    refine ⟨?_, fun r hr => ?_, Fired.one hs hreqs hle rfl hmem hlog hevs⟩
    · cases again with
      | false => exact hq₁
      | true => exact hq₁.timeEnqueueInt t
    · show s.when t ≤ s₁.when r
      rcases (hmem r).mp hr with ⟨hagain, rfl⟩ | hr
      · exact BitVec.le_trans hle (BitVec.le_of_lt (hlater hagain))
      · rw [hrest r hr]
        exact hsorted.head_le (List.mem_cons_of_mem _ hr)

/-! ### The loop -/

/-- The loop that started in `s` ended at `t`, the first request left, which is not due at `now`. -/
structure LoopEnd (s : TimeState) (t : Cursor TimeReq) (now : U64) (s' : TimeState) : Prop where
  queue : s'.Queue
  cursor : t = first s'.reqs
  later : ∀ r ∈ s'.reqs, now < s'.when r
  fired : ∃ evs, Fired s s' evs

/-- The loop of `time_handle`, from the first request of a queue in order. -/
theorem handleLoop_quiet {env : TimeEnv} (hq : env.Quiet)
    (enq : TimeReq → TimeState → TimeRes TimeState) (fuel : Nat) (now : U64) {s : TimeState}
    (hs : s.Queue) :
    Ends (fun r => LoopEnd s r.1 r.2.1 r.2.2) (handleLoop env enq fuel (first s.reqs) now s) := by
  induction fuel generalizing now s with
  | zero => nofun
  | succ fuel ih =>
    cases hreqs : s.reqs with
    | nil =>
      have hnone : ∀ r ∈ s.reqs, now < s.when r := by rw [hreqs]; nofun
      exact ⟨hs, (congrArg first hreqs).symm, hnone, [], Fired.refl s⟩
    | cons t rest =>
      rw [first_cons]
      by_cases hle : s.when t ≤ env.mftb s.ticks
      · obtain ⟨again, s₁, hrun, hres, hpost⟩ := runCb_first hq enq hs hreqs hle
        rw [handleLoop_of_le hreqs hle, hrun, ok_bind]
        obtain hbug | ⟨s', hs', hlater, hgo⟩ := afterCb_cases (env.mftb s.ticks) hres
        · rw [hbug]
          nofun
        · obtain ⟨hq', hmid, evs, hf, hdl⟩ := hpost hlater s' hs'
          obtain hgo | ⟨hagain, hfirst, hgo⟩ := hgo
          · rw [hgo]
            refine (ih (env.mftb s.ticks) hq').imp ?_
            rintro r ⟨h₁, h₂, h₃, evs', hf'⟩
            refine ⟨h₁, h₂, h₃, evs ++ evs', hf.trans hf' ?_ ?_⟩
            · rw [hdl]
              rintro w hw q hmem
              rw [List.mem_singleton.mp hw]
              exact hmid q hmem
            · exact fun b hb q hmem => BitVec.le_trans (hb t (by simp [hreqs])) (hmid q hmem)
          · rw [hgo]
            refine ⟨hq', rfl, hq'.lt_of_first hfirst ?_, evs, hf⟩
            subst hs'
            exact hlater hagain
      · rw [handleLoop_of_lt hle]
        have hqv : (visit t s).Queue := hs.congr rfl fun _ _ => rfl
        have hfirst : first (visit t s).reqs = .entry t := by rw [visit_reqs, hreqs]; rfl
        exact ⟨hqv, hfirst.symm, hqv.lt_of_first hfirst (BitVec.not_le.mp hle), _,
          Fired.visit t s⟩

/-! ### `time_handle` -/

/-- A `time_handle` that started in `s` and returned in `s'`. -/
structure Handled (s s' : TimeState) : Prop where
  queue : s'.Queue
  fired : ∃ evs, Fired s s' evs
  later : ∀ r ∈ s'.reqs, s'.last < s'.when r
  dec_nil : s'.reqs = [] → s'.dec = decDisable
  dec_first : ∀ r ∈ s'.reqs, (∀ q ∈ s'.reqs, s'.when r ≤ s'.when q) →
    s'.dec.toNat = min ((s'.when r).toNat - s'.last.toNat) decDisable.toNat

/-- The decrementer's value is the lesser of the time to an earliest request and `DEC_DISABLE`. -/
theorem decValue_toNat {s : TimeState} (hs : s.Queue) {now : U64}
    (hlater : ∀ r ∈ s.reqs, now < s.when r) {r : TimeReq} (hr : r ∈ s.reqs)
    (hmin : ∀ q ∈ s.reqs, s.when r ≤ s.when q) :
    (decValue s now).toNat = min ((s.when r).toNat - now.toNat) decDisable.toNat := by
  have hsorted := hs.sorted
  cases hreqs : s.reqs with
  | nil => rw [hreqs] at hr; cases hr
  | cons t rest =>
    have ht : t ∈ s.reqs := by simp [hreqs]
    rw [hreqs] at hr hsorted
    have heq : (s.when t).toNat = (s.when r).toNat :=
      Nat.le_antisymm (hsorted.head_le hr) (hmin t ht)
    rw [decValue_cons hreqs (hlater t ht), heq]

theorem timeHandle_quiet {env : TimeEnv} (hq : env.Quiet) (fuel : Nat) {s : TimeState}
    (hs : s.Queue) : Ends (Handled s) (timeHandle env fuel s) := by
  cases fuel with
  | zero => nofun
  | succ fuel =>
    have hq₀ : { s with ticks := s.ticks + 1 }.Queue := hs.congr rfl fun _ _ => rfl
    have hloop := handleLoop_quiet hq (fun r s => timeHandle env fuel (timeEnqueueInt r s)) fuel
      (env.mftb s.ticks) hq₀
    rw [timeHandle_succ]
    cases hrun : handleLoop env (fun r s => timeHandle env fuel (timeEnqueueInt r s)) fuel
        (first s.reqs) (env.mftb s.ticks) { s with ticks := s.ticks + 1 } with
    | error e =>
      rw [hrun] at hloop
      exact hloop
    | ok r =>
      rw [hrun] at hloop
      obtain ⟨t, now, s'⟩ := r
      obtain ⟨hqs', hcur, hlater, evs, hf⟩ := hloop
      rw [ok_bind]
      dsimp only at hcur hqs' hlater hf ⊢
      rw [hcur, setDec_first]
      exact {
        queue := hqs'.congr rfl fun _ _ => rfl
        fired := ⟨evs, hf.log, hf.reading, hf.order, hf.bound, hf.kept⟩
        later := hlater
        dec_nil := fun h => decValue_nil h now
        dec_first := fun r hr hmin => decValue_toNat hqs' hlater hr hmin }

/-! ### Runs of calls -/

/-- The states a run of calls reaches from `time_init`.  A request's deadline is set while it is
not queued. -/
inductive TimeReachable (env : TimeEnv) : TimeState → Prop where
  | init (s : TimeState) : TimeReachable env (timeInit s)
  | prep {s : TimeState} (w : U64) (t : TimeReq) : TimeReachable env s → t ∉ s.reqs →
      TimeReachable env (timePrep w t s)
  | enqueue {s s' : TimeState} (fuel : Nat) (t : TimeReq) : TimeReachable env s →
      timeEnqueue env fuel t s = .ok s' → TimeReachable env s'
  | dequeue {s : TimeState} (t : TimeReq) : TimeReachable env s →
      TimeReachable env (timeDequeue t s)
  | handle {s s' : TimeState} (fuel : Nat) : TimeReachable env s →
      timeHandle env fuel s = .ok s' → TimeReachable env s'

theorem TimeReachable.queue_inv {env : TimeEnv} (hq : env.Quiet) {s : TimeState}
    (h : TimeReachable env s) : s.Queue := by
  have hhandle : ∀ {s s' : TimeState} {fuel : Nat}, s.Queue → timeHandle env fuel s = .ok s' →
      s'.Queue := fun {s s' fuel} hs hrun => by
    have hends := timeHandle_quiet hq fuel hs
    rw [hrun] at hends
    exact hends.queue
  induction h with
  | init s => exact ⟨List.Pairwise.nil, List.nodup_nil⟩
  | prep w t _ ht ih =>
    exact ih.congr rfl fun r hr => Function.update_of_ne (fun e : r = t => ht (e ▸ hr)) _ _
  | enqueue fuel t _ hrun ih => exact hhandle (ih.timeEnqueueInt t) hrun
  | dequeue t _ ih => exact ih.timeDequeue t
  | handle fuel _ hrun ih => exact hhandle ih hrun

/-- **The timer queue.**  Where callbacks only move their own deadline, the queue of a state that a
run of calls reaches is in order with no request twice, and queuing what is queued changes nothing;
and a `time_handle` there, or the one of a `time_enqueue`, does not fault, and has done its work
when it returns. -/
theorem TimeReachable.handled {env : TimeEnv} (hq : env.Quiet) {s : TimeState}
    (h : TimeReachable env s) :
    s.Queue ∧ (∀ t ∈ s.reqs, timeEnqueueInt t s = s) ∧
      (∀ fuel, Ends (Handled s) (timeHandle env fuel s)) ∧
      ∀ t fuel, Ends (Handled (timeEnqueueInt t s)) (timeEnqueue env fuel t s) :=
  have hs := h.queue_inv hq
  ⟨hs, fun _ ht => hs.timeEnqueueInt_of_mem ht, fun fuel => timeHandle_quiet hq fuel hs,
    fun t fuel => timeHandle_quiet hq fuel (hs.timeEnqueueInt t)⟩

/-- A time base that counts tens, and callbacks of which those of `0x200` ask to be called again in
a thousand. -/
def sampleTimeEnv : TimeEnv where
  mftb k := BitVec.ofNat 64 (10 * k)
  cb k t := if t = 0x200 then ⟨[.rearm (BitVec.ofNat 64 (1000 * (k + 1)))], true⟩ else ⟨[], false⟩

/-- The state before `time_init`. -/
def blankTime : TimeState := ⟨[], fun _ => 0, 0, 0, 0, 0, []⟩

theorem sampleTimeEnv_quiet : sampleTimeEnv.Quiet := by
  intro k t op hop
  unfold sampleTimeEnv at hop
  dsimp only at hop
  split at hop
  · exact ⟨_, List.mem_singleton.mp hop⟩
  · cases hop

/-- Two requests armed in turn: the handlers of the states on the way do their work. -/
theorem TimeReachable.handled_sample : ∃ s : TimeState, s.reqs = [0x200, 0x100] ∧
    (s.Queue ∧ (∀ t ∈ s.reqs, timeEnqueueInt t s = s) ∧
      (∀ fuel, Ends (Handled s) (timeHandle sampleTimeEnv fuel s)) ∧
      ∀ t fuel, Ends (Handled (timeEnqueueInt t s)) (timeEnqueue sampleTimeEnv fuel t s)) := by
  have h₀ : TimeReachable sampleTimeEnv _ := TimeReachable.prep 300 0x100 (.init blankTime) (by decide)
  have h₁ := TimeReachable.enqueue 8 0x100 h₀ rfl
  have h₂ := TimeReachable.prep 200 0x200 h₁ (by decide)
  have h₃ := TimeReachable.enqueue 8 0x200 h₂ rfl
  exact ⟨_, rfl, TimeReachable.handled sampleTimeEnv_quiet h₃⟩

end Prephv
